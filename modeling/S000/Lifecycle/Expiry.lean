import S000.Lifecycle.Worker

/-!
# Lifecycle/Expiry — what a run of the worker does to the stores

Of the stores the worker can change only the rows of keys and the object files, and of what goes wrong
the deletions of files that fail are what matters later: that is the `View` of a run.  The deletion of
a candidate has an `Outcome`: nothing, or the rows are gone and so are the files of the versions up to
the one where a deletion failed.  A retry finds no rows and does nothing.  `Expiry` is the outcomes of
all candidates in a row, and `runOnce_expiry` says that this is all a run does.

What may happen in a run is a condition `C` on its events; `Allows` says what it implies: whether a
call of the metadata store may fail (`N`), a deletion of a file (`D`), whether the run may be cancelled
(`X`), and whether the clock stands still (`T`).
-/

namespace S000.Lifecycle

open List Machine
open Metadata (Bucket ObjectVersion MemoryState)

/-! ## Views -/

abbrev WorkerRun := Run workerCalls Moment WorkerWorld

def failedPath : Event workerCalls Moment → Option Bytes
  | ⟨.store (.remove path), _, (removed : Bool)⟩ => if removed then none else some path
  | _ => none

/-- What the worker changes, and the deletions of files that failed. -/
@[ext] structure View where
  rows : Bytes → Bytes → List ObjectVersion
  files : Bytes → Option Bytes
  failures : List Bytes

def view (x : WorkerRun) : View where
  rows := x.world.metadata.versions
  files := x.world.disk.files
  failures := x.events.filterMap failedPath

/-- All rows of a key are dropped, some files deleted, and some deletions fail. -/
def View.drop (v : View) (b k : Bytes) (deleted failed : List Bytes) : View where
  rows b' k' := if b' = b ∧ k' = k then [] else v.rows b' k'
  files p := if p ∈ deleted then none else v.files p
  failures := v.failures ++ failed

variable {b k : Bytes}

theorem View.rows_drop_self {v : View} {deleted failed : List Bytes} :
    (v.drop b k deleted failed).rows b k = [] := if_pos ⟨rfl, rfl⟩

/-- What becomes of the versions of a key. -/
inductive Outcome (w : Worker) (N D : Prop) (b k : Bytes) (v : View) : View → Prop
  | kept (h : v.rows b k = [] ∨ N) : Outcome w N D b k v v
  /-- The rows were deleted, and the deletion could not be saved. -/
  | unsaved (hN : N) (hrows : v.rows b k ≠ []) : Outcome w N D b k v (v.drop b k [] [])
  | dropped {gone rest : List ObjectVersion} (hsplit : v.rows b k = gone ++ rest)
      (hrows : v.rows b k ≠ []) (hrest : rest = [] ∨ D) :
      Outcome w N D b k v (v.drop b k (gone.map w.path) ((rest.head?.map w.path).toList))

/-- **A second attempt adds nothing**: the rows are gone, or nothing has happened. -/
theorem Outcome.trans {w : Worker} {N D : Prop} {v v' v'' : View}
    (h : Outcome w N D b k v v') (h' : Outcome w N D b k v' v'') : Outcome w N D b k v v'' := by
  have hcleared {deleted failed : List Bytes}
      (h' : Outcome w N D b k (v.drop b k deleted failed) v'') : v'' = v.drop b k deleted failed := by
    cases h' with
    | kept => rfl
    | unsaved hN hrows => exact absurd View.rows_drop_self hrows
    | dropped hsplit hrows => exact absurd View.rows_drop_self hrows
  cases h with
  | kept => exact h'
  | unsaved hN hrows =>
    rw [hcleared h']
    exact .unsaved hN hrows
  | dropped hsplit hrows hrest =>
    rw [hcleared h']
    exact .dropped hsplit hrows hrest

/-- The outcomes of some candidates, one after the other, as far as the run gets. -/
inductive Expiry (w : Worker) (N D X : Prop) : List ObjectVersion → View → View → Prop
  | done {v : View} : Expiry w N D X [] v v
  | stop (hX : X) {candidates : List ObjectVersion} {v : View} : Expiry w N D X candidates v v
  | next {candidate : ObjectVersion} {candidates : List ObjectVersion} {v v' v'' : View}
      (first : Outcome w N D candidate.bucket candidate.key v v')
      (rest : Expiry w N D X candidates v' v'') : Expiry w N D X (candidate :: candidates) v v''

section Expiry

variable {w : Worker} {N D X X' : Prop} {cs cs' : List ObjectVersion} {v v' v'' : View}

theorem Expiry.mono (h : Expiry w N D X cs v v') (hX : X → X') : Expiry w N D X' cs v v' := by
  induction h with
  | done => exact .done
  | stop h => exact .stop (hX h)
  | next first _ ih => exact .next first ih

theorem Expiry.append (h : Expiry w N D False cs v v') (h' : Expiry w N D X cs' v' v'') :
    Expiry w N D X (cs ++ cs') v v'' := by
  induction h with
  | done => exact h'
  | stop h => exact h.elim
  | next first _ ih => exact .next first (ih h')

theorem Expiry.extend (h : Expiry w N D X cs v v') (hX : X) : Expiry w N D X (cs ++ cs') v v' := by
  induction h with
  | done => exact .stop hX
  | stop h => exact .stop h
  | next first _ ih => exact .next first ih

end Expiry

/-! ## What may happen in a run -/

def WorkerCall.IsRemove : WorkerCall → Prop
  | .store (.remove _) => True
  | _ => False

/-- **What the condition on the events implies.** -/
structure Allows (C : Event workerCalls Moment → Prop) (N D X T : Prop) : Prop where
  fault : ∀ e, C e → ¬ e.op.IsRemove → e.fault.fault = .ok ∨ N
  file : ∀ e, C e → e.op.IsRemove → e.fault.fault = .ok ∨ D
  cancelled : ∀ e, C e → e.fault.cancelled = true → X
  still : T → ∀ e, C e → e.fault.elapsed = 0

/-- The run has gone on, without a change. -/
structure Rested (T : Prop) (x x' : WorkerRun) : Prop where
  stores : x'.world.toWorld = x.world.toWorld
  lifecycles : x'.world.lifecycles = x.world.lifecycles
  clock : T → x'.world.clock = x.world.clock
  failures : (view x').failures = (view x).failures

section Runs

variable {C : Event workerCalls Moment → Prop} {N D X T : Prop} {w : Worker} {x x' x'' : WorkerRun}

theorem Rested.refl (T : Prop) (x : WorkerRun) : Rested T x x := ⟨rfl, rfl, fun _ => rfl, rfl⟩

theorem Rested.trans (h : Rested T x x') (h' : Rested T x' x'') : Rested T x x'' :=
  ⟨h'.stores.trans h.stores, h'.lifecycles.trans h.lifecycles,
    fun hT => (h'.clock hT).trans (h.clock hT), h'.failures.trans h.failures⟩

theorem Rested.view_eq (h : Rested T x x') : view x' = view x := by
  refine View.ext ?_ ?_ h.failures
  · unfold view
    rw [h.stores]
  · unfold view
    rw [h.stores]

def WorkerCall.Resting : WorkerCall → Prop
  | .listBuckets | .getBucketLifecycle _ | .now | .ctxErr | .sleep _ | .store (.listObjects _) => True
  | .store _ => False

variable {o : WorkerCall}

theorem world_of_resting (W : WorkerWorld) (m : Moment) (ho : o.Resting) :
    (surroundings.step W m o).2 = { W with clock := W.clock + m.elapsed } := by
  cases o with
  | store o => cases o <;> first | exact ho.elim | rfl
  | _ => rfl

variable {m : Moment}

theorem failures_advance (ho : ¬ o.IsRemove) :
    (view (surroundings.advance x m o)).failures = (view x).failures := by
  have hnone : failedPath ⟨o, m, (surroundings.step x.world m o).1⟩ = none := by
    unfold failedPath
    split
    next heq =>
      obtain rfl := (Event.mk.inj heq).1
      exact absurd trivial ho
    next => rfl
  unfold view advance
  rw [filterMap_append, filterMap_cons_none hnone, filterMap_nil, append_nil]

theorem rested_advance (hC : Allows C N D X T) (ho : o.Resting)
    (he : C ⟨o, m, (surroundings.step x.world m o).1⟩) :
    Rested T x (surroundings.advance x m o) := by
  have hworld := world_of_resting x.world m ho
  have hkind : ¬ o.IsRemove := by
    cases o with
    | store o => cases o <;> first | exact ho.elim | exact id
    | _ => exact id
  refine ⟨?_, ?_, fun hT => ?_, failures_advance hkind⟩
  · exact (congrArg WorkerWorld.toWorld hworld).trans rfl
  · exact (congrArg WorkerWorld.lifecycles hworld).trans rfl
  have helapsed : m.elapsed = 0 := hC.still hT _ he
  refine (congrArg WorkerWorld.clock hworld).trans ?_
  rw [helapsed, Int.natCast_zero, add_zero]

/-- Every run of the program from `x` whose events `C` allows ends with a result and a run that satisfy
`Q`. -/
abbrev Records {α : Type} (C : Event workerCalls Moment → Prop) (Q : α → WorkerRun → Prop)
    (p : WorkerAct α) (x : WorkerRun) : Prop :=
  surroundings.recording.EnsuresWhen (fun _ e => C e) Q p x

theorem records_bind {α β : Type} {p : WorkerAct α} {g : α → WorkerAct β} {R : β → WorkerRun → Prop} :
    Records C R (p >>= g) x ↔ Records C (fun a x' => Records C R (g a) x') p x :=
  ensuresWhen_bind _

theorem records_resting (hC : Allows C N D X T) (ho : o.Resting) {Q : o.Val → WorkerRun → Prop}
    (h : ∀ m, C ⟨o, m, (surroundings.step x.world m o).1⟩ → Rested T x (surroundings.advance x m o) →
      Q (surroundings.step x.world m o).1 (surroundings.advance x m o)) : Records C Q (call o) x :=
  fun m he => h m he (rested_advance hC ho he)

/-! ## The scan -/

/-- An object of the bucket that the rules for the bucket expire. -/
def Found (w : Worker) (W : WorkerWorld) (now : Time) (bucket : Bucket) (c : ObjectVersion) : Prop :=
  ∃ rules, w.rulesFor (W.lifecycles.lookup bucket.name) = some rules ∧
    c ∈ W.metadata.listObjects bucket.name ∧ Worker.expires rules now c = true

theorem Found.of_rested {bucket : Bucket} {now : Time} {c : ObjectVersion} (h : Rested T x x') :
    Found w x'.world now bucket c ↔ Found w x.world now bucket c := by
  unfold Found
  rw [h.stores, h.lifecycles]

/-- What was found is what is there, unless a call failed. -/
structure Finds (w : Worker) (W : WorkerWorld) (now : Time) (N : Prop) (buckets : List Bucket)
    (found : List ObjectVersion) : Prop where
  sound : ∀ c ∈ found, ∃ bucket ∈ buckets, Found w W now bucket c
  complete : ¬ N → ∀ bucket ∈ buckets, ∀ c, Found w W now bucket c → c ∈ found

theorem reading_of_ne {α : Type} {f : Fault} {r : Except Metadata.Error α} (h : f ≠ .ok) :
    reading f r = .error .failed := by
  cases f with
  | ok => exact absurd rfl h
  | _ => rfl

theorem bucketRules_records (hC : Allows C N D X T) (bucket : Bytes) :
    Records C (fun rules x' => Rested T x x' ∧
      (rules = w.rulesFor (x.world.lifecycles.lookup bucket) ∨ rules = none ∧ N))
      (w.bucketRules bucket) x := by
  refine records_bind.2 (records_resting (o := .getBucketLifecycle bucket) hC trivial
    fun m he hrest => ?_)
  have hval : (surroundings.step x.world m (.getBucketLifecycle bucket)).1 =
      reading m.fault (x.world.getBucketLifecycle bucket) := rfl
  rw [hval]
  by_cases hok : m.fault = .ok
  · rw [hok]
    unfold WorkerWorld.getBucketLifecycle
    cases x.world.lifecycles.lookup bucket with
    | none => exact ⟨hrest, .inl rfl⟩
    | some cfg => exact ⟨hrest, .inl rfl⟩
  · rw [reading_of_ne hok]
    exact ⟨hrest, .inr ⟨rfl, (hC.fault _ he id).resolve_left hok⟩⟩

/-- **The scan of a bucket.** -/
theorem scanBucket_records (hC : Allows C N D X T) (now : Time) (bucket : Bucket) (report : Report) :
    Records C (fun r x' => Rested T x x' ∧ Finds w x.world now N [bucket] r.2)
      (w.scanBucket now bucket report) x := by
  refine records_bind.2 ((bucketRules_records hC bucket.name).mono fun rules x₁ h₁ => ?_)
  obtain ⟨hrest, hrules⟩ := h₁
  have hnone (hno : ¬ N → ∀ c, ¬ Found w x.world now bucket c) : Finds w x.world now N [bucket] [] := by
    refine ⟨nofun, fun hN b hb c hc => ?_⟩
    rw [mem_singleton.1 hb] at hc
    exact absurd hc (hno hN c)
  cases rules with
  | none =>
    refine ⟨hrest, hnone fun hN c hc => ?_⟩
    obtain ⟨rules, hfor, -⟩ := hc
    rcases hrules with h | ⟨-, h⟩
    · rw [← h] at hfor
      cases hfor
    · exact hN h
  | some rules =>
    have hfor : w.rulesFor (x.world.lifecycles.lookup bucket.name) = some rules := by
      rcases hrules with h | ⟨h, -⟩
      · exact h.symm
      · cases h
    dsimp only
    by_cases hempty : rules = []
    · rw [if_pos hempty]
      refine ⟨hrest, hnone fun _ c hc => ?_⟩
      obtain ⟨rules', hfor', -, hexpires⟩ := hc
      rw [hfor, Option.some.injEq] at hfor'
      rw [← hfor', hempty] at hexpires
      simp [Worker.expires, matchesAnyRule] at hexpires
    · rw [if_neg hempty]
      refine records_bind.2 (records_resting (o := .store (.listObjects bucket.name)) hC trivial
        fun m he hrest' => ?_)
      have hval : (surroundings.step x₁.world m (.store (.listObjects bucket.name))).1 =
          reading m.fault (.ok (x.world.metadata.listObjects bucket.name)) := by
        rw [← hrest.stores]
        rfl
      rw [hval]
      by_cases hok : m.fault = .ok
      · rw [hok]
        refine ⟨hrest.trans hrest', fun c hc => ?_, fun _ b hb c hc => ?_⟩
        · obtain ⟨hmem, hexpires⟩ := mem_filter.1 hc
          exact ⟨bucket, mem_singleton_self bucket, rules, hfor, hmem, hexpires⟩
        obtain ⟨rules', hfor', hmem, hexpires⟩ := hc
        rw [mem_singleton.1 hb] at hfor' hmem
        rw [hfor, Option.some.injEq] at hfor'
        exact mem_filter.2 ⟨hmem, hfor' ▸ hexpires⟩
      · rw [reading_of_ne hok]
        exact ⟨hrest.trans hrest', hnone fun hN => absurd ((hC.fault _ he id).resolve_left hok) hN⟩

/-- **The scan.** -/
theorem scan_records (hC : Allows C N D X T) (now : Time) : ∀ (buckets : List Bucket)
    (report : Report) (x : WorkerRun),
    Records C (fun r x' => Rested T x x' ∧ Finds w x.world now N buckets r.2)
      (w.scan now buckets report) x
  | [], report, x => ⟨.refl T x, nofun, nofun⟩
  | bucket :: buckets, report, x => by
    refine records_bind.2 ((scanBucket_records hC now bucket report).mono fun r x₁ h₁ => ?_)
    obtain ⟨hrest₁, hfinds₁⟩ := h₁
    refine records_bind.2 ((scan_records hC now buckets r.1 x₁).mono fun r' x₂ h₂ => ?_)
    obtain ⟨hrest₂, hfinds₂⟩ := h₂
    refine ⟨hrest₁.trans hrest₂, fun c hc => ?_, fun hN b hb c hc => ?_⟩
    · rcases mem_append.1 hc with hc | hc
      · obtain ⟨b, hb, hfound⟩ := hfinds₁.sound c hc
        exact ⟨b, mem_cons.2 (.inl (mem_singleton.1 hb)), hfound⟩
      · obtain ⟨b, hb, hfound⟩ := hfinds₂.sound c hc
        exact ⟨b, mem_cons_of_mem bucket hb, (Found.of_rested hrest₁).1 hfound⟩
    · rcases mem_cons.1 hb with rfl | hb
      · exact mem_append_left _ (hfinds₁.complete hN b (mem_singleton_self b) c hc)
      · exact mem_append_right _ (hfinds₂.complete hN b hb c ((Found.of_rested hrest₁).2 hc))

/-! ## The deletions -/

theorem step_store (W : WorkerWorld) (m : Moment) (o : Call) :
    surroundings.step W m (.store o) = ((step W.toWorld m.fault o).1,
      { W with toWorld := (step W.toWorld m.fault o).2, clock := W.clock + m.elapsed }) := rfl

theorem view_remove {path : Bytes} (hok : m.fault = .ok) :
    (surroundings.step x.world m (.store (.remove path))).1 = true ∧
      view (surroundings.advance x m (.store (.remove path))) =
        { view x with files := fun p => if p ∈ [path] then none else (view x).files p } := by
  have hstep : step x.world.toWorld m.fault (.remove path) =
      (true, { x.world.toWorld with disk := x.world.disk.setFile path none }) :=
    if_pos ⟨hok, rfl⟩
  refine ⟨by rw [step_store, hstep], View.ext ?_ ?_ ?_⟩
  · simp only [view, advance, step_store, hstep]
  · funext p
    simp only [view, advance, step_store, hstep, Disk.files_setFile, mem_singleton]
  · simp only [view, advance, step_store, hstep, filterMap_append]
    exact append_nil _

theorem view_remove_failed {path : Bytes} (hok : m.fault ≠ .ok) :
    (surroundings.step x.world m (.store (.remove path))).1 = false ∧
      view (surroundings.advance x m (.store (.remove path))) =
        { view x with failures := (view x).failures ++ [path] } := by
  have hstep : step x.world.toWorld m.fault (.remove path) = (false, x.world.toWorld) :=
    if_neg fun h => hok h.1
  refine ⟨by rw [step_store, hstep], View.ext ?_ ?_ ?_⟩
  · simp only [view, advance, step_store, hstep]
  · simp only [view, advance, step_store, hstep]
  · simp only [view, advance, step_store, hstep, filterMap_append]
    rfl

theorem deleteObject_records (hC : Allows C N D X T) {v : ObjectVersion} {Q : Bool → WorkerRun → Prop}
    (hdone : ∀ x', view x' = { view x with
      files := fun p => if p ∈ [w.path v] then none else (view x).files p } → Q true x')
    (hfailed : D → ∀ x', view x' = { view x with
      failures := (view x).failures ++ [w.path v] } → Q false x') :
    Records C Q (onStores (Blob.deleteObject w.platform w.blob ⟨v.bucket, v.key, v.versionID⟩)) x := by
  have hcall (m : Moment) (he : C ⟨.store (.remove (w.path v)), m,
      (surroundings.step x.world m (.store (.remove (w.path v)))).1⟩) :
      Q (surroundings.step x.world m (.store (.remove (w.path v)))).1
        (surroundings.advance x m (.store (.remove (w.path v)))) := by
    by_cases hok : m.fault = .ok
    · obtain ⟨hval, hview⟩ := view_remove hok
      rw [hval]
      exact hdone _ hview
    · obtain ⟨hval, hview⟩ := view_remove_failed hok
      rw [hval]
      exact hfailed ((hC.file _ he trivial).resolve_left hok) _ hview
  exact hcall

/-- The files of the versions are deleted up to the one where that fails. -/
theorem deleteFiles_records (hC : Allows C N D X T) : ∀ (vs : List ObjectVersion) (x : WorkerRun),
    Records C (fun ok x' => ∃ gone rest, vs = gone ++ rest ∧ (rest = [] ∨ D) ∧ (ok = true ↔ rest = []) ∧
      view x' = ⟨(view x).rows, fun p => if p ∈ gone.map w.path then none else (view x).files p,
        (view x).failures ++ (rest.head?.map w.path).toList⟩) (w.deleteFiles vs) x
  | [], x => by refine ⟨[], [], rfl, .inl rfl, by simp, View.ext rfl rfl (append_nil _).symm⟩
  | v :: vs, x => by
    refine records_bind.2 (deleteObject_records hC (fun x₁ h₁ => ?_) fun hD x₁ h₁ => ?_)
    · refine (deleteFiles_records hC vs x₁).mono fun ok x' h' => ?_
      obtain ⟨gone, rest, rfl, hrest, hok, hview⟩ := h'
      refine ⟨v :: gone, rest, rfl, hrest, hok, ?_⟩
      rw [hview, h₁]
      refine View.ext rfl (funext fun p => ?_) rfl
      by_cases hp : p = w.path v
      · simp [hp]
      · simp [hp]
    · exact ⟨[], v :: vs, rfl, .inr hD, by simp, h₁⟩

/-- What becomes of the deletion of all rows of a key. -/
inductive Cleared (N : Prop) (b k : Bytes) (v : View) :
    List ObjectVersion × Option Metadata.Error → View → Prop
  | done (hrows : v.rows b k ≠ []) : Cleared N b k v (v.rows b k, none) (v.drop b k [] [])
  | notFound (hrows : v.rows b k = []) : Cleared N b k v ([], some .notFound) v
  | failed {vs : List ObjectVersion} (hN : N) : Cleared N b k v (vs, some .failed) v
  | unsaved (hN : N) (hrows : v.rows b k ≠ []) :
      Cleared N b k v ([], some .failed) (v.drop b k [] [])

theorem view_store {o : Call} {val : o.Val} {W : World} (ho : ¬ WorkerCall.IsRemove (.store o))
    (hstep : step x.world.toWorld m.fault o = (val, W)) :
    (surroundings.step x.world m (.store o)).1 = val ∧
      view (surroundings.advance x m (.store o)) =
        ⟨W.metadata.versions, W.disk.files, (view x).failures⟩ := by
  refine ⟨by rw [step_store, hstep], View.ext ?_ ?_ (failures_advance ho)⟩
  · simp only [view, advance, step_store, hstep]
  · simp only [view, advance, step_store, hstep]

section Allowed

variable (hC : Allows C N D X T)
include hC

theorem view_deleteAll
    (he : C ⟨.store (.deleteAllObjectVersions b k), m,
      (surroundings.step x.world m (.store (.deleteAllObjectVersions b k))).1⟩) :
    Cleared N b k (view x) (surroundings.step x.world m (.store (.deleteAllObjectVersions b k))).1
      (view (surroundings.advance x m (.store (.deleteAllObjectVersions b k)))) := by
  have hN (hok : m.fault ≠ .ok) : N := (hC.fault _ he id).resolve_left hok
  -- by whether there are rows, and by the fault
  suffices h : ∃ val W, step x.world.toWorld m.fault (.deleteAllObjectVersions b k) = (val, W) ∧
      Cleared N b k (view x) val ⟨W.metadata.versions, W.disk.files, (view x).failures⟩ by
    obtain ⟨val, W, hstep, hcleared⟩ := h
    obtain ⟨hval, hview⟩ := view_store id hstep
    rwa [hval, hview]
  change ∃ val W, deletingAll x.world.toWorld b k m.fault = (val, W) ∧ _
  unfold deletingAll
  have hdrop : ⟨(x.world.metadata.eraseVersions b k).versions, x.world.disk.files,
      (view x).failures⟩ = (view x).drop b k [] [] := by
    refine View.ext ?_ ?_ (append_nil _).symm
    · funext b' k'
      exact MemoryState.versions_eraseVersions
    · funext p
      rfl
  by_cases hrows : x.world.metadata.versions b k = []
  · have hdelete : x.world.metadata.deleteAllObjectVersions b k =
        (.error .notFound, x.world.metadata) := if_pos hrows
    rw [hdelete]
    cases hf : m.fault with
    | ok => exact ⟨_, _, rfl, .notFound hrows⟩
    | _ => exact ⟨_, _, rfl, .failed (hN (by rw [hf]; exact nofun))⟩
  · have hdelete : x.world.metadata.deleteAllObjectVersions b k =
        (.ok (x.world.metadata.versions b k), x.world.metadata.eraseVersions b k) := if_neg hrows
    rw [hdelete]
    cases hf : m.fault with
    | ok =>
      refine ⟨_, _, rfl, ?_⟩
      rw [hdrop]
      exact .done hrows
    | unsaved =>
      refine ⟨_, _, rfl, ?_⟩
      rw [hdrop]
      exact .unsaved (hN (by rw [hf]; exact nofun)) hrows
    | _ => exact ⟨_, _, rfl, .failed (hN (by rw [hf]; exact nofun))⟩

theorem deleteAll_records {Q : List ObjectVersion × Option Metadata.Error → WorkerRun → Prop}
    (h : ∀ val x', Cleared N b k (view x) val (view x') → Q val x') :
    Records C Q (call (.store (.deleteAllObjectVersions b k))) x :=
  fun _ he => h _ _ (view_deleteAll hC he)

/-- **`deleteOne`.** -/
theorem deleteOne_records (candidate : ObjectVersion) (x : WorkerRun) :
    Records C (fun _ x' => Outcome w N D candidate.bucket candidate.key (view x) (view x'))
      (w.deleteOne candidate) x := by
  refine records_bind.2 (deleteAll_records hC fun val x₁ h₁ => ?_)
  generalize hv : view x₁ = v₁ at h₁
  cases h₁ with
  | done hrows =>
    refine records_bind.2 ((deleteFiles_records hC _ x₁).mono fun ok x' h' => ?_)
    obtain ⟨gone, rest, hsplit, hrest, -, hview⟩ := h'
    have hdropped : view x' = (view x).drop candidate.bucket candidate.key (gone.map w.path)
        ((rest.head?.map w.path).toList) := by
      rw [hview, hv]
      refine View.ext rfl (funext fun p => ?_) ?_
      · simp [View.drop]
      · simp [View.drop]
    have houtcome : Outcome w N D candidate.bucket candidate.key (view x) (view x') :=
      hdropped ▸ .dropped hsplit hrows hrest
    cases ok with
    | true => exact houtcome
    | false => exact houtcome
  | notFound hrows =>
    change Outcome w N D candidate.bucket candidate.key (view x) (view x₁)
    rw [hv]
    exact .kept (.inl hrows)
  | failed hN =>
    change Outcome w N D candidate.bucket candidate.key (view x) (view x₁)
    rw [hv]
    exact .kept (.inr hN)
  | unsaved hN hrows =>
    change Outcome w N D candidate.bucket candidate.key (view x) (view x₁)
    rw [hv]
    exact .unsaved hN hrows

/-- **All attempts together** have the outcome of one. -/
theorem attempt_records (candidate : ObjectVersion) :
    ∀ (left : ℕ) (lastErr : Option WorkerError) (x : WorkerRun),
      Records C (fun _ x' => Outcome w N D candidate.bucket candidate.key (view x) (view x'))
        (w.attempt candidate left lastErr) x
  | 0, lastErr, x => by
    refine records_bind.2 ((deleteOne_records hC candidate x).mono fun res x₁ h₁ => ?_)
    cases res <;> exact h₁
  | left + 1, lastErr, x => by
    refine records_bind.2 ((deleteOne_records hC candidate x).mono fun res x₁ h₁ => ?_)
    cases res with
    | ok deleted => exact h₁
    | error e =>
      have hagain (x₂ : WorkerRun) (hview : view x₂ = view x₁) :
          Records C (fun _ x' => Outcome w N D candidate.bucket candidate.key (view x) (view x'))
            (w.attempt candidate left (some e)) x₂ :=
        (attempt_records candidate left (some e) x₂).mono fun _ x' h' => h₁.trans (hview ▸ h')
      refine ensuresWhen_ite _ (fun _ => hagain x₁ rfl) fun _ => ?_
      refine records_bind.2 (records_resting (o := .sleep _) hC trivial fun m _ hrest => ?_)
      generalize ((surroundings.step x₁.world m (.sleep _)).1) = slept
      cases slept with
      | true => exact hagain _ hrest.view_eq
      | false =>
        change Outcome w N D candidate.bucket candidate.key (view x) (view _)
        rw [hrest.view_eq]
        exact h₁

/-- **A batch**, all of it unless the run was cancelled. -/
theorem expireBatch_records (hdry : w.dryRun = false) :
    ∀ (candidates : List ObjectVersion) (report : Report) (x : WorkerRun),
      Records C (fun r x' => (r.2 = true → X) ∧ Expiry w N D (r.2 = true) candidates (view x) (view x'))
        (w.expireBatch candidates report) x
  | [], _, x => ⟨nofun, .done⟩
  | candidate :: candidates, report, x => by
    refine records_bind.2 (records_resting (o := .ctxErr) hC trivial fun m he hrest => ?_)
    have hval : (surroundings.step x.world m .ctxErr).1 = m.cancelled := rfl
    rw [hval]
    cases hcancelled : m.cancelled with
    | true =>
      refine ⟨fun _ => hC.cancelled _ he hcancelled, ?_⟩
      rw [hrest.view_eq]
      exact .stop rfl
    | false =>
      rw [hdry]
      refine records_bind.2 ((attempt_records hC candidate _ none _).mono fun res x₁ h₁ => ?_)
      rw [hrest.view_eq] at h₁
      have hgo (report : Report) : Records C
          (fun r x' => (r.2 = true → X) ∧
            Expiry w N D (r.2 = true) (candidate :: candidates) (view x) (view x'))
          (w.expireBatch candidates report) x₁ :=
        (expireBatch_records hdry candidates report x₁).mono fun _ x' h' => ⟨h'.1, .next h₁ h'.2⟩
      cases res with
      | error e => exact hgo _
      | ok deleted => cases deleted <;> exact hgo _

/-- **All batches.** -/
theorem expireBatches_records (hdry : w.dryRun = false) :
    ∀ (batches : List (List ObjectVersion)) (report : Report) (x : WorkerRun),
      Records C (fun r x' => (r.2 = true → X) ∧
        Expiry w N D (r.2 = true) batches.flatten (view x) (view x')) (w.expireBatches batches report) x
  | [], _, x => ⟨nofun, .done⟩
  | batch :: batches, report, x => by
    refine records_bind.2 ((expireBatch_records hC hdry batch report x).mono fun r x₁ h₁ => ?_)
    obtain ⟨report₁, stopped⟩ := r
    obtain ⟨hX, hfirst⟩ := h₁
    cases stopped with
    | true => exact ⟨hX, hfirst.extend rfl⟩
    | false =>
      refine (expireBatches_records hdry batches report₁ x₁).mono fun r' x' h' => ⟨h'.1, ?_⟩
      exact (hfirst.mono Bool.false_ne_true).append h'.2

theorem dryRun_records (hdry : w.dryRun = true) :
    ∀ (candidates : List ObjectVersion) (report : Report) (x : WorkerRun),
      Records C (fun _ x' => view x' = view x) (w.expireBatch candidates report) x
  | [], _, x => rfl
  | candidate :: candidates, report, x => by
    refine records_bind.2 (records_resting (o := .ctxErr) hC trivial fun m he hrest => ?_)
    generalize ((surroundings.step x.world m .ctxErr).1) = stopped
    cases stopped with
    | true => exact hrest.view_eq
    | false =>
      rw [if_pos hdry]
      exact (dryRun_records hdry candidates report _).mono fun _ x' h' => h'.trans hrest.view_eq

theorem dryRun_batches_records (hdry : w.dryRun = true) :
    ∀ (batches : List (List ObjectVersion)) (report : Report) (x : WorkerRun),
      Records C (fun _ x' => view x' = view x) (w.expireBatches batches report) x
  | [], _, x => rfl
  | batch :: batches, report, x => by
    refine records_bind.2 ((dryRun_records hC hdry batch report x).mono fun r x₁ h₁ => ?_)
    obtain ⟨report₁, stopped⟩ := r
    cases stopped with
    | true => exact h₁
    | false => exact (dryRun_batches_records hdry batches report₁ x₁).mono fun _ x' h' => h'.trans h₁

end Allowed

theorem flatten_batches {α : Type} {size : ℕ} (hsize : 0 < size) : ∀ {fuel : ℕ} {l : List α},
    l.length ≤ fuel → (Worker.batches size fuel l).flatten = l
  | 0, [], _ => rfl
  | fuel + 1, l, hfuel => by
    unfold Worker.batches
    split_ifs with hnil
    · exact hnil.symm
    · rw [flatten_cons, flatten_batches hsize (by rw [length_drop]; omega), take_append_drop]

/-! ## A whole run -/

/-- **What a run does**: it finds candidates, which is all the objects that rules expire unless a call
of the metadata store failed, and deletes them. -/
def Ran (w : Worker) (N D X T : Prop) (x x' : WorkerRun) : Prop :=
  view x' = view x ∧ (w.dryRun = true ∨ N) ∨
    w.dryRun = false ∧ ∃ now candidates, (T → now = x.world.clock) ∧
      Finds w x.world now N (x.world.metadata.buckets.entries.map Sigma.snd) candidates ∧
      Expiry w N D X candidates (view x) (view x')

theorem Finds.of_rested {now : Time} {buckets : List Bucket} {found : List ObjectVersion}
    (h : Rested T x x') (hfinds : Finds w x'.world now N buckets found) :
    Finds w x.world now N buckets found := by
  refine ⟨fun c hc => ?_, fun hN b hb c hc => hfinds.complete hN b hb c ((Found.of_rested h).2 hc)⟩
  obtain ⟨b, hb, hfound⟩ := hfinds.sound c hc
  exact ⟨b, hb, (Found.of_rested h).1 hfound⟩

theorem runOnce_records (hC : Allows C N D X T) (x : WorkerRun) :
    Records C (fun _ x' => Ran w N D X T x x') w.runOnce x := by
  refine records_bind.2 (records_resting (o := .now) hC trivial fun m₁ _ h₁ => ?_)
  refine records_bind.2 (records_resting (o := .listBuckets) hC trivial fun m₂ he₂ h₂ => ?_)
  have h₁₂ := h₁.trans h₂
  generalize surroundings.advance (surroundings.advance x m₁ .now) m₂ .listBuckets = x₂ at h₁₂ ⊢
  have hval : (surroundings.step (surroundings.advance x m₁ .now).world m₂ .listBuckets).1 =
      reading m₂.fault (.ok (x.world.metadata.buckets.entries.map Sigma.snd)) := by
    rfl
  rw [hval]
  by_cases hok : m₂.fault = .ok
  · rw [hok]
    refine records_bind.2 (records_resting (o := .now) hC trivial fun m₃ _ h₃ => ?_)
    have hnow : (surroundings.step x₂.world m₃ .now).1 = (surroundings.advance x₂ m₃ .now).world.clock :=
      rfl
    rw [hnow]
    have h₁₃ := h₁₂.trans h₃
    generalize surroundings.advance x₂ m₃ .now = x₃ at h₁₃ ⊢
    refine records_bind.2 ((scan_records hC _ _ _ x₃).mono fun r x₄ h₄ => ?_)
    obtain ⟨hrest₄, hfinds⟩ := h₄
    have h₁₄ := h₁₃.trans hrest₄
    have hexpire : Records C (fun _ x' => Ran w N D X T x x')
        (w.expireBatches (Worker.batches w.batchSize r.2.length r.2) r.1) x₄ := by
      cases hdry : w.dryRun with
      | true =>
        refine (dryRun_batches_records hC hdry _ _ x₄).mono fun _ x' h' => .inl ⟨?_, .inl hdry⟩
        rw [h', h₁₄.view_eq]
      | false =>
        refine (expireBatches_records hC hdry _ _ x₄).mono fun _ x' h' => .inr ?_
        obtain ⟨hX, hexpiry⟩ := h'
        rw [flatten_batches w.batchSize_pos (le_refl _), h₁₄.view_eq] at hexpiry
        exact ⟨hdry, _, r.2, h₁₃.clock, hfinds.of_rested h₁₃, hexpiry.mono hX⟩
    refine records_bind.2 (hexpire.mono fun r' x₅ h₅ => ?_)
    refine records_bind.2 (records_resting (o := .now) hC trivial fun m₆ _ h₆ => ?_)
    change Ran w N D X T x (surroundings.advance x₅ m₆ .now)
    unfold Ran
    rw [h₆.view_eq]
    exact h₅
  · rw [reading_of_ne hok]
    exact .inl ⟨h₁₂.view_eq, .inr ((hC.fault _ he₂ id).resolve_left hok)⟩

end Runs

/-- **`RunOnce`**, as a run. -/
def runOnceFrom (w : Worker) (W : WorkerWorld) (moments : List Moment) : WorkerRun :=
  (surroundings.exec w.runOnce moments ⟨W, []⟩).2

theorem ran_runOnceFrom {C : Event workerCalls Moment → Prop} {N D X T : Prop} (hC : Allows C N D X T)
    {w : Worker} {W : WorkerWorld} {moments : List Moment}
    (hevents : ∀ e ∈ (runOnceFrom w W moments).events, C e) :
    Ran w N D X T ⟨W, []⟩ (runOnceFrom w W moments) :=
  exec_of_recording (runOnce_records hC _) hevents

end S000.Lifecycle
