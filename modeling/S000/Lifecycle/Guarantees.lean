import S000.Lifecycle.Expiry
import S000.Server.WellFormed

/-!
# Lifecycle/Guarantees — locks, and files that nothing refers to

A run of the worker deletes all versions of every expired key.  It looks at no lock, so it spares the
locked versions exactly when no expired key has one (`runOnce_spares_iff`).  And it drops the rows of a
key before it deletes the files: where the deletion of a file fails, the files from there on stay behind
without a row, and no later run finds them (`runOnce_referenced`).
-/

namespace S000.Lifecycle

open List
open Metadata (Bucket ObjectVersion MemoryState)

/-! ## What is gone after a run -/

section Shrinking

variable {w : Worker} {N D X : Prop} {cs : List ObjectVersion} {v v' : View} {b k : Bytes}

theorem Outcome.files (h : Outcome w N D b k v v') (p : Bytes) :
    v'.files p = v.files p ∨ v'.files p = none ∧ ∃ r ∈ v.rows b k, w.path r = p := by
  cases h with
  | kept => exact .inl rfl
  | unsaved => exact .inl (by simp [View.drop])
  | @dropped gone rest hsplit =>
    by_cases hp : p ∈ gone.map w.path
    · obtain ⟨r, hr, rfl⟩ := mem_map.1 hp
      exact .inr ⟨if_pos hp, r, hsplit ▸ mem_append_left _ hr, rfl⟩
    · exact .inl (if_neg hp)

theorem Outcome.rows (h : Outcome w N D b k v v') (b' k' : Bytes) :
    v'.rows b' k' = v.rows b' k' ∨ v'.rows b' k' = [] ∧ b' = b ∧ k' = k := by
  have hdrop {deleted failed : List Bytes} : (v.drop b k deleted failed).rows b' k' = v.rows b' k' ∨
      (v.drop b k deleted failed).rows b' k' = [] ∧ b' = b ∧ k' = k := by
    by_cases hkey : b' = b ∧ k' = k
    · exact .inr ⟨if_pos hkey, hkey⟩
    · exact .inl (if_neg hkey)
  cases h with
  | kept => exact .inl rfl
  | unsaved => exact hdrop
  | dropped => exact hdrop

/-- **Rows are lost of candidates' keys only**, and then all of them. -/
theorem Expiry.rows (h : Expiry w N D X cs v v') (b k : Bytes) :
    v'.rows b k = v.rows b k ∨ v'.rows b k = [] ∧ ∃ c ∈ cs, c.bucket = b ∧ c.key = k := by
  induction h with
  | done => exact .inl rfl
  | stop => exact .inl rfl
  | @next c cs v v' v'' first _ ih =>
    rcases ih with heq | ⟨hnil, c', hc', hkey⟩
    · rw [heq]
      refine (first.rows b k).imp id fun ⟨hnil, hb, hk⟩ => ⟨hnil, c, mem_cons_self, hb.symm, hk.symm⟩
    · exact .inr ⟨hnil, c', mem_cons_of_mem c hc', hkey⟩

/-- **Files are lost of the versions of candidates' keys only.** -/
theorem Expiry.files (h : Expiry w N D X cs v v') (p : Bytes) :
    v'.files p = v.files p ∨
      v'.files p = none ∧ ∃ c ∈ cs, ∃ r ∈ v.rows c.bucket c.key, w.path r = p := by
  induction h with
  | done => exact .inl rfl
  | stop => exact .inl rfl
  | @next c cs v v' v'' first _ ih =>
    rcases ih with heq | ⟨hnone, c', hc', r, hr, hp⟩
    · rw [heq]
      exact (first.files p).imp id fun ⟨hnone, r, hr, hp⟩ => ⟨hnone, c, mem_cons_self, r, hr, hp⟩
    refine .inr ⟨hnone, c', mem_cons_of_mem c hc', r, ?_, hp⟩
    rcases first.rows c'.bucket c'.key with heq | ⟨hnil, -⟩
    · exact heq ▸ hr
    · rw [hnil] at hr
      exact nomatch hr

theorem Outcome.cleared (h : Outcome w False False b k v v') :
    v'.rows b k = [] ∧ ∀ r ∈ v.rows b k, v'.files (w.path r) = none := by
  cases h with
  | kept h =>
    refine ⟨h.resolve_right id, fun r hr => ?_⟩
    rw [h.resolve_right id] at hr
    exact nomatch hr
  | unsaved hN => exact hN.elim
  | dropped hsplit _ hrest =>
    refine ⟨View.rows_drop_self, fun r hr => if_pos (mem_map_of_mem ?_)⟩
    rwa [hsplit, hrest.resolve_right id, append_nil] at hr

/-- **In a run without faults** all candidates' versions are gone, rows and files. -/
theorem Expiry.cleared (h : Expiry w False False False cs v v') {c : ObjectVersion} (hc : c ∈ cs) :
    v'.rows c.bucket c.key = [] ∧ ∀ r ∈ v.rows c.bucket c.key, v'.files (w.path r) = none := by
  induction h with
  | done => exact nomatch hc
  | stop h => exact h.elim
  | @next c₀ cs v v' v'' first rest ih =>
    by_cases hkey : c.bucket = c₀.bucket ∧ c.key = c₀.key
    · rw [hkey.1, hkey.2]
      obtain ⟨hrows, hfiles⟩ := first.cleared
      refine ⟨?_, fun r hr => ?_⟩
      · exact (rest.rows _ _).elim (fun h => h.trans hrows) And.left
      · exact (rest.files _).elim (fun h => h.trans (hfiles r hr)) And.left
    · have hmem : c ∈ cs := (mem_cons.1 hc).resolve_left fun h => hkey (h ▸ ⟨rfl, rfl⟩)
      obtain ⟨hrows, hfiles⟩ := ih hmem
      have hsame := (first.rows c.bucket c.key).resolve_right fun h => hkey h.2
      exact ⟨hrows, fun r hr => hfiles r (hsame ▸ hr)⟩

end Shrinking

/-! ## Locks -/

/-- The current version of the key is one that the rules for its bucket expire. -/
def Expired (w : Worker) (W : WorkerWorld) (b k : Bytes) : Prop :=
  ∃ bucket ∈ W.metadata.buckets.entries.map Sigma.snd, ∃ c,
    Found w W W.clock bucket c ∧ c.bucket = b ∧ c.key = k

/-- No version that is locked at `now` has lost its row or its file. -/
def Spares (now : Time) (W W' : World) : Prop :=
  ∀ b k, ∀ v ∈ W.metadata.versions b k, objectLocked v now = true →
    v ∈ W'.metadata.versions b k ∧ W'.disk.files v.storagePath = W.disk.files v.storagePath

/-- The locked versions are none of those that a run deletes: their keys are not expired, and no
version of an expired key has its file where a locked one has. -/
def LocksApart (w : Worker) (W : WorkerWorld) : Prop :=
  ∀ b k, ∀ v ∈ W.metadata.versions b k, objectLocked v W.clock = true →
    ¬ Expired w W b k ∧ ∀ b' k', Expired w W b' k' → ∀ v' ∈ W.metadata.versions b' k',
      w.path v' = v.storagePath → W.disk.files v.storagePath = none

def AtOnce (e : Event workerCalls Moment) : Prop := e.fault.elapsed = 0

theorem allows_atOnce : Allows AtOnce True True True True :=
  ⟨fun _ _ _ => .inr trivial, fun _ _ _ => .inr trivial, fun _ _ _ => trivial, fun _ _ he => he⟩

/-- Nothing goes wrong, and the clock stands still. -/
def Smooth (e : Event workerCalls Moment) : Prop := e.fault = {}

theorem allows_smooth : Allows Smooth False False False True where
  fault e he _ := .inl (by rw [he])
  file e he _ := .inl (by rw [he])
  cancelled e he h := by
    rw [he] at h
    cases h
  still _ e he := by rw [he]

variable {w : Worker} {W : WorkerWorld}

theorem smooth_of_mem_runOnceFrom {e : Event workerCalls Moment}
    (he : e ∈ (runOnceFrom w W []).events) : Smooth e := by
  unfold runOnceFrom at he
  rw [Machine.exec_nil] at he
  exact Machine.fault_of_mem_trace surroundings e he

theorem spares_of_ran {x : WorkerRun} (h : w.dryRun = true ∨ LocksApart w W)
    (hran : Ran w True True True True ⟨W, []⟩ x) : Spares W.clock W.toWorld x.world.toWorld := by
  intro b k v hv hlocked
  have hrow : v ∈ (view ⟨W, []⟩).rows b k := hv
  rcases hran with ⟨hsame, -⟩ | ⟨hwet, now, candidates, hnow, hfinds, hexpiry⟩
  · rw [← hsame] at hrow
    exact ⟨hrow, congrFun (congrArg View.files hsame) _⟩
  obtain ⟨hkey, hfile⟩ := h.resolve_left (by rw [hwet]; decide) b k v hv hlocked
  obtain rfl := hnow trivial
  have hexpired {c : ObjectVersion} (hc : c ∈ candidates) : Expired w W c.bucket c.key := by
    obtain ⟨bucket, hbucket, hfound⟩ := hfinds.sound c hc
    exact ⟨bucket, hbucket, c, hfound, rfl, rfl⟩
  refine ⟨?_, ?_⟩
  · rcases hexpiry.rows b k with heq | ⟨-, c, hc, rfl, rfl⟩
    · rw [← heq] at hrow
      exact hrow
    · exact absurd (hexpired hc) hkey
  · rcases hexpiry.files v.storagePath with heq | ⟨hnone, c, hc, r, hr, hp⟩
    · exact heq
    · exact hnone.trans (hfile _ _ (hexpired hc) r hr hp).symm

/-- **A key loses all rows or none**, and only where a rule expires it, whatever goes wrong. -/
theorem runOnce_rows (w : Worker) (W : WorkerWorld) (moments : List Moment) (b k : Bytes) :
    let rows := (runOnceFrom w W moments).world.metadata.versions b k
    rows = W.metadata.versions b k ∨ rows = [] ∧ w.dryRun = false ∧
      ∃ now bucket c, Found w W now bucket c ∧ c.bucket = b ∧ c.key = k := by
  have hC : Allows (fun _ => True) True True True False :=
    ⟨fun _ _ _ => .inr trivial, fun _ _ _ => .inr trivial, fun _ _ _ => trivial, nofun⟩
  rcases ran_runOnceFrom hC fun _ _ => trivial with ⟨hsame, -⟩ | ⟨hwet, now, cs, -, hfinds, hexpiry⟩
  · exact .inl (congrArg (View.rows · b k) hsame)
  refine (hexpiry.rows b k).imp id fun ⟨hnil, c, hc, hkey⟩ => ?_
  obtain ⟨bucket, -, hfound⟩ := hfinds.sound c hc
  exact ⟨hnil, hwet, now, bucket, c, hfound, hkey⟩

/-- **A run spares the locked versions**, whatever goes wrong in it, exactly when it is a dry run or no
version that it deletes is locked. -/
theorem runOnce_spares_iff (w : Worker) (W : WorkerWorld) :
    (∀ moments, (∀ e ∈ (runOnceFrom w W moments).events, AtOnce e) →
        Spares W.clock W.toWorld (runOnceFrom w W moments).world.toWorld) ↔
      w.dryRun = true ∨ LocksApart w W := by
  constructor
  · intro h
    by_contra hnot
    rw [not_or] at hnot
    obtain ⟨hdry, hapart⟩ := hnot
    have hsmooth := fun e he => smooth_of_mem_runOnceFrom (w := w) (W := W) (e := e) he
    have hspares := h [] fun e he => by rw [AtOnce, hsmooth e he]
    rcases ran_runOnceFrom allows_smooth hsmooth with ⟨-, hdry' | hN⟩ | ⟨-, now, cs, hnow, hfinds, hexpiry⟩
    · exact hdry hdry'
    · exact hN
    obtain rfl := hnow trivial
    have hcleared {b k : Bytes} (hexpired : Expired w W b k) :
        (view (runOnceFrom w W [])).rows b k = [] ∧
          ∀ r ∈ W.metadata.versions b k, (view (runOnceFrom w W [])).files (w.path r) = none := by
      obtain ⟨bucket, hbucket, c, hfound, rfl, rfl⟩ := hexpired
      exact hexpiry.cleared (hfinds.complete id bucket hbucket c hfound)
    refine hapart fun b k v hv hlocked => ⟨fun hexpired => ?_, fun b' k' hexpired v' hv' hp => ?_⟩
    · have hkept : v ∈ (view (runOnceFrom w W [])).rows b k := (hspares b k v hv hlocked).1
      rw [(hcleared hexpired).1] at hkept
      exact nomatch hkept
    · rw [← (hspares b k v hv hlocked).2, ← hp]
      exact (hcleared hexpired).2 v' hv'
  · exact fun h _ hevents => spares_of_ran h (ran_runOnceFrom allows_atOnce hevents)

/-- A worker with a rule for objects that are an hour old. -/
def hourly : Worker where
  platform := sampleAPI.platform
  blob := sampleAPI.blob
  rules := [⟨[], 3600000000000⟩]

def sampleRow (metadata : Metadata.StrMap) : ObjectVersion where
  bucket := str "b"
  key := str "k"
  versionID := Metadata.nullVersion
  size := 1
  storagePath := sampleAPI.path ⟨str "b", str "k", Metadata.nullVersion⟩
  metadata
  createdAt := 0

def sampleWorld (metadata : Metadata.StrMap) : WorkerWorld where
  metadata :=
    { buckets := (∅ : AList fun _ : Bytes => Bucket).insert (str "b") ⟨str "b", [], [], 0⟩
      objects := (∅ : AList fun _ : Bytes × Bytes => List ObjectVersion).insert (str "b", str "k")
        [sampleRow metadata] }
  disk := { files := Function.update (fun _ => none) (sampleRow metadata).storagePath (some (str "x")) }
  clock := 7200000000000

/-- **The worker deletes an object under a legal hold.** -/
theorem held_object_expired :
    let W := sampleWorld ((∅ : Metadata.StrMap).insert lockLegalHoldKey (str "ON"));
    ¬ ∀ moments, (∀ e ∈ (runOnceFrom hourly W moments).events, AtOnce e) →
      Spares W.clock W.toWorld (runOnceFrom hourly W moments).world.toWorld := by
  intro W h
  have hspares := h [] fun e he => by rw [AtOnce, smooth_of_mem_runOnceFrom he]
  have hkept := (hspares (str "b") (str "k") _ mem_cons_self (by decide +kernel)).1
  have hgone : (runOnceFrom hourly W []).world.metadata.versions (str "b") (str "k") = [] := by
    decide +kernel
  exact not_mem_nil (hgone ▸ hkept)

/-! ## Files without a row -/

/-- A version and its file. -/
def Owns (v : ObjectVersion) (path : Bytes) : Prop := v.deleteMarker = false ∧ v.storagePath = path

/-- What has become of the keys in a run where only deletions of files failed: of some keys, the rows
are gone and so are the files of the first versions, up to where a deletion failed. -/
structure Splits (w : Worker) (v v' : View)
    (split : Bytes → Bytes → Option (List ObjectVersion × List ObjectVersion)) : Prop where
  kept : ∀ b k, split b k = none → v'.rows b k = v.rows b k
  rows : ∀ b k gone rest, split b k = some (gone, rest) →
    v.rows b k = gone ++ rest ∧ v'.rows b k = []
  gone : ∀ b k gone rest, split b k = some (gone, rest) → ∀ r ∈ gone, v'.files (w.path r) = none
  files : ∀ p, v'.files p = v.files p ∨
    ∃ b k gone rest, split b k = some (gone, rest) ∧ ∃ r ∈ gone, w.path r = p
  failures : ∀ p, p ∈ v'.failures ↔ p ∈ v.failures ∨
    ∃ b k gone u rest, split b k = some (gone, u :: rest) ∧ w.path u = p

theorem Splits.refl (w : Worker) (v : View) : Splits w v v fun _ _ => none :=
  ⟨fun _ _ _ => rfl, nofun, nofun, fun _ => .inl rfl,
    fun _ => ⟨.inl, fun h => h.elim id fun ⟨_, _, _, _, _, h, _⟩ => nomatch h⟩⟩

section Drop

variable {w : Worker} {b k : Bytes} {v v' : View} {gone rest : List ObjectVersion}
  {split : Bytes → Bytes → Option (List ObjectVersion × List ObjectVersion)} {deleted failed : List Bytes}

theorem Splits.nil_of_drop (h : Splits w (v.drop b k deleted failed) v' split)
    (hkey : split b k = some (gone, rest)) : gone = [] ∧ rest = [] := by
  have hrows := (h.rows b k gone rest hkey).1
  rw [View.rows_drop_self] at hrows
  exact append_eq_nil_iff.1 hrows.symm

theorem Splits.rows_of_drop (h : Splits w (v.drop b k deleted failed) v' split) : v'.rows b k = [] := by
  cases hkey : split b k with
  | none => exact (h.kept b k hkey).trans View.rows_drop_self
  | some x => exact (h.rows b k x.1 x.2 hkey).2

theorem View.rows_drop_of_ne {b' k' : Bytes} (hkey : ¬ (b' = b ∧ k' = k)) :
    (v.drop b k deleted failed).rows b' k' = v.rows b' k' := if_neg hkey

theorem Splits.drop (hsplit : v.rows b k = gone ++ rest)
    (h : Splits w (v.drop b k (gone.map w.path) ((rest.head?.map w.path).toList)) v' split) :
    Splits w v v' fun b' k' => if b' = b ∧ k' = k then some (gone, rest) else split b' k' := by
  have hgone {p : Bytes} (hp : p ∈ gone.map w.path) : v'.files p = none := by
    rcases h.files p with heq | ⟨b', k', g, t, hkey, r, hr, rfl⟩
    · exact heq.trans (if_pos hp)
    · exact h.gone b' k' g t hkey r hr
  constructor
  case kept =>
    intro b' k' hnone
    split_ifs at hnone with hkey
    exact (h.kept b' k' hnone).trans (View.rows_drop_of_ne hkey)
  case rows =>
    intro b' k' g t hsome
    split_ifs at hsome with hkey
    · obtain ⟨rfl, rfl⟩ := hkey
      cases hsome
      exact ⟨hsplit, h.rows_of_drop⟩
    · obtain ⟨hrows, hnil⟩ := h.rows b' k' g t hsome
      exact ⟨(View.rows_drop_of_ne hkey).symm.trans hrows, hnil⟩
  case gone =>
    intro b' k' g t hsome r hr
    split_ifs at hsome with hkey
    · cases hsome
      exact hgone (mem_map_of_mem hr)
    · exact h.gone b' k' g t hsome r hr
  case files =>
    intro p
    by_cases hp : p ∈ gone.map w.path
    · obtain ⟨r, hr, hpath⟩ := mem_map.1 hp
      exact .inr ⟨b, k, gone, rest, if_pos ⟨rfl, rfl⟩, r, hr, hpath⟩
    rcases h.files p with heq | ⟨b', k', g, t, hsome, r, hr, hpath⟩
    · exact .inl (heq.trans (if_neg hp))
    refine .inr ⟨b', k', g, t, ?_, r, hr, hpath⟩
    rw [if_neg, hsome]
    rintro ⟨rfl, rfl⟩
    rw [(h.nil_of_drop hsome).1] at hr
    cases hr
  case failures =>
    intro p
    have hhead : p ∈ (rest.head?.map w.path).toList ↔ ∃ u t, rest = u :: t ∧ w.path u = p := by
      cases rest with
      | nil => simp
      | cons u t => simp [eq_comm]
    rw [h.failures p, View.drop, mem_append, hhead, or_assoc]
    refine or_congr_right ⟨?_, ?_⟩
    · rintro (⟨u, t, rfl, hpath⟩ | ⟨b', k', g, u, t, hsome, hpath⟩)
      · exact ⟨b, k, gone, u, t, if_pos ⟨rfl, rfl⟩, hpath⟩
      refine ⟨b', k', g, u, t, ?_, hpath⟩
      rw [if_neg, hsome]
      rintro ⟨rfl, rfl⟩
      cases (h.nil_of_drop hsome).2
    · rintro ⟨b', k', g, u, t, hsome, hpath⟩
      split_ifs at hsome with hkey
      · cases hsome
        exact .inl ⟨u, t, rfl, hpath⟩
      · exact .inr ⟨b', k', g, u, t, hsome, hpath⟩

end Drop

theorem Expiry.splits {D X : Prop} {cs : List ObjectVersion} {v v' : View}
    (h : Expiry w False D X cs v v') : ∃ split, Splits w v v' split := by
  induction h with
  | done => exact ⟨_, .refl w _⟩
  | stop => exact ⟨_, .refl w _⟩
  | next first _ ih =>
    obtain ⟨split, hsplits⟩ := ih
    cases first with
    | kept => exact ⟨split, hsplits⟩
    | unsaved hN => exact hN.elim
    | dropped hsplit => exact ⟨_, hsplits.drop hsplit⟩

/-- The server whose files the worker deletes. -/
def Worker.api (w : Worker) : S3API := { platform := w.platform, blob := w.blob }

/-- Every file of a version that is still there is the file of a version that is still there. -/
def Referenced (W W' : World) : Prop :=
  ∀ b k, ∀ v ∈ W.metadata.versions b k, ∀ path, Owns v path → W'.disk.files path ≠ none →
    ∃ b' k', ∃ v' ∈ W'.metadata.versions b' k', Owns v' path

/-- Where the deletion of a file failed, neither that version nor a later one of the key had a file. -/
def FailuresIdle (w : Worker) (W : World) (failures : List Bytes) : Prop :=
  ∀ b k before v behind, W.metadata.versions b k = before ++ v :: behind → w.path v ∈ failures →
    ∀ v' ∈ v :: behind, ∀ path, Owns v' path → W.disk.files path = none

/-- Only deletions of files fail, and the run may be cancelled. -/
def OnlyFilesFail (e : Event workerCalls Moment) : Prop := e.fault.fault = .ok ∨ e.op.IsRemove

instance (o : WorkerCall) : Decidable o.IsRemove := by
  unfold WorkerCall.IsRemove
  split <;> infer_instance

instance (e : Event workerCalls Moment) : Decidable (OnlyFilesFail e) :=
  inferInstanceAs (Decidable (_ ∨ _))

theorem allows_onlyFilesFail : Allows OnlyFilesFail False True True False where
  fault _ he hremove := .inl (he.resolve_right hremove)
  file _ _ _ := .inr trivial
  cancelled _ _ _ := trivial
  still h := h.elim

section Referenced

variable {w : Worker} {W : World} {v' : View}
  {split : Bytes → Bytes → Option (List ObjectVersion × List ObjectVersion)}

/-- The versions of the view, without failures yet. -/
def start (W : World) : View := ⟨W.metadata.versions, W.disk.files, []⟩

variable {v : ObjectVersion} {b k path : Bytes}

theorem owns_path (hW : WellFormed w.api W) (hv : v ∈ W.metadata.versions b k) (howns : Owns v path) :
    w.path v = path :=
  (((hW b k).rows v hv).stored howns.1).symm.trans howns.2

/-- **A file that stays behind is accounted for**, if no deletion failed before it. -/
theorem referenced_of_splits (hW : WellFormed w.api W) (h : Splits w (start W) v' split)
    (hidle : FailuresIdle w W v'.failures) (hv : v ∈ W.metadata.versions b k) (howns : Owns v path)
    (hfile : v'.files path ≠ none) :
    ∃ b' k', ∃ r ∈ v'.rows b' k', Owns r path := by
  cases hkey : split b k with
  | none =>
    refine ⟨b, k, v, ?_, howns⟩
    rw [h.kept b k hkey]
    exact hv
  | some x =>
    obtain ⟨gone, rest⟩ := x
    have hsplit : W.metadata.versions b k = gone ++ rest := (h.rows b k gone rest hkey).1
    have hpath := owns_path hW hv howns
    exfalso
    rw [hsplit] at hv
    rcases mem_append.1 hv with hgone | hrest
    · exact hfile (hpath ▸ h.gone b k gone rest hkey v hgone)
    cases rest with
    | nil => exact nomatch hrest
    | cons u rest =>
      have hfailed : w.path u ∈ v'.failures :=
        (h.failures _).2 (.inr ⟨b, k, gone, u, rest, hkey, rfl⟩)
      have hnone : W.disk.files path = none := hidle b k gone u rest hsplit hfailed v hrest path howns
      rcases h.files path with heq | ⟨b', k', g, t, hkey', r, hr, rfl⟩
      · exact hfile (heq.trans hnone)
      · exact hfile (h.gone b' k' g t hkey' r hr)

/-- **A path is that of one version**, where the digest is one-to-one and no bucket name has a NUL. -/
theorem path_inj (hW : WellFormed w.api W) (hsha : Function.Injective w.platform.sha256)
    (hnul : ∀ b k, W.metadata.versions b k ≠ [] → 0 ∉ b) {b' k' : Bytes}
    {r : ObjectVersion} (hv : v ∈ W.metadata.versions b k) (hr : r ∈ W.metadata.versions b' k')
    (hpath : w.path v = w.path r) : b = b' ∧ k = k' ∧ v = r := by
  obtain ⟨hkeys, hversion⟩ := Blob.objectPath_inj hsha hpath
  obtain ⟨hvb, hvk⟩ := (hW b k).keyed v hv
  obtain ⟨hrb, hrk⟩ := (hW b' k').keyed r hr
  rw [hvb, hvk, hrb, hrk] at hkeys
  have hb : 0 ∉ b := hnul b k (ne_nil_of_mem hv)
  have hb' : 0 ∉ b' := hnul b' k' (ne_nil_of_mem hr)
  obtain ⟨rfl, rfl⟩ := Strings.append_cons_inj hb hb' hkeys
  rw [Blob.ObjectRef.version_eq ((hW b k).rows v hv).named,
    Blob.ObjectRef.version_eq ((hW b k).rows r hr).named] at hversion
  exact ⟨rfl, rfl, inj_on_of_nodup_map (hW b k).distinct hv hr hversion⟩

/-- A list without repetitions is cut at an element in one way. -/
theorem split_unique {α : Type} {l l₁ l₂ r₁ r₂ : List α} {a : α} (hnodup : l.Nodup)
    (h₁ : l = l₁ ++ a :: r₁) (h₂ : l = l₂ ++ a :: r₂) : l₁ = l₂ ∧ r₁ = r₂ := by
  rw [h₁, nodup_middle, nodup_cons, mem_append, not_or] at hnodup
  obtain ⟨hl, -, hr⟩ := (append_cons_inj_of_notMem hnodup.1.1 hnodup.1.2).1 (h₁.symm.trans h₂)
  exact ⟨hl, hr⟩

/-- …and conversely: what stays behind after a failure has no row. -/
theorem failuresIdle_of_splits (hW : WellFormed w.api W) (hsha : Function.Injective w.platform.sha256)
    (hnul : ∀ b k, W.metadata.versions b k ≠ [] → 0 ∉ b) (h : Splits w (start W) v' split)
    (href : ∀ b k, ∀ v ∈ W.metadata.versions b k, ∀ path, Owns v path → v'.files path ≠ none →
      ∃ b' k', ∃ r ∈ v'.rows b' k', Owns r path) :
    FailuresIdle w W v'.failures := by
  intro b k before u behind hrows hfailed v hv path howns
  by_contra hfile
  have hu : u ∈ W.metadata.versions b k := hrows ▸ mem_append_right _ mem_cons_self
  have hv' : v ∈ W.metadata.versions b k := hrows ▸ mem_append_right _ hv
  have hnodup : (W.metadata.versions b k).Nodup := (hW b k).distinct.of_map _
  -- the key is one that was dropped, and was cut where the deletion failed
  obtain ⟨b₁, k₁, gone, u₁, rest, hkey, hpath₁⟩ := ((h.failures _).1 hfailed).resolve_left not_mem_nil
  have hrows₁ : W.metadata.versions b₁ k₁ = gone ++ u₁ :: rest := (h.rows b₁ k₁ _ _ hkey).1
  have hu₁ : u₁ ∈ W.metadata.versions b₁ k₁ := hrows₁ ▸ mem_append_right _ mem_cons_self
  obtain ⟨rfl, rfl, rfl⟩ := path_inj hW hsha hnul hu hu₁ hpath₁.symm
  obtain ⟨rfl, rfl⟩ := split_unique hnodup hrows hrows₁
  -- so the file is still there
  have hpath := owns_path hW hv' howns
  have hstays : v'.files path = W.disk.files path := by
    rcases h.files path with heq | ⟨b₂, k₂, g, t, hkey₂, r, hr, hpath₂⟩
    · exact heq
    have hrows₂ : W.metadata.versions b₂ k₂ = g ++ t := (h.rows b₂ k₂ g t hkey₂).1
    have hr' : r ∈ W.metadata.versions b₂ k₂ := hrows₂ ▸ mem_append_left _ hr
    obtain ⟨rfl, rfl, rfl⟩ := path_inj hW hsha hnul hv' hr' (hpath.trans hpath₂.symm)
    rw [hkey, Option.some.injEq, Prod.mk.injEq] at hkey₂
    rw [hrows] at hnodup
    exact absurd hv ((disjoint_of_nodup_append hnodup) (hkey₂.1 ▸ hr))
  -- and the rows are gone
  obtain ⟨b₃, k₃, r, hr, hrowns⟩ := href b k v hv' path howns (hstays ▸ hfile)
  cases hkey₃ : split b₃ k₃ with
  | some x =>
    rw [(h.rows b₃ k₃ x.1 x.2 hkey₃).2] at hr
    exact nomatch hr
  | none =>
    rw [h.kept b₃ k₃ hkey₃] at hr
    obtain ⟨rfl, rfl, -⟩ := path_inj hW hsha hnul hv' hr (hpath.trans (owns_path hW hr hrowns).symm)
    rw [hkey] at hkey₃
    cases hkey₃

end Referenced

/-- **The files a run leaves behind**, in a run where deletions of files fail in any way: all of them
are files of versions that are still there, if each failure was one where the key had no file left — and
only then, where paths tell versions apart. -/
theorem runOnce_referenced (w : Worker) (W : WorkerWorld) (hW : WellFormed w.api W.toWorld)
    (moments : List Moment) (hevents : ∀ e ∈ (runOnceFrom w W moments).events, OnlyFilesFail e) :
    let x := runOnceFrom w W moments;
    let failures := x.events.filterMap failedPath;
    (FailuresIdle w W.toWorld failures → Referenced W.toWorld x.world.toWorld) ∧
      (Function.Injective w.platform.sha256 → (∀ b k, W.metadata.versions b k ≠ [] → 0 ∉ b) →
        Referenced W.toWorld x.world.toWorld → FailuresIdle w W.toWorld failures) := by
  intro x failures
  have hsplits : ∃ split, Splits w (start W.toWorld) (view x) split := by
    rcases ran_runOnceFrom allows_onlyFilesFail hevents with ⟨hsame, -⟩ | ⟨-, _, _, -, -, hexpiry⟩
    · refine ⟨fun _ _ => none, ?_⟩
      rw [hsame]
      exact .refl w _
    · exact hexpiry.splits
  obtain ⟨split, hsplits⟩ := hsplits
  refine ⟨fun hidle b k v hv path howns hfile => ?_, fun hsha hnul href => ?_⟩
  · exact referenced_of_splits hW hsplits hidle hv howns hfile
  · exact failuresIdle_of_splits hW hsha hnul hsplits href

/-- A later version of the sample object. -/
def laterRow : ObjectVersion :=
  { sampleRow ∅ with
    versionID := str "2"
    storagePath := sampleAPI.path ⟨str "b", str "k", str "2"⟩ }

/-- The sample object with the later version, whose file is missing. -/
def gapWorld : WorkerWorld :=
  { sampleWorld ∅ with
    metadata := (sampleWorld ∅).metadata.setVersions (str "b") (str "k") [sampleRow ∅, laterRow] }

/-- The deletion of a file fails that is not there. -/
theorem runOnce_referenced_gap :
    let x := runOnceFrom hourly gapWorld (replicate 8 default ++ [{ fault := .refused }]);
    x.events.filterMap failedPath = [laterRow.storagePath] ∧
      x.world.metadata.versions (str "b") (str "k") = [] ∧
      Referenced gapWorld.toWorld x.world.toWorld := by
  intro x
  have hfailed : x.events.filterMap failedPath = [laterRow.storagePath] := by decide +kernel
  refine ⟨hfailed, by decide +kernel, ?_⟩
  refine (runOnce_referenced hourly gapWorld (wellFormed_of_entries (by decide +kernel)) _
    (by decide +kernel)).1 fun b k before v behind hrows hpath => ?_
  rw [show runOnceFrom .. = x from rfl, hfailed, mem_singleton] at hpath
  have hv : v ∈ gapWorld.metadata.versions b k := by
    rw [hrows]
    exact mem_append_right _ mem_cons_self
  obtain ⟨e, he, hkey, -⟩ := MemoryState.mem_entries_of_mem_versions hv
  have hentries : gapWorld.metadata.objects.keys = [(str "b", str "k")] := by decide +kernel
  have hmem : (b, k) ∈ gapWorld.metadata.objects.keys := hkey ▸ mem_map_of_mem he
  obtain ⟨rfl, rfl⟩ := Prod.mk.inj (mem_singleton.1 (hentries ▸ hmem))
  -- the first version is not the one whose file could not be deleted
  match before, hrows with
  | [], hrows =>
    obtain ⟨rfl, -⟩ := cons.inj hrows
    exact absurd hpath (by decide +kernel)
  | [_], hrows =>
    obtain ⟨-, hrows⟩ := cons.inj hrows
    obtain ⟨rfl, rfl⟩ := cons.inj hrows
    intro v' hv' path howns
    rw [← howns.2, mem_singleton.1 hv']
    decide +kernel
  | _ :: _ :: _, hrows =>
    have hnil := (cons.inj (cons.inj hrows).2).2
    exact absurd hnil.symm (append_ne_nil_of_right_ne_nil _ (cons_ne_nil _ _))

/-- **One failed deletion, and the file is there without a version.** -/
theorem expired_file_unreferenced :
    let moments : List Moment := replicate 7 default ++ [{ fault := .refused }];
    (∀ e ∈ (runOnceFrom hourly (sampleWorld ∅) moments).events, OnlyFilesFail e) ∧
      ¬ Referenced (sampleWorld ∅).toWorld (runOnceFrom hourly (sampleWorld ∅) moments).world.toWorld := by
  intro moments
  refine ⟨by decide +kernel, fun h => ?_⟩
  have hfile : (runOnceFrom hourly (sampleWorld ∅) moments).world.disk.files
      (sampleRow ∅).storagePath ≠ none := by decide +kernel
  have hgone : (runOnceFrom hourly (sampleWorld ∅) moments).world.metadata.objects.entries = [] := by
    decide +kernel
  obtain ⟨b, k, v, hv, -⟩ := h (str "b") (str "k") (sampleRow ∅) mem_cons_self _ ⟨rfl, rfl⟩ hfile
  obtain ⟨e, he, -⟩ := MemoryState.mem_entries_of_mem_versions hv
  rw [hgone] at he
  exact nomatch he

end S000.Lifecycle
