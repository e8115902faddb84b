import S000.Lifecycle.Guarantees

/-!
# Lifecycle/Races — the worker among the handlers

`RunOnce` collects its candidates first and deletes them later, by key.  Between its turns handlers take
theirs, so what it deletes need not be what it has seen.  The worker's side of it is a guard: when it
deletes the versions of a key, it has listed a version of the key that a rule expires
(`runOnce_guarded`).  If no version of the key has been put since, and none is younger than the one
listed, all that the deletion removes is old enough (`runOnce_removes_old`).
-/

namespace S000.Lifecycle

open List Prog Machine
open Metadata (Bucket ObjectVersion MemoryState BucketDocument)

/-! ## What the worker has seen -/

abbrev WorkerEvent := Event workerCalls Moment

def toldTime (m : Moment) (t : Time) : WorkerEvent := ⟨.now, m, t⟩

def listed (b : Bytes) (m : Moment) (objects : List ObjectVersion) : WorkerEvent :=
  ⟨.store (.listObjects b), m, (.ok objects)⟩

def dropped (b k : Bytes) (m : Moment) (versions : List ObjectVersion) : WorkerEvent :=
  ⟨.store (.deleteAllObjectVersions b k), m,
    ((versions, none))⟩

/-- A version of the key that the rules for its bucket expired at `t`. -/
def ExpiredAt (w : Worker) (lifecycles : AList fun _ : Bytes => BucketDocument) (b k : Bytes) (t : Time)
    (c : ObjectVersion) : Prop :=
  c.bucket = b ∧ c.key = k ∧
    ∃ rules, w.rulesFor (lifecycles.lookup b) = some rules ∧ Worker.expires rules t c = true

/-- The events list a version of the key that had expired before. -/
def Justified (w : Worker) (lifecycles : AList fun _ : Bytes => BucketDocument) (es : List WorkerEvent)
    (b k : Bytes) : Prop :=
  ∃ before m objects behind, es = before ++ listed b m objects :: behind ∧
    ∃ m' t, toldTime m' t ∈ before ∧ ∃ c ∈ objects, ExpiredAt w lifecycles b k t c

/-- The calls of the worker: it drops the rows of a key that it has seen expired, and removes the files
of rows that it has dropped. -/
def workerGuard (w : Worker) (lifecycles : AList fun _ : Bytes => BucketDocument)
    (es : List WorkerEvent) : WorkerCall → Prop
  | .store (.deleteAllObjectVersions b k) => Justified w lifecycles es b k
  | .store (.remove path) =>
    ∃ b k m versions, dropped b k m versions ∈ es ∧ ∃ v ∈ versions, w.path v = path
  | o => o.Resting

/-- The answers to its calls: the lifecycle documents are these, and listed objects are in their
bucket. -/
def workerAnswers (lifecycles : AList fun _ : Bytes => BucketDocument) : (o : WorkerCall) → o.Val → Prop
  | .getBucketLifecycle bucket, (v : Except Metadata.Error BucketDocument) =>
    (∀ cfg, v = .ok cfg → lifecycles.lookup bucket = some cfg) ∧
      (v = .error .notFound → lifecycles.lookup bucket = none)
  | .store (.listObjects bucket), (v : Except Metadata.Error (List ObjectVersion)) =>
    ∀ objects, v = .ok objects → ∀ c ∈ objects, c.bucket = bucket
  | _, _ => True

section Guard

variable {w : Worker} {lifecycles : AList fun _ : Bytes => BucketDocument} {es es' : List WorkerEvent}

theorem Justified.mono {b k : Bytes} (h : Justified w lifecycles es b k) (hes : es <+: es') :
    Justified w lifecycles es' b k := by
  obtain ⟨before, m, objects, behind, rfl, hrest⟩ := h
  obtain ⟨more, rfl⟩ := hes
  exact ⟨before, m, objects, behind ++ more, by rw [append_assoc, cons_append], hrest⟩

/-- The program keeps to the guard, and with its result the events satisfy `Q`. -/
abbrev Keeps {α : Type} (w : Worker) (lifecycles : AList fun _ : Bytes => BucketDocument)
    (Q : List WorkerEvent → α → Prop) (es : List WorkerEvent) (p : WorkerAct α) : Prop :=
  p.Guarded (workerAnswers lifecycles) (workerGuard w lifecycles) Q es

theorem keeps_call {o : WorkerCall} {Q : List WorkerEvent → o.Val → Prop}
    (ho : workerGuard w lifecycles es o)
    (h : ∀ m (v : o.Val), workerAnswers lifecycles o v → Q (es ++ [⟨o, m, v⟩]) v) :
    Keeps w lifecycles Q es (call o) :=
  ⟨ho, h⟩

theorem bucketRules_guarded (bucket : Bytes) :
    Keeps w lifecycles (fun es' rules => es <+: es' ∧
      ∀ r, rules = some r → w.rulesFor (lifecycles.lookup bucket) = some r) es
      (w.bucketRules bucket) := by
  refine guarded_bind.2 (keeps_call trivial
    fun m v hv => ?_)
  have hpre := prefix_append es [⟨.getBucketLifecycle bucket, m, v⟩]
  cases v with
  | ok cfg =>
    refine ⟨hpre, fun r hr => ?_⟩
    rw [hv.1 cfg rfl]
    exact hr
  | error e =>
    cases e with
    | notFound =>
      refine ⟨hpre, fun r hr => ?_⟩
      rw [hv.2 rfl]
      exact hr
    | _ => exact ⟨hpre, nofun⟩

/-- **What the scan of a bucket finds** is justified. -/
theorem scanBucket_guarded {m₀ : Moment} {t : Time} (ht : toldTime m₀ t ∈ es) (bucket : Bucket)
    (report : Report) :
    Keeps w lifecycles (fun es' r => es <+: es' ∧
      ∀ c ∈ r.2, Justified w lifecycles es' c.bucket c.key) es (w.scanBucket t bucket report) := by
  refine guarded_bind.2 ((bucketRules_guarded bucket.name).mono fun es₁ rules h₁ => ?_)
  obtain ⟨hpre₁, hrules⟩ := h₁
  cases rules with
  | none => exact ⟨hpre₁, nofun⟩
  | some rules =>
    refine guarded_ite (fun _ => ⟨hpre₁, nofun⟩) fun _ => ?_
    refine guarded_bind.2 (keeps_call trivial
      fun m v hv => ?_)
    have hpre₂ := prefix_append es₁ [⟨.store (.listObjects bucket.name), m, v⟩]
    cases v with
    | error e => exact ⟨hpre₁.trans hpre₂, nofun⟩
    | ok objects =>
      refine ⟨hpre₁.trans hpre₂, fun c hc => ?_⟩
      obtain ⟨hmem, hexpires⟩ := mem_filter.1 hc
      have hbucket : c.bucket = bucket.name := hv objects rfl c hmem
      rw [hbucket]
      exact ⟨es₁, m, objects, [], rfl, m₀, t, hpre₁.subset ht, c, hmem, hbucket, rfl, rules,
        hrules rules rfl, hexpires⟩

theorem scan_guarded {m₀ : Moment} {t : Time} : ∀ (buckets : List Bucket) (report : Report)
    {es : List WorkerEvent}, toldTime m₀ t ∈ es →
    Keeps w lifecycles (fun es' r => es <+: es' ∧
      ∀ c ∈ r.2, Justified w lifecycles es' c.bucket c.key) es (w.scan t buckets report)
  | [], _, es, _ => ⟨prefix_rfl, nofun⟩
  | bucket :: buckets, report, es, ht => by
    refine guarded_bind.2 ((scanBucket_guarded ht bucket report).mono fun es₁ r h₁ => ?_)
    obtain ⟨hpre₁, hfound⟩ := h₁
    refine guarded_bind.2 ((scan_guarded buckets r.1 (hpre₁.subset ht)).mono fun es₂ r' h₂ => ?_)
    obtain ⟨hpre₂, hrest⟩ := h₂
    refine ⟨hpre₁.trans hpre₂, fun c hc => ?_⟩
    rcases mem_append.1 hc with hc | hc
    · exact (hfound c hc).mono hpre₂
    · exact hrest c hc

/-! ## What it deletes -/

theorem deleteFiles_guarded {b k : Bytes} {m : Moment} {versions : List ObjectVersion} :
    ∀ (vs : List ObjectVersion) (es : List WorkerEvent), dropped b k m versions ∈ es → vs ⊆ versions →
    Keeps w lifecycles (fun es' _ => es <+: es') es (w.deleteFiles vs)
  | [], es, _, _ => prefix_rfl
  | v :: vs, es, hes, hvs => by
    obtain ⟨hv, hvs⟩ := cons_subset.1 hvs
    have hcall : Keeps w lifecycles (fun es' _ => es <+: es') es
        (onStores (Blob.deleteObject w.platform w.blob ⟨v.bucket, v.key, v.versionID⟩)) :=
      ⟨⟨b, k, m, versions, hes, v, hv, rfl⟩, fun _ _ _ => prefix_append es _⟩
    refine guarded_bind.2 (hcall.mono fun es₁ ok h₁ => ?_)
    refine guarded_ite (fun _ => ?_) fun _ => h₁
    exact (deleteFiles_guarded vs es₁ (h₁.subset hes) hvs).mono fun es' _ h' => h₁.trans h'

variable {c : ObjectVersion}

theorem deleteOne_guarded (hc : Justified w lifecycles es c.bucket c.key) :
    Keeps w lifecycles (fun es' _ => es <+: es') es (w.deleteOne c) := by
  refine guarded_bind.2 (keeps_call hc
    fun m v _ => ?_)
  have hpre := prefix_append es
    [⟨.store (.deleteAllObjectVersions c.bucket c.key), m, v⟩]
  obtain ⟨versions, err⟩ := v
  cases err with
  | none =>
    have hmem : dropped c.bucket c.key m versions ∈ es ++
        [⟨.store (.deleteAllObjectVersions c.bucket c.key), m, (versions, none)⟩] :=
      mem_append_right _ mem_cons_self
    refine guarded_bind.2 ((deleteFiles_guarded versions _ hmem (.refl _)).mono
      fun es' ok h' => ?_)
    exact guarded_ite (fun _ => hpre.trans h') fun _ => hpre.trans h'
  | some e => cases e <;> exact hpre

theorem attempt_guarded : ∀ (left : ℕ) (lastErr : Option WorkerError)
    {es : List WorkerEvent}, Justified w lifecycles es c.bucket c.key →
    Keeps w lifecycles (fun es' _ => es <+: es') es (w.attempt c left lastErr)
  | 0, lastErr, es, hc => by
    refine guarded_bind.2 ((deleteOne_guarded hc).mono fun es₁ res h₁ => ?_)
    cases res <;> exact h₁
  | left + 1, lastErr, es, hc => by
    refine guarded_bind.2 ((deleteOne_guarded hc).mono fun es₁ res h₁ => ?_)
    cases res with
    | ok deleted => exact h₁
    | error e =>
      have hagain {es₂ : List WorkerEvent} (hpre : es <+: es₂) :
          Keeps w lifecycles (fun es' _ => es <+: es') es₂ (w.attempt c left (some e)) :=
        (attempt_guarded left (some e) (hc.mono hpre)).mono fun es' _ h' => hpre.trans h'
      refine guarded_ite (fun _ => hagain h₁) fun _ => ?_
      refine guarded_bind.2 (keeps_call trivial fun m (slept : Bool) _ => ?_)
      have hpre {more : List WorkerEvent} : es <+: es₁ ++ more := h₁.trans (prefix_append es₁ more)
      exact guarded_ite (fun _ => hagain hpre) fun _ => hpre

theorem expireBatch_guarded : ∀ (cs : List ObjectVersion) (report : Report) {es : List WorkerEvent},
    (∀ c ∈ cs, Justified w lifecycles es c.bucket c.key) →
    Keeps w lifecycles (fun es' _ => es <+: es') es (w.expireBatch cs report)
  | [], _, es, _ => prefix_rfl
  | c :: cs, report, es, hcs => by
    refine guarded_bind.2 (keeps_call trivial fun m (stopped : Bool) _ => ?_)
    have hpre := prefix_append es [⟨.ctxErr, m, stopped⟩]
    have hgo {es₁ : List WorkerEvent} (hpre : es <+: es₁) (report : Report) :
        Keeps w lifecycles (fun es' _ => es <+: es') es₁ (w.expireBatch cs report) :=
      (expireBatch_guarded cs report fun c' hc' =>
        (hcs c' (mem_cons_of_mem c hc')).mono hpre).mono fun es' _ h' => hpre.trans h'
    refine guarded_ite (fun _ => hpre) fun _ => ?_
    refine guarded_ite (fun _ => hgo hpre report) fun _ => ?_
    refine guarded_bind.2 ((attempt_guarded w.maxRetries none
      ((hcs c mem_cons_self).mono hpre)).mono fun es₁ res h₁ => ?_)
    cases res with
    | error e => exact hgo (hpre.trans h₁) _
    | ok deleted => cases deleted <;> exact hgo (hpre.trans h₁) _

theorem expireBatches_guarded : ∀ (batches : List (List ObjectVersion)) (report : Report)
    {es : List WorkerEvent}, (∀ c ∈ batches.flatten, Justified w lifecycles es c.bucket c.key) →
    Keeps w lifecycles (fun _ _ => True) es (w.expireBatches batches report)
  | [], _, es, _ => trivial
  | batch :: batches, report, es, hcs => by
    rw [flatten_cons, forall_mem_append] at hcs
    refine guarded_bind.2 ((expireBatch_guarded batch report hcs.1).mono fun es₁ r h₁ => ?_)
    obtain ⟨report₁, stopped⟩ := r
    cases stopped with
    | true => trivial
    | false => exact expireBatches_guarded batches report₁ fun c hc => (hcs.2 c hc).mono h₁

/-- **The worker keeps to its guard.** -/
theorem runOnce_guarded : Keeps w lifecycles (fun _ _ => True) [] w.runOnce := by
  refine guarded_bind.2 (keeps_call trivial fun m₁ started _ => ?_)
  refine guarded_bind.2 (keeps_call trivial
    fun m₂ v _ => ?_)
  cases v with
  | error e => trivial
  | ok buckets =>
    refine guarded_bind.2 (keeps_call trivial fun m₃ scanned _ => ?_)
    have hnow : toldTime m₃ scanned ∈ ([] ++ [toldTime m₁ started] ++
        [⟨.listBuckets, m₂, .ok buckets⟩]) ++ [toldTime m₃ scanned] :=
      mem_append_right _ mem_cons_self
    refine guarded_bind.2 ((scan_guarded buckets _ hnow).mono fun es₁ r h₁ => ?_)
    have hcandidates : ∀ c ∈ (Worker.batches w.batchSize r.2.length r.2).flatten,
        Justified w lifecycles es₁ c.bucket c.key := by
      rw [flatten_batches w.batchSize_pos (le_refl _)]
      exact h₁.2
    refine guarded_bind.2 ((expireBatches_guarded _ r.1 hcandidates).mono fun es₂ r' _ => ?_)
    exact guarded_bind.2 (keeps_call trivial fun _ _ _ => trivial)

end Guard

/-! ## Among handlers -/

/-- The worker and handlers, before any of them has made a call; the worker is the first. -/
def among (w : Worker) (a : S3API) (requests : List (Ctx × S3Request)) (W : WorkerWorld) :
    Pool workerCalls Moment WorkerWorld Unit where
  threads := (w.runOnce >>= fun _ => pure ()) ::
    requests.map fun r => onStores (handle a r.1 r.2) >>= fun _ => pure ()
  world := W

abbrev Happened := List (ℕ × WorkerEvent)

/-- The worker has listed `c` as the current version of the key, which had expired before, and `since`
has happened since. -/
def Condemned (w : Worker) (lifecycles : AList fun _ : Bytes => BucketDocument) (events : Happened)
    (b k : Bytes) (c : ObjectVersion) (since : Happened) : Prop :=
  ∃ before m objects, events = before ++ (0, listed b m objects) :: since ∧ c ∈ objects ∧
    ∃ m' t, (0, toldTime m' t) ∈ before ∧ ExpiredAt w lifecycles b k t c

def PutsKey (b k : Bytes) (e : WorkerEvent) : Prop :=
  ∃ v, e.op = .store (.putObjectVersion v) ∧ v.bucket = b ∧ v.key = k

/-- **What the worker relies on**: once it has seen an expired version of a key no version of the key is
put, and the versions it lists are the youngest of their keys.  Bucket names are free of NUL, so that
paths tell keys apart. -/
structure Undisturbed (w : Worker) (lifecycles : AList fun _ : Bytes => BucketDocument)
    (x : Pool workerCalls Moment WorkerWorld Unit) (_ : ℕ) (e : WorkerEvent) : Prop where
  put : ∀ v, e.op = .store (.putObjectVersion v) →
    (∀ c since, ¬ Condemned w lifecycles x.events v.bucket v.key c since) ∧ 0 ∉ v.bucket
  youngest : ∀ b, e.op = .store (.listObjects b) → ∀ k c,
    (x.world.metadata.versions b k).getLast? = some c →
      ∀ v ∈ x.world.metadata.versions b k, v.createdAt ≤ c.createdAt

/-- The version has lost its row or its file. -/
def Lost (W W' : World) (b k : Bytes) (v : ObjectVersion) : Prop :=
  v ∉ W'.metadata.versions b k ∨
    ∃ path, Owns v path ∧ W.disk.files path ≠ none ∧ W'.disk.files path = none

/-- A rule for the bucket expires the version now. -/
def OldEnough (w : Worker) (W : WorkerWorld) (b k : Bytes) (v : ObjectVersion) : Prop :=
  ∃ rules, w.rulesFor (W.lifecycles.lookup b) = some rules ∧
    ∃ rule ∈ rules, rule.pre <+: k ∧ rule.expireAfter ≤ W.clock.sub v.createdAt

/-- No version of the key has been put since the worker has seen an expired one. -/
def NotOverwritten (w : Worker) (lifecycles : AList fun _ : Bytes => BucketDocument) (events : Happened)
    (b k : Bytes) : Prop :=
  ∃ c since, Condemned w lifecycles events b k c since ∧ ∀ e ∈ since, ¬ PutsKey b k e.2

/-- **What a turn of the worker removes** has expired, and has not been overwritten since the scan. -/
def RemovesOld (w : Worker) (x x' : Pool workerCalls Moment WorkerWorld Unit) : Prop :=
  ∀ b k, ∀ v ∈ x.world.metadata.versions b k, Lost x.world.toWorld x'.world.toWorld b k v →
    OldEnough w x'.world b k v ∧ NotOverwritten w x.world.lifecycles x.events b k

section Invariant

variable {w : Worker} {a : S3API} {L : AList fun _ : Bytes => BucketDocument} {W : WorkerWorld}
  {events : Happened} {b k : Bytes}

theorem Condemned.append {since : Happened} (h : Condemned w L events b k c since)
    (more : Happened) : Condemned w L (events ++ more) b k c (since ++ more) := by
  obtain ⟨before, m, objects, rfl, hrest⟩ := h
  exact ⟨before, m, objects, by rw [append_assoc, cons_append], hrest⟩

/-- One more event: the key had been condemned before, or the event is the listing. -/
theorem condemned_concat {e : ℕ × WorkerEvent} {since : Happened}
    (h : Condemned w L (events ++ [e]) b k c since) :
    (∃ since', since = since' ++ [e] ∧ Condemned w L events b k c since') ∨
      since = [] ∧ ∃ m objects t, e = (0, listed b m objects) ∧ c ∈ objects ∧ ExpiredAt w L b k t c := by
  obtain ⟨before, m, objects, heq, hc, m', t, ht, hexpired⟩ := h
  rcases split_concat heq with ⟨rfl, he⟩ | ⟨since', rfl, hevents⟩
  · exact .inr ⟨rfl, m, objects, t, he.symm, hc, hexpired⟩
  · exact .inl ⟨since', rfl, before, m, objects, hevents, hc, m', t, ht, hexpired⟩

theorem Justified.condemned {x : Pool workerCalls Moment WorkerWorld Unit}
    (h : Justified w L (eventsOf x 0) b k) : ∃ c since, Condemned w L x.events b k c since := by
  obtain ⟨before, m, objects, behind, hevents, m', t, ht, c, hc, hexpired⟩ := h
  obtain ⟨before', behind', hsplit, hbefore⟩ := exists_split_of_eventsOf hevents
  exact ⟨c, behind', before', m, objects, hsplit, hc, m', t, hbefore _ ht, hexpired⟩

/-- **The invariant of the turns.** -/
structure Settled (w : Worker) (a : S3API) (L : AList fun _ : Bytes => BucketDocument) (W : WorkerWorld)
    (events : Happened) : Prop where
  lifecycles : W.lifecycles = L
  rows : ∀ b k, ∀ v ∈ W.metadata.versions b k,
    v.bucket = b ∧ v.key = k ∧ RowOk a v ∧ 0 ∉ b
  told : ∀ i m t, (i, toldTime m t) ∈ events → t ≤ W.clock
  condemned : ∀ b k c since, Condemned w L events b k c since →
    (∀ e ∈ since, ¬ PutsKey b k e.2) ∧ ∀ v ∈ W.metadata.versions b k, v.createdAt ≤ c.createdAt
  emptied : ∀ b k m versions, (0, dropped b k m versions) ∈ events →
    W.metadata.versions b k = [] ∧ (∃ c since, Condemned w L events b k c since) ∧
      ∀ v ∈ versions, v.bucket = b ∧ v.key = k ∧ 0 ∉ b

/-! ### One turn -/

variable {x : Pool workerCalls Moment WorkerWorld Unit} {W' : WorkerWorld} {m : Moment} {o : WorkerCall}
  {val : o.Val} {v : ObjectVersion}

section Steps

variable (hstep : surroundings.step W m o = (val, W'))
include hstep

theorem lifecycles_step : W'.lifecycles = W.lifecycles := by
  obtain rfl : (surroundings.step W m o).2 = W' := congrArg Prod.snd hstep
  cases o <;> rfl

theorem clock_step : W'.clock = W.clock + m.elapsed := by
  obtain rfl : (surroundings.step W m o).2 = W' := congrArg Prod.snd hstep
  cases o <;> rfl

theorem clock_le_step : W.clock ≤ W'.clock := by
  rw [clock_step hstep]
  exact le_add_of_nonneg_right (Int.natCast_nonneg _)

theorem row_step (hv : v ∈ W'.metadata.versions b k) :
    (∃ v₀ ∈ W.metadata.versions b k, stripMetadata v₀ = stripMetadata v) ∨
      o = .store (.putObjectVersion v) ∧ v.bucket = b ∧ v.key = k := by
  obtain rfl : (surroundings.step W m o).2 = W' := congrArg Prod.snd hstep
  cases o with
  | store o =>
    refine ((rowChange_step W.toWorld m.fault o b k).origin hv).imp_right ?_
    rintro ⟨rfl, hkey⟩
    exact ⟨rfl, hkey⟩
  | _ => exact .inl ⟨v, hv, rfl⟩

end Steps

variable {versions : List ObjectVersion}

/-- **Rows that are dropped** have been there, and no other is. -/
theorem versions_of_dropped {w : World} {f : Fault} (h : (deletingAll w b k f).1 = (versions, none)) :
    versions = w.metadata.versions b k ∧ (deletingAll w b k f).2.metadata.versions b k = [] := by
  unfold deletingAll MemoryState.deleteAllObjectVersions at h ⊢
  dsimp only at h ⊢
  split_ifs at h ⊢ with hnil
  · cases f <;> cases h
  · cases f <;> cases h
    exact ⟨rfl, MemoryState.versions_eraseVersions.trans (if_pos ⟨rfl, rfl⟩)⟩

theorem Settled.answers (h : Settled w a L W events) (hstep : surroundings.step W m o = (val, W')) :
    workerAnswers L o val := by
  obtain rfl : (surroundings.step W m o).1 = val := congrArg Prod.fst hstep
  unfold workerAnswers
  split
  next bucket =>
    have hlookup := congrArg (AList.lookup bucket) h.lifecycles
    refine ⟨fun cfg hcfg => ?_, fun hnone => ?_⟩
    · have hget : W.getBucketLifecycle bucket = .ok cfg := eq_ok_of_reading hcfg
      rw [← hlookup]
      unfold WorkerWorld.getBucketLifecycle at hget
      split at hget
      next => cases hget
      next cfg' hcfg' => rw [hcfg', Except.ok.inj hget]
    · rw [← hlookup]
      cases hcfg : W.lifecycles.lookup bucket with
      | none => rfl
      | some cfg =>
        have hget : reading m.fault (W.getBucketLifecycle bucket) = .error .notFound := hnone
        rw [WorkerWorld.getBucketLifecycle, hcfg] at hget
        cases hfault : m.fault <;> rw [hfault] at hget <;> cases hget
  next bucket =>
    intro objects hobjects c hc
    obtain rfl : W.metadata.listObjects bucket = objects := Except.ok.inj (eq_ok_of_reading hobjects)
    obtain ⟨key, -, hlast⟩ := MemoryState.mem_listObjects.1 hc
    exact (h.rows bucket key c (mem_of_getLast? hlast)).1
  next => trivial

variable {i : ℕ}

/-- **A turn keeps the invariant.** -/
theorem Settled.turn (h : Settled w a L x.world x.events)
    (hstep : surroundings.step x.world m o = (val, W'))
    (hputs : ∀ v, o = .store (.putObjectVersion v) →
      RowOk a v) (hguard : i = 0 → workerGuard w L (eventsOf x 0) o)
    (hB : Undisturbed w L x i ⟨o, m, val⟩) : Settled w a L W' (x.events ++ [(i, ⟨o, m, val⟩)]) := by
  constructor
  case lifecycles => exact (lifecycles_step hstep).trans h.lifecycles
  case rows =>
    intro b k v hv
    rcases row_step hstep hv with ⟨v₀, hv₀, hstrip⟩ | ⟨rfl, rfl, rfl⟩
    · obtain ⟨hb, hk, hok, hnul⟩ := h.rows b k v₀ hv₀
      have hrow := hok.of_strip hstrip
      simp only [stripMetadata, ObjectVersion.mk.injEq] at hstrip
      exact ⟨hstrip.1 ▸ hb, hstrip.2.1 ▸ hk, hrow, hnul⟩
    · exact ⟨rfl, rfl, hputs v rfl, (hB.put v rfl).2⟩
  case told =>
    intro j m' t ht
    rcases mem_append.1 ht with ht | ht
    · exact (h.told j m' t ht).trans (clock_le_step hstep)
    cases mem_singleton.1 ht
    have ht : t = x.world.clock + m.elapsed := (congrArg Prod.fst hstep).symm
    rw [clock_step hstep, ht]
  case condemned =>
    intro b k c since hc
    rcases condemned_concat hc with ⟨since', rfl, hc'⟩ | ⟨rfl, m', objects, t, he, hmem, hexpired⟩
    · obtain ⟨hputs', hold⟩ := h.condemned b k c since' hc'
      have hno {v : ObjectVersion} (ho : o = .store (.putObjectVersion v)) (hb : v.bucket = b)
          (hk : v.key = k) : False := (hB.put v ho).1 c since' (hb ▸ hk ▸ hc')
      refine ⟨fun e he => ?_, fun v hv => ?_⟩
      · rcases mem_append.1 he with he | he
        · exact hputs' e he
        rw [mem_singleton.1 he]
        rintro ⟨v, hv, hb, hk⟩
        exact hno hv hb hk
      · rcases row_step hstep hv with ⟨v₀, hv₀, hstrip⟩ | ⟨ho, hb, hk⟩
        · have hcreated : (stripMetadata v₀).createdAt = (stripMetadata v).createdAt := by rw [hstrip]
          exact le_of_eq_of_le hcreated.symm (hold v₀ hv₀)
        · exact (hno ho hb hk).elim
    · cases he
      refine ⟨(fun e he => absurd he not_mem_nil), fun v hv => ?_⟩
      obtain ⟨-, hk, -⟩ := hexpired
      have hobjects : objects = x.world.metadata.listObjects b :=
        (Except.ok.inj (eq_ok_of_reading (congrArg Prod.fst hstep))).symm
      rw [hobjects] at hmem
      obtain ⟨key, -, hlast⟩ := MemoryState.mem_listObjects.1 hmem
      obtain ⟨-, hkey, -⟩ := h.rows b key c (mem_of_getLast? hlast)
      obtain rfl : key = k := hkey.symm.trans hk
      obtain rfl : { x.world with clock := x.world.clock + m.elapsed } = W' := congrArg Prod.snd hstep
      exact hB.youngest b rfl key c hlast v hv
  case emptied =>
    intro b k m' versions hd
    rcases mem_append.1 hd with hd | hd
    · obtain ⟨hnil, ⟨c, since, hc⟩, hversions⟩ := h.emptied b k m' versions hd
      refine ⟨?_, ⟨c, _, hc.append _⟩, hversions⟩
      refine eq_nil_iff_forall_not_mem.2 fun v hv => ?_
      rcases row_step hstep hv with ⟨v₀, hv₀, -⟩ | ⟨ho, hb, hk⟩
      · rw [hnil] at hv₀
        cases hv₀
      · exact (hB.put v ho).1 c since (hb ▸ hk ▸ hc)
    · cases mem_singleton.1 hd
      obtain ⟨rfl, hnil⟩ := versions_of_dropped (congrArg Prod.fst hstep)
      obtain rfl : (surroundings.step x.world m (.store (.deleteAllObjectVersions b k))).2 = W' :=
        congrArg Prod.snd hstep
      obtain ⟨c, since, hc⟩ := Justified.condemned (hguard rfl)
      refine ⟨hnil, ⟨c, _, hc.append _⟩, fun v hv => ?_⟩
      obtain ⟨hb, hk, -, hnul⟩ := h.rows b k v hv
      exact ⟨hb, hk, hnul⟩

/-! ### What a turn of the worker removes -/

variable {es : List WorkerEvent}

theorem workerGuard_cases (h : workerGuard w L es o) : o.Resting ∨
    (∃ b k, o = .store (.deleteAllObjectVersions b k) ∧ Justified w L es b k) ∨
      ∃ path, o = .store (.remove path) ∧
        ∃ b k m versions, dropped b k m versions ∈ es ∧ ∃ v ∈ versions, w.path v = path := by
  unfold workerGuard at h
  split at h
  next b k => exact .inr (.inl ⟨b, k, rfl, h⟩)
  next path => exact .inr (.inr ⟨path, rfl, h⟩)
  next => exact .inl h

/-- **The versions of a key that the worker has condemned** are old enough. -/
theorem Settled.oldEnough (h : Settled w a L x.world x.events)
    (hstep : surroundings.step x.world m o = (val, W'))
    (hjust : Justified w L (eventsOf x 0) b k) (hv : v ∈ x.world.metadata.versions b k) :
    OldEnough w W' b k v ∧ NotOverwritten w L x.events b k := by
  obtain ⟨c, since, hc⟩ := hjust.condemned
  obtain ⟨hputs, hold⟩ := h.condemned b k c since hc
  refine ⟨?_, c, since, hc, hputs⟩
  obtain ⟨before, m', objects, hevents, -, m'', t, ht, -, hkey, rules, hrules, hexpires⟩ := hc
  obtain ⟨rule, hrule, hpre, hage⟩ := matchesAnyRule_iff.1 (Bool.and_eq_true_iff.1 hexpires).2
  refine ⟨rules, by rw [lifecycles_step hstep, h.lifecycles, hrules], rule, hrule, hkey ▸ hpre, ?_⟩
  have htold : t ≤ x.world.clock := h.told 0 m'' t (hevents ▸ mem_append_left _ ht)
  exact hage.trans (Time.sub_le_sub (htold.trans (clock_le_step hstep)) (hold v hv))

/-- **A file that the worker removes** is not one of a version that is there. -/
theorem Settled.not_owns (hpaths : w.api.path = a.path)
    (hsha : Function.Injective a.platform.sha256) (h : Settled w a L x.world x.events)
    {b' k' path : Bytes} {r : ObjectVersion} (hd : dropped b' k' m versions ∈ eventsOf x 0)
    (hr : r ∈ versions) (hpath : w.path r = path) (hv : v ∈ x.world.metadata.versions b k) :
    ¬ Owns v path := by
  rintro ⟨hmarker, rfl⟩
  obtain ⟨hnil, -, hversions⟩ := h.emptied b' k' m versions (mem_eventsOf.1 hd)
  obtain ⟨hrb, hrk, hnul'⟩ := hversions r hr
  obtain ⟨hvb, hvk, hok, hnul⟩ := h.rows b k v hv
  have heq : a.path (blobRef r) = a.path (blobRef v) :=
    (congrFun hpaths (blobRef r)).symm.trans (hpath.trans (hok.stored hmarker))
  have hkeys : r.bucket ++ 0 :: r.key = v.bucket ++ 0 :: v.key := (Blob.objectPath_inj hsha heq).1
  rw [hrb, hrk, hvb, hvk] at hkeys
  obtain ⟨rfl, rfl⟩ := Strings.append_cons_inj hnul' hnul hkeys
  rw [hnil] at hv
  exact nomatch hv

theorem Settled.removesOld (hpaths : w.api.path = a.path) (hsha : Function.Injective a.platform.sha256)
    (h : Settled w a L x.world x.events) (hstep : surroundings.step x.world m o = (val, W'))
    (hguard : workerGuard w L (eventsOf x 0) o) (hv : v ∈ x.world.metadata.versions b k)
    (hlost : Lost x.world.toWorld W'.toWorld b k v) :
    OldEnough w W' b k v ∧ NotOverwritten w L x.events b k := by
  have hW' : (surroundings.step x.world m o).2 = W' := congrArg Prod.snd hstep
  rcases workerGuard_cases hguard with
    hrest | ⟨b', k', rfl, hjust⟩ | ⟨path, rfl, b', k', m', vs, hd, r, hr, hp⟩
  · rw [← hW', world_of_resting x.world m hrest] at hlost
    rcases hlost with hgone | ⟨path, -, hfile, hnone⟩
    · exact absurd hv hgone
    · exact absurd hnone hfile
  · suffices hkey : b' = b ∧ k' = k by
      obtain ⟨rfl, rfl⟩ := hkey
      exact h.oldEnough hstep hjust hv
    rw [← hW'] at hlost
    rcases hlost with hgone | ⟨path, -, hfile, hnone⟩
    · have hchange := rowChange_step x.world.toWorld m.fault (.deleteAllObjectVersions b' k') b k
      rcases hchange.of_deleteAll with hsame | hkey
      · exact absurd (hsame ▸ hv) hgone
      · exact hkey
    · have hchange := fileChange_step x.world.toWorld m.fault (.deleteAllObjectVersions b' k') path
      cases hchange.remove_of_none hnone hfile
  · rw [← hW'] at hlost
    rcases hlost with hgone | ⟨path', howns, hfile, hnone⟩
    · have hchange := rowChange_step x.world.toWorld m.fault (.remove path) b k
      exact absurd (hchange.of_remove ▸ hv) hgone
    · have hchange := fileChange_step x.world.toWorld m.fault (.remove path) path'
      cases hchange.remove_of_none hnone hfile
      exact absurd howns (h.not_owns hpaths hsha hd hr hp hv)

/-! ### All turns -/

/-- The calls of the worker, and of the handlers. -/
def crowdGuard (w : Worker) (a : S3API) (L : AList fun _ : Bytes => BucketDocument) :
    ℕ → List WorkerEvent → WorkerCall → Prop
  | 0, es, o => workerGuard w L es o
  | _ + 1, _, o => ∀ v, o = .store (.putObjectVersion v) → RowOk a v

theorem crowdGuard.putsOk (h : crowdGuard w a L i es o)
    (ho : o = .store (.putObjectVersion v)) : RowOk a v := by
  subst ho
  cases i with
  | zero => exact h.elim
  | succ i => exact h v rfl

theorem onStores_guarded {α : Type} {Q : α → Prop} : ∀ {p : Act α} {es : List WorkerEvent},
    p.Only (fun _ _ => True) (PutsOk a) Q →
    (onStores p).Guarded (workerAnswers L) (crowdGuard w a L (i + 1)) (fun _ _ => True) es
  | .ret _, _, _ => trivial
  | .call o k, es, h => by
    refine ⟨?_, fun m v _ => onStores_guarded (h.2 v trivial)⟩
    rintro v ⟨⟩
    exact h.1 v rfl

theorem among_guarded (requests : List (Ctx × S3Request)) {p : WorkerAct Unit}
    (hp : (among w a requests W).threads[i]? = some p) :
    p.Guarded (workerAnswers L) (crowdGuard w a L i) (fun _ _ => True) [] := by
  cases i with
  | zero =>
    cases hp
    exact guarded_bind.2 (runOnce_guarded.mono fun _ _ _ => trivial)
  | succ i =>
    obtain ⟨r, -, rfl⟩ := mem_map.1 (mem_of_getElem? (hp))
    exact guarded_bind.2 ((onStores_guarded (handle_putsOk r.1 r.2)).mono fun _ _ _ => trivial)

theorem settled_start (hW : WellFormed a W.toWorld)
    (hnul : ∀ b k, W.metadata.versions b k ≠ [] → 0 ∉ b) : Settled w a W.lifecycles W [] where
  lifecycles := rfl
  rows b k v hv := by
    obtain ⟨hb, hk⟩ := (hW b k).keyed v hv
    exact ⟨hb, hk, (hW b k).rows v hv, hnul b k (ne_nil_of_mem hv)⟩
  told _ _ _ ht := nomatch ht
  condemned b k c since hc := by
    obtain ⟨before, m, objects, heq, -⟩ := hc
    exact absurd heq.symm (append_ne_nil_of_right_ne_nil _ (cons_ne_nil _ _))
  emptied _ _ _ _ hd := nomatch hd

end Invariant

/-- **In every run of turns**, among any handlers and whatever goes wrong: as long as what the worker
relies on holds, its next turn removes no version that has not expired, nor one of a key that was
overwritten after the scan. -/
theorem runOnce_removes_old (w : Worker) (a : S3API) (hpaths : w.api.path = a.path)
    (hsha : Function.Injective a.platform.sha256) (requests : List (Ctx × S3Request)) (W : WorkerWorld)
    (hW : WellFormed a W.toWorld) (hnul : ∀ b k, W.metadata.versions b k ≠ [] → 0 ∉ b)
    (schedule : List (ℕ × Moment)) (m : Moment)
    (hquiet : surroundings.Meets (Undisturbed w W.lifecycles) (among w a requests W) schedule) :
    let x := surroundings.runPool (among w a requests W) schedule;
    RemovesOld w x (surroundings.turn x 0 m) := by
  intro x
  have hsettled : (∀ i (p : WorkerAct Unit), x.threads[i]? = some p →
      p.Guarded (workerAnswers W.lifecycles) (crowdGuard w a W.lifecycles i) (fun _ _ => True)
        (eventsOf x i)) ∧ Settled w a W.lifecycles x.world x.events :=
    runPool_of_guarded
      (fun x i m o hx hG hB => ⟨hx.answers rfl, hx.turn rfl (fun v => hG.putsOk)
        (fun hi => by subst hi; exact hG) hB⟩)
      (fun i p hp => among_guarded requests hp) (settled_start hW hnul) hquiet
  obtain ⟨hthreads, hx⟩ := hsettled
  intro b k v hv hlost
  unfold turn at hlost ⊢
  split at hlost
  next o k' hnext =>
    obtain ⟨hguard, -⟩ := hthreads 0 _ hnext
    rw [hx.lifecycles]
    exact hx.removesOld hpaths hsha rfl hguard hv hlost
  next =>
    rcases hlost with hgone | ⟨path, -, hfile, hnone⟩
    · exact absurd hv hgone
    · exact absurd hnone hfile

/-- A server whose SHA-256 is the real one on the sample objects, and one-to-one. -/
def expiringAPI : S3API :=
  { sampleAPI with platform := { digestPlatform with
      sha256 := spread Sha256.hash
        [str "b" ++ 0 :: str "k", str "b" ++ 0 :: str "j", Metadata.nullVersion] } }

def expiringWorker : Worker := { hourly with platform := expiringAPI.platform }

def listedKeys : WorkerEvent → List Bytes
  | ⟨.store (.listObjects _), _, (v : Except Metadata.Error (List ObjectVersion))⟩ =>
    v.toOption.elim [] (map ObjectVersion.key)
  | _ => []

/-- What the worker relies on, as far as it can be seen from the keys: no key is put that has been
listed. -/
def PutsUnlisted (x : Pool workerCalls Moment WorkerWorld Unit) (_ : ℕ) (e : WorkerEvent) : Prop :=
  match e.op with
  | .store (.putObjectVersion v) => v.key ∉ x.events.flatMap (listedKeys ·.2) ∧ 0 ∉ v.bucket
  | .store (.listObjects _) => ∀ e ∈ x.world.metadata.objects.entries, e.2.length ≤ 1
  | _ => True

instance (x : Pool workerCalls Moment WorkerWorld Unit) (i : ℕ) (e : WorkerEvent) :
    Decidable (PutsUnlisted x i e) := by
  unfold PutsUnlisted
  split <;> infer_instance

theorem PutsUnlisted.undisturbed {x : Pool workerCalls Moment WorkerWorld Unit} {i : ℕ}
    {e : WorkerEvent} (h : PutsUnlisted x i e) : Undisturbed w L x i e where
  put v hv := by
    rw [PutsUnlisted, hv] at h
    refine ⟨fun c since hc => h.1 ?_, h.2⟩
    obtain ⟨before, m, objects, hevents, hmem, -, -, -, -, hkey, -⟩ := hc
    rw [hevents, ← hkey]
    exact mem_flatMap.2 ⟨_, mem_append_right _ mem_cons_self, mem_map_of_mem hmem⟩
  youngest b hb k c hlast v hv := by
    rw [PutsUnlisted, hb] at h
    obtain ⟨e, he, hkey, -⟩ := MemoryState.mem_entries_of_mem_versions hv
    have hrows := MemoryState.versions_of_mem_entries he
    rw [hkey] at hrows
    obtain ⟨r, hr⟩ := length_eq_one_iff.1 (le_antisymm (h e he) (hrows ▸ length_pos_of_mem hv))
    rw [hrows, hr] at hlast hv
    rw [mem_singleton.1 hv, ← Option.some.inj hlast]
    exact le_refl _

/-- The worker removes an object that has expired, while another one is put. -/
theorem runOnce_removes_old_apart :
    let x := surroundings.runPool (among expiringWorker expiringAPI
        [(sampleCtx 7200000000000, .putObject objectRequest (str "b") (str "j") ⟨str "y", false⟩)]
        (sampleWorld ∅))
      (replicate 5 (0, default) ++ replicate 20 (1, default) ++ [(0, default)]);
    RemovesOld expiringWorker x (surroundings.turn x 0 default) ∧
      (x.world.metadata.versions (str "b") (str "k")).length = 1 ∧
      (surroundings.turn x 0 default).world.metadata.versions (str "b") (str "k") = [] ∧
      ((surroundings.turn x 0 default).world.metadata.versions (str "b") (str "j")).length = 1 := by
  intro x
  refine ⟨?_, by decide +kernel⟩
  refine runOnce_removes_old expiringWorker expiringAPI rfl (spread_sha256_injective (by decide +kernel))
    _ _ (wellFormed_of_entries (by decide +kernel)) (fun b k hne => ?_) _ _
    (Meets.mono (fun _ _ _ h => h.undisturbed)
      (show surroundings.Meets PutsUnlisted _ _ by decide +kernel))
  have hentries : ∀ e ∈ (sampleWorld ∅).metadata.objects.entries, 0 ∉ e.1.1 := by decide +kernel
  obtain ⟨v, hv⟩ := exists_mem_of_ne_nil _ hne
  obtain ⟨e, he, hkey, -⟩ := MemoryState.mem_entries_of_mem_versions hv
  have hb : e.1.1 = b := congrArg Prod.fst hkey
  exact hb ▸ hentries e he

/-- A PUT while the worker is between its scan and its deletions. -/
def overwrite : Ctx × S3Request :=
  (sampleCtx 7200000000000, .putObject objectRequest (str "b") (str "k") ⟨str "y", false⟩)

/-- **The worker deletes what has just been put.** -/
theorem overwritten_object_expired :
    let x := surroundings.runPool (among hourly sampleAPI [overwrite] (sampleWorld ∅))
      (replicate 5 (0, default) ++ replicate 20 (1, default) ++ [(0, default)]);
    ¬ RemovesOld hourly x (surroundings.turn x 0 default) := by
  intro x h
  have hrows : (x.world.metadata.versions (str "b") (str "k")).map ObjectVersion.createdAt =
      [7200000000000] := by decide +kernel
  obtain ⟨v, hv, hcreated⟩ := map_eq_singleton_iff.1 hrows
  have hmem : v ∈ x.world.metadata.versions (str "b") (str "k") := hv ▸ mem_cons_self
  have hlost : v ∉ (surroundings.turn x 0 default).world.metadata.versions (str "b") (str "k") := by
    exact not_mem_nil
  obtain ⟨⟨rules, hrules, rule, hrule, -, hage⟩, -⟩ := h _ _ v hmem (.inl hlost)
  -- the only rule is that of the worker, and the version has just been put
  have hlookup : hourly.rulesFor ((surroundings.turn x 0 default).world.lifecycles.lookup (str "b")) =
      some hourly.rules := by decide +kernel
  obtain rfl := Option.some.inj (hlookup.symm.trans hrules)
  obtain rfl := mem_singleton.1 hrule
  rw [hcreated] at hage
  exact absurd hage (by decide)

end S000.Lifecycle
