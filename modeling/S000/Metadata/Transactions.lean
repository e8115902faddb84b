import S000.Metadata.BucketConfigs
import S000.Metadata.References
import S000.Metadata.Rollback

/-!
# Metadata/Transactions — `RunInTx` against the operations it stands for

`RunInTx` copies the live state, lets a function change the copy in place, and replaces the live state
by it when the function returns.  The copy **shares nothing with the live state**
(`clones_cloneState`), so a function that fails leaves no trace of what it did.

What the calls of a transaction do to the copy is what the operations of the same name do to the live
state, except for one: `memoryTx.DeleteBucket` forgets the notification and replication
configurations of the bucket.
-/

namespace S000.Metadata

open List Machine MemoryState Heap StoreState Cells
open Heap (Cells Slice mapValues)

namespace StoreHeap

variable (spare : ℕ → List ObjectVersion)

/-! ## The copy -/

/-- `append([]ObjectVersion(nil), versions...)`, which is nil if there are none. -/
def copySlice (a : ℕ) (s : Slice) : Slice := if s.length = 0 then {} else ⟨a, s.length⟩

/-- `cloneState`. -/
def cloneState (h : StoreHeap) (r : StateRef) : StoreHeap × StateRef :=
  let objects := copyMap (fun s => read h.arrays s ++ spare s.length) copySlice
    (h.objects.val r.objects) h.arrays
  let parts := copyMap h.partMaps.val (fun a _ => a) (h.parts.val r.parts) h.partMaps
  ({ plain := fun k => (h.plain k).alloc ((h.plain k).val (r.plain k))
     objects := h.objects.alloc objects.1
     arrays := objects.2
     parts := h.parts.alloc parts.1
     partMaps := parts.2 },
    { plain := fun k => (h.plain k).next, objects := h.objects.next, parts := h.parts.next })

variable {h h' : StoreHeap} {r : StateRef}

theorem touches_cloneState : Touches {} h (h.cloneState spare r).1 :=
  ⟨fun _ => changes_alloc, changes_alloc, changes_copyMap, changes_alloc,
    changes_copyMap⟩

theorem lookup_objects_cloneState {k : Bytes × Bytes} {s' : Slice}
    (hs' : ((h.cloneState spare r).1.objects.val (h.cloneState spare r).2.objects).lookup k = some s') :
    ∃ s, (h.objects.val r.objects).lookup k = some s ∧
      s' = copySlice (copyOf (h.objects.val r.objects) h.arrays k) s := by
  rw [show (h.cloneState spare r).1.objects.val (h.cloneState spare r).2.objects = _ from
    val_alloc_self, lookup_copyMap, Option.map_eq_some_iff] at hs'
  obtain ⟨s, hs, rfl⟩ := hs'
  exact ⟨s, hs, rfl⟩

theorem lookup_parts_cloneState {uploadID : Bytes} {a : ℕ}
    (hid : ((h.cloneState spare r).1.parts.val (h.cloneState spare r).2.parts).lookup uploadID =
      some a) :
    ∃ a₀, (h.parts.val r.parts).lookup uploadID = some a₀ ∧
      a = copyOf (h.parts.val r.parts) h.partMaps uploadID := by
  rw [show (h.cloneState spare r).1.parts.val (h.cloneState spare r).2.parts = _ from
    val_alloc_self, lookup_copyMap, Option.map_eq_some_iff] at hid
  obtain ⟨a₀, hid, rfl⟩ := hid
  exact ⟨a₀, hid, rfl⟩

theorem array_copySlice {a : ℕ} {s : Slice} (hne : (copySlice a s).array ≠ 0) :
    (copySlice a s).array = a := by
  unfold copySlice at hne ⊢
  split_ifs at hne ⊢
  · exact absurd rfl hne
  · rfl

theorem nilOk_cloneState (ho : h.Owned r) : NilOk (h.cloneState spare r).1.arrays where
  next_pos := ho.nilOk.next_pos.trans_le (touches_cloneState spare).arrays.next_le
  val_zero := by rw [(touches_cloneState spare).arrays.val_eq 0 ho.nilOk.next_pos id, ho.nilOk.val_zero]

/-- **The copy owns what it refers to.** -/
theorem owned_cloneState (ho : h.Owned r) :
    (h.cloneState spare r).1.Owned (h.cloneState spare r).2 := by
  constructor
  case plain_lt => exact fun k => Nat.lt_succ_self _
  case objects_lt => exact Nat.lt_succ_self _
  case parts_lt => exact Nat.lt_succ_self _
  case nilOk => exact nilOk_cloneState spare ho
  case slices_ok =>
    intro k s' hs'
    obtain ⟨s, hs, rfl⟩ := lookup_objects_cloneState spare hs'
    unfold copySlice
    split_ifs
    · exact ⟨(nilOk_cloneState spare ho).next_pos, Nat.zero_le _⟩
    have hval : (h.cloneState spare r).1.arrays.val _ = _ := val_copyOf hs
    refine ⟨copyOf_lt hs, ?_⟩
    rw [hval, length_append, length_read (ho.slices_ok k s hs)]
    exact Nat.le_add_right _ _
  case slices_inj =>
    intro k k' s s' hs hs' heq hne
    obtain ⟨s₀, hs₀, rfl⟩ := lookup_objects_cloneState spare hs
    obtain ⟨s₀', -, rfl⟩ := lookup_objects_cloneState spare hs'
    have hne' := heq ▸ hne
    rw [array_copySlice hne, array_copySlice hne'] at heq
    exact copyOf_inj hs₀ heq
  case parts_lt' =>
    rintro a ⟨uploadID, hid⟩
    obtain ⟨a₀, hid₀, rfl⟩ := lookup_parts_cloneState spare hid
    exact copyOf_lt hid₀
  case parts_inj =>
    intro uploadID uploadID' a hid hid'
    obtain ⟨a₀, hid₀, rfl⟩ := lookup_parts_cloneState spare hid
    obtain ⟨a₀', -, heq⟩ := lookup_parts_cloneState spare hid'
    exact copyOf_inj hid₀ heq

/-- **The copy shares no map or slice with what was copied.** -/
theorem separate_cloneState (ho : h.Owned r) :
    (h.cloneState spare r).1.Separate (h.cloneState spare r).2 r := by
  have havoids : Avoids {} h r := ⟨fun _ => id, id, id, fun _ _ => id, fun _ _ => id⟩
  constructor
  case plain => exact fun k => (ho.plain_lt k).ne
  case objects => exact ho.objects_lt.ne
  case parts => exact ho.parts_lt.ne
  case arrays =>
    rintro a ha ⟨hne, k, s', hs', rfl⟩
    rw [arraysOf_eq_of_touches (touches_cloneState spare) ho havoids] at ha
    obtain ⟨s, -, rfl⟩ := lookup_objects_cloneState spare hs'
    rw [array_copySlice hne] at ha
    exact absurd (ho.arrays_lt ha) (not_lt.2 le_copyOf)
  case partMaps =>
    rintro a ha ⟨uploadID, hid⟩
    rw [partMapsOf_eq_of_touches (touches_cloneState spare) ho havoids] at ha
    obtain ⟨a₀, -, rfl⟩ := lookup_parts_cloneState spare hid
    exact absurd (ho.parts_lt' _ ha) (not_lt.2 le_copyOf)

/-- **The copy stands for the same state.** -/
theorem view_cloneState (ho : h.Owned r) :
    (h.cloneState spare r).1.view (h.cloneState spare r).2 = h.view r := by
  have hplain (k : MapKind) : ((h.cloneState spare r).1.plain k).val
      ((h.cloneState spare r).2.plain k) = (h.plain k).val (r.plain k) := val_alloc_self
  have hobjects : mapValues (read (h.cloneState spare r).1.arrays)
      ((h.cloneState spare r).1.objects.val (h.cloneState spare r).2.objects) =
        mapValues (read h.arrays) (h.objects.val r.objects) := by
    rw [show (h.cloneState spare r).1.objects.val (h.cloneState spare r).2.objects = _ from
      val_alloc_self]
    refine mapValues_copyMap fun a k s hs hval => ?_
    have hlength := length_read (ho.slices_ok k s hs)
    unfold copySlice
    split_ifs with hzero
    · rw [hzero, length_eq_zero_iff] at hlength
      rw [hlength]
      exact take_zero
    · change take s.length ((h.cloneState spare r).1.arrays.val a) = _
      rw [show (h.cloneState spare r).1.arrays.val a = _ from hval]
      exact take_left' hlength
  have hparts : mapValues (h.cloneState spare r).1.partMaps.val
      ((h.cloneState spare r).1.parts.val (h.cloneState spare r).2.parts) =
        mapValues h.partMaps.val (h.parts.val r.parts) := by
    rw [show (h.cloneState spare r).1.parts.val (h.cloneState spare r).2.parts = _ from
      val_alloc_self]
    exact mapValues_copyMap fun a k v hk hval => hval
  unfold view
  simp only [hplain, hobjects, hparts]

/-! ## Transactions -/

/-- `memoryTx`. -/
def memoryTx (h : StoreHeap) (r : StateRef) : TxCall → Except Error Unit × StoreHeap
  | .createBucket b => onMaps (·.lift (·.createBucket b)) h r
  | .deleteBucket bucket => onMaps (·.txDeleteBucket bucket) h r
  | .updateBucketVersioning bucket status =>
    onMaps (·.lift (·.updateBucketVersioning bucket status)) h r
  | .putObjectVersion v => (.ok (), h.putObjectVersion spare r v)
  | .deleteObject bucket key versionID time =>
    (.ok (), h.putObjectVersion spare r (deleteMarker bucket key versionID time))
  | .createMultipartUpload u => onMaps (·.lift (·.createMultipartUpload u)) h r
  | .deleteMultipartUpload uploadID => h.deleteMultipartUpload r uploadID
  | .upsertMultipartPart p => h.upsertMultipartPart r p
  | .upsertCredentialRecord rec => onMaps (fun st => (.ok (), st.upsertCredentialRecord rec)) h r

def transaction (r : StateRef) : Machine txCalls Unit StoreHeap where
  step h _ c := h.memoryTx spare r c

/-- `RunInTx`, up to the save: `s.st = clone` once the function has returned. -/
def runInTx (h : StoreHeap) (r : StateRef) (fn : TxFunc) : Except Error Unit × StoreHeap × StateRef :=
  let clone := h.cloneState spare r
  match (transaction spare clone.2).eval fn clone.1 with
  | (.error e, h') => (.error e, h', r)
  | (.ok (), h') => (.ok (), h', clone.2)

theorem toMemoryState_eraseConfigs (bucket : Bytes) : ∀ (kinds : List ConfigKind) (st : StoreState),
    (st.eraseConfigs kinds bucket).toMemoryState = st.toMemoryState
  | [], _ => rfl
  | kind :: kinds, st => toMemoryState_eraseConfigs bucket kinds (st.eraseConfig kind bucket)

theorem plain_dropBucket (kinds : List ConfigKind) (bucket : Bytes) :
    Plain (·.dropBucket kinds bucket) := by
  intro st
  unfold dropBucket
  dsimp only
  split_ifs
  · rw [toMemoryState_eraseConfigs]
    exact ⟨rfl, rfl⟩
  · exact ⟨rfl, rfl⟩

/-- **Every call of a transaction** does to its record what it should do to the state. -/
theorem matches_memoryTx (ho : h.Owned r) (c : TxCall) :
    Matches r h (h.memoryTx spare r c) ((h.view r).memoryTx c) := by
  cases c with
  | createBucket b =>
    refine matches_onMaps (f := (·.lift (·.createBucket b))) (fun st => ?_) ho
    unfold lift createBucket
    dsimp only
    split_ifs <;> exact ⟨rfl, rfl⟩
  | deleteBucket bucket => exact matches_onMaps (plain_dropBucket _ bucket) ho
  | updateBucketVersioning bucket status =>
    refine matches_onMaps (f := (·.lift (·.updateBucketVersioning bucket status))) (fun st => ?_) ho
    unfold lift updateBucketVersioning
    dsimp only
    cases st.buckets.lookup bucket <;> exact ⟨rfl, rfl⟩
  | putObjectVersion v => exact ⟨rfl, refines_putObjectVersion ho v⟩
  | deleteObject bucket key versionID time => exact ⟨rfl, refines_putObjectVersion ho _⟩
  | createMultipartUpload u =>
    refine matches_onMaps (f := (·.lift (·.createMultipartUpload u))) (fun st => ?_) ho
    unfold lift createMultipartUpload
    dsimp only
    split_ifs <;> exact ⟨rfl, rfl⟩
  | deleteMultipartUpload uploadID => exact matches_deleteMultipartUpload ho uploadID
  | upsertMultipartPart p => exact matches_upsertMultipartPart ho p
  | upsertCredentialRecord rec => exact ⟨rfl, refines_writePlain ho rfl rfl⟩

/-- …and so does a whole function. -/
theorem matches_transaction (ho : h.Owned r) (fn : TxFunc) :
    Matches r h ((transaction spare r).eval fn h) (StoreState.transaction.eval fn (h.view r)) := by
  have hsim := eval_simulates (M := transaction spare r) (N := StoreState.transaction)
    (R := Refines r h) (fun h' st c hr => ?_) fn h (h.view r) (.refl ho)
  · exact ⟨hsim.1, hsim.2⟩
  have hstep := matches_memoryTx spare hr.owned c
  rw [hr.view_eq] at hstep
  exact ⟨hstep.val_eq, hr.trans hstep.refines⟩

/-- What an operation leaves: its answer, the heap and the record of the store. -/
structure Leaves {α : Type} (x : α × StoreHeap × StateRef) (y : α × StoreState) : Prop where
  val_eq : x.1 = y.1
  owned : x.2.1.Owned x.2.2
  view_eq : x.2.1.view x.2.2 = y.2

/-- **`RunInTx` with a copy in memory** is `RunInTx` with a copy of the state: the live record still
stands for the old state when the function fails. -/
theorem leaves_runInTx (ho : h.Owned r) (fn : TxFunc) :
    Leaves (h.runInTx spare r fn) ((h.view r).runInTx fn) := by
  have hrun := matches_transaction spare (owned_cloneState spare ho) fn
  rw [view_cloneState spare ho] at hrun
  unfold runInTx StoreState.runInTx
  dsimp only
  generalize (transaction spare (h.cloneState spare r).2).eval fn (h.cloneState spare r).1 = x at hrun ⊢
  generalize StoreState.transaction.eval fn (h.view r) = y at hrun ⊢
  obtain ⟨res, h'⟩ := x
  obtain ⟨res', st⟩ := y
  obtain rfl : res = res' := hrun.val_eq
  have hwithin := hrun.refines.within
  have hnil := hrun.refines.owned.nilOk
  -- the live record is still there, untouched, on the heap of the copy
  have havoids : Avoids {} h r := ⟨fun _ => id, id, id, fun _ _ => id, fun _ _ => id⟩
  have ho' := owned_of_touches (touches_cloneState spare) ho havoids (nilOk_cloneState spare ho)
  have hview := view_eq_of_touches (touches_cloneState spare) ho havoids (nilOk_cloneState spare ho)
  have hsep := separate_cloneState spare ho
  cases res with
  | error e =>
    refine ⟨rfl, owned_of_touches hwithin.toTouches ho' hsep hnil, ?_⟩
    exact (view_eq_of_touches hwithin.toTouches ho' hsep hnil).trans hview
  | ok _ => exact ⟨rfl, hrun.refines.owned, hrun.refines.view_eq⟩

/-! ## All operations -/

/-- A method of the store that leaves the record where it is. -/
def keep {α : Type} (r : StateRef) (x : α × StoreHeap) : α × StoreHeap × StateRef := (x.1, x.2, r)

def mutate (h : StoreHeap) (r : StateRef) :
    (op : StoreOp) → Except Error op.Val × StoreHeap × StateRef
  | .createBucket b => keep r (onMaps (·.lift (·.createBucket b)) h r)
  | .updateBucketVersioning bucket status =>
    keep r (onMaps (·.lift (·.updateBucketVersioning bucket status)) h r)
  | .deleteBucket bucket => keep r (onMaps (·.deleteBucket bucket) h r)
  | .putConfig kind cfg => keep r (onMaps (·.putConfig kind cfg) h r)
  | .deleteConfig kind bucket => keep r (onMaps (·.deleteConfig kind bucket) h r)
  | .putObjectTagging cfg => keep r (onMaps (fun st => (.ok (), st.putObjectTagging cfg)) h r)
  | .deleteObjectTagging bucket key versionID =>
    keep r (onMaps (·.deleteObjectTagging bucket key versionID) h r)
  | .putObjectVersion v => keep r (.ok (), h.putObjectVersion spare r v)
  | .deleteObject bucket key versionID time =>
    keep r (.ok (), h.putObjectVersion spare r (deleteMarker bucket key versionID time))
  | .updateObjectMetadata bucket key versionID metadata =>
    keep r (h.updateObjectMetadata r bucket key versionID metadata)
  | .deleteObjectVersion bucket key versionID =>
    keep r (h.deleteObjectVersion r bucket key versionID)
  | .deleteAllObjectVersions bucket key => keep r (h.deleteAllObjectVersions r bucket key)
  | .createMultipartUpload u => keep r (onMaps (·.lift (·.createMultipartUpload u)) h r)
  | .deleteMultipartUpload uploadID => keep r (h.deleteMultipartUpload r uploadID)
  | .upsertMultipartPart p => keep r (h.upsertMultipartPart r p)
  | .upsertCredentialRecord rec =>
    keep r (onMaps (fun st => (.ok (), st.upsertCredentialRecord rec)) h r)
  | .runInTx fn => h.runInTx spare r fn
  | .repairConsistency => keep r (.ok (h.repairState r).1, (h.repairState r).2)

variable {spare}

theorem Matches.leaves {α : Type} {x : α × StoreHeap} {y : α × StoreState} (hm : Matches r h x y) :
    Leaves (keep r x) y :=
  ⟨hm.val_eq, hm.refines.owned, hm.refines.view_eq⟩

theorem Matches.ok {α : Type} {x : α × StoreHeap} {y : α × StoreState} (hm : Matches r h x y) :
    Matches r h ((.ok x.1 : Except Error α), x.2) (.ok y.1, y.2) :=
  ⟨congrArg Except.ok hm.val_eq, hm.refines⟩

/-- **The store in memory refines the store of states**: every operation returns what it should and
leaves a record of what it should. -/
theorem leaves_mutate (ho : h.Owned r) (op : StoreOp) :
    Leaves (h.mutate spare r op) ((h.view r).mutate op) := by
  cases op with
  | createBucket b => exact (matches_memoryTx spare ho (.createBucket b)).leaves
  | updateBucketVersioning bucket status =>
    exact (matches_memoryTx spare ho (.updateBucketVersioning bucket status)).leaves
  | deleteBucket bucket => exact (matches_onMaps (plain_dropBucket _ bucket) ho).leaves
  | putConfig kind cfg =>
    refine (matches_onMaps (f := (·.putConfig kind cfg)) (fun st => ?_) ho).leaves
    unfold putConfig
    dsimp only
    split_ifs <;> exact ⟨rfl, rfl⟩
  | deleteConfig kind bucket =>
    refine (matches_onMaps (f := (·.deleteConfig kind bucket)) (fun st => ?_) ho).leaves
    unfold deleteConfig
    dsimp only
    split_ifs <;> exact ⟨rfl, rfl⟩
  | putObjectTagging cfg => exact Matches.leaves ⟨rfl, refines_writePlain ho rfl rfl⟩
  | deleteObjectTagging bucket key versionID =>
    refine (matches_onMaps (f := (·.deleteObjectTagging bucket key versionID)) (fun st => ?_) ho).leaves
    unfold deleteObjectTagging
    dsimp only
    split_ifs <;> exact ⟨rfl, rfl⟩
  | putObjectVersion v => exact (matches_memoryTx spare ho (.putObjectVersion v)).leaves
  | deleteObject bucket key versionID time =>
    exact (matches_memoryTx spare ho (.deleteObject bucket key versionID time)).leaves
  | updateObjectMetadata bucket key versionID metadata =>
    exact (matches_updateObjectMetadata ho bucket key versionID metadata).leaves
  | deleteObjectVersion bucket key versionID =>
    exact (matches_deleteObjectVersion ho bucket key versionID).leaves
  | deleteAllObjectVersions bucket key => exact (matches_deleteAllObjectVersions ho bucket key).leaves
  | createMultipartUpload u => exact (matches_memoryTx spare ho (.createMultipartUpload u)).leaves
  | deleteMultipartUpload uploadID => exact (matches_deleteMultipartUpload ho uploadID).leaves
  | upsertMultipartPart p => exact (matches_upsertMultipartPart ho p).leaves
  | upsertCredentialRecord rec => exact (matches_memoryTx spare ho (.upsertCredentialRecord rec)).leaves
  | runInTx fn => exact leaves_runInTx spare ho fn
  | repairConsistency =>
    exact (matches_repairState ho).ok.leaves

end StoreHeap

/-! ## The store -/

/-- `memoryBackedStore` in memory: the heap, the record `st`, and that the record owns what it refers
to. -/
structure LiveStore where
  heap : StoreHeap
  st : StateRef
  owned : heap.Owned st

namespace LiveStore

variable (spare : ℕ → List ObjectVersion)

def state (s : LiveStore) : StoreState := s.heap.view s.st

def mutate (s : LiveStore) (op : StoreOp) : Except Error op.Val × LiveStore :=
  let x := s.heap.mutate spare s.st op
  (x.1, ⟨x.2.1, x.2.2, (StoreHeap.leaves_mutate s.owned op).owned⟩)

/-- An operation; `saved` says whether `persister.Save` succeeds if it is called. -/
def call (s : LiveStore) (op : StoreOp) (saved : Bool) : Except Error op.Val × LiveStore :=
  let x := s.mutate spare op
  match x.1 with
  | .error e => (.error e, x.2)
  | .ok v => (if op.saves v ∧ saved = false then .error .failed else .ok v, x.2)

/-- The operations of a history, one after the other, each with what becomes of its save. -/
def after (s : LiveStore) (history : List (StoreOp × Bool)) : LiveStore :=
  history.foldl (fun s x => (s.call spare x.1 x.2).2) s

def answer (s : LiveStore) (q : Query) : Except Error q.Val := s.state.answer q

/-- The store before the first operation. -/
def empty : LiveStore where
  heap :=
    { plain := fun k => ⟨fun _ => ({} : StoreState).plainMap k, 1⟩
      objects := ⟨fun _ => ∅, 1⟩
      arrays := ⟨fun _ => [], 1⟩
      parts := ⟨fun _ => ∅, 1⟩
      partMaps := ⟨fun _ => ∅, 0⟩ }
  st := ⟨fun _ => 0, 0, 0⟩
  owned := by
    refine ⟨fun _ => one_pos, one_pos, one_pos, ⟨one_pos, rfl⟩, ?_, ?_, ?_, ?_⟩
    · exact nofun
    · exact fun k k' s s' hs => nomatch hs
    · rintro a ⟨uploadID, hid⟩
      exact nomatch hid
    · exact fun uploadID uploadID' a hid => nomatch hid

theorem fst_mutate (s : LiveStore) (op : StoreOp) : (s.mutate spare op).1 = (s.state.mutate op).1 :=
  (StoreHeap.leaves_mutate s.owned op).val_eq

theorem state_mutate (s : LiveStore) (op : StoreOp) : (s.mutate spare op).2.state = (s.state.mutate op).2 :=
  (StoreHeap.leaves_mutate s.owned op).view_eq

theorem state_call (s : LiveStore) (op : StoreOp) (saved : Bool) :
    (s.call spare op saved).2.state = (s.state.mutate op).2 := by
  rw [← state_mutate spare]
  unfold call
  dsimp only
  cases (s.mutate spare op).1 <;> rfl

theorem state_after : ∀ (history : List (StoreOp × Bool)) (s : LiveStore),
    (s.after spare history).state = history.foldl (fun st x => (st.mutate x.1).2) s.state
  | [], _ => rfl
  | (op, saved) :: history, s => by
    unfold after
    rw [foldl_cons, foldl_cons, ← state_call spare s op saved]
    exact state_after history _

/-- **The store in memory answers and acts as the store of values**, after any history. -/
theorem mutate_after (s : LiveStore) (history : List (StoreOp × Bool)) (op : StoreOp) :
    let st := history.foldl (fun st x => (st.mutate x.1).2) s.state
    let x := (s.after spare history).mutate spare op
    x.1 = (st.mutate op).1 ∧ x.2.state = (st.mutate op).2 := by
  simp only [fst_mutate, state_mutate, state_after, and_self]

end LiveStore

/-! ## The calls of a transaction and the operations of the same name -/

/-- The operation of the same name. -/
def TxCall.direct : TxCall → StoreOp
  | .createBucket b => .createBucket b
  | .deleteBucket bucket => .deleteBucket bucket
  | .updateBucketVersioning bucket status => .updateBucketVersioning bucket status
  | .putObjectVersion v => .putObjectVersion v
  | .deleteObject bucket key versionID time => .deleteObject bucket key versionID time
  | .createMultipartUpload u => .createMultipartUpload u
  | .deleteMultipartUpload uploadID => .deleteMultipartUpload uploadID
  | .upsertMultipartPart p => .upsertMultipartPart p
  | .upsertCredentialRecord rec => .upsertCredentialRecord rec

/-- The function that makes some calls and returns the first error. -/
def TxFunc.inOrder : List TxCall → TxFunc
  | [] => pure (.ok ())
  | c :: calls => do
    match ← .op c with
    | .error e => pure (.error e)
    | .ok () => inOrder calls

namespace StoreState

variable {st st' : StoreState} {kind : ConfigKind} {bucket : Bytes}

theorem eval_inOrder_cons (c : TxCall) (calls : List TxCall) (st : StoreState) :
    transaction.eval (TxFunc.inOrder (c :: calls)) st = match st.memoryTx c with
      | (.error e, st') => (.error e, st')
      | (.ok (), st') => transaction.eval (TxFunc.inOrder calls) st' := by
  have hstep : transaction.step st default c = st.memoryTx c := rfl
  rw [TxFunc.inOrder, eval_bind, eval_op, hstep]
  obtain ⟨res, st'⟩ := st.memoryTx c
  cases res <;> rfl

variable {calls : List TxCall}

theorem ok_of_eval_inOrder {c : TxCall}
    (h : (transaction.eval (TxFunc.inOrder (c :: calls)) st).1 = .ok ()) :
    (st.memoryTx c).1 = .ok () ∧ transaction.eval (TxFunc.inOrder (c :: calls)) st =
      transaction.eval (TxFunc.inOrder calls) (st.memoryTx c).2 := by
  rw [eval_inOrder_cons] at h ⊢
  generalize st.memoryTx c = x at h ⊢
  obtain ⟨res, st'⟩ := x
  cases res with
  | error e => cases h
  | ok u => exact ⟨rfl, rfl⟩

theorem runInTx_of_ok {fn : TxFunc} (h : (st.runInTx fn).1 = .ok ()) :
    (transaction.eval fn st).1 = .ok () ∧ (st.runInTx fn).2 = (transaction.eval fn st).2 := by
  unfold runInTx at h ⊢
  generalize transaction.eval fn st = x at h ⊢
  obtain ⟨res, copy⟩ := x
  cases res with
  | error e => cases h
  | ok u => exact ⟨rfl, rfl⟩

def runDirect (st : StoreState) (calls : List TxCall) : StoreState :=
  calls.foldl (fun st c => (st.mutate c.direct).2) st

/-- The two configurations that `memoryTx.DeleteBucket` forgets. -/
def Forgotten (kind : ConfigKind) : Prop := kind = .notification ∨ kind = .replication

theorem configs_eraseConfigs {kinds : List ConfigKind} (hkind : kind ∉ kinds) :
    (st.eraseConfigs kinds bucket).configs kind = st.configs kind := by
  induction kinds generalizing st with
  | nil => rfl
  | cons kind' kinds ih =>
    rw [mem_cons, not_or] at hkind
    exact (ih hkind.2).trans (Function.update_of_ne hkind.1 _ _)

theorem configs_memoryTx (hkind : Forgotten kind) (c : TxCall) :
    (st.memoryTx c).2.configs kind = st.configs kind := by
  cases c with
  | deleteBucket bucket =>
    rw [memoryTx, txDeleteBucket, dropBucket]
    split_ifs
    · rw [configs_eraseConfigs]
      rcases hkind with rfl | rfl <;> decide
    · rfl
  | _ => rfl

theorem eraseConfig_of_absent (h : st.Absent kind bucket) : st.eraseConfig kind bucket = st := by
  have herase : (st.configs kind).erase bucket = st.configs kind :=
    AList.ext (kerase_of_notMem_keys (AList.lookup_eq_none.1 h))
  rw [eraseConfig, herase, Function.update_eq_self]

/-- **Where there is nothing to forget**, the two deletions of a bucket are the same. -/
theorem deleteBucket_eq_txDeleteBucket (hnotification : st.Absent .notification bucket)
    (hreplication : st.Absent .replication bucket) :
    (st.deleteBucket bucket).2 = (st.txDeleteBucket bucket).2 := by
  have hnotification' : (st.txDeleteBucket bucket).2.Absent .notification bucket :=
    hnotification.dropBucket
  have hreplication' : (st.txDeleteBucket bucket).2.Absent .replication bucket :=
    hreplication.dropBucket
  by_cases hmem : bucket ∈ st.buckets
  · have hsplit : (st.deleteBucket bucket).2 =
        ((st.txDeleteBucket bucket).2.eraseConfig .notification bucket).eraseConfig .replication
          bucket := by
      rw [deleteBucket, txDeleteBucket, dropBucket, dropBucket, if_pos hmem, if_pos hmem]
      rfl
    rw [hsplit, eraseConfig_of_absent hnotification', eraseConfig_of_absent hreplication']
  · rw [deleteBucket, txDeleteBucket, dropBucket, dropBucket, if_neg hmem, if_neg hmem]

theorem mutate_direct {c : TxCall} (h : ∀ bucket, c = .deleteBucket bucket →
    st.Absent .notification bucket ∧ st.Absent .replication bucket) :
    (st.mutate c.direct).2 = (st.memoryTx c).2 := by
  cases c with
  | deleteBucket bucket =>
    obtain ⟨hnotification, hreplication⟩ := h bucket rfl
    exact deleteBucket_eq_txDeleteBucket hnotification hreplication
  | _ => rfl

theorem runDirect_eq (h : ∀ bucket, .deleteBucket bucket ∈ calls →
    st.Absent .notification bucket ∧ st.Absent .replication bucket)
    (hok : (transaction.eval (TxFunc.inOrder calls) st).1 = .ok ()) :
    st.runDirect calls = (transaction.eval (TxFunc.inOrder calls) st).2 := by
  induction calls generalizing st with
  | nil => rfl
  | cons c calls ih =>
    obtain ⟨-, heval⟩ := ok_of_eval_inOrder hok
    have hfirst : (st.mutate c.direct).2 = (st.memoryTx c).2 :=
      mutate_direct fun bucket hc => h bucket (hc ▸ mem_cons_self)
    rw [heval] at hok ⊢
    rw [runDirect, foldl_cons, hfirst]
    refine ih (fun bucket hmem => ?_) hok
    obtain ⟨hnotification, hreplication⟩ := h bucket (mem_cons_of_mem c hmem)
    exact ⟨hnotification.memoryTx c, hreplication.memoryTx c⟩

/-! ### What the direct deletion leaves -/

theorem toMemoryState_mutate_direct (heq : st.toMemoryState = st'.toMemoryState) (c : TxCall) :
    (st.memoryTx c).2.toMemoryState = (st'.mutate c.direct).2.toMemoryState := by
  have hlift (f : MemoryState → Except Error Unit × MemoryState) :
      (st.lift f).2.toMemoryState = (st'.lift f).2.toMemoryState := by
    rw [lift, lift, heq]
  cases c with
  | deleteBucket bucket =>
    change (st.dropBucket _ bucket).2.toMemoryState = (st'.dropBucket _ bucket).2.toMemoryState
    rw [dropBucket, dropBucket, heq]
    split_ifs
    · rw [StoreHeap.toMemoryState_eraseConfigs, StoreHeap.toMemoryState_eraseConfigs]
    · exact heq
  | upsertCredentialRecord rec => exact heq
  | _ => exact hlift _

theorem not_putsConfig_direct (c : TxCall) : ¬ c.direct.PutsConfig kind bucket := by
  cases c <;> exact id

theorem Absent.runDirect (h : st.Absent kind bucket) (calls : List TxCall) :
    (st.runDirect calls).Absent kind bucket :=
  foldlRecOn (motive := fun st : StoreState => st.Absent kind bucket) calls _ h
    fun _ h c _ => h.mutate (not_putsConfig_direct c)

/-- **A bucket that is deleted directly** has none of them afterwards. -/
theorem absent_runDirect (hkind : Forgotten kind) (hmem : .deleteBucket bucket ∈ calls)
    (heq : st.toMemoryState = st'.toMemoryState)
    (hok : (transaction.eval (TxFunc.inOrder calls) st).1 = .ok ()) :
    (st'.runDirect calls).Absent kind bucket := by
  induction calls generalizing st st' with
  | nil => exact nomatch hmem
  | cons c calls ih =>
    obtain ⟨hfirst, heval⟩ := ok_of_eval_inOrder hok
    rw [heval] at hok
    rcases mem_cons.1 hmem with rfl | hmem
    · have hexists : bucket ∈ st'.buckets := by
        rw [memoryTx, txDeleteBucket, dropBucket, heq] at hfirst
        split_ifs at hfirst with hexists
        exact hexists
      have hdeleted : (st'.deleteBucket bucket).1 = .ok () := by
        rw [deleteBucket, dropBucket, if_pos hexists]
      have habsent : (st'.deleteBucket bucket).2.Absent kind bucket := by
        refine (absent_dropBucket_iff hdeleted).2 (.inl ?_)
        rcases hkind with rfl | rfl <;> decide
      exact habsent.runDirect calls
    · exact ih hmem (toMemoryState_mutate_direct heq c) hok

/-- **The copy of a transaction and the state of the direct operations** answer alike exactly when
there was nothing to forget. -/
theorem answer_inOrder_iff (hok : (transaction.eval (TxFunc.inOrder calls) st).1 = .ok ()) :
    (∀ q, (transaction.eval (TxFunc.inOrder calls) st).2.answer q = (st.runDirect calls).answer q) ↔
      ∀ bucket, .deleteBucket bucket ∈ calls →
        st.Absent .notification bucket ∧ st.Absent .replication bucket := by
  refine ⟨fun hanswer bucket hmem => ?_, fun h q => by rw [runDirect_eq h hok]⟩
  have habsent {kind : ConfigKind} (hkind : Forgotten kind) : st.Absent kind bucket := by
    have hkept : (transaction.eval (TxFunc.inOrder calls) st).2.configs kind = st.configs kind :=
      transaction.eval_induct (p := fun st' => st'.configs kind = st.configs kind)
        (fun _ c h => (configs_memoryTx hkind c).trans h) _ st rfl
    have hdirect := getConfig_eq_notFound_iff.2 (absent_runDirect hkind hmem rfl hok)
    have hcopy := getConfig_eq_notFound_iff.1 ((hanswer (.getConfig kind bucket)).trans hdirect)
    rwa [Absent, hkept] at hcopy
  exact ⟨habsent (.inl rfl), habsent (.inr rfl)⟩

end StoreState

/-! ## `RunInTx` against the direct operations -/

namespace LiveStore

variable {spare : ℕ → List ObjectVersion} {s : LiveStore}

theorem fst_mutate_of_call {op : StoreOp} {saved : Bool} {v : op.Val}
    (h : (s.call spare op saved).1 = .ok v) : (s.state.mutate op).1 = .ok v := by
  rw [← fst_mutate spare]
  unfold call at h
  dsimp only at h
  cases hres : (s.mutate spare op).1 with
  | error e =>
    rw [hres] at h
    cases h
  | ok v' =>
    rw [hres] at h
    dsimp only at h
    split_ifs at h
    exact h

theorem state_after_direct {calls : List TxCall} {history : List (StoreOp × Bool)}
    (h : history.map Prod.fst = calls.map TxCall.direct) :
    (s.after spare history).state = s.state.runDirect calls := by
  rw [state_after, runDirect,
    ← foldl_map (g := fun st op => (StoreState.mutate st op).2), h,
    foldl_map]

/-- **`RunInTx` over a list of calls that returns nil** leaves every answer as the operations of the
same names do, called directly — exactly when no bucket it deletes had a notification or a replication
configuration.  **A function that returns an error** leaves every answer as it was. -/
theorem runInTx_direct (spare : ℕ → List ObjectVersion) (s : LiveStore) (calls : List TxCall) :
    (∀ (saved : Bool) (history : List (StoreOp × Bool)),
      (s.call spare (.runInTx (.inOrder calls)) saved).1 = .ok () →
      history.map Prod.fst = calls.map TxCall.direct →
      ((∀ q, (s.call spare (.runInTx (.inOrder calls)) saved).2.answer q =
          (s.after spare history).answer q) ↔
        ∀ bucket, .deleteBucket bucket ∈ calls →
          s.answer (.getConfig .notification bucket) = .error .notFound ∧
            s.answer (.getConfig .replication bucket) = .error .notFound)) ∧
      ∀ (saved : Bool) (fn : TxFunc) (e : Error), (s.mutate spare (.runInTx fn)).1 = .error e →
        ∀ q, (s.call spare (.runInTx fn) saved).2.answer q = s.answer q := by
  refine ⟨fun saved history hok hhistory => ?_, fun saved fn e herr q => ?_⟩
  · obtain ⟨hrun, hcopy⟩ := runInTx_of_ok (fst_mutate_of_call hok)
    have hstate : (s.call spare (.runInTx (.inOrder calls)) saved).2.state =
        (transaction.eval (TxFunc.inOrder calls) s.state).2 :=
      (state_call spare s _ saved).trans hcopy
    simp only [answer, hstate, state_after_direct hhistory]
    rw [answer_inOrder_iff hrun]
    exact forall_congr' fun bucket => imp_congr_right fun _ =>
      and_congr getConfig_eq_notFound_iff.symm getConfig_eq_notFound_iff.symm
  · have hstate : (s.call spare (.runInTx fn) saved).2.state = s.state := by
      rw [fst_mutate] at herr
      exact (state_call spare s _ saved).trans (eq_of_mutate_error e herr)
    rw [answer, answer, hstate]

def notified : LiveStore :=
  empty.after (fun _ => []) [
    (.createBucket ⟨str "b", [], [], 0⟩, true),
    (.putConfig .notification ⟨str "b", str "<NotificationConfiguration/>", true⟩, true)]

/-- A transaction on another bucket does what the direct operations do. -/
theorem runInTx_direct_other :
    ∀ q, (notified.call (fun _ => []) (.runInTx (.inOrder [.createBucket ⟨str "c", [], [], 0⟩,
        .deleteBucket (str "c")])) true).2.answer q =
      (notified.after (fun _ => []) [(.createBucket ⟨str "c", [], [], 0⟩, true),
        (.deleteBucket (str "c"), true)]).answer q :=
  ((runInTx_direct (fun _ => []) notified [.createBucket ⟨str "c", [], [], 0⟩,
    .deleteBucket (str "c")]).1 true _ rfl rfl).2 fun bucket hmem => by
      simp only [mem_cons, reduceCtorEq, TxCall.deleteBucket.injEq, false_or, not_mem_nil,
        or_false] at hmem
      subst hmem
      exact ⟨rfl, rfl⟩

/-- **The bucket is gone, and its notification configuration is still there.** -/
theorem forgotten_notification :
    (notified.call (fun _ => []) (.runInTx (.inOrder [.deleteBucket (str "b")])) true).1 = .ok () ∧
      (notified.call (fun _ => []) (.runInTx (.inOrder [.deleteBucket (str "b")])) true).2.answer
          (.getConfig .notification (str "b")) ≠
        (notified.after (fun _ => []) [(.deleteBucket (str "b"), true)]).answer
          (.getConfig .notification (str "b")) := by
  refine ⟨rfl, fun h => ?_⟩
  exact nomatch h

end LiveStore

end S000.Metadata
