import S000.Foundations.Heap
import S000.Metadata.Catalog

/-!
# Metadata/References — the memory-backed store with its maps and slices

`memoryState` is a record of maps, and its methods change them in place: they write to a map, to the
map of the parts of an upload, or to the array behind the versions of a key.  `StoreHeap` has these
maps and arrays as cells and `StateRef` is the record that refers to them; `view` is the state a record
stands for.

A record **owns** its arrays and its maps of parts: no two keys share one.  Every method leaves it so,
changes nothing that the record does not own (`Within`), and does to the view what the operations of
`Metadata/Catalog` do to a state (`Refines`).
-/

namespace S000.Metadata

open List MemoryState Heap StoreState Cells
open Heap (Cells Slice mapValues)

/-! ## The heap -/

/-- The maps whose values refer to nothing. -/
inductive MapKind
  | buckets | multipart | credentials | taggings
  | config (kind : ConfigKind)

def MapKind.Map : MapKind → Type
  | buckets => AList fun _ : Bytes => Bucket
  | multipart => AList fun _ : Bytes => MultipartUpload
  | credentials => AList fun _ : Bytes => CredentialRecord
  | taggings => AList fun _ : Bytes × Bytes => ObjectTagging
  | config kind => AList fun _ : Bytes => kind.Record

/-- The maps and arrays there are. -/
structure StoreHeap where
  plain : (k : MapKind) → Cells k.Map
  /-- Maps of slices of versions. -/
  objects : Cells (AList fun _ : Bytes × Bytes => Slice)
  arrays : Cells (List ObjectVersion)
  /-- Maps of references to maps of parts. -/
  parts : Cells (AList fun _ : Bytes => ℕ)
  partMaps : Cells (AList fun _ : ℤ => MultipartPart)

/-- `memoryState`. -/
structure StateRef where
  plain : MapKind → ℕ
  objects : ℕ
  parts : ℕ

def StoreState.plainMap (st : StoreState) : (k : MapKind) → k.Map
  | .buckets => st.buckets
  | .multipart => st.multipart
  | .credentials => st.credentials
  | .taggings => st.taggings
  | .config kind => st.configs kind

namespace StoreHeap

/-- The state a record stands for. -/
def view (h : StoreHeap) (r : StateRef) : StoreState where
  buckets := (h.plain .buckets).val (r.plain .buckets)
  objects := mapValues (read h.arrays) (h.objects.val r.objects)
  multipart := (h.plain .multipart).val (r.plain .multipart)
  parts := mapValues h.partMaps.val (h.parts.val r.parts)
  credentials := (h.plain .credentials).val (r.plain .credentials)
  configs kind := (h.plain (.config kind)).val (r.plain (.config kind))
  taggings := (h.plain .taggings).val (r.plain .taggings)

/-- The arrays behind the versions of a record. -/
def arraysOf (h : StoreHeap) (r : StateRef) : Set ℕ :=
  {a | a ≠ 0 ∧ ∃ k s, (h.objects.val r.objects).lookup k = some s ∧ s.array = a}

def partMapsOf (h : StoreHeap) (r : StateRef) : Set ℕ :=
  {a | ∃ uploadID, (h.parts.val r.parts).lookup uploadID = some a}

/-- **The record owns what it refers to.** -/
structure Owned (h : StoreHeap) (r : StateRef) : Prop where
  plain_lt : ∀ k, r.plain k < (h.plain k).next
  objects_lt : r.objects < h.objects.next
  parts_lt : r.parts < h.parts.next
  nilOk : NilOk h.arrays
  slices_ok : ∀ k s, (h.objects.val r.objects).lookup k = some s → s.Ok h.arrays
  slices_inj : ∀ k k' s s', (h.objects.val r.objects).lookup k = some s →
    (h.objects.val r.objects).lookup k' = some s' → s.array = s'.array → s.array ≠ 0 → k = k'
  parts_lt' : ∀ a ∈ h.partMapsOf r, a < h.partMaps.next
  parts_inj : ∀ uploadID uploadID' a, (h.parts.val r.parts).lookup uploadID = some a →
    (h.parts.val r.parts).lookup uploadID' = some a → uploadID = uploadID'

/-- Cells of each sort. -/
structure Footprint where
  plain : MapKind → Set ℕ := fun _ => ∅
  objects : Set ℕ := ∅
  arrays : Set ℕ := ∅
  parts : Set ℕ := ∅
  partMaps : Set ℕ := ∅

/-- The cells a record refers to. -/
def footprint (h : StoreHeap) (r : StateRef) : Footprint where
  plain k := {r.plain k}
  objects := {r.objects}
  arrays := h.arraysOf r
  parts := {r.parts}
  partMaps := h.partMapsOf r

/-- Only these cells have changed. -/
structure Touches (S : Footprint) (h h' : StoreHeap) : Prop where
  plain : ∀ k, (h.plain k).Changes (S.plain k) (h'.plain k)
  objects : h.objects.Changes S.objects h'.objects
  arrays : h.arrays.Changes S.arrays h'.arrays
  parts : h.parts.Changes S.parts h'.parts
  partMaps : h.partMaps.Changes S.partMaps h'.partMaps

/-- **Only what the record owns has changed**, and what it owns now it owned before or is new. -/
structure Within (r : StateRef) (h h' : StoreHeap) : Prop extends Touches (h.footprint r) h h' where
  arraysOf : ∀ a ∈ h'.arraysOf r, a ∈ h.arraysOf r ∨ h.arrays.next ≤ a
  partMapsOf : ∀ a ∈ h'.partMapsOf r, a ∈ h.partMapsOf r ∨ h.partMaps.next ≤ a

/-- A method that leaves the heap `h'` has done to the record's state what makes it `st`. -/
structure Refines (r : StateRef) (h h' : StoreHeap) (st : StoreState) : Prop where
  owned : h'.Owned r
  within : Within r h h'
  view_eq : h'.view r = st

/-- A method **returns what the operation on the state returns** and does to the record what the
operation does to the state. -/
structure Matches {α : Type} (r : StateRef) (h : StoreHeap) (x : α × StoreHeap) (y : α × StoreState) :
    Prop where
  val_eq : x.1 = y.1
  refines : Refines r h x.2 y.2

variable {h h' h'' : StoreHeap} {r r' : StateRef} {st st' : StoreState} {S : Footprint}

theorem Touches.refl (S : Footprint) (h : StoreHeap) : Touches S h h :=
  ⟨fun _ => .refl _ _, .refl _ _, .refl _ _, .refl _ _, .refl _ _⟩

theorem Within.refl (r : StateRef) (h : StoreHeap) : Within r h h :=
  ⟨.refl _ _, fun _ => .inl, fun _ => .inl⟩

theorem Within.trans (hw : Within r h h') (hw' : Within r h' h'') : Within r h h'' where
  plain k := (hw.plain k).trans (hw'.plain k) fun _ => .inl
  objects := hw.objects.trans hw'.objects fun _ => .inl
  arrays := hw.arrays.trans hw'.arrays hw.arraysOf
  parts := hw.parts.trans hw'.parts fun _ => .inl
  partMaps := hw.partMaps.trans hw'.partMaps hw.partMapsOf
  arraysOf a ha := (hw'.arraysOf a ha).elim (hw.arraysOf a) fun hle =>
    .inr (hw.arrays.next_le.trans hle)
  partMapsOf a ha := (hw'.partMapsOf a ha).elim (hw.partMapsOf a) fun hle =>
    .inr (hw.partMaps.next_le.trans hle)

theorem Refines.refl (ho : h.Owned r) : Refines r h h (h.view r) := ⟨ho, .refl r h, rfl⟩

theorem Refines.trans (hr : Refines r h h' st) (hr' : Refines r h' h'' st') : Refines r h h'' st' :=
  ⟨hr'.owned, hr.within.trans hr'.within, hr'.view_eq⟩

/-! ## Other records -/

/-- The record refers to none of these cells. -/
structure Avoids (S : Footprint) (h : StoreHeap) (r : StateRef) : Prop where
  plain : ∀ k, r.plain k ∉ S.plain k
  objects : r.objects ∉ S.objects
  parts : r.parts ∉ S.parts
  arrays : ∀ a ∈ h.arraysOf r, a ∉ S.arrays
  partMaps : ∀ a ∈ h.partMapsOf r, a ∉ S.partMaps

abbrev Separate (h : StoreHeap) (r r' : StateRef) : Prop := Avoids (h.footprint r) h r'

section Frame

variable (ht : Touches S h h') (ho : h.Owned r) (ha : Avoids S h r)

include ht ho ha

theorem objects_eq_of_touches : h'.objects.val r.objects = h.objects.val r.objects :=
  ht.objects.val_eq _ ho.objects_lt ha.objects

theorem parts_eq_of_touches : h'.parts.val r.parts = h.parts.val r.parts :=
  ht.parts.val_eq _ ho.parts_lt ha.parts

theorem arraysOf_eq_of_touches : h'.arraysOf r = h.arraysOf r := by
  rw [arraysOf, arraysOf, objects_eq_of_touches ht ho ha]

theorem partMapsOf_eq_of_touches : h'.partMapsOf r = h.partMapsOf r := by
  rw [partMapsOf, partMapsOf, parts_eq_of_touches ht ho ha]

theorem val_array_of_touches (hnil : NilOk h'.arrays) {k : Bytes × Bytes} {s : Slice}
    (hk : (h.objects.val r.objects).lookup k = some s) :
    h'.arrays.val s.array = h.arrays.val s.array := by
  by_cases hzero : s.array = 0
  · rw [hzero, hnil.val_zero, ho.nilOk.val_zero]
  · exact ht.arrays.val_eq _ (ho.slices_ok k s hk).array_lt (ha.arrays s.array ⟨hzero, k, s, hk, rfl⟩)

/-- **What a record does not refer to can change without the record noticing.** -/
theorem view_eq_of_touches (hnil : NilOk h'.arrays) : h'.view r = h.view r := by
  have hplain (k : MapKind) : (h'.plain k).val (r.plain k) = (h.plain k).val (r.plain k) :=
    (ht.plain k).val_eq _ (ho.plain_lt k) (ha.plain k)
  have hobjects : mapValues (read h'.arrays) (h.objects.val r.objects) =
      mapValues (read h.arrays) (h.objects.val r.objects) :=
    mapValues_congr fun k s hk => by rw [Heap.read, Heap.read, val_array_of_touches ht ho ha hnil hk]
  have hparts : mapValues h'.partMaps.val (h.parts.val r.parts) =
      mapValues h.partMaps.val (h.parts.val r.parts) :=
    mapValues_congr fun uploadID a hid =>
      ht.partMaps.val_eq a (ho.parts_lt' a ⟨uploadID, hid⟩) (ha.partMaps a ⟨uploadID, hid⟩)
  unfold view
  simp only [hplain, objects_eq_of_touches ht ho ha, hobjects, parts_eq_of_touches ht ho ha, hparts]

theorem owned_of_touches (hnil : NilOk h'.arrays) : h'.Owned r := by
  have hobjects := objects_eq_of_touches ht ho ha
  have hparts := parts_eq_of_touches ht ho ha
  constructor
  case plain_lt => exact fun k => (ho.plain_lt k).trans_le (ht.plain k).next_le
  case objects_lt => exact ho.objects_lt.trans_le ht.objects.next_le
  case parts_lt => exact ho.parts_lt.trans_le ht.parts.next_le
  case nilOk => exact hnil
  case slices_ok =>
    intro k s hk
    rw [hobjects] at hk
    have hs := ho.slices_ok k s hk
    refine ⟨hs.array_lt.trans_le ht.arrays.next_le, ?_⟩
    rw [val_array_of_touches ht ho ha hnil hk]
    exact hs.length_le
  case slices_inj =>
    rw [hobjects]
    exact ho.slices_inj
  case parts_lt' =>
    rw [partMapsOf_eq_of_touches ht ho ha]
    exact fun a hmem => (ho.parts_lt' a hmem).trans_le ht.partMaps.next_le
  case parts_inj =>
    rw [hparts]
    exact ho.parts_inj

end Frame

theorem Owned.arrays_lt (ho : h.Owned r) {a : ℕ} (ha : a ∈ h.arraysOf r) : a < h.arrays.next := by
  obtain ⟨-, k, s, hk, rfl⟩ := ha
  exact (ho.slices_ok k s hk).array_lt

/-! ## Writing to the maps -/

/-- What a method writes to the maps whose values refer to nothing. -/
def writePlain (h : StoreHeap) (r : StateRef) (st : StoreState) : StoreHeap :=
  { h with plain := fun k => (h.plain k).write (r.plain k) (st.plainMap k) }

/-- A method that reads the state, and writes to those maps only. -/
def onMaps {α : Type} (f : StoreState → α × StoreState) (h : StoreHeap) (r : StateRef) :
    α × StoreHeap :=
  ((f (h.view r)).1, h.writePlain r (f (h.view r)).2)

theorem Owned.writePlain (ho : h.Owned r) : (h.writePlain r st).Owned r :=
  ⟨ho.plain_lt, ho.objects_lt, ho.parts_lt, ho.nilOk, ho.slices_ok, ho.slices_inj, ho.parts_lt',
    ho.parts_inj⟩

theorem within_writePlain : Within r h (h.writePlain r st) :=
  { Within.refl r h with plain := fun _ => changes_write rfl }

theorem refines_writePlain (ho : h.Owned r) (hobjects : st.objects = (h.view r).objects)
    (hparts : st.parts = (h.view r).parts) : Refines r h (h.writePlain r st) st := by
  refine ⟨ho.writePlain, within_writePlain, ?_⟩
  have hplain (k : MapKind) : ((h.writePlain r st).plain k).val (r.plain k) = st.plainMap k :=
    val_write_self
  have hview : (h.writePlain r st).view r =
      { st with objects := (h.view r).objects, parts := (h.view r).parts } := by
    unfold view
    simp only [hplain]
    rfl
  rw [hview, ← hobjects, ← hparts]

/-- The operation changes no other maps than those. -/
def Plain {α : Type} (f : StoreState → α × StoreState) : Prop :=
  ∀ st, (f st).2.objects = st.objects ∧ (f st).2.parts = st.parts

theorem matches_onMaps {α : Type} {f : StoreState → α × StoreState} (hf : Plain f) (ho : h.Owned r) :
    Matches r h (onMaps f h r) (f (h.view r)) :=
  ⟨rfl, refines_writePlain ho (hf _).1 (hf _).2⟩

/-- A slice takes the place of the versions of a key. -/
def setSlice (h : StoreHeap) (r : StateRef) (bucket key : Bytes)
    (x : Cells (List ObjectVersion) × Slice) : StoreHeap :=
  { h with
    arrays := x.1
    objects := h.objects.write r.objects ((h.objects.val r.objects).insert (bucket, key) x.2) }

/-- `delete(st.objects, objectKey{bucket, key})`. -/
def eraseSlice (h : StoreHeap) (r : StateRef) (bucket key : Bytes) : StoreHeap :=
  { h with objects := h.objects.write r.objects ((h.objects.val r.objects).erase (bucket, key)) }

/-- `st.objects[objectKey{bucket, key}]`. -/
def slice (h : StoreHeap) (r : StateRef) (bucket key : Bytes) : Slice :=
  ((h.objects.val r.objects).lookup (bucket, key)).getD {}

theorem versions_view (h : StoreHeap) (r : StateRef) (bucket key : Bytes) :
    (h.view r).versions bucket key = read h.arrays (h.slice r bucket key) := by
  unfold versions slice view
  rw [lookup_mapValues]
  cases (h.objects.val r.objects).lookup (bucket, key) with
  | none => rfl
  | some s => rfl

section Slices

variable {bucket key : Bytes} {x : Cells (List ObjectVersion) × Slice} {l : List ObjectVersion}

theorem Owned.slice_ok (ho : h.Owned r) : (h.slice r bucket key).Ok h.arrays := by
  unfold slice
  cases hk : (h.objects.val r.objects).lookup (bucket, key) with
  | none => exact ⟨ho.nilOk.next_pos, Nat.zero_le _⟩
  | some s => exact ho.slices_ok _ s hk

theorem lookup_of_slice (hne : (h.slice r bucket key).array ≠ 0) :
    (h.objects.val r.objects).lookup (bucket, key) = some (h.slice r bucket key) := by
  unfold slice at hne ⊢
  cases hk : (h.objects.val r.objects).lookup (bucket, key) with
  | none =>
    rw [hk] at hne
    exact absurd rfl hne
  | some s => rfl

theorem array_ne (ho : h.Owned r) {k : Bytes × Bytes} {s : Slice} (hk : k ≠ (bucket, key))
    (hs : (h.objects.val r.objects).lookup k = some s) :
    s.array ∉ {a | a = (h.slice r bucket key).array ∧ a ≠ 0} := by
  rintro ⟨heq, hne⟩
  exact hk (ho.slices_inj k _ s _ hs (lookup_of_slice (heq ▸ hne)) heq hne)

variable (hu : Heap.Updates h.arrays (h.slice r bucket key) x.1 x.2 l)

include hu in
theorem Owned.setSlice (ho : h.Owned r) : (h.setSlice r bucket key x).Owned r := by
  -- the new slice has the old array or a new one
  have hother {k : Bytes × Bytes} {s : Slice} (hk : k ≠ (bucket, key))
      (hs : (h.objects.val r.objects).lookup k = some s) (heq : x.2.array = s.array)
      (hne : s.array ≠ 0) : False := by
    rcases hu.array_eq with harray | hnew
    · exact array_ne ho hk hs ⟨heq.symm.trans harray, hne⟩
    · exact absurd (ho.slices_ok k s hs).array_lt (not_lt.2 (heq ▸ hnew))
  refine ⟨ho.plain_lt, ho.objects_lt, ho.parts_lt, hu.nilOk, fun k s hs => ?_,
    fun k k' s s' hs hs' heq hne => ?_, ho.parts_lt', ho.parts_inj⟩
  · rcases lookup_insert hs with ⟨-, rfl⟩ | ⟨hk, hs⟩
    · exact hu.ok
    · exact (ho.slices_ok k s hs).of_changes hu.changes (array_ne ho hk hs)
  rcases lookup_insert hs with ⟨rfl, rfl⟩ | ⟨hk, hs⟩
  · rcases lookup_insert hs' with ⟨rfl, -⟩ | ⟨hk', hs'⟩
    · rfl
    · exact (hother hk' hs' heq (heq ▸ hne)).elim
  · rcases lookup_insert hs' with ⟨rfl, rfl⟩ | ⟨hk', hs'⟩
    · exact (hother hk hs heq.symm hne).elim
    · exact ho.slices_inj k k' s s' hs hs' heq hne

include hu in
theorem within_setSlice : Within r h (h.setSlice r bucket key x) := by
  have hown {a : ℕ} (ha : a = (h.slice r bucket key).array ∧ a ≠ 0) : a ∈ h.arraysOf r := by
    obtain ⟨rfl, hne⟩ := ha
    exact ⟨hne, _, _, lookup_of_slice hne, rfl⟩
  refine { Within.refl r h with
    objects := changes_write rfl
    arrays := hu.changes.mono fun a ha => hown ha
    arraysOf := ?_ }
  rintro a ⟨hne, k, s, hs, rfl⟩
  rcases lookup_insert hs with ⟨-, rfl⟩ | ⟨-, hs⟩
  · exact hu.array_eq.imp (fun heq => hown ⟨heq, hne⟩) id
  · exact .inl ⟨hne, k, s, hs, rfl⟩

include hu in
/-- **What happens to the slice of a key happens to its versions**, and to nothing else. -/
theorem refines_setSlice (ho : h.Owned r) : Refines r h (h.setSlice r bucket key x)
    { h.view r with toMemoryState := (h.view r).setVersions bucket key l } := by
  refine ⟨ho.setSlice hu, within_setSlice hu, ?_⟩
  have hobjects : mapValues (read x.1) ((h.objects.val r.objects).insert (bucket, key) x.2) =
      (mapValues (read h.arrays) (h.objects.val r.objects)).insert (bucket, key) l := by
    rw [← hu.read_eq]
    exact mapValues_insert_of_ne fun k s hk hs =>
      read_of_changes hu.changes (ho.slices_ok k s hs) (array_ne ho hk hs)
  unfold view setSlice setVersions
  dsimp only
  rw [val_write_self, hobjects]

end Slices

theorem refines_eraseSlice (ho : h.Owned r) (bucket key : Bytes) :
    Refines r h (h.eraseSlice r bucket key)
      { h.view r with toMemoryState := (h.view r).eraseVersions bucket key } := by
  refine ⟨⟨ho.plain_lt, ho.objects_lt, ho.parts_lt, ho.nilOk, fun k s hs => ?_,
    fun k k' s s' hs hs' => ?_, ho.parts_lt', ho.parts_inj⟩, { Within.refl r h with
      objects := changes_write rfl, arraysOf := ?_ }, ?_⟩
  · exact ho.slices_ok k s (lookup_erase hs)
  · exact ho.slices_inj k k' s s' (lookup_erase hs) (lookup_erase hs')
  · rintro a ⟨hne, k, s, hs, rfl⟩
    exact .inl ⟨hne, k, s, lookup_erase hs, rfl⟩
  · unfold view eraseSlice eraseVersions
    rw [val_write_self, mapValues_erase]

/-! ### Parts -/

section Parts

variable {uploadID : Bytes} {x : Cells (AList fun _ : ℤ => MultipartPart) × ℕ}

/-- A map of parts takes the place of that of an upload.  Where it has been there before, this is only
its entry in the list that stands for the map. -/
def setParts (h : StoreHeap) (r : StateRef) (uploadID : Bytes)
    (x : Cells (AList fun _ : ℤ => MultipartPart) × ℕ) : StoreHeap :=
  { h with
    partMaps := x.1
    parts := h.parts.write r.parts ((h.parts.val r.parts).insert uploadID x.2) }

/-- `delete(st.parts, uploadID)`. -/
def eraseParts (h : StoreHeap) (r : StateRef) (uploadID : Bytes) : StoreHeap :=
  { h with parts := h.parts.write r.parts ((h.parts.val r.parts).erase uploadID) }

/-- The map is the one the upload has, or a new one, and no other has changed. -/
structure PartsUpdate (h : StoreHeap) (r : StateRef) (uploadID : Bytes)
    (x : Cells (AList fun _ : ℤ => MultipartPart) × ℕ) : Prop where
  lt : x.2 < x.1.next
  own : (h.parts.val r.parts).lookup uploadID = some x.2 ∨ h.partMaps.next ≤ x.2
  changes : h.partMaps.Changes {a | (h.parts.val r.parts).lookup uploadID = some a} x.1

variable (hu : PartsUpdate h r uploadID x)

include hu

theorem Owned.setParts (ho : h.Owned r) : (h.setParts r uploadID x).Owned r := by
  have hother {uploadID' : Bytes} (hne : uploadID' ≠ uploadID)
      (hid : (h.parts.val r.parts).lookup uploadID' = some x.2) : False := by
    rcases hu.own with hold | hnew
    · exact hne (ho.parts_inj uploadID' uploadID x.2 hid hold)
    · exact absurd (ho.parts_lt' x.2 ⟨uploadID', hid⟩) (not_lt.2 hnew)
  refine ⟨ho.plain_lt, ho.objects_lt, ho.parts_lt, ho.nilOk, ho.slices_ok, ho.slices_inj, ?_,
    fun id₁ id₂ a hid₁ hid₂ => ?_⟩
  · rintro a ⟨uploadID', hid⟩
    rcases lookup_insert hid with ⟨-, rfl⟩ | ⟨-, hid⟩
    · exact hu.lt
    · exact (ho.parts_lt' a ⟨uploadID', hid⟩).trans_le hu.changes.next_le
  · rcases lookup_insert hid₁ with ⟨rfl, rfl⟩ | ⟨hne₁, hold₁⟩
    · rcases lookup_insert hid₂ with ⟨rfl, -⟩ | ⟨hne₂, hold₂⟩
      · rfl
      · exact (hother hne₂ hold₂).elim
    · rcases lookup_insert hid₂ with ⟨rfl, rfl⟩ | ⟨-, hold₂⟩
      · exact (hother hne₁ hold₁).elim
      · exact ho.parts_inj id₁ id₂ a hold₁ hold₂

theorem refines_setParts (ho : h.Owned r) : Refines r h (h.setParts r uploadID x)
    { h.view r with parts := (h.view r).parts.insert uploadID (x.1.val x.2) } := by
  refine ⟨ho.setParts hu, { Within.refl r h with
    parts := changes_write rfl
    partMaps := hu.changes.mono fun a ha => ⟨uploadID, ha⟩
    partMapsOf := ?_ }, ?_⟩
  · rintro a ⟨uploadID', hid⟩
    rcases lookup_insert hid with ⟨-, rfl⟩ | ⟨-, hid⟩
    · exact hu.own.imp (fun hid => ⟨uploadID, hid⟩) id
    · exact .inl ⟨uploadID', hid⟩
  · have hparts : mapValues x.1.val ((h.parts.val r.parts).insert uploadID x.2) =
        (mapValues h.partMaps.val (h.parts.val r.parts)).insert uploadID (x.1.val x.2) :=
      mapValues_insert_of_ne fun uploadID' a hne hid =>
        hu.changes.val_eq a (ho.parts_lt' a ⟨uploadID', hid⟩) fun hid' =>
          hne (ho.parts_inj uploadID' uploadID a hid hid')
    unfold view setParts
    rw [val_write_self, hparts]

omit hu in
theorem refines_eraseParts (ho : h.Owned r) (uploadID : Bytes) :
    Refines r h (h.eraseParts r uploadID)
      { h.view r with parts := (h.view r).parts.erase uploadID } := by
  refine ⟨⟨ho.plain_lt, ho.objects_lt, ho.parts_lt, ho.nilOk, ho.slices_ok, ho.slices_inj, ?_,
    fun id₁ id₂ a hid₁ hid₂ => ?_⟩, { Within.refl r h with
      parts := changes_write rfl, partMapsOf := ?_ }, ?_⟩
  · rintro a ⟨uploadID', hid⟩
    exact ho.parts_lt' a ⟨uploadID', lookup_erase hid⟩
  · exact ho.parts_inj id₁ id₂ a (lookup_erase hid₁) (lookup_erase hid₂)
  · rintro a ⟨uploadID', hid⟩
    exact .inl ⟨uploadID', lookup_erase hid⟩
  · unfold view eraseParts
    dsimp only
    rw [val_write_self, mapValues_erase]

end Parts

/-! ## The methods

Those that `memoryTx` and `memoryBackedStore` share are functions on a state record; `spare` is the
room that `append` leaves in a new array, which the runtime chooses. -/

variable (spare : ℕ → List ObjectVersion)

/-- The first half of `putObjectVersion`: `filtered := versions[:0]`, in place. -/
def dropNullVersion (h : StoreHeap) (r : StateRef) (v : ObjectVersion) : StoreHeap :=
  if v.versionID = nullVersion then
    h.setSlice r v.bucket v.key (filterInPlace (fun x => x.versionID ≠ nullVersion) h.arrays
      (h.slice r v.bucket v.key))
  else h

/-- `putObjectVersion`. -/
def putObjectVersion (h : StoreHeap) (r : StateRef) (v : ObjectVersion) : StoreHeap :=
  let h := h.dropNullVersion r v
  let s := h.slice r v.bucket v.key
  h.setSlice r v.bucket v.key (append (spare s.length) h.arrays s v)

/-- `UpdateObjectMetadata`: `versions[i] = v`. -/
def updateObjectMetadata (h : StoreHeap) (r : StateRef) (bucket key versionID : Bytes)
    (metadata : StrMap) : Except Error Unit × StoreHeap :=
  let s := h.slice r bucket key
  let versions := read h.arrays s
  match versions.findIdx? fun v => v.versionID = versionID with
  | none => (.error .notFound, h)
  | some i => match versions[i]? with
    | none => (.error .notFound, h)
    | some v => (.ok (), h.setSlice r bucket key (setAt h.arrays s i { v with metadata }, s))

/-- `DeleteObjectVersion`: `append(versions[:i], versions[i+1:]...)`. -/
def deleteObjectVersion (h : StoreHeap) (r : StateRef) (bucket key versionID : Bytes) :
    Except Error ObjectVersion × StoreHeap :=
  let s := h.slice r bucket key
  let versions := read h.arrays s
  match versions.findIdx? fun v => v.versionID = versionID with
  | none => (.error .notFound, h)
  | some i => match versions[i]? with
    | none => (.error .notFound, h)
    | some removed =>
      let x := deleteAt h.arrays s i
      if x.2.length = 0 then (.ok removed, { h with arrays := x.1 }.eraseSlice r bucket key)
      else (.ok removed, h.setSlice r bucket key x)

/-- `DeleteAllObjectVersions`. -/
def deleteAllObjectVersions (h : StoreHeap) (r : StateRef) (bucket key : Bytes) :
    Except Error (List ObjectVersion) × StoreHeap :=
  let s := h.slice r bucket key
  if s.length = 0 then (.error .notFound, h)
  else (.ok (read h.arrays s), h.eraseSlice r bucket key)

/-- `delete(st.multipart, uploadID)` and `delete(st.parts, uploadID)`. -/
def eraseUpload (h : StoreHeap) (r : StateRef) (uploadID : Bytes) : StoreHeap :=
  (h.writePlain r
    { h.view r with multipart := (h.view r).multipart.erase uploadID }).eraseParts r uploadID

/-- `DeleteMultipartUpload`. -/
def deleteMultipartUpload (h : StoreHeap) (r : StateRef) (uploadID : Bytes) :
    Except Error Unit × StoreHeap :=
  if uploadID ∈ (h.view r).multipart then (.ok (), h.eraseUpload r uploadID)
  else (.error .notFound, h)

/-- The map of the parts of an upload; where there is none, a new one. -/
def makeParts (h : StoreHeap) (r : StateRef) (uploadID : Bytes) :
    Cells (AList fun _ : ℤ => MultipartPart) × ℕ :=
  match (h.parts.val r.parts).lookup uploadID with
  | some a => (h.partMaps, a)
  | none => (h.partMaps.alloc ∅, h.partMaps.next)

/-- `UpsertMultipartPart`: `st.parts[uploadID][partNumber] = part`. -/
def upsertMultipartPart (h : StoreHeap) (r : StateRef) (p : MultipartPart) :
    Except Error Unit × StoreHeap :=
  if p.uploadID ∈ (h.view r).multipart then
    let x := h.makeParts r p.uploadID
    (.ok (), h.setParts r p.uploadID
      (x.1.write x.2 ((x.1.val x.2).insert p.partNumber p), x.2))
  else (.error .notFound, h)

variable {spare}

section Lists

variable (ho : h.Owned r)

include ho

theorem refines_dropNullVersion (v : ObjectVersion) :
    Refines r h (h.dropNullVersion r v)
      { h.view r with toMemoryState := (h.view r).dropNullVersion v } := by
  unfold dropNullVersion MemoryState.dropNullVersion
  split_ifs
  · rw [versions_view]
    exact refines_setSlice (updates_filterInPlace _ ho.slice_ok ho.nilOk) ho
  · exact .refl ho

/-- **`putObjectVersion` in place** puts the row. -/
theorem refines_putObjectVersion (v : ObjectVersion) :
    Refines r h (h.putObjectVersion spare r v)
      { h.view r with toMemoryState := (h.view r).putObjectVersion v } := by
  have hdrop := refines_dropNullVersion ho v
  have hok : ((h.dropNullVersion r v).slice r v.bucket v.key).Ok _ := hdrop.owned.slice_ok
  have hput := refines_setSlice (updates_append (v := v)
    (spare ((h.dropNullVersion r v).slice r v.bucket v.key).length) hok hdrop.owned.nilOk) hdrop.owned
  rw [← versions_view, hdrop.view_eq] at hput
  exact hdrop.trans hput

theorem matches_updateObjectMetadata (bucket key versionID : Bytes)
    (metadata : StrMap) :
    Matches r h (h.updateObjectMetadata r bucket key versionID metadata)
      ((h.view r).lift (·.updateObjectMetadata bucket key versionID metadata)) := by
  unfold lift MemoryState.updateObjectMetadata updateObjectMetadata
  dsimp only
  rw [versions_view]
  cases hi : (read h.arrays (h.slice r bucket key)).findIdx? fun v => v.versionID = versionID with
  | none => exact ⟨rfl, .refl ho⟩
  | some i =>
    have hlt := (findIdx?_eq_some_iff_findIdx_eq.1 hi).1
    dsimp only
    rw [modify_eq_set_getElem?, getElem?_eq_getElem hlt]
    exact ⟨rfl, refines_setSlice (updates_setAt ho.slice_ok ho.nilOk i) ho⟩

theorem matches_deleteObjectVersion (bucket key versionID : Bytes) :
    Matches r h (h.deleteObjectVersion r bucket key versionID)
      ((h.view r).lift (·.deleteObjectVersion bucket key versionID)) := by
  unfold lift MemoryState.deleteObjectVersion deleteObjectVersion
  dsimp only
  rw [versions_view]
  rw [find?_eq_bind_findIdx?_getElem?, eraseP_eq_eraseIdx]
  cases hi : (read h.arrays (h.slice r bucket key)).findIdx? fun v => v.versionID = versionID with
  | none => exact ⟨rfl, .refl ho⟩
  | some i =>
    have hlt := (findIdx?_eq_some_iff_findIdx_eq.1 hi).1
    have hlt' : i < (h.slice r bucket key).length := by rwa [length_read ho.slice_ok] at hlt
    have hu := updates_deleteAt ho.slice_ok ho.nilOk hlt'
    have hempty : (read h.arrays (h.slice r bucket key)).eraseIdx i = [] ↔
        (deleteAt h.arrays (h.slice r bucket key) i).2.length = 0 := by
      rw [← hu.read_eq, ← length_eq_zero_iff, length_read hu.ok]
    dsimp only [Option.bind_some]
    rw [getElem?_eq_getElem hlt]
    dsimp only
    by_cases hzero : (deleteAt h.arrays (h.slice r bucket key) i).2.length = 0
    · rw [if_pos hzero, if_pos (hempty.2 hzero), deleteAt_of_length_eq_zero hlt' hzero]
      exact ⟨rfl, refines_eraseSlice ho bucket key⟩
    · rw [if_neg hzero, if_neg (mt hempty.1 hzero)]
      exact ⟨rfl, refines_setSlice hu ho⟩

theorem matches_deleteAllObjectVersions (bucket key : Bytes) :
    Matches r h (h.deleteAllObjectVersions r bucket key)
      ((h.view r).lift (·.deleteAllObjectVersions bucket key)) := by
  have hempty : read h.arrays (h.slice r bucket key) = [] ↔ (h.slice r bucket key).length = 0 := by
    rw [← length_eq_zero_iff, length_read ho.slice_ok]
  unfold lift MemoryState.deleteAllObjectVersions deleteAllObjectVersions
  dsimp only
  rw [versions_view]
  by_cases hzero : (h.slice r bucket key).length = 0
  · rw [if_pos hzero, if_pos (hempty.2 hzero)]
    exact ⟨rfl, .refl ho⟩
  · rw [if_neg hzero, if_neg (mt hempty.1 hzero)]
    exact ⟨rfl, refines_eraseSlice ho bucket key⟩

theorem refines_eraseUpload (uploadID : Bytes) :
    Refines r h (h.eraseUpload r uploadID) { h.view r with
      multipart := (h.view r).multipart.erase uploadID
      parts := (h.view r).parts.erase uploadID } := by
  have hwrite : Refines r h _ { h.view r with multipart := (h.view r).multipart.erase uploadID } :=
    refines_writePlain ho rfl rfl
  have herase := refines_eraseParts hwrite.owned uploadID
  rw [hwrite.view_eq] at herase
  exact hwrite.trans herase

theorem matches_deleteMultipartUpload (uploadID : Bytes) :
    Matches r h (h.deleteMultipartUpload r uploadID)
      ((h.view r).lift (·.deleteMultipartUpload uploadID)) := by
  unfold lift MemoryState.deleteMultipartUpload deleteMultipartUpload
  dsimp only
  split_ifs
  · exact ⟨rfl, refines_eraseUpload ho uploadID⟩
  · exact ⟨rfl, .refl ho⟩

end Lists

theorem val_makeParts (h : StoreHeap) (r : StateRef) (uploadID : Bytes) :
    (h.makeParts r uploadID).1.val (h.makeParts r uploadID).2 = (h.view r).partsOf uploadID := by
  unfold makeParts partsOf view
  rw [lookup_mapValues]
  cases (h.parts.val r.parts).lookup uploadID with
  | none => exact val_alloc_self
  | some a => rfl

theorem partsUpdate_makeParts (ho : h.Owned r) (uploadID : Bytes)
    (m : AList fun _ : ℤ => MultipartPart) :
    PartsUpdate h r uploadID ((h.makeParts r uploadID).1.write (h.makeParts r uploadID).2 m,
      (h.makeParts r uploadID).2) := by
  unfold makeParts
  cases hid : (h.parts.val r.parts).lookup uploadID with
  | some a => exact ⟨ho.parts_lt' a ⟨uploadID, hid⟩, .inl hid, changes_write hid⟩
  | none =>
    refine ⟨Nat.lt_succ_self _, .inr (le_refl _), ?_⟩
    exact changes_alloc.trans (changes_write (S := {h.partMaps.next}) rfl) fun a ha =>
      .inr (le_of_eq ha.symm)

theorem matches_upsertMultipartPart (ho : h.Owned r) (p : MultipartPart) :
    Matches r h (h.upsertMultipartPart r p) ((h.view r).lift (·.upsertMultipartPart p)) := by
  unfold lift MemoryState.upsertMultipartPart upsertMultipartPart
  dsimp only
  split_ifs
  · have hset := refines_setParts (partsUpdate_makeParts ho p.uploadID
      (((h.view r).partsOf p.uploadID).insert p.partNumber p)) ho
    rw [val_write_self] at hset
    rw [val_makeParts]
    exact ⟨rfl, hset⟩
  · exact ⟨rfl, .refl ho⟩

/-! ## Repair -/

/-- The loop of `repairState` over the objects. -/
def repairObjects (r : StateRef) (x : ℕ × StoreHeap) : ℕ × StoreHeap :=
  sweep (fun key => key.1 ∉ (x.2.view r).buckets)
    (fun key h => h.eraseSlice r key.1 key.2) (x.2.view r).objects.keys x

/-- The loop of `repairState` over the uploads. -/
def repairUploads (r : StateRef) (x : ℕ × StoreHeap) : ℕ × StoreHeap :=
  sweep (fun e => e.2.bucket ∉ (x.2.view r).buckets)
    (fun e h => h.eraseUpload r e.1) (x.2.view r).multipart.entries x

/-- The loop of `repairState` over one map of configurations. -/
def repairConfigs (r : StateRef) (kind : ConfigKind) (x : ℕ × StoreHeap) : ℕ × StoreHeap :=
  sweep (fun bucket => bucket ∉ (x.2.view r).buckets)
    (fun bucket h => h.writePlain r ((h.view r).eraseConfig kind bucket))
    ((x.2.view r).configs kind).keys x

/-- `repairState`. -/
def repairState (h : StoreHeap) (r : StateRef) : ℕ × StoreHeap :=
  let x := repairUploads r (repairObjects r (0, h))
  [.website, .cors, .policy, .publicAccessBlock].foldl (fun x kind => repairConfigs r kind x)
    x

/-- A loop that deletes in place does what the loop does that deletes from the state. -/
theorem matches_sweep {κ : Type} {orphan : κ → Bool} {delete : κ → StoreHeap → StoreHeap}
    {delete' : κ → StoreState → StoreState}
    (hdelete : ∀ k h, h.Owned r → Refines r h (delete k h) (delete' k (h.view r))) :
    ∀ {keys : List κ} {n : ℕ} {h : StoreHeap}, h.Owned r →
      Matches r h (sweep orphan delete keys (n, h))
        (sweep orphan delete' keys (n, h.view r))
  | [], _, _, ho => ⟨rfl, .refl ho⟩
  | k :: keys, n, h, ho => by
    unfold sweep
    rw [foldl_cons, foldl_cons]
    by_cases hk : orphan k
    · have hstep := hdelete k h ho
      have hrest : Matches r (delete k h) (sweep orphan delete keys (n + 1, delete k h))
          (sweep orphan delete' keys (n + 1, (delete k h).view r)) :=
        matches_sweep hdelete hstep.owned
      rw [hstep.view_eq] at hrest
      rw [if_pos hk, if_pos hk]
      exact ⟨hrest.val_eq, hstep.trans hrest.refines⟩
    · rw [if_neg hk, if_neg hk]
      exact matches_sweep hdelete ho

/-- A pass of the repair over the heap, and the same over the state. -/
def Passes (r : StateRef) (f : ℕ × StoreHeap → ℕ × StoreHeap)
    (g : ℕ × StoreState → ℕ × StoreState) : Prop :=
  ∀ n h, h.Owned r → Matches r h (f (n, h)) (g (n, h.view r))

theorem Passes.comp {f f' : ℕ × StoreHeap → ℕ × StoreHeap} {g g' : ℕ × StoreState → ℕ × StoreState}
    (hp' : Passes r f' g') (hp : Passes r f g) : Passes r (f' ∘ f) (g' ∘ g) := by
  intro n h ho
  have hfirst := hp n h ho
  have hthen := hp' (f (n, h)).1 (f (n, h)).2 hfirst.refines.owned
  rw [hfirst.refines.view_eq, hfirst.val_eq] at hthen
  have hpair : ((g (n, h.view r)).1, (f (n, h)).2) = f (n, h) := Prod.ext hfirst.val_eq.symm rfl
  rw [hpair] at hthen
  exact ⟨hthen.val_eq, hfirst.refines.trans hthen.refines⟩

theorem passes_repairObjects (r : StateRef) : Passes r (repairObjects r) StoreState.repairObjects := by
  intro n h ho
  exact matches_sweep (fun key _ ho => refines_eraseSlice ho key.1 key.2) ho

theorem passes_repairUploads (r : StateRef) : Passes r (repairUploads r) StoreState.repairUploads := by
  intro n h ho
  exact matches_sweep (fun e _ ho => refines_eraseUpload ho e.1) ho

theorem passes_repairConfigs (r : StateRef) (kind : ConfigKind) :
    Passes r (repairConfigs r kind) (StoreState.repairConfigs kind) := by
  intro n h ho
  have herase (bucket : Bytes) (h : StoreHeap) (ho : h.Owned r) :
      Refines r h (h.writePlain r ((h.view r).eraseConfig kind bucket))
        ((h.view r).eraseConfig kind bucket) := refines_writePlain ho rfl rfl
  exact matches_sweep herase ho

/-- **`repairState` in place** repairs the state. -/
theorem matches_repairState (ho : h.Owned r) :
    Matches r h (h.repairState r) (h.view r).repairState := by
  have hpasses := (passes_repairConfigs r .publicAccessBlock).comp <|
    (passes_repairConfigs r .policy).comp <| (passes_repairConfigs r .cors).comp <|
    (passes_repairConfigs r .website).comp <| (passes_repairUploads r).comp (passes_repairObjects r)
  have hmatches := hpasses 0 h ho
  simp only [Function.comp_apply] at hmatches
  simp only [repairState, StoreState.repairState, foldl_cons, foldl_nil]
  exact hmatches

end StoreHeap

end S000.Metadata
