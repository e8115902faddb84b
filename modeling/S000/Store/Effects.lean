import S000.Store.Machine

/-!
# Store/Effects — what a call can do

All that a call can do to the rows of a key (`RowChange`) and to an object file (`FileChange`),
whatever goes wrong.  Invariants of the two stores are proved from these two relations, and not from
the machine.
-/

namespace S000

open Metadata MemoryState Versions

/-- A row without its metadata map. -/
def stripMetadata (v : ObjectVersion) : ObjectVersion := { v with metadata := ∅ }

/-- What a call can do to the rows of a key. -/
inductive RowChange (b k : Bytes) : Call → List ObjectVersion → List ObjectVersion → Prop
  | same {o : Call} {l : List ObjectVersion} : RowChange b k o l l
  /-- The first half of a put. -/
  | drop {v : ObjectVersion} {l : List ObjectVersion} (hb : v.bucket = b) (hk : v.key = k)
      (hv : v.versionID = nullVersion) :
      RowChange b k (.putObjectVersion v) l (l.filter fun x => x.versionID ≠ nullVersion)
  | put {v : ObjectVersion} {l : List ObjectVersion} (hb : v.bucket = b) (hk : v.key = k) :
      RowChange b k (.putObjectVersion v) l
        (put ObjectVersion.versionID nullVersion v l)
  | remove {versionID : Bytes} {l : List ObjectVersion} :
      RowChange b k (.deleteObjectVersion b k versionID) l
        (remove ObjectVersion.versionID versionID l)
  | clear {l : List ObjectVersion} : RowChange b k (.deleteAllObjectVersions b k) l []
  | update {versionID : Bytes} {metadata : StrMap} {l l' : List ObjectVersion}
      (h : l'.map stripMetadata = l.map stripMetadata) :
      RowChange b k (.updateObjectMetadata b k versionID metadata) l l'

/-- What a call with its answer can do to an object file. -/
inductive FileChange (path : Bytes) : (o : Call) → o.Val → Option Bytes → Option Bytes → Prop
  | same {o : Call} {v : o.Val} {x : Option Bytes} : FileChange path o v x x
  | rename {id : ℕ} {content : Bytes} {x : Option Bytes} :
      FileChange path (.rename id content path) true x (some content)
  | promote {uploadID content : Bytes} {n : ℤ} {x : Option Bytes} :
      FileChange path (.promote uploadID n path) true x (some content)
  | remove {x : Option Bytes} : FileChange path (.remove path) true x none

variable {b k path : Bytes} {l l' : List ObjectVersion} {v removed : ObjectVersion}

/-- **A row after a call** is one from before, up to its metadata map, or the one that is put. -/
theorem RowChange.origin {o : Call} (h : RowChange b k o l l') (hv : v ∈ l') :
    (∃ v₀ ∈ l, stripMetadata v₀ = stripMetadata v) ∨
      o = .putObjectVersion v ∧ v.bucket = b ∧ v.key = k := by
  cases h with
  | same => exact .inl ⟨v, hv, rfl⟩
  | drop => exact .inl ⟨v, List.mem_of_mem_filter hv, rfl⟩
  | put hb hk =>
    rcases mem_put.1 hv with rfl | ⟨hv, -⟩
    · exact .inr ⟨rfl, hb, hk⟩
    · exact .inl ⟨v, hv, rfl⟩
  | remove => exact .inl ⟨v, List.eraseP_sublist.subset hv, rfl⟩
  | clear => exact nomatch hv
  | update h => exact .inl (List.mem_map.1 (h ▸ List.mem_map_of_mem hv))

theorem RowChange.of_deleteAll {b' k' : Bytes}
    (h : RowChange b k (.deleteAllObjectVersions b' k') l l') : l' = l ∨ b' = b ∧ k' = k := by
  cases h with
  | same => exact .inl rfl
  | clear => exact .inr ⟨rfl, rfl⟩

theorem RowChange.of_remove (h : RowChange b k (.remove path) l l') : l' = l := by
  cases h
  rfl

theorem FileChange.remove_of_none {o : Call} {v : o.Val} {x x' : Option Bytes}
    (h : FileChange path o v x x') (hx' : x' = none) (hx : x ≠ none) : o = .remove path := by
  cases h with
  | same => exact absurd hx' hx
  | rename | promote => cases hx'
  | remove => rfl

variable {f : Fault} {α : Type}

theorem eq_ok_of_reading {x : Except Error α} {v : α} (h : reading f x = .ok v) : x = .ok v := by
  cases f with
  | ok => exact h
  | refused | unsaved | broken => cases h

variable {w w' : World} {r : Except Error α × MemoryState}

theorem eq_ok_of_writing {v : α} (h : (writing w f r).1 = .ok v) :
    r.1 = .ok v ∧ (writing w f r).2 = { w with metadata := r.2 } := by
  cases f with
  | ok => exact ⟨h, rfl⟩
  | refused | broken => cases h
  | unsaved =>
    rw [writing] at h
    cases hr : r.1 <;> rw [hr] at h <;> cases h

theorem writing_cases (w : World) (f : Fault) (r : Except Error α × MemoryState) :
    (writing w f r).2 = w ∨ (writing w f r).2 = { w with metadata := r.2 } := by
  cases f <;> simp [writing]

/-- **A write happened or it did not**, and it is reported only when it happened. -/
theorem writing_outcome {v : Except Error α} (h : writing w f r = (v, w')) :
    (w' = w ∨ w' = { w with metadata := r.2 }) ∧
      ∀ x, v = .ok x → r.1 = .ok x ∧ w' = { w with metadata := r.2 } := by
  have hcases := writing_cases w f r
  rw [h] at hcases
  refine ⟨hcases, fun x hx => ?_⟩
  have hdone := eq_ok_of_writing (show (writing w f r).1 = .ok x by rw [h]; exact hx)
  rwa [h] at hdone

theorem changing_cases (w : World) (f : Fault) (there : Bool) (d : Disk) :
    (changing w f there d).2 = w ∨
      (changing w f there d) = (true, { w with disk := d }) ∧ there = true := by
  unfold changing
  split_ifs with h
  · exact .inr ⟨rfl, h.2⟩
  · exact .inl rfl

theorem putting_cases (w : World) (v : ObjectVersion) (f : Fault) :
    (putting w v f).2 = w ∨ (putting w v f).2 = { w with metadata := w.metadata.dropNullVersion v } ∨
      (putting w v f).2 = { w with metadata := w.metadata.putObjectVersion v } := by
  cases f <;> simp [putting, writing]

theorem eq_of_putting {u : Unit} (h : putting w v f = (.ok u, w')) :
    w' = { w with metadata := w.metadata.putObjectVersion v } := by
  cases f <;> obtain ⟨hv, rfl⟩ := Prod.mk.inj h <;> first | rfl | cases hv

theorem deletingAll_cases (w : World) (bucket key : Bytes) (f : Fault) :
    (deletingAll w bucket key f).2 = w ∨
      (deletingAll w bucket key f).2 =
        { w with metadata := (w.metadata.deleteAllObjectVersions bucket key).2 } := by
  unfold deletingAll
  dsimp only
  split <;> simp

theorem versions_writing_of_objects (h : r.2.objects = w.metadata.objects) (b k : Bytes) :
    (writing w f r).2.metadata.versions b k = w.metadata.versions b k := by
  rcases writing_cases w f r with hw | hw
  · rw [hw]
  · rw [hw, versions, h, ← versions]

theorem metadata_changing (w : World) (f : Fault) (there : Bool) (d : Disk) :
    (changing w f there d).2.metadata = w.metadata := by
  unfold changing
  split_ifs <;> rfl

/-- The faults of a write of rows that is done. -/
def Fault.Lands : Fault → Prop
  | ok | unsaved => True
  | refused | broken _ => False

instance : ∀ f : Fault, Decidable f.Lands
  | .ok | .unsaved => .isTrue trivial
  | .refused | .broken _ => .isFalse id

theorem writing_of_lands (hf : f.Lands) : (writing w f r).2 = { w with metadata := r.2 } := by
  cases f with
  | ok | unsaved => rfl
  | refused | broken => exact hf.elim

theorem writing_of_not_lands (hf : ¬ f.Lands) : (writing w f r).2 = w := by
  cases f with
  | ok | unsaved => exact absurd trivial hf
  | refused | broken => rfl

theorem deletingAll_of_not_lands {bucket key : Bytes} (hf : ¬ f.Lands) :
    (deletingAll w bucket key f).2 = w := by
  unfold deletingAll
  dsimp only
  cases f with
  | ok | unsaved => exact absurd trivial hf
  | refused | broken => cases (w.metadata.deleteAllObjectVersions bucket key).1 <;> rfl

def Call.KeepsBuckets : Call → Prop
  | createBucket _ | updateBucketVersioning .. | deleteBucket _ => False
  | _ => True

/-- **The buckets after a call.** -/
theorem buckets_step {o : Call} (h : o.KeepsBuckets) :
    (step w f o).2.metadata.buckets = w.metadata.buckets := by
  by_cases hq : o.Quiet
  · exact (hq.same w f).1
  cases o with
  | createBucket | updateBucketVersioning | deleteBucket => exact h.elim
  | putObjectVersion v =>
    rw [step]
    rcases putting_cases w v f with h | h | h <;> rw [h]
    · rw [buckets_dropNullVersion]
    · exact buckets_dropNullVersion
  | updateObjectMetadata bucket key versionID metadata =>
    rw [step]
    rcases writing_cases w f (w.metadata.updateObjectMetadata bucket key versionID metadata)
      with h | h <;> rw [h]
    rw [updateObjectMetadata]
    split <;> rfl
  | deleteObjectVersion bucket key versionID =>
    rw [step]
    rcases writing_cases w f (w.metadata.deleteObjectVersion bucket key versionID) with h | h <;> rw [h]
    rw [deleteObjectVersion]
    dsimp only
    split
    · rfl
    · split_ifs <;> rfl
  | deleteAllObjectVersions bucket key =>
    rw [step]
    rcases deletingAll_cases w bucket key f with h | h <;> rw [h]
    rw [deleteAllObjectVersions]
    split_ifs <;> rfl
  | rename | promote | remove => rw [step, metadata_changing]
  | _ => exact absurd trivial hq

/-- **The rows after a call.** -/
theorem rowChange_step (w : World) (f : Fault) (o : Call) (b k : Bytes) :
    RowChange b k o (w.metadata.versions b k) ((step w f o).2.metadata.versions b k) := by
  by_cases hq : o.Quiet
  · rw [(hq.same w f).versions]
    exact .same
  cases o with
  | createBucket bucket =>
    rw [step, versions_writing_of_objects (w.metadata.objects_createBucket bucket)]
    exact .same
  | updateBucketVersioning bucket status =>
    rw [step, versions_writing_of_objects (w.metadata.objects_updateBucketVersioning bucket status)]
    exact .same
  | deleteBucket bucket =>
    rw [step, versions_writing_of_objects (w.metadata.objects_deleteBucket bucket)]
    exact .same
  | putObjectVersion v =>
    rw [step]
    rcases putting_cases w v f with h | h | h <;> rw [h]
    · exact .same
    · rw [versions_dropNullVersion]
      split_ifs with hv
      · exact .drop hv.1.1.symm hv.1.2.symm hv.2
      · exact .same
    · rw [versions_putObjectVersion]
      split_ifs with hv
      · exact .put hv.1.symm hv.2.symm
      · exact .same
  | updateObjectMetadata bucket key versionID metadata =>
    rw [step]
    rcases writing_cases w f (w.metadata.updateObjectMetadata bucket key versionID metadata)
      with h | h <;> rw [h]
    · exact .same
    by_cases hk : b = bucket ∧ k = key
    · obtain ⟨rfl, rfl⟩ := hk
      exact .update versions_updateObjectMetadata
    · rw [versions_updateObjectMetadata_of_ne hk]
      exact .same
  | deleteObjectVersion bucket key versionID =>
    rw [step]
    rcases writing_cases w f (w.metadata.deleteObjectVersion bucket key versionID) with h | h <;> rw [h]
    · exact .same
    rw [versions_deleteObjectVersion]
    split_ifs with hk
    · obtain ⟨rfl, rfl⟩ := hk
      exact .remove
    · exact .same
  | deleteAllObjectVersions bucket key =>
    rw [step]
    rcases deletingAll_cases w bucket key f with h | h <;> rw [h]
    · exact .same
    rw [versions_deleteAllObjectVersions]
    split_ifs with hk
    · obtain ⟨rfl, rfl⟩ := hk
      exact .clear
    · exact .same
  | rename | promote | remove =>
    rw [step, metadata_changing]
    exact .same
  | _ => exact absurd trivial hq

/-- A row that a deletion returns was there, -/
theorem removed_of_deleteObjectVersion {versionID : Bytes}
    (h : (step w f (.deleteObjectVersion b k versionID)).1 = .ok removed) :
    removed ∈ w.metadata.versions b k ∧ removed.versionID = versionID := by
  have hok : (w.metadata.deleteObjectVersion b k versionID).1 = .ok removed := by
    rw [step] at h
    cases f with
    | ok => exact h
    | unsaved =>
      simp only [writing] at h
      cases hr : (w.metadata.deleteObjectVersion b k versionID).1 <;> rw [hr] at h <;> cases h
    | refused | broken => cases h
  rw [fst_deleteObjectVersion] at hok
  split at hok
  · cases hok
  · cases hok
    exact find_some (by assumption)

/-- …and so were the rows that a deletion of all of them returns. -/
theorem removed_of_deleteAllObjectVersions
    (h : removed ∈ (step w f (.deleteAllObjectVersions b k)).1.1) :
    removed ∈ w.metadata.versions b k := by
  simp only [step, deletingAll, deleteAllObjectVersions] at h
  by_cases hnil : w.metadata.versions b k = []
  · simp only [if_pos hnil] at h
    cases f <;> cases h
  simp only [if_neg hnil] at h
  cases f with
  | ok | broken => exact h
  | refused | unsaved => cases h

theorem disk_writing (w : World) (f : Fault) (r : Except Error α × MemoryState) :
    (writing w f r).2.disk = w.disk := by
  rcases writing_cases w f r with h | h <;> rw [h]

/-- **An object file after a call.** -/
theorem fileChange_step (w : World) (f : Fault) (o : Call) (path : Bytes) :
    FileChange path o (step w f o).1 (w.disk.files path) ((step w f o).2.disk.files path) := by
  by_cases hq : o.Quiet
  · rw [(hq.same w f).2.2]
    exact .same
  cases o with
  | createBucket | updateBucketVersioning | deleteBucket | updateObjectMetadata
  | deleteObjectVersion =>
    rw [step, disk_writing]
    exact .same
  | putObjectVersion v =>
    rw [step]
    rcases putting_cases w v f with h | h | h <;> rw [h] <;> exact .same
  | deleteAllObjectVersions bucket key =>
    rw [step]
    rcases deletingAll_cases w bucket key f with h | h <;> rw [h] <;> exact .same
  | rename id content p =>
    rw [step]
    rcases changing_cases w f (id ∈ w.disk.temps)
      ((w.disk.dropTemp id).setFile p (some content)) with h | ⟨h, -⟩ <;> rw [h]
    · exact .same
    rw [Disk.files_setFile]
    split_ifs with hp
    · exact hp ▸ .rename
    · exact .same
  | promote uploadID n p =>
    rw [step]
    rcases changing_cases w f (w.disk.staged uploadID n).isSome
      ((w.disk.setPart uploadID n none).setFile p (w.disk.staged uploadID n)) with h | ⟨h, hs⟩ <;>
      rw [h]
    · exact .same
    rw [Disk.files_setFile]
    split_ifs with hp
    · obtain ⟨content, hcontent⟩ := Option.isSome_iff_exists.1 hs
      exact hcontent ▸ hp ▸ .promote
    · exact .same
  | remove p =>
    rw [step]
    rcases changing_cases w f true (w.disk.setFile p none) with h | ⟨h, -⟩ <;> rw [h]
    · exact .same
    rw [Disk.files_setFile]
    split_ifs with hp
    · exact hp ▸ .remove
    · exact .same
  | _ => exact absurd trivial hq

end S000
