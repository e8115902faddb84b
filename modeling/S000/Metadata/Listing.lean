import S000.Foundations.Lex
import S000.Metadata.Model

/-!
# Metadata/Listing — keys folded into common prefixes, and pages

A listing with a delimiter shows, for every key below a prefix, either the key itself or the part of
it up to the first delimiter after the prefix.  What is shown is always a prefix of the key, and it
grows with the key (`shown_le_of_lt`), so a listing made in the order of the keys is sorted and has
no value twice (`pairwise_foldEntries`).
-/

namespace S000.Metadata

open Strings List

/-! ## What a key is shown as -/

/-- The common prefix a key is folded into, if it is folded. -/
def commonPrefix (pre delimiter key : Bytes) : Option Bytes :=
  if delimiter = [] then none
  else
    let tail := trimPrefix key pre
    (index tail delimiter).map fun idx => pre ++ tail.take (idx + delimiter.length)

def shown (pre delimiter key : Bytes) : Bytes := (commonPrefix pre delimiter key).getD key

variable {pre delimiter key key' cp : Bytes}

/-- **A key is folded at its first delimiter after the prefix.** -/
theorem commonPrefix_append {tail : Bytes} : commonPrefix pre delimiter (pre ++ tail) = some cp ↔
    delimiter ≠ [] ∧ ∃ idx, index tail delimiter = some idx ∧
      cp = pre ++ tail.take (idx + delimiter.length) := by
  rw [commonPrefix]
  split_ifs with h
  · simp [h]
  · simp [h, eq_comm]

variable {s sub : Bytes}

theorem isPrefix_drop_of_take {i n : ℕ} (h : sub <+: (s.take n).drop i) : sub <+: s.drop i := by
  rw [drop_take] at h
  exact h.trans ( take_prefix _ _)

theorem index_take {i : ℕ} (h : index s sub = some i) :
    index (s.take (i + sub.length)) sub = some i := by
  obtain ⟨⟨hi, hsub⟩, hfirst⟩ := index_eq_some_iff.1 h
  refine index_eq_some_iff.2 ⟨⟨?_, ?_⟩, fun j hj hpre => hfirst j hj (isPrefix_drop_of_take hpre)⟩
  · simp only [length_take]
    omega
  · rw [drop_take, Nat.add_sub_cancel_left]
    exact (prefix_take_iff.2 ⟨hsub, le_refl _⟩)

theorem index_append {t : Bytes} {i : ℕ} (h : index s sub = some i) : index (s ++ t) sub = some i := by
  obtain ⟨⟨hi, hsub⟩, hfirst⟩ := index_eq_some_iff.1 h
  have hlen : i + sub.length ≤ s.length := by
    have := hsub.length_le
    rw [length_drop] at this
    omega
  refine index_eq_some_iff.2 ⟨⟨?_, ?_⟩, fun j hj hpre => hfirst j hj ?_⟩
  · rw [length_append]
    omega
  · rw [drop_append_of_le_length hi]
    exact hsub.trans (prefix_append _ _)
  rw [drop_append_of_le_length (by omega)] at hpre
  refine prefix_of_prefix_length_le hpre (prefix_append _ _) ?_
  rw [length_drop]
  omega

section Below

variable (hpre : pre <+: key)

include hpre

theorem isPrefix_of_commonPrefix (h : commonPrefix pre delimiter key = some cp) :
    pre <+: cp ∧ cp <+: key := by
  obtain ⟨tail, rfl⟩ := hpre
  obtain ⟨-, idx, -, rfl⟩ := commonPrefix_append.1 h
  exact ⟨prefix_append _ _, (prefix_append_right_inj _).2 ( take_prefix _ _)⟩

/-- **Everything below a common prefix is folded into it.** -/
theorem commonPrefix_of_isPrefix (h : commonPrefix pre delimiter key = some cp) (hkey : cp <+: key') :
    commonPrefix pre delimiter key' = some cp := by
  obtain ⟨tail, rfl⟩ := hpre
  obtain ⟨hdel, idx, hidx, rfl⟩ := commonPrefix_append.1 h
  obtain ⟨rest, rfl⟩ := hkey
  rw [append_assoc]
  refine commonPrefix_append.2 ⟨hdel, idx, index_append (index_take hidx), ?_⟩
  obtain ⟨⟨hi, hsub⟩, -⟩ := index_eq_some_iff.1 hidx
  have hlen : (tail.take (idx + delimiter.length)).length = idx + delimiter.length := by
    have := hsub.length_le
    rw [length_drop] at this
    rw [length_take]
    omega
  rw [take_append_of_le_length hlen.ge, take_take, min_self]

theorem isSuffix_of_commonPrefix (h : commonPrefix pre delimiter key = some cp) :
    delimiter ≠ [] ∧ delimiter <:+ cp := by
  obtain ⟨tail, rfl⟩ := hpre
  obtain ⟨hdel, idx, hidx, rfl⟩ := commonPrefix_append.1 h
  obtain ⟨⟨-, rest, hrest⟩, -⟩ := index_eq_some_iff.1 hidx
  refine ⟨hdel, ?_⟩
  rw [take_add, ← hrest, take_left, ← append_assoc]
  exact suffix_append _ _

theorem shown_isPrefix : shown pre delimiter key <+: key := by
  rw [shown]
  cases h : commonPrefix pre delimiter key with
  | none => exact prefix_rfl
  | some cp => exact (isPrefix_of_commonPrefix hpre h).2

theorem isPrefix_shown : pre <+: shown pre delimiter key := by
  rw [shown]
  cases h : commonPrefix pre delimiter key with
  | none => exact hpre
  | some cp => exact (isPrefix_of_commonPrefix hpre h).1

/-- **What is shown grows with the key.** -/
theorem shown_le_of_lt (hpre' : pre <+: key') (h : key < key') :
    shown pre delimiter key ≤ shown pre delimiter key' := by
  cases hcp : commonPrefix pre delimiter key' with
  | none =>
    have hle : shown pre delimiter key ≤ key := Lex.le_of_isPrefix (shown_isPrefix hpre)
    simpa [shown, hcp] using (hle.trans_lt h).le
  | some cp =>
    rw [show shown pre delimiter key' = cp by simp [shown, hcp]]
    refine Lex.le_of_isPrefix_of_le (shown_isPrefix hpre) (isPrefix_of_commonPrefix hpre' hcp).2 h.le
      fun ⟨hbelow, hne⟩ => hne ?_
    -- a key below the common prefix is shown as that prefix
    simp [shown, commonPrefix_of_isPrefix hpre' hcp (hbelow.trans (shown_isPrefix hpre))]

end Below

/-- Two keys are shown alike when they are folded into one prefix, and only then. -/
theorem commonPrefix_of_shown_eq (hpre' : pre <+: key') (hne : key ≠ key')
    (h : shown pre delimiter key = shown pre delimiter key') :
    commonPrefix pre delimiter key = some (shown pre delimiter key) := by
  cases hcp : commonPrefix pre delimiter key with
  | some cp => simp [shown, hcp]
  | none =>
    have hkey : shown pre delimiter key = key := by simp [shown, hcp]
    cases hcp' : commonPrefix pre delimiter key' with
    | none => exact absurd (hkey.symm.trans (h.trans (by simp [shown, hcp']))) hne
    | some cp' =>
      have hkey' : cp' = key := by
        rw [← hkey, h]
        simp [shown, hcp']
      rw [← hkey', commonPrefix_of_isPrefix hpre' hcp' prefix_rfl] at hcp
      cases hcp

/-! ## Entries -/

/-- `ListObjectsV2Entry`, and the `listV2Entry` of the server: an object, or a common prefix. -/
structure ListEntry where
  value : Bytes
  object : Option ObjectVersion := none
deriving DecidableEq

def entryOf (pre delimiter : Bytes) (obj : ObjectVersion) : ListEntry where
  value := shown pre delimiter obj.key
  object := if (commonPrefix pre delimiter obj.key).isSome then none else some obj

/-- The body of both listing loops: the entry of an object, and the common prefixes seen by then;
nothing when its common prefix has been seen. -/
def nextEntry (pre delimiter : Bytes) (seen : List Bytes) (obj : ObjectVersion) :
    Option (ListEntry × List Bytes) :=
  match commonPrefix pre delimiter obj.key with
  | some cp => if cp ∈ seen then none else some (⟨cp, none⟩, cp :: seen)
  | none => some (⟨obj.key, some obj⟩, seen)

/-- A listing loop without a limit; `skip` says which keys are passed over. -/
def foldEntries (pre delimiter : Bytes) (skip : Bytes → Bool) (seen : List Bytes) :
    List ObjectVersion → List ListEntry
  | [] => []
  | obj :: objects =>
    if skip obj.key then foldEntries pre delimiter skip seen objects
    else match nextEntry pre delimiter seen obj with
      | none => foldEntries pre delimiter skip seen objects
      | some (entry, seen) => entry :: foldEntries pre delimiter skip seen objects

variable {skip : Bytes → Bool} {seen : List Bytes} {obj : ObjectVersion} {objects : List ObjectVersion}

theorem nextEntry_eq : nextEntry pre delimiter seen obj =
    if ∃ cp ∈ seen, commonPrefix pre delimiter obj.key = some cp then none
    else some (entryOf pre delimiter obj, (commonPrefix pre delimiter obj.key).toList ++ seen) := by
  rw [nextEntry, entryOf, shown]
  cases h : commonPrefix pre delimiter obj.key with
  | none => simp
  | some cp => by_cases hseen : cp ∈ seen <;> simp

theorem foldEntries_cons : foldEntries pre delimiter skip seen (obj :: objects) =
    if skip obj.key ∨ ∃ cp ∈ seen, commonPrefix pre delimiter obj.key = some cp then
      foldEntries pre delimiter skip seen objects
    else entryOf pre delimiter obj :: foldEntries pre delimiter skip
      ((commonPrefix pre delimiter obj.key).toList ++ seen) objects := by
  rw [foldEntries, nextEntry_eq]
  by_cases hskip : skip obj.key = true
  · rw [if_pos hskip, if_pos (.inl hskip)]
  by_cases hseen : ∃ cp ∈ seen, commonPrefix pre delimiter obj.key = some cp
  · rw [if_neg hskip, if_pos hseen, if_pos (.inr hseen)]
  · rw [if_neg hskip, if_neg hseen, if_neg (not_or.2 ⟨hskip, hseen⟩)]

theorem entryOf_congr {obj' : ObjectVersion} (h : commonPrefix pre delimiter obj.key = some cp)
    (h' : commonPrefix pre delimiter obj'.key = some cp) :
    entryOf pre delimiter obj = entryOf pre delimiter obj' := by
  simp [entryOf, shown, h, h']

/-- **What is listed**: the entries of the objects that are not passed over. -/
theorem mem_foldEntries {entry : ListEntry} : ∀ {objects : List ObjectVersion} {seen : List Bytes},
    entry ∈ foldEntries pre delimiter skip seen objects ↔
      ∃ obj ∈ objects, skip obj.key = false ∧ entryOf pre delimiter obj = entry ∧
        ∀ cp ∈ seen, commonPrefix pre delimiter obj.key ≠ some cp
  | [], seen => by simp [foldEntries]
  | obj :: objects, seen => by
    rw [foldEntries_cons]
    split_ifs with h
    · rw [mem_foldEntries]
      simp only [mem_cons, exists_eq_or_imp]
      refine ⟨.inr, ?_⟩
      rintro (⟨hskip, -, hseen⟩ | h')
      · rcases h with h | ⟨cp, hcp, h⟩
        · simp [hskip] at h
        · exact absurd h (hseen cp hcp)
      · exact h'
    · rw [not_or, Bool.not_eq_true, not_exists] at h
      rw [mem_cons, mem_foldEntries]
      simp only [mem_cons, exists_eq_or_imp, mem_append, Option.mem_toList]
      constructor
      · rintro (rfl | ⟨obj', hmem, hskip, he, hseen⟩)
        · exact .inl ⟨h.1, rfl, fun cp hcp e => h.2 cp ⟨hcp, e⟩⟩
        · exact .inr ⟨obj', hmem, hskip, he, fun cp hcp => hseen cp (.inr hcp)⟩
      rintro (⟨-, rfl, -⟩ | ⟨obj', hmem, hskip, rfl, hseen⟩)
      · exact .inl rfl
      -- an object folded with this one has its entry already
      by_cases hcp : ∃ cp, commonPrefix pre delimiter obj.key = some cp ∧
          commonPrefix pre delimiter obj'.key = some cp
      · obtain ⟨cp, hcp, hcp'⟩ := hcp
        exact .inl (entryOf_congr hcp' hcp)
      refine .inr ⟨obj', hmem, hskip, rfl, ?_⟩
      rintro cp (hcp' | hcp') e
      · exact hcp ⟨cp, hcp', e⟩
      · exact hseen cp hcp' e

/-- **A listing made in the order of the keys is strictly sorted.** -/
theorem pairwise_foldEntries : ∀ {objects : List ObjectVersion} {seen : List Bytes},
    objects.Pairwise (fun o o' => o.key < o'.key) → (∀ o ∈ objects, skip o.key = false → pre <+: o.key) →
    (foldEntries pre delimiter skip seen objects).Pairwise fun e e' => e.value < e'.value
  | [], _, _, _ => by simp [foldEntries]
  | obj :: objects, seen, hsorted, hpre => by
    rw [pairwise_cons] at hsorted
    have hpre' : ∀ o ∈ objects, skip o.key = false → pre <+: o.key :=
      fun o ho => hpre o (mem_cons_of_mem obj ho)
    rw [foldEntries_cons]
    split_ifs with h
    · exact pairwise_foldEntries hsorted.2 hpre'
    rw [not_or, Bool.not_eq_true] at h
    refine pairwise_cons.2 ⟨fun e he => ?_, pairwise_foldEntries hsorted.2 hpre'⟩
    obtain ⟨obj', hmem, hskip, rfl, hseen⟩ := mem_foldEntries.1 he
    have hlt := hsorted.1 obj' hmem
    have hobj := hpre obj mem_cons_self h.1
    have hobj' := hpre' obj' hmem hskip
    refine lt_of_le_of_ne (shown_le_of_lt hobj hobj' hlt) fun heq => ?_
    -- shown alike, they would be folded together, and the second passed over
    have hcp := commonPrefix_of_shown_eq hobj' hlt.ne heq
    have hcp' := commonPrefix_of_shown_eq hobj hlt.ne' heq.symm
    exact hseen _ (mem_append_left _ (Option.mem_toList.2 hcp)) (hcp'.trans (congrArg some heq.symm))

/-! ## Pages -/

/-- `ListObjectsV2Result`. -/
structure ListObjectsV2Result where
  entries : List ListEntry := []
  isTruncated : Bool := false
  nextAfter : Bytes := []
deriving DecidableEq

/-- The first `n` entries, and where to go on if there are more; a page of no entries is never
truncated. -/
def page (n : ℕ) (entries : List ListEntry) : ListObjectsV2Result :=
  if n = 0 ∨ entries.length ≤ n then { entries := entries.take n }
  else
    { entries := entries.take n
      isTruncated := true
      nextAfter := ((entries.take n).getLast?.map ListEntry.value).getD [] }

theorem entries_page (n : ℕ) (entries : List ListEntry) :
    (page n entries).entries = entries.take n := by
  rw [page]
  split_ifs <;> rfl

theorem eq_of_mem_iff {l l' : List ListEntry} (hl : l.Pairwise fun e e' => e.value < e'.value)
    (hl' : l'.Pairwise fun e e' => e.value < e'.value) (h : ∀ e, e ∈ l ↔ e ∈ l') : l = l' := by
  have hnodup : ∀ {l : List ListEntry}, (l.Pairwise fun e e' => e.value < e'.value) → l.Nodup :=
    fun hl => hl.imp fun hlt heq => absurd (congrArg ListEntry.value heq) hlt.ne
  refine ((perm_ext_iff_of_nodup (hnodup hl) (hnodup hl')).2 h).eq_of_pairwise ?_ hl hl'
  exact fun e e' _ _ hlt hlt' => absurd hlt (lt_asymm hlt')

end S000.Metadata
