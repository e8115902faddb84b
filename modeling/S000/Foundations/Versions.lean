import Mathlib.Data.List.Nodup
import Mathlib.Data.List.Perm.Basic

/-!
# Foundations/Versions — lists of versions

A version list has its newest entry last.  Every entry has an id, and one id, `null`, stands for the
version that is replaced in place: putting an entry with that id takes the one before it out.  The
entries are of any type with an id.
-/

namespace S000.Versions

open List

variable {ι ε : Type} [DecidableEq ι] (id : ε → ι) (null : ι)

/-- A new version; it replaces the entry of the same id if that is `null`. -/
def put (e : ε) (l : List ε) : List ε :=
  (if id e = null then l.filter fun x => id x ≠ null else l) ++ [e]

def find (v : ι) (l : List ε) : Option ε := l.find? fun x => id x = v

/-- The list without the first entry with an id. -/
def remove (v : ι) (l : List ε) : List ε := l.eraseP fun x => id x = v

variable {id null} {e x : ε} {l : List ε} {v : ι}

/-! ## Entries -/

theorem mem_put : x ∈ put id null e l ↔ x = e ∨ x ∈ l ∧ (id e = null → id x ≠ null) := by
  unfold put
  split_ifs with h <;> simp [h, or_comm]

theorem find_some (h : find id v l = some x) : x ∈ l ∧ id x = v :=
  ⟨mem_of_find?_eq_some h, by simpa using find?_some h⟩

theorem find_eq_none : find id v l = none ↔ ∀ x ∈ l, id x ≠ v := by simp [find]

theorem find_of_mem (hl : (l.map id).Nodup) (hx : x ∈ l) : find id (id x) l = some x := by
  cases hf : find id (id x) l with
  | none => exact absurd rfl (find_eq_none.1 hf x hx)
  | some y =>
    obtain ⟨hy, hid⟩ := find_some hf
    rw [inj_on_of_nodup_map hl hy hx hid]

theorem find_put_self (h : id e = null ∨ id e ∉ l.map id) :
    find id (id e) (put id null e l) = some e := by
  have hnone : find id (id e) (if id e = null then l.filter fun x => id x ≠ null else l) = none := by
    rw [find_eq_none]
    split_ifs with hnull
    · intro x hx
      rw [hnull]
      simpa using (mem_filter.1 hx).2
    · intro x hx hid
      exact (h.resolve_left hnull) (hid ▸ mem_map_of_mem hx)
  rw [put, find, find?_append, ← find, hnone]
  simp

theorem mem_remove_of_ne (hx : id x ≠ v) : x ∈ remove id v l ↔ x ∈ l :=
  mem_eraseP_of_neg (by simpa using hx)

theorem mem_of_mem_remove (hx : x ∈ remove id v l) : x ∈ l := mem_of_mem_eraseP hx

theorem remove_eq_self_iff : remove id v l = l ↔ find id v l = none := by
  rw [remove, find_eq_none]
  simp

theorem remove_eq_nil_iff : remove id v l = [] ↔ l = [] ∨ ∃ x, l = [x] ∧ id x = v := by
  rw [remove]
  simp [and_comm]

/-! ## Distinct ids -/

theorem nodup_put (hl : (l.map id).Nodup) (he : id e = null ∨ id e ∉ l.map id) :
    ((put id null e l).map id).Nodup := by
  rw [put, map_append, nodup_append]
  refine ⟨?_, nodup_singleton _, ?_⟩
  · split_ifs
    · exact hl.sublist (filter_sublist.map id)
    · exact hl
  intro a ha b hb
  obtain rfl := mem_singleton.1 hb
  split_ifs at ha with h
  · obtain ⟨y, hy, rfl⟩ := mem_map.1 ha
    simpa [h] using (mem_filter.1 hy).2
  · rintro rfl
    exact he.elim h (fun hne => hne ha)

/-- Where ids are distinct, removing one entry removes all with its id. -/
theorem remove_eq_filter (hl : (l.map id).Nodup) : remove id v l = l.filter fun x => id x ≠ v := by
  induction l with
  | nil => rfl
  | cons y l ih =>
    rw [map_cons, nodup_cons] at hl
    by_cases hy : id y = v
    · rw [remove, eraseP_cons_of_pos (by simpa using hy), filter_cons_of_neg (by simpa using hy)]
      refine (filter_eq_self.2 fun x hx => ?_).symm
      have hne : id x ≠ v := fun hx' => hl.1 (hy ▸ hx' ▸ mem_map_of_mem hx)
      simpa using hne
    · rw [remove, eraseP_cons_of_neg (by simpa using hy), filter_cons_of_pos (by simpa using hy),
        ← ih hl.2, remove]

/-- …and changing the first entry with an id changes all with it. -/
theorem modify_findIdx {f : ε → ε} (hl : (l.map id).Nodup) {i : ℕ}
    (hi : l.findIdx? (fun x => id x = v) = some i) :
    l.modify i f = l.map fun x => if id x = v then f x else x := by
  induction l generalizing i with
  | nil => cases hi
  | cons y l ih =>
    rw [map_cons, nodup_cons] at hl
    rw [findIdx?_cons] at hi
    by_cases hy : id y = v
    · rw [if_pos (by simpa using hy)] at hi
      cases hi
      have hrest : l.map (fun x => if id x = v then f x else x) = l := by
        conv_rhs => rw [← map_id l]
        refine map_congr_left fun x hx => if_neg fun hx' => ?_
        exact hl.1 (hy ▸ hx' ▸ mem_map_of_mem hx)
      simp [hy, hrest]
    · rw [if_neg (by simpa using hy)] at hi
      obtain ⟨j, hj, rfl⟩ := Option.map_eq_some_iff.1 hi
      simp [hy, ih hl.2 hj]

/-- A change of the first entry with an id is found under that id alone. -/
theorem find_modify {f : ε → ε} (hf : ∀ x, id (f x) = id x) {u : ι} {i : ℕ}
    (hi : l.findIdx? (fun x => id x = v) = some i) :
    find id u (l.modify i f) = (find id u l).map fun x => if u = v then f x else x := by
  induction l generalizing i with
  | nil => cases hi
  | cons y l ih =>
    rw [findIdx?_cons] at hi
    by_cases hy : id y = v
    · rw [if_pos (by simpa using hy)] at hi
      cases hi
      by_cases hu : u = v
      · simp [find, hf, hy, hu]
      · simp [find, hf, hy, hu, Ne.symm hu]
    · rw [if_neg (by simpa using hy)] at hi
      obtain ⟨j, hj, rfl⟩ := Option.map_eq_some_iff.1 hi
      by_cases hyu : id y = u
      · simp [find, hyu, hyu ▸ hy]
      · simpa [find, hyu] using ih hj

end S000.Versions
