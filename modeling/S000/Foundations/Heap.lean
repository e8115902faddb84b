import Mathlib.Data.List.AList
import Mathlib.Data.Set.Basic

/-!
# Foundations/Heap — values that are shared and changed in place

A map or an array is a cell that others refer to by its number, and `Changes S` says which cells may
have another value afterwards.  A slice is a part of an array from its beginning; what appends to it,
filters it or deletes from it writes to the array it has or to a new one, and to no other array
(`Updates`).  Copying a map of such things cell by cell gives new cells with the same values
(`copyEach`).
-/

namespace S000.Heap

open List Function

/-! ## Cells -/

/-- Cells with a value each; those from `next` on are not in use. -/
structure Cells (V : Type) where
  val : ℕ → V
  next : ℕ

namespace Cells

variable {V : Type} {c c' c'' : Cells V} {a : ℕ} {v : V} {S S' : Set ℕ}

def write (c : Cells V) (a : ℕ) (v : V) : Cells V := { c with val := update c.val a v }

/-- A new cell, with the number `c.next`. -/
def alloc (c : Cells V) (v : V) : Cells V := ⟨update c.val c.next v, c.next + 1⟩

@[simp] theorem next_write : (c.write a v).next = c.next := rfl

@[simp] theorem next_alloc : (c.alloc v).next = c.next + 1 := rfl

@[simp] theorem val_write_self : (c.write a v).val a = v := update_self _ _ _

theorem val_write_of_ne {b : ℕ} (h : b ≠ a) : (c.write a v).val b = c.val b := update_of_ne h _ _

@[simp] theorem val_alloc_self : (c.alloc v).val c.next = v := update_self _ _ _

theorem val_alloc_of_lt {b : ℕ} (h : b < c.next) : (c.alloc v).val b = c.val b := update_of_ne h.ne _ _

/-- Of the cells in use, only those in `S` may have another value afterwards. -/
structure Changes (S : Set ℕ) (c c' : Cells V) : Prop where
  next_le : c.next ≤ c'.next
  val_eq : ∀ a < c.next, a ∉ S → c'.val a = c.val a

theorem Changes.refl (S : Set ℕ) (c : Cells V) : Changes S c c := ⟨le_refl _, fun _ _ _ => rfl⟩

theorem changes_write (h : a ∈ S) : Changes S c (c.write a v) :=
  ⟨le_refl _, fun _ _ hb => val_write_of_ne fun e => hb (e ▸ h)⟩

theorem changes_alloc : Changes S c (c.alloc v) := ⟨Nat.le_succ _, fun _ hb _ => val_alloc_of_lt hb⟩

theorem Changes.trans (h : Changes S c c') (h' : Changes S' c' c'')
    (hS : ∀ a ∈ S', a ∈ S ∨ c.next ≤ a) : Changes S c c'' := by
  refine ⟨h.next_le.trans h'.next_le, fun a ha hnot => ?_⟩
  have hnot' : a ∉ S' := fun hmem => (hS a hmem).elim hnot (not_le.2 ha)
  rw [h'.val_eq a (ha.trans_le h.next_le) hnot', h.val_eq a ha hnot]

theorem Changes.mono (h : Changes S c c') (hS : S ⊆ S') : Changes S' c c' :=
  ⟨h.next_le, fun a ha hnot => h.val_eq a ha fun hmem => hnot (hS hmem)⟩

end Cells

/-! ## Slices -/

/-- The first cells of an array; the nil slice is that of array 0, which is empty. -/
structure Slice where
  array : ℕ := 0
  length : ℕ := 0

section Slices

variable {α : Type} {h h' : Cells (List α)} {s s' : Slice} {l : List α} {v : α}

def read (h : Cells (List α)) (s : Slice) : List α := (h.val s.array).take s.length

structure Slice.Ok (h : Cells (List α)) (s : Slice) : Prop where
  array_lt : s.array < h.next
  length_le : s.length ≤ (h.val s.array).length

/-- Array 0 is there and empty. -/
structure NilOk (h : Cells (List α)) : Prop where
  next_pos : 0 < h.next
  val_zero : h.val 0 = []

theorem length_read (hs : s.Ok h) : (read h s).length = s.length := by
  rw [read, length_take, min_eq_left hs.length_le]

/-- A slice `s` with elements `l` is what has become of `s₀`: it has the array of `s₀` or a new one, and
no other array was changed. -/
structure Updates (h : Cells (List α)) (s : Slice) (h' : Cells (List α)) (s' : Slice) (l : List α) :
    Prop where
  read_eq : read h' s' = l
  ok : s'.Ok h'
  nilOk : NilOk h'
  array_eq : s'.array = s.array ∨ h.next ≤ s'.array
  changes : h.Changes {a | a = s.array ∧ a ≠ 0} h'

theorem read_of_changes {S : Set ℕ} (hc : h.Changes S h') (hs : s.Ok h) (hnot : s.array ∉ S) :
    read h' s = read h s := by
  rw [read, read, hc.val_eq _ hs.array_lt hnot]

theorem Slice.Ok.of_changes {S : Set ℕ} (hs : s.Ok h) (hc : h.Changes S h') (hnot : s.array ∉ S) :
    s.Ok h' :=
  ⟨hs.array_lt.trans_le hc.next_le, by rw [hc.val_eq _ hs.array_lt hnot]; exact hs.length_le⟩

theorem updates_write (hs : s.Ok h) (hnil : NilOk h) {cells : List α} {n : ℕ}
    (hlength : cells.length = (h.val s.array).length) (hn : n ≤ cells.length) :
    Updates h s (h.write s.array cells) ⟨s.array, n⟩ (cells.take n) := by
  have hzero : s.array = 0 → cells = [] := by
    intro h0
    rw [h0, hnil.val_zero] at hlength
    exact length_eq_zero_iff.1 hlength
  refine ⟨by simp [read], ⟨hs.array_lt, by simpa using hn⟩, ⟨hnil.next_pos, ?_⟩, .inl rfl, ?_⟩
  · by_cases h0 : s.array = 0
    · rw [hzero h0, h0, Cells.val_write_self]
    · rw [Cells.val_write_of_ne (symm h0), hnil.val_zero]
  refine ⟨le_refl _, fun a _ hnot => ?_⟩
  by_cases ha : a = s.array
  · subst ha
    have h0 : s.array = 0 := by
      by_contra h0
      exact hnot ⟨rfl, h0⟩
    rw [Cells.val_write_self, hzero h0, h0, hnil.val_zero]
  · exact Cells.val_write_of_ne ha

theorem updates_alloc (hnil : NilOk h) {cells : List α} {n : ℕ} (hn : n ≤ cells.length) :
    Updates h s (h.alloc cells) ⟨h.next, n⟩ (cells.take n) := by
  refine ⟨by simp [read], ⟨Nat.lt_succ_self _, by simpa using hn⟩, ⟨Nat.succ_pos _, ?_⟩,
    .inr (le_refl _), Cells.changes_alloc⟩
  rw [Cells.val_alloc_of_lt hnil.next_pos, hnil.val_zero]

/-! ### Append -/

/-- `append(s, v)`: in the array while it has room, else in a new one with room to spare. -/
def append (spare : List α) (h : Cells (List α)) (s : Slice) (v : α) : Cells (List α) × Slice :=
  if s.length < (h.val s.array).length then
    (h.write s.array ((h.val s.array).set s.length v), ⟨s.array, s.length + 1⟩)
  else (h.alloc (read h s ++ v :: spare), ⟨h.next, s.length + 1⟩)

theorem updates_append (spare : List α) (hs : s.Ok h) (hnil : NilOk h) :
    Updates h s (append spare h s v).1 (append spare h s v).2 (read h s ++ [v]) := by
  unfold append
  split_ifs with hroom
  · have htake : ((h.val s.array).set s.length v).take (s.length + 1) = read h s ++ [v] := by
      rw [take_add_one, take_set_of_le (le_refl _), getElem?_set_self hroom]
      rfl
    rw [← htake]
    exact updates_write hs hnil (length_set) (by rwa [length_set])
  · have hlength := length_read hs
    have htake : (read h s ++ v :: spare).take (s.length + 1) = read h s ++ [v] := by
      rw [← hlength, take_length_add_append]
      rfl
    rw [← htake]
    refine updates_alloc hnil ?_
    rw [length_append, length_cons]
    omega

/-! ### A filter in place -/

/-- `for _, x := range s { if p(x) { t = append(t, x) } }` with `t := s[:0]`: `i` elements have been
read, `j` written, and `rem` are to be read. -/
def filterLoop (p : α → Bool) : ℕ → ℕ → ℕ → List α → ℕ × List α
  | 0, _, j, cells => (j, cells)
  | rem + 1, i, j, cells =>
    match cells[i]? with
    | some x =>
      if p x then filterLoop p rem (i + 1) (j + 1) (cells.set j x)
      else filterLoop p rem (i + 1) j cells
    | none => filterLoop p rem (i + 1) j cells

/-- **The loop reads ahead of what it writes**: from position `i` on the cells are the old ones, and
before position `j` stand the elements kept so far. -/
theorem filterLoop_spec {p : α → Bool} {cells₀ : List α} : ∀ {rem i j : ℕ} {cells : List α},
    j ≤ i → i + rem ≤ cells₀.length → cells.length = cells₀.length →
    cells.drop i = cells₀.drop i → cells.take j = (cells₀.take i).filter p →
    (filterLoop p rem i j cells).1 ≤ i + rem ∧ (filterLoop p rem i j cells).2.length = cells₀.length ∧
      (filterLoop p rem i j cells).2.take (filterLoop p rem i j cells).1 =
        (cells₀.take (i + rem)).filter p
  | 0, i, j, cells, hj, hi, hlength, _, htake => ⟨hj, hlength, htake⟩
  | rem + 1, i, j, cells, hj, hi, hlength, hdrop, htake => by
    have hlt : i < cells₀.length := by omega
    have hcells : cells[i]? = some cells₀[i] := by
      have := congrArg (·[0]?) hdrop
      simpa [getElem?_eq_getElem hlt] using this
    have hnext : (cells₀.take (i + 1)).filter p = (cells₀.take i).filter p ++ [cells₀[i]].filter p := by
      rw [take_add_one, getElem?_eq_getElem hlt, Option.toList_some, filter_append]
    have hrem : i + (rem + 1) = i + 1 + rem := by omega
    rw [filterLoop, hcells, hrem]
    dsimp only
    split_ifs with hp
    · refine filterLoop_spec (by omega) (by omega) (by rwa [length_set]) ?_ ?_
      · rw [drop_set_of_lt (by omega), ← drop_drop, hdrop, drop_drop]
      rw [hnext, filter_cons_of_pos hp, ← htake, take_add_one,
        take_set_of_le (le_refl _), getElem?_set_self (by omega)]
      rfl
    · refine filterLoop_spec (by omega) (by omega) hlength ?_ ?_
      · rw [← drop_drop, hdrop, drop_drop]
      · rw [hnext, filter_cons_of_neg hp, filter_nil, append_nil, htake]

def filterInPlace (p : α → Bool) (h : Cells (List α)) (s : Slice) : Cells (List α) × Slice :=
  let r := filterLoop p s.length 0 0 (h.val s.array)
  (h.write s.array r.2, ⟨s.array, r.1⟩)

theorem updates_filterInPlace (p : α → Bool) (hs : s.Ok h) (hnil : NilOk h) :
    Updates h s (filterInPlace p h s).1 (filterInPlace p h s).2 ((read h s).filter p) := by
  have hbound : 0 + s.length ≤ (h.val s.array).length := by
    rw [Nat.zero_add]
    exact hs.length_le
  obtain ⟨hle, hlength, htake⟩ := filterLoop_spec (le_refl 0) hbound rfl rfl rfl
  rw [Nat.zero_add] at hle htake
  rw [read, ← htake]
  refine updates_write hs hnil hlength ?_
  rw [hlength]
  exact hle.trans hs.length_le

/-! ### Writing and deleting elements -/

/-- `s[i] = v`. -/
def setAt (h : Cells (List α)) (s : Slice) (i : ℕ) (v : α) : Cells (List α) :=
  h.write s.array ((h.val s.array).set i v)

theorem updates_setAt (hs : s.Ok h) (hnil : NilOk h) (i : ℕ) :
    Updates h s (setAt h s i v) s ((read h s).set i v) := by
  have htake : (read h s).set i v = ((h.val s.array).set i v).take s.length := by rw [read, take_set]
  rw [htake]
  exact updates_write hs hnil length_set (by rw [length_set]; exact hs.length_le)

/-- `append(s[:i], s[i+1:]...)`: the elements behind move down. -/
def deleteAt (h : Cells (List α)) (s : Slice) (i : ℕ) : Cells (List α) × Slice :=
  let cells := h.val s.array
  (h.write s.array (cells.take i ++ (cells.take s.length).drop (i + 1) ++ cells.drop (s.length - 1)),
    ⟨s.array, s.length - 1⟩)

theorem updates_deleteAt (hs : s.Ok h) (hnil : NilOk h) {i : ℕ} (hi : i < s.length) :
    Updates h s (deleteAt h s i).1 (deleteAt h s i).2 ((read h s).eraseIdx i) := by
  have hle := hs.length_le
  have hfront : ((h.val s.array).take i ++ ((h.val s.array).take s.length).drop (i + 1)).length =
      s.length - 1 := by
    rw [length_append, length_drop, length_take, length_take]
    omega
  have hread : (read h s).eraseIdx i =
      (h.val s.array).take i ++ ((h.val s.array).take s.length).drop (i + 1) := by
    rw [read, eraseIdx_eq_take_drop_succ, take_take, min_eq_left hi.le]
  have htake : (read h s).eraseIdx i = ((h.val s.array).take i ++
      ((h.val s.array).take s.length).drop (i + 1) ++
        (h.val s.array).drop (s.length - 1)).take (s.length - 1) := by
    rw [hread, take_left' hfront]
  rw [htake]
  refine updates_write hs hnil ?_ ?_
  · rw [length_append, length_drop]
    omega
  · rw [length_append]
    omega

theorem deleteAt_of_length_eq_zero {i : ℕ} (hi : i < s.length)
    (hzero : (deleteAt h s i).2.length = 0) : (deleteAt h s i).1 = h := by
  have hzero' : s.length - 1 = 0 := hzero
  obtain ⟨rfl, hone⟩ : i = 0 ∧ s.length = 1 := by omega
  unfold deleteAt Cells.write
  dsimp only
  rw [hone, take_zero, nil_append, drop_eq_nil_of_le (length_take_le 1 _),
    nil_append, drop_zero, update_eq_self]

end Slices

/-! ## Maps of references -/

section Maps

variable {K V U : Type}

/-- The map whose values are those of another map, read by `f`. -/
def mapValues (f : V → U) (m : AList fun _ : K => V) : AList fun _ : K => U where
  entries := m.entries.map fun e => ⟨e.1, f e.2⟩
  nodupKeys := by
    have hkeys : (m.entries.map fun e => (⟨e.1, f e.2⟩ : (_ : K) × U)).keys = m.entries.keys := by
      simp [keys, comp_def]
    rw [NodupKeys, hkeys]
    exact m.nodupKeys

variable [DecidableEq K] {f g : V → U} {m : AList fun _ : K => V} {k : K} {v : V}

theorem kerase_map (f : V → U) (k : K) (l : List ((_ : K) × V)) :
    kerase k (l.map fun e => (⟨e.1, f e.2⟩ : (_ : K) × U)) =
      (kerase k l).map fun e => ⟨e.1, f e.2⟩ := by
  induction l with
  | nil => rfl
  | cons e l ih =>
    rw [map_cons]
    by_cases hk : k = e.1
    · rw [kerase_cons_eq (s := (⟨e.1, f e.2⟩ : (_ : K) × U)) hk, kerase_cons_eq hk]
    · rw [kerase_cons_ne (s := (⟨e.1, f e.2⟩ : (_ : K) × U)) hk, kerase_cons_ne hk, ih, map_cons]

theorem lookup_mapValues : (mapValues f m).lookup k = (m.lookup k).map f := by
  obtain ⟨l, hl⟩ := m
  change dlookup k (l.map fun e => (⟨e.1, f e.2⟩ : (_ : K) × U)) = (dlookup k l).map f
  clear hl
  induction l with
  | nil => rfl
  | cons e l ih =>
    obtain ⟨k', v'⟩ := e
    by_cases hk : k = k'
    · subst hk
      simp
    · rw [map_cons, dlookup_cons_ne _ _ hk, dlookup_cons_ne _ _ hk, ih]

theorem mapValues_erase : mapValues f (m.erase k) = (mapValues f m).erase k :=
  AList.ext (kerase_map f k m.entries).symm

theorem mapValues_insert : mapValues f (m.insert k v) = (mapValues f m).insert k (f v) := by
  refine AList.ext ?_
  change (m.insert k v).entries.map (fun e => (⟨e.1, f e.2⟩ : (_ : K) × U)) = _
  rw [AList.entries_insert, map_cons, ← kerase_map]
  rfl

section Written

variable {c : Cells (AList fun _ : K => V)} {a : ℕ} {k' : K} {v' : V}

/-- What a written map has at a key is what was put there, or what it had before. -/
theorem Cells.lookup_insert (h : ((c.write a ((c.val a).insert k v)).val a).lookup k' = some v') :
    k' = k ∧ v' = v ∨ k' ≠ k ∧ (c.val a).lookup k' = some v' := by
  rw [val_write_self] at h
  by_cases hk : k' = k
  · rw [hk, AList.lookup_insert] at h
    exact .inl ⟨hk, (Option.some.inj h).symm⟩
  · rw [AList.lookup_insert_ne hk] at h
    exact .inr ⟨hk, h⟩

theorem Cells.lookup_erase (h : ((c.write a ((c.val a).erase k)).val a).lookup k' = some v') :
    (c.val a).lookup k' = some v' := by
  rw [val_write_self] at h
  by_cases hk : k' = k
  · rw [hk, AList.lookup_erase] at h
    cases h
  · rwa [AList.lookup_erase_ne hk] at h

end Written

theorem mapValues_congr (h : ∀ k v, m.lookup k = some v → f v = g v) :
    mapValues f m = mapValues g m := by
  refine AList.ext (map_congr_left fun e he => ?_)
  rw [h e.1 e.2 (AList.mem_lookup_iff.2 he)]

/-- A map where only one value is read differently, and that one is replaced. -/
theorem mapValues_insert_of_ne (h : ∀ k' v', k' ≠ k → m.lookup k' = some v' → g v' = f v') :
    mapValues g (m.insert k v) = (mapValues f m).insert k (g v) := by
  have herase : mapValues g (m.erase k) = mapValues f (m.erase k) := by
    refine mapValues_congr fun k' v' hk' => ?_
    by_cases hk : k' = k
    · rw [hk, AList.lookup_erase] at hk'
      cases hk'
    · rw [AList.lookup_erase_ne hk] at hk'
      exact h k' v' hk hk'
  rw [mapValues_insert]
  refine AList.ext ?_
  rw [AList.entries_insert]
  have hentries := congrArg AList.entries herase
  rw [mapValues_erase, mapValues_erase] at hentries
  exact congrArg _ hentries

end Maps

/-! ## Copies -/

section Copies

variable {K V U X : Type} {content : V → U} {ref : ℕ → V → X}

/-- `for k, v := range m { out[k] = copy of v }`: each value in a new cell. -/
def copyEach (content : V → U) (ref : ℕ → V → X) :
    List ((_ : K) × V) → Cells U → List ((_ : K) × X) × Cells U
  | [], c => ([], c)
  | e :: l, c =>
    let r := copyEach content ref l (c.alloc (content e.2))
    (⟨e.1, ref c.next e.2⟩ :: r.1, r.2)

theorem keys_copyEach : ∀ (l : List ((_ : K) × V)) (c : Cells U),
    (copyEach content ref l c).1.keys = l.keys
  | [], _ => rfl
  | e :: l, c => by
    have := keys_copyEach l (c.alloc (content e.2))
    rw [copyEach, keys_cons, keys_cons, this]

theorem changes_copyEach : ∀ (l : List ((_ : K) × V)) (c : Cells U),
    c.Changes ∅ (copyEach content ref l c).2
  | [], _ => .refl _ _
  | e :: l, c => Cells.changes_alloc.trans (changes_copyEach l (c.alloc (content e.2))) nofun

/-- **The copies have the old values**, so reading a copy is reading what was copied. -/
theorem map_copyEach {Y : Type} {f : V → Y} {g : X → Y} : ∀ {l : List ((_ : K) × V)} {c : Cells U},
    (∀ a, ∀ e ∈ l, (copyEach content ref l c).2.val a = content e.2 → g (ref a e.2) = f e.2) →
    ((copyEach content ref l c).1.map fun e => (⟨e.1, g e.2⟩ : (_ : K) × Y)) =
      l.map fun e => ⟨e.1, f e.2⟩
  | [], _, _ => rfl
  | e :: l, c, hread => by
    have hval : (copyEach content ref l (c.alloc (content e.2))).2.val c.next = content e.2 :=
      ((changes_copyEach l _).val_eq _ (Nat.lt_succ_self _) id).trans Cells.val_alloc_self
    have hrest := map_copyEach (l := l) fun a e' he' =>
      hread a e' (mem_cons_of_mem e he')
    rw [copyEach, map_cons, map_cons, hrest, hread c.next e mem_cons_self hval]

/-- **The copies are new cells**, each key with one of its own. -/
theorem dlookup_copyEach [DecidableEq K] (k : K) : ∀ (l : List ((_ : K) × V)) (c : Cells U),
    dlookup k (copyEach content ref l c).1 = (dlookup k l).map (ref (c.next + l.keys.idxOf k))
  | [], _ => rfl
  | ⟨k', v⟩ :: l, c => by
    rw [copyEach, keys_cons]
    by_cases hk : k = k'
    · subst hk
      rw [dlookup_cons_eq, dlookup_cons_eq, idxOf_cons_self]
      rfl
    · rw [dlookup_cons_ne _ _ hk, dlookup_cons_ne _ _ hk, dlookup_copyEach k l,
        idxOf_cons_ne _ (symm hk), Cells.next_alloc, Nat.add_right_comm,
        Nat.add_assoc]

theorem val_copyEach [DecidableEq K] {k : K} {v : V} : ∀ {l : List ((_ : K) × V)} {c : Cells U},
    dlookup k l = some v → (copyEach content ref l c).2.val (c.next + l.keys.idxOf k) = content v
  | [], _, hk => nomatch hk
  | ⟨k', v'⟩ :: l, c, hk => by
    rw [keys_cons]
    by_cases hkk : k = k'
    · subst hkk
      rw [dlookup_cons_eq, Option.some.injEq] at hk
      rw [idxOf_cons_self, ← hk]
      exact ((changes_copyEach l _).val_eq _ (Nat.lt_succ_self _) id).trans Cells.val_alloc_self
    · rw [dlookup_cons_ne _ _ hkk] at hk
      have hrest := val_copyEach (c := c.alloc (content v')) hk
      rw [Cells.next_alloc, Nat.add_right_comm] at hrest
      rw [idxOf_cons_ne _ (symm hkk)]
      exact hrest

theorem next_copyEach : ∀ (l : List ((_ : K) × V)) (c : Cells U),
    (copyEach content ref l c).2.next = c.next + l.keys.length
  | [], _ => rfl
  | e :: l, c => by
    rw [copyEach, next_copyEach l, Cells.next_alloc, keys_cons, length_cons]
    omega

def copyMap (content : V → U) (ref : ℕ → V → X) (m : AList fun _ : K => V) (c : Cells U) :
    (AList fun _ : K => X) × Cells U :=
  let r := copyEach content ref m.entries c
  (⟨r.1, by rw [NodupKeys, keys_copyEach]; exact m.nodupKeys⟩, r.2)

section CopyMap

variable {m : AList fun _ : K => V} {c : Cells U}

theorem changes_copyMap : c.Changes ∅ (copyMap content ref m c).2 := changes_copyEach _ _

variable [DecidableEq K] {k k' : K} {v : V}

theorem mapValues_copyMap {Y : Type} {f : V → Y} {g : X → Y}
    (hread : ∀ a k v, m.lookup k = some v → (copyMap content ref m c).2.val a = content v →
      g (ref a v) = f v) :
    mapValues g (copyMap content ref m c).1 = mapValues f m :=
  AList.ext (map_copyEach fun a e he => hread a e.1 e.2 (AList.mem_lookup_iff.2 he))

/-- The cell that has the copy of the value of a key. -/
def copyOf (m : AList fun _ : K => V) (c : Cells U) (k : K) : ℕ := c.next + m.keys.idxOf k

theorem lookup_copyMap : (copyMap content ref m c).1.lookup k = (m.lookup k).map (ref (copyOf m c k)) :=
  dlookup_copyEach k m.entries c

theorem val_copyOf (hk : m.lookup k = some v) :
    (copyMap content ref m c).2.val (copyOf m c k) = content v :=
  val_copyEach hk

theorem le_copyOf : c.next ≤ copyOf m c k := Nat.le_add_right _ _

theorem copyOf_lt (hk : m.lookup k = some v) : copyOf m c k < (copyMap content ref m c).2.next := by
  have hmem : k ∈ m.keys := AList.mem_keys.1 (AList.lookup_isSome.1 (by rw [hk]; rfl))
  rw [copyMap, next_copyEach]
  exact Nat.add_lt_add_left (idxOf_lt_length_of_mem hmem) _

theorem copyOf_inj (hk : m.lookup k = some v) (h : copyOf m c k = copyOf m c k') : k = k' := by
  have hmem : k ∈ m.keys := AList.mem_keys.1 (AList.lookup_isSome.1 (by rw [hk]; rfl))
  exact (idxOf_inj hmem).1 (Nat.add_left_cancel h)

end CopyMap

end Copies

end S000.Heap
