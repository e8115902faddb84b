import S000.Foundations.Encoding

/-!
# Foundations/Query — queries that are written and read again

`url.Values` is a map from names to lists of values; `Values` keeps its pairs in a list, of which
only the order of the values of one name matters.  `Set` and `Del` change the values of one name,
and `Encode` writes the names in order.

**What is written is read back** (`query_encode`), since escaped text has none of the bytes that
structure a query.
-/

namespace S000.Url

open Strings List

/-! ## Escaped text -/

theorem value_upperDigit : ∀ n < 16, Hex.value (Hex.upperDigit n) = some n := by decide

theorem unescape_percent (plus : Bool) (b : UInt8) (s : Bytes) :
    unescape plus (percent b ++ s) = (unescape plus s).map (b :: ·) := by
  have hb := b.toNat_lt
  have hhigh := value_upperDigit (b.toNat / 16) (by omega)
  have hlow := value_upperDigit (b.toNat % 16) (by omega)
  have hback : b.toNat / 16 * 16 + b.toNat % 16 = b.toNat := by omega
  simp only [percent, cons_append, nil_append, unescape, hhigh, hlow, hback,
    Option.bind_eq_bind, Option.bind_some, UInt8.ofNat_toNat]
  cases unescape plus s <;> rfl

theorem unescape_cons {plus : Bool} {b : UInt8} (h : b ≠ 0x25) (s : Bytes) :
    unescape plus (b :: s) = (unescape plus s).map ((if plus ∧ b = 0x2B then 0x20 else b) :: ·) := by
  rw [unescape]
  · cases unescape plus s <;> simp
  all_goals
    intros
    simp_all

theorem unescape_escaped (b : UInt8) (s : Bytes) :
    unescape true ((if isUnreserved b then [b] else if b = 0x20 then [0x2B] else percent b) ++ s)
      = (unescape true s).map (b :: ·) := by
  split_ifs with hfree hspace
  · have hb : b ≠ 0x25 ∧ b ≠ 0x2B := by
      refine ⟨?_, ?_⟩ <;> rintro rfl <;> exact absurd hfree (by decide)
    rw [singleton_append, unescape_cons hb.1, if_neg fun h => hb.2 h.2]
  · rw [singleton_append, unescape_cons (by decide), hspace]
    rfl
  · exact unescape_percent true b s

/-- **`url.QueryUnescape` reads what `url.QueryEscape` writes.** -/
theorem queryUnescape_queryEscape : ∀ s, queryUnescape (queryEscape s) = some s
  | [] => rfl
  | b :: s => by
    have hs : unescape true (queryEscape s) = some s := queryUnescape_queryEscape s
    rw [queryUnescape, queryEscape, flatMap_cons, unescape_escaped, ← queryEscape, hs]
    rfl

theorem not_mem_queryEscape {b : UInt8} (hb : isUnreserved b = false) (hplus : b ≠ 0x2B)
    (hpercent : b ≠ 0x25) (s : Bytes) : b ∉ queryEscape s := by
  intro h
  obtain ⟨c, -, hc⟩ := mem_flatMap.1 h
  split_ifs at hc with hfree
  · rw [mem_singleton.1 hc, hfree] at hb
    cases hb
  · exact hplus (mem_singleton.1 hc)
  have hlt := c.toNat_lt
  have hdigit : ∀ n < 16, isUnreserved (Hex.upperDigit n) = true := by decide
  rcases mem_cons.1 hc with hc | hc
  · exact hpercent hc
  rcases mem_cons.1 hc with hc | hc
  · exact absurd (hc ▸ hdigit _ (by omega)) (by simp [hb])
  · exact absurd (mem_singleton.1 hc ▸ hdigit _ (by omega)) (by simp [hb])

/-! ## Writing a query -/

/-- `url.Values.Set`. -/
def Values.set (q : Values) (name value : Bytes) : Values :=
  q.filter (fun p => p.1 ≠ name) ++ [(name, value)]

/-- `url.Values.Del`. -/
def Values.del (q : Values) (name : Bytes) : Values := q.filter fun p => p.1 ≠ name

/-- The pairs by name, the values of a name in the order they have. -/
def Values.sorted (q : Values) : Values := q.insertionSort fun p p' => p.1 ≤ p'.1

/-- A pair as `Encode` writes it. -/
def encodePair (p : Bytes × Bytes) : Bytes := queryEscape p.1 ++ 0x3D :: queryEscape p.2

/-- `url.Values.Encode`. -/
def Values.encode (q : Values) : Bytes := join (q.sorted.map encodePair) (str "&")

theorem cut_of_not_mem {sep : UInt8} : ∀ {a : Bytes}, sep ∉ a → ∀ b : Bytes,
    cut sep (a ++ sep :: b) = some (a, b)
  | [], _, b => by simp [cut]
  | c :: a, h, b => by
    have hc : c ≠ sep := fun e => h (by simp [e])
    have ha : sep ∉ a := fun e => h (by simp [e])
    rw [cons_append, cut, if_neg hc, cut_of_not_mem ha b]
    rfl

theorem parseQueryPiece_encodePair (p : Bytes × Bytes) : parseQueryPiece (encodePair p) = some p := by
  have hsemicolon : ¬ (encodePair p = [] ∨ (encodePair p).contains 0x3B) := by
    have hname := not_mem_queryEscape (b := 0x3B) (by decide) (by decide) (by decide) p.1
    have hvalue := not_mem_queryEscape (b := 0x3B) (by decide) (by decide) (by decide) p.2
    simp [encodePair, hname, hvalue]
  have hcut : cut 0x3D (encodePair p) = some (queryEscape p.1, queryEscape p.2) :=
    cut_of_not_mem (not_mem_queryEscape (by decide) (by decide) (by decide) p.1) _
  rw [parseQueryPiece, if_neg hsemicolon, hcut]
  simp only [Option.getD_some, queryUnescape_queryEscape]
  rfl

/-- **A query that was written is read back**, by name. -/
theorem query_encode {q : Values} (hq : q ≠ []) {u : URL} (hu : u.rawQuery = q.encode) :
    u.query = q.sorted := by
  have hne : q.sorted.map encodePair ≠ [] := by
    intro h
    have hlen := congrArg length h
    rw [length_map, Values.sorted, length_insertionSort] at hlen
    exact hq (length_eq_zero_iff.1 hlen)
  have hamp : ∀ piece ∈ q.sorted.map encodePair, 0x26 ∉ piece := by
    intro piece hpiece
    obtain ⟨p, -, rfl⟩ := mem_map.1 hpiece
    have hname := not_mem_queryEscape (b := 0x26) (by decide) (by decide) (by decide) p.1
    have hvalue := not_mem_queryEscape (b := 0x26) (by decide) (by decide) (by decide) p.2
    simp [encodePair, hname, hvalue]
  have hsplit : split q.encode 0x26 = q.sorted.map encodePair := splitOn_intercalate 0x26 hamp hne
  rw [URL.query, hu, hsplit, filterMap_map]
  have hpieces : parseQueryPiece ∘ encodePair = some := funext parseQueryPiece_encodePair
  rw [hpieces, filterMap_some]

/-! ## Names with one value -/

/-- The name has this value and no other. -/
def Values.Has (q : Values) (name value : Bytes) : Prop :=
  q.filter (fun p => p.1 = name) = [(name, value)]

namespace Values.Has

variable {q q' : Values} {name name' value value' : Bytes}

theorem get (h : q.Has name value) : q.get name = value := by
  rw [Values.get, ← head?_filter, h]
  rfl

theorem perm (h : q.Has name value) (hq : q.Perm q') : q'.Has name value := by
  have hfilter := hq.filter fun p => decide (p.1 = name)
  rw [h] at hfilter
  exact (singleton_perm.1 hfilter).symm

theorem set_self (q : Values) (name value : Bytes) : (q.set name value).Has name value := by
  rw [Has, set]
  simp

theorem del (h : q.Has name value) (hne : name ≠ name') : (q.del name').Has name value := by
  rw [Has, Values.del, filter_filter]
  have hsame : (fun p : Bytes × Bytes => decide (p.1 = name) && decide (p.1 ≠ name'))
      = fun p => decide (p.1 = name) := by
    funext p
    by_cases hp : p.1 = name
    · simp [hp, hne]
    · simp [hp]
  rw [hsame, h]

theorem set (h : q.Has name value) (hne : name ≠ name') : (q.set name' value').Has name value := by
  have hdel := h.del hne
  rw [Values.del] at hdel
  rw [Has, Values.set, filter_append, hdel]
  simp [symm hne]

end Values.Has

theorem Values.sorted_perm (q : Values) : q.sorted.Perm q := perm_insertionSort _ q

theorem Values.set_ne_nil (q : Values) (name value : Bytes) : q.set name value ≠ [] := by
  simp [set]

end S000.Url
