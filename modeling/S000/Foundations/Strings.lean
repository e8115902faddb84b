import Mathlib.Data.List.Lex
import Mathlib.Data.UInt

/-!
# Foundations/Strings — Go strings as byte lists

A Go string is a sequence of bytes, with no encoding imposed, so it is a `List UInt8` here, and
`strings.HasPrefix`, `strings.Index`, `strings.Split` and the others are list functions.

White space is the one place where the package looks at runes: `unicode.IsSpace` accepts six ASCII
bytes and nineteen longer UTF-8 sequences.  A lead byte is never a continuation byte, so scanning
for those sequences bytewise finds exactly the runes the Go functions find.

Every scanner is structurally recursive in the list, so closed terms evaluate.
-/

namespace S000

open List

/-- A Go string, or a `[]byte`. -/
abbrev Bytes := List UInt8

def str (s : String) : Bytes := s.toByteArray.data.toList

/-- Bytes are ordered as numbers, hence strings lexicographically. -/
instance instLinearOrderUInt8 : LinearOrder UInt8 where
  le_refl a := le_refl a.toNat
  le_trans a b c (h : a.toNat ≤ b.toNat) (h' : b.toNat ≤ c.toNat) := le_trans h h'
  le_antisymm a b (h : a.toNat ≤ b.toNat) (h' : b.toNat ≤ a.toNat) :=
    UInt8.toNat.inj (le_antisymm h h')
  le_total a b := le_total a.toNat b.toNat
  lt_iff_le_not_ge a b := Nat.lt_iff_le_and_not_ge
  toDecidableLE := fun a b => inferInstanceAs (Decidable (a.toNat ≤ b.toNat))
  toDecidableEq := inferInstance
  toDecidableLT := fun a b => inferInstanceAs (Decidable (a.toNat < b.toNat))

instance instLawfulBEqBytes : LawfulBEq (List UInt8) := inferInstance

namespace Strings

/-! ## Prefixes, suffixes, substrings -/

/-- `strings.HasPrefix`. -/
def hasPrefix (s p : Bytes) : Bool := p.isPrefixOf s

variable {s p : Bytes}

@[simp] theorem hasPrefix_iff : hasPrefix s p = true ↔ p <+: s := isPrefixOf_iff_prefix

/-- `strings.HasSuffix`. -/
def hasSuffix (s p : Bytes) : Bool := p.isSuffixOf s

@[simp] theorem hasSuffix_iff : hasSuffix s p = true ↔ p <:+ s := isSuffixOf_iff_suffix

/-- `strings.TrimPrefix`. -/
def trimPrefix (s p : Bytes) : Bytes := if hasPrefix s p then s.drop p.length else s

/-- `strings.TrimSuffix`. -/
def trimSuffix (s p : Bytes) : Bytes :=
  if hasSuffix s p then s.take (s.length - p.length) else s

@[simp] theorem trimPrefix_append (p t : Bytes) : trimPrefix (p ++ t) p = t := by simp [trimPrefix]

/-- `strings.Index`: the position of the first occurrence of `sub`, if there is one. -/
def index (s sub : Bytes) : Option ℕ :=
  if hasPrefix s sub then some 0
  else match s with
    | [] => none
    | _ :: t => (index t sub).map (· + 1)

/-- **The first occurrence**: `sub` stands at `i`, and nowhere before. -/
theorem index_eq_some_iff : ∀ {s sub : Bytes} {i : ℕ},
    index s sub = some i ↔ (i ≤ s.length ∧ sub <+: s.drop i) ∧ ∀ j < i, ¬ sub <+: s.drop j
  | [], sub, 0 => by simp [index]
  | _ :: _, sub, 0 => by simp [index]
  | [], sub, i + 1 => by simp [index]
  | b :: t, sub, i + 1 => by
    by_cases h : sub <+: b :: t
    · have hhead : index (b :: t) sub = some 0 := by rw [index, if_pos (hasPrefix_iff.2 h)]
      rw [hhead]
      refine ⟨fun e => ?_, fun e => absurd h (e.2 0 i.succ_pos)⟩
      simp at e
    have htail : index (b :: t) sub = (index t sub).map (· + 1) := by
      rw [index, if_neg (by simpa using h)]
    have hshift : (∀ j < i + 1, ¬ sub <+: (b :: t).drop j) ↔ ∀ j < i, ¬ sub <+: t.drop j := by
      refine ⟨fun H j hj => H (j + 1) (by omega), fun H j hj => ?_⟩
      cases j with
      | zero => exact h
      | succ j => exact H j (by omega)
    rw [htail, hshift]
    simpa using index_eq_some_iff

theorem isPrefix_append_cons {sub x v : Bytes} {sep : UInt8} (h : sep ∉ sub) :
    sub <+: x ++ sep :: v ↔ sub <+: x := by
  refine ⟨fun hpre => ?_, fun hpre => hpre.trans (prefix_append x _)⟩
  rcases prefix_or_prefix_of_prefix hpre (prefix_append x (sep :: v)) with hx | ⟨t, rfl⟩
  · exact hx
  cases t with
  | nil => rw [append_nil]
  | cons b t =>
    obtain ⟨rfl, -⟩ := cons_prefix_cons.1 ((prefix_append_right_inj x).1 hpre)
    exact absurd (mem_append_right x mem_cons_self) h

/-- A text without the separator occurs before it or behind it. -/
theorem index_append_cons {sub u v : Bytes} {sep : UInt8} (hne : sub ≠ []) (h : sep ∉ sub) :
    index (u ++ sep :: v) sub = (index u sub).or ((index v sub).map (· + (u.length + 1))) := by
  induction u with
  | nil =>
    have hfirst : ¬ sub <+: sep :: v := fun hpre =>
      hne (prefix_nil.1 ((isPrefix_append_cons (x := []) h).1 hpre))
    have hnil : index [] sub = none := by rw [index, if_neg (by simpa using hne)]
    rw [hnil, nil_append, index, if_neg (by simpa using hfirst)]
    rfl
  | cons b u ih =>
    have hpre : hasPrefix (b :: u ++ sep :: v) sub = hasPrefix (b :: u) sub := by
      rw [Bool.eq_iff_iff, hasPrefix_iff, hasPrefix_iff, isPrefix_append_cons h]
    rw [cons_append] at hpre ⊢
    rw [index, hpre, index]
    split_ifs
    · rfl
    · rw [ih]
      cases index u sub <;> simp [Function.comp_def, add_assoc]

/-- `strings.Contains`. -/
def contains (s sub : Bytes) : Bool := (index s sub).isSome

/-! ## Splitting and joining -/

/-- `strings.Split` at a one-byte separator: the pieces between the separators, never empty. -/
def split (s : Bytes) (sep : UInt8) : List Bytes := s.splitOn sep

/-- `strings.Cut` at a one-byte separator, the two-element case of `strings.SplitN(s, sep, 2)`. -/
def cut (sep : UInt8) : Bytes → Option (Bytes × Bytes)
  | [] => none
  | b :: t => if b = sep then some ([], t) else (cut sep t).map fun x => (b :: x.1, x.2)

variable {sep b : UInt8}

theorem eq_of_cut : ∀ {s a b : Bytes}, cut sep s = some (a, b) → s = a ++ sep :: b ∧ sep ∉ a
  | [], _, _, h => by cases h
  | c :: t, a, b, h => by
    rw [cut] at h
    split_ifs at h with hc
    · cases h
      simp [hc]
    obtain ⟨⟨a', b'⟩, hcut, heq⟩ := Option.map_eq_some_iff.1 h
    cases heq
    obtain ⟨rfl, ha⟩ := eq_of_cut hcut
    exact ⟨rfl, by simp [ha, Ne.symm hc]⟩

/-- The first of the pieces of `strings.SplitN(s, sep, 2)`: everything before the separator. -/
def before (sep : UInt8) (s : Bytes) : Bytes := s.takeWhile (· ≠ sep)

theorem before_append {a : Bytes} (ha : sep ∉ a) (b : Bytes) :
    before sep (a ++ b) = a ++ before sep b :=
  takeWhile_append_of_pos fun x hx => by simpa using fun h : x = sep => ha (h ▸ hx)

theorem before_of_not_mem {a : Bytes} (ha : sep ∉ a) : before sep a = a := by
  simpa [before] using before_append ha []

theorem before_append_cons {a : Bytes} (ha : sep ∉ a) (b : Bytes) : before sep (a ++ sep :: b) = a := by
  rw [before_append ha, before, takeWhile_cons_of_neg (by simp), append_nil]

theorem append_cons_inj {a a' b b' : Bytes} (ha : sep ∉ a) (ha' : sep ∉ a')
    (h : a ++ sep :: b = a' ++ sep :: b') : a = a' ∧ b = b' := by
  have hfst : a = a' := by rw [← before_append_cons ha b, h, before_append_cons ha' b']
  subst hfst
  exact ⟨rfl, (cons.inj (append_cancel_left h)).2⟩

theorem mem_split (h : p ∈ split s sep) :
    sep ∉ p ∧ ∃ a b, s = a ++ p ++ b ∧ (b = [] ∨ ∃ t, b = sep :: t) := by
  -- strong induction: the rest after the first separator is a shorter string
  induction hn : s.length using Nat.strong_induction_on generalizing s with
  | _ n ih =>
    by_cases hs : sep ∈ s
    · obtain ⟨u, v, rfl, hu⟩ := eq_append_cons_of_mem hs
      rw [split, splitOn_append_cons_self_of_not_mem hu] at h
      rcases mem_cons.1 h with rfl | h
      · exact ⟨hu, [], sep :: v, by simp, .inr ⟨v, rfl⟩⟩
      · obtain ⟨hp, a, b, rfl, hb⟩ := ih v.length (by simp [← hn]; omega) h rfl
        exact ⟨hp, u ++ sep :: a, b, by simp, hb⟩
    · rw [split, splitOn_eq_singleton hs, mem_singleton] at h
      exact ⟨h ▸ hs, [], [], by simp [h], .inl rfl⟩

/-- `strings.Join`. -/
def join (parts : List Bytes) (sep : Bytes) : Bytes := sep.intercalate parts

theorem join_cons_cons (p q : Bytes) (parts : List Bytes) (sep : Bytes) :
    join (p :: q :: parts) sep = p ++ sep ++ join (q :: parts) sep := by
  simp [join]

theorem mem_join {sep : Bytes} : ∀ {parts : List Bytes}, b ∈ join parts sep →
    (∃ p ∈ parts, b ∈ p) ∨ b ∈ sep
  | [], h => by simp [join] at h
  | [p], h => .inl ⟨p, mem_cons_self, by simpa [join] using h⟩
  | p :: q :: parts, h => by
    rw [join_cons_cons, mem_append, mem_append] at h
    rcases h with (h | h) | h
    · exact .inl ⟨p, mem_cons_self, h⟩
    · exact .inr h
    · exact (mem_join h).imp_left fun ⟨x, hx, hb⟩ => ⟨x, mem_cons_of_mem p hx, hb⟩

theorem join_append {sep : Bytes} : ∀ {l l' : List Bytes}, l ≠ [] → l' ≠ [] →
    join (l ++ l') sep = join l sep ++ sep ++ join l' sep
  | [], _, h, _ => absurd rfl h
  | [p], q :: l', _, _ => by simp [join]
  | p :: q :: l, l', _, h' => by
    rw [cons_append, cons_append, join_cons_cons, join_cons_cons, ← cons_append,
      join_append (cons_ne_nil q l) h']
    simp

/-- **A joined text has one way to come apart** where no part has the separator in it. -/
theorem join_inj {l l' : List Bytes} (hl : ∀ p ∈ l, sep ∉ p) (hl' : ∀ p ∈ l', sep ∉ p)
    (hne : l ≠ []) (hne' : l' ≠ []) (h : join l [sep] = join l' [sep]) : l = l' := by
  rw [← splitOn_intercalate sep hl hne, ← splitOn_intercalate sep hl' hne']
  exact congrArg (splitOn sep) h

/-- `strings.ReplaceAll`; `skip` bytes of the current occurrence are left. -/
def replaceFrom (old new : Bytes) : ℕ → Bytes → Bytes
  | _, [] => []
  | skip + 1, _ :: t => replaceFrom old new skip t
  | 0, b :: t =>
    if hasPrefix (b :: t) old then new ++ replaceFrom old new (old.length - 1) t
    else b :: replaceFrom old new 0 t

@[inherit_doc replaceFrom]
def replaceAll (s old new : Bytes) : Bytes := replaceFrom old new 0 s

/-! ## White space -/

/-- The ASCII bytes of `unicode.IsSpace`. -/
def isAsciiSpace (b : UInt8) : Bool := b = 0x20 || (0x09 ≤ b && b ≤ 0x0D)

/-- The third byte of the white-space runes `U+2000`–`U+200A`, `U+2028`, `U+2029`, `U+202F`. -/
def isSpaceTail (b : UInt8) : Bool :=
  (0x80 ≤ b && b ≤ 0x8A) || b = 0xA8 || b = 0xA9 || b = 0xAF

/-- The number of bytes of the white-space rune a string starts with; `0` when there is none. -/
def spaceWidth : Bytes → ℕ
  | [] => 0
  | 0xC2 :: 0x85 :: _ => 2
  | 0xC2 :: 0xA0 :: _ => 2
  | 0xE1 :: 0x9A :: 0x80 :: _ => 3
  | 0xE2 :: 0x80 :: b :: _ => if isSpaceTail b then 3 else 0
  | 0xE2 :: 0x81 :: 0x9F :: _ => 3
  | 0xE3 :: 0x80 :: 0x80 :: _ => 3
  | b :: _ => if isAsciiSpace b then 1 else 0

/-- The same at the other end, the string being given in reverse. -/
def spaceWidthRev : Bytes → ℕ
  | [] => 0
  | 0x85 :: 0xC2 :: _ => 2
  | 0xA0 :: 0xC2 :: _ => 2
  | 0x80 :: 0x9A :: 0xE1 :: _ => 3
  | 0x9F :: 0x81 :: 0xE2 :: _ => 3
  | 0x80 :: 0x80 :: 0xE3 :: _ => 3
  | b :: 0x80 :: 0xE2 :: _ => if isSpaceTail b then 3 else if isAsciiSpace b then 1 else 0
  | b :: _ => if isAsciiSpace b then 1 else 0

/-- Drop the runes `width` accepts from the front; `skip` bytes of the current one are left. -/
def dropRunes (width : Bytes → ℕ) : ℕ → Bytes → Bytes
  | _, [] => []
  | skip + 1, _ :: t => dropRunes width skip t
  | 0, b :: t => match width (b :: t) with
    | 0 => b :: t
    | w + 1 => dropRunes width w t

/-- `strings.TrimSpace`. -/
def trimSpace (s : Bytes) : Bytes :=
  (dropRunes spaceWidthRev 0 (dropRunes spaceWidth 0 s).reverse).reverse

theorem dropRunes_isSuffix (width : Bytes → ℕ) : ∀ (skip : ℕ) (s : Bytes), dropRunes width skip s <:+ s
  | _, [] => by rw [dropRunes]
  | skip + 1, _ :: t => (dropRunes_isSuffix width skip t).trans (suffix_cons _ t)
  | 0, b :: t => by
    rw [dropRunes]
    split
    · exact suffix_rfl
    · exact (dropRunes_isSuffix width _ t).trans (suffix_cons b t)

theorem trimSpace_isInfix (s : Bytes) : trimSpace s <:+: s := by
  have hend := reverse_prefix.2 (dropRunes_isSuffix spaceWidthRev 0 (dropRunes spaceWidth 0 s).reverse)
  rw [reverse_reverse] at hend
  exact hend.isInfix.trans (dropRunes_isSuffix spaceWidth 0 s).isInfix

theorem trimSpace_isPrefix {t : Bytes} (h : spaceWidth (b :: t) = 0) :
    trimSpace (b :: t) <+: b :: t := by
  have hfront : dropRunes spaceWidth 0 (b :: t) = b :: t := by rw [dropRunes, h]
  have hend := reverse_prefix.2 (dropRunes_isSuffix spaceWidthRev 0 (b :: t).reverse)
  rw [reverse_reverse] at hend
  rwa [trimSpace, hfront]

theorem width_dropRunes (width : Bytes → ℕ) (hnil : width [] = 0) : ∀ (skip : ℕ) (s : Bytes),
    width (dropRunes width skip s) = 0
  | _, [] => by rw [dropRunes, hnil]
  | skip + 1, _ :: t => width_dropRunes width hnil skip t
  | 0, b :: t => by
    rw [dropRunes]
    split
    next h => exact h
    exact width_dropRunes width hnil _ t

theorem dropRunes_of_width {width : Bytes → ℕ} : ∀ {s : Bytes}, width s = 0 → dropRunes width 0 s = s
  | [], _ => rfl
  | b :: t, h => by rw [dropRunes, h]

/-- An ASCII space is one whatever follows. -/
theorem not_isAsciiSpace {t : Bytes} (h : spaceWidth (b :: t) = 0) : isAsciiSpace b = false := by
  by_contra hb
  unfold spaceWidth at h
  split at h <;> simp_all +decide

theorem spaceWidth_of_isPrefix {p s : Bytes} (h : p <+: s) (hs : spaceWidth s = 0) :
    spaceWidth p = 0 := by
  obtain ⟨q, rfl⟩ := h
  unfold spaceWidth
  split
  · rfl
  · cases hs
  · cases hs
  · cases hs
  · exact hs
  · cases hs
  · cases hs
  next b t _ _ _ _ _ _ =>
    rw [not_isAsciiSpace hs]
    rfl

/-- **Trimming twice is trimming once.** -/
@[simp] theorem trimSpace_trimSpace (s : Bytes) : trimSpace (trimSpace s) = trimSpace s := by
  have hfront : spaceWidth (trimSpace s) = 0 := by
    refine spaceWidth_of_isPrefix ?_ (width_dropRunes spaceWidth rfl 0 s)
    have hend := reverse_prefix.2 (dropRunes_isSuffix spaceWidthRev 0
      (dropRunes spaceWidth 0 s).reverse)
    rwa [reverse_reverse] at hend
  have hback : spaceWidthRev (trimSpace s).reverse = 0 := by
    rw [trimSpace, reverse_reverse]
    exact width_dropRunes spaceWidthRev rfl 0 _
  rw [trimSpace, dropRunes_of_width hfront, dropRunes_of_width hback, reverse_reverse]

theorem isAsciiSpace_of_lt (h : 0x20 < b) : isAsciiSpace b = false := by
  have hne : b ≠ 0x20 := h.ne'
  have hgt : ¬ b ≤ 0x0D := not_le.2 (lt_trans (by decide) h)
  simp [isAsciiSpace, hne, hgt]

/-- A printable ASCII byte starts no white space. -/
theorem spaceWidth_of_printable (t : Bytes) (h : 0x20 < b) (h' : b < 0x80) :
    spaceWidth (b :: t) = 0 := by
  have hspace := isAsciiSpace_of_lt h
  unfold spaceWidth
  split <;> simp_all

theorem spaceWidthRev_of_printable (t : Bytes) (h : 0x20 < b) (h' : b < 0x80) :
    spaceWidthRev (b :: t) = 0 := by
  have hspace := isAsciiSpace_of_lt h
  have htail : isSpaceTail b = false := by
    have hlo : ¬ 0x80 ≤ b := not_le.2 h'
    have hne (c : UInt8) (hc : 0x80 ≤ c) : b ≠ c := fun hb => hlo (hb ▸ hc)
    simp [isSpaceTail, hlo, hne 0xA8 (by decide), hne 0xA9 (by decide), hne 0xAF (by decide)]
  unfold spaceWidthRev
  split <;> simp_all

/-- There is nothing to trim between two printable ASCII bytes. -/
theorem trimSpace_eq_self {c : UInt8} {t t' : Bytes} (hb : 0x20 < b) (hb' : b < 0x80)
    (hc : 0x20 < c) (hc' : c < 0x80) (h : b :: t = t' ++ [c]) : trimSpace (b :: t) = b :: t := by
  have hfront : dropRunes spaceWidth 0 (b :: t) = b :: t := by
    rw [dropRunes, spaceWidth_of_printable t hb hb']
  have hback : dropRunes spaceWidthRev 0 (c :: t'.reverse) = c :: t'.reverse := by
    rw [dropRunes, spaceWidthRev_of_printable _ hc hc']
  rw [trimSpace, hfront, h, reverse_append, reverse_singleton, singleton_append, hback,
    reverse_cons, reverse_reverse]

theorem trimSpace_of_printable {s : Bytes} (h : ∀ b ∈ s, 0x20 < b ∧ b < 0x80) : trimSpace s = s := by
  cases s with
  | nil => rfl
  | cons b t =>
    obtain ⟨t', c, hlast⟩ : ∃ t' c, b :: t = t' ++ [c] :=
      ⟨_, _, (dropLast_append_getLast (cons_ne_nil b t)).symm⟩
    have hb := h b mem_cons_self
    have hc := h c (hlast ▸ mem_append_right _ (mem_singleton_self c))
    exact trimSpace_eq_self hb.1 hb.2 hc.1 hc.2 hlast

theorem mem_dropRunes {width : Bytes → ℕ} (hw : ∀ s : Bytes, b ∈ s → b ∈ s.drop (width s)) :
    ∀ (skip : ℕ) (s : Bytes), b ∈ s.drop skip → b ∈ dropRunes width skip s
  | _, [], h => by simp at h
  | skip + 1, _ :: t, h => mem_dropRunes hw skip t h
  | 0, c :: t, h => by
    have hrest := hw (c :: t) h
    rw [dropRunes]
    split
    · exact h
    next heq =>
      rw [heq] at hrest
      exact mem_dropRunes hw _ t hrest

/-- **A printable ASCII byte is not trimmed.** -/
theorem mem_trimSpace {s : Bytes} (h : 0x20 < b) (h' : b < 0x80) (hs : b ∈ s) : b ∈ trimSpace s := by
  refine mem_reverse.2 (mem_dropRunes (fun s hs => ?_) 0 _ (mem_reverse.2
    (mem_dropRunes (fun s hs => ?_) 0 s hs)))
  · unfold spaceWidthRev
    split <;> grind [isAsciiSpace, isSpaceTail]
  · unfold spaceWidth
    split <;> grind [isAsciiSpace, isSpaceTail]

/-- `strings.TrimRight`, over a set of ASCII bytes. -/
def trimRight (s cutset : Bytes) : Bytes := (s.reverse.dropWhile cutset.contains).reverse

/-- `strings.Trim`, over a set of ASCII bytes. -/
def trim (s cutset : Bytes) : Bytes := trimRight (s.dropWhile cutset.contains) cutset

theorem trim_eq_self {s cutset : Bytes} (h : ∀ b ∈ s, b ∉ cutset) : trim s cutset = s := by
  have hkeep : ∀ t : Bytes, (∀ b ∈ t, b ∈ s) → t.dropWhile cutset.contains = t := by
    intro t ht
    cases t with
    | nil => rfl
    | cons b t => simp [h b (ht b mem_cons_self)]
  rw [trim, trimRight, hkeep s fun _ hb => hb, hkeep _ fun _ hb => mem_reverse.1 hb, reverse_reverse]

/-- The words of `s`, the current one read so far being `cur` in reverse. -/
def fieldsFrom : ℕ → Bytes → Bytes → List Bytes
  | _, cur, [] => if cur = [] then [] else [cur.reverse]
  | skip + 1, cur, _ :: t => fieldsFrom skip cur t
  | 0, cur, b :: t => match spaceWidth (b :: t) with
    | 0 => fieldsFrom 0 (b :: cur) t
    | w + 1 => if cur = [] then fieldsFrom w [] t else cur.reverse :: fieldsFrom w [] t

/-- `strings.Fields`. -/
def fields (s : Bytes) : List Bytes := fieldsFrom 0 [] s

theorem fieldsFrom_of_ne_nil : ∀ {skip : ℕ} {cur s : Bytes}, cur ≠ [] →
    ∃ x rest, fieldsFrom skip cur s = (cur.reverse ++ x) :: rest
  | _, cur, [], h => ⟨[], [], by rw [fieldsFrom, if_neg h, append_nil]⟩
  | skip + 1, cur, _ :: t, h => fieldsFrom_of_ne_nil (s := t) h
  | 0, cur, b :: t, h => by
    rw [fieldsFrom]
    split
    · obtain ⟨x, rest, e⟩ := fieldsFrom_of_ne_nil (cons_ne_nil b cur)
      rw [reverse_cons, append_assoc] at e
      exact ⟨b :: x, rest, e⟩
    · exact ⟨[], _, by rw [if_neg h, append_nil]⟩

theorem mem_of_mem_fieldsFrom {w : Bytes} (hb : b ∈ w) :
    ∀ {skip : ℕ} {cur s : Bytes}, w ∈ fieldsFrom skip cur s → b ∈ cur ∨ b ∈ s
  | _, cur, [], h => by
    rw [fieldsFrom] at h
    split_ifs at h
    · cases h
    · rw [mem_singleton.1 h] at hb
      exact .inl (mem_reverse.1 hb)
  | skip + 1, cur, _ :: t, h => (mem_of_mem_fieldsFrom hb (s := t) h).imp_right (mem_cons_of_mem _)
  | 0, cur, c :: t, h => by
    rw [fieldsFrom] at h
    split at h
    · rcases mem_of_mem_fieldsFrom hb h with h | h
      · rcases mem_cons.1 h with rfl | h
        · exact .inr mem_cons_self
        · exact .inl h
      · exact .inr (mem_cons_of_mem c h)
    next n _ =>
      split_ifs at h
      · exact (mem_of_mem_fieldsFrom hb h).imp nofun (mem_cons_of_mem c)
      rcases mem_cons.1 h with rfl | h
      · exact .inl (mem_reverse.1 hb)
      · exact (mem_of_mem_fieldsFrom hb h).imp nofun (mem_cons_of_mem c)

/-! ## Case -/

/-- `A`–`Z` to `a`–`z`. -/
def lowerByte (b : UInt8) : UInt8 := if 0x41 ≤ b ∧ b ≤ 0x5A then b + 0x20 else b

/-- `a`–`z` to `A`–`Z`. -/
def upperByte (b : UInt8) : UInt8 := if 0x61 ≤ b ∧ b ≤ 0x7A then b - 0x20 else b

/-- All bytes are below `utf8.RuneSelf`. -/
def isAscii (s : Bytes) : Bool := s.all (· < 0x80)

/-- `strings.EqualFold` against an ASCII constant.  Two longer runes fold to ASCII letters: the
Kelvin sign `U+212A` to `k` and the long s `U+017F` to `s`. -/
def equalFold : Bytes → Bytes → Bool
  | [], [] => true
  | 0xE2 :: 0x84 :: 0xAA :: s, c :: t => lowerByte c = 0x6B && equalFold s t
  | 0xC5 :: 0xBF :: s, c :: t => lowerByte c = 0x73 && equalFold s t
  | b :: s, c :: t => lowerByte b = lowerByte c && equalFold s t
  | _, _ => false

example : trimSpace (str " \t a b　") = str "a b" := by decide
example : equalFold (str "X-AMZ-ſignature") (str "X-Amz-Signature") = true := by decide

end Strings

end S000
