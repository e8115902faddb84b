import S000.Foundations.Utf8

/-!
# Foundations/JsonText — writing JSON, and reading it back

`json.Marshal` of strings and of a struct of strings.  Bytes that are not valid UTF-8 are written as
`U+FFFD`, so that reading gives back what was written exactly where it was valid text
(`parse_writeObject`); everything else that is escaped is only written differently.
-/

namespace S000.Json

open Utf8 List Strconv

/-! ## Writing -/

/-- How a byte below `0x80` is written between quotes; `<`, `>` and `&` are escaped as well. -/
def escapeByte (b : UInt8) : Bytes :=
  if b = 0x22 ∨ b = 0x5C then [0x5C, b]
  else if b = 0x08 then [0x5C, 0x62]
  else if b = 0x0C then [0x5C, 0x66]
  else if b = 0x0A then [0x5C, 0x6E]
  else if b = 0x0D then [0x5C, 0x72]
  else if b = 0x09 then [0x5C, 0x74]
  else if b < 0x20 ∨ b = 0x26 ∨ b = 0x3C ∨ b = 0x3E then
    [0x5C, 0x75, 0x30, 0x30, Hex.digit (b.toNat / 16), Hex.digit (b.toNat % 16)]
  else [b]

/-- The bytes between the quotes; `skip` bytes are left out and `copy` bytes copied before the next
character. -/
def writeChars : ℕ → ℕ → Bytes → Bytes
  | _, _, [] => []
  | skip + 1, copy, _ :: t => writeChars skip copy t
  | 0, copy + 1, b :: t => b :: writeChars 0 copy t
  | 0, 0, b :: t =>
    if b < 0x80 then escapeByte b ++ writeChars 0 0 t
    else match multiWidth (b :: t) with
      | 0 => S000.str "\\ufffd" ++ writeChars 0 0 t
      | w + 1 =>
        if (b :: t).take 3 = [0xE2, 0x80, 0xA8] then S000.str "\\u2028" ++ writeChars w 0 t
        else if (b :: t).take 3 = [0xE2, 0x80, 0xA9] then S000.str "\\u2029" ++ writeChars w 0 t
        else b :: writeChars 0 w t

def writeString (s : Bytes) : Bytes := 0x22 :: writeChars 0 0 s ++ [0x22]

/-- The members of an object whose values are strings. -/
def writeMembers : List (Bytes × Bytes) → Bytes
  | [] => []
  | [m] => writeString m.1 ++ 0x3A :: writeString m.2
  | m :: ms => writeString m.1 ++ 0x3A :: (writeString m.2 ++ 0x2C :: writeMembers ms)

/-- An object whose values are strings. -/
def writeObject (members : List (Bytes × Bytes)) : Bytes := 0x7B :: writeMembers members ++ [0x7D]

/-! ## Reading a string -/

variable {items : List Item} {b c : UInt8} {x : Bytes} {n u : ℕ}

theorem scanString_byte (hquote : b ≠ 0x22) (hslash : b ≠ 0x5C) (hlow : 0x20 ≤ b)
    (hx : scanString x = some (items, n)) :
    scanString (b :: x) = some (.byte b :: items, n + 1) := by
  have hguard : ¬ (b < 0x20 ∨ b = 0x5C) := by
    rintro (h | h)
    · exact absurd h (not_lt.2 hlow)
    · exact hslash h
  rw [scanString.eq_def]
  split
  · next h => cases h
  · next h => exact absurd (cons.inj h).1 hquote
  · next h => exact absurd (cons.inj h).1 hslash
  · next h => exact absurd (cons.inj h).1 hslash
  next b' t _ _ _ h =>
  obtain ⟨rfl, rfl⟩ := cons.inj h
  rw [if_neg hguard, hx]
  rfl

theorem scanString_bytes {c : Bytes} (hc : ∀ b ∈ c, 0x80 ≤ b) (hx : scanString x = some (items, n)) :
    scanString (c ++ x) = some (c.map .byte ++ items, n + c.length) := by
  induction c with
  | nil => exact hx
  | cons b c ih =>
    have hb := hc b mem_cons_self
    refine scanString_byte ?_ ?_ ?_ (ih fun b' hb' => hc b' (mem_cons_of_mem b hb'))
    · rintro rfl
      exact absurd hb (by decide)
    · rintro rfl
      exact absurd hb (by decide)
    · exact le_trans (by decide) hb

theorem scanString_simple (hc : c ≠ 0x75) (hu : simpleEscape c = some u)
    (hx : scanString x = some (items, n)) :
    scanString (0x5C :: c :: x) = some (.unit u :: items, n + 2) := by
  rw [scanString.eq_def]
  split
  · next h => cases h
  · next h => exact absurd (cons.inj h).1 (by decide)
  · next h => exact absurd (cons.inj (cons.inj h).2).1 hc
  · next c' t _ h =>
    obtain ⟨-, h⟩ := cons.inj h
    obtain ⟨rfl, rfl⟩ := cons.inj h
    rw [hu, hx]
    rfl
  · next b t _ _ hsimple h =>
    obtain ⟨rfl, rfl⟩ := cons.inj h
    exact (hsimple c x rfl rfl).elim

theorem scanString_unicode {a d : UInt8} (hu : hex4 a b c d = some u)
    (hx : scanString x = some (items, n)) :
    scanString (0x5C :: 0x75 :: a :: b :: c :: d :: x) = some (.unit u :: items, n + 6) := by
  rw [scanString, hu, hx]
  rfl

theorem decodeItems_unit (hu : isSurrogate u = false) (copy : ℕ) (items : List Item) :
    decodeItems copy (.unit u :: items) = encodeRune u ++ decodeItems 0 items := by
  have hhigh : ¬ (0xD800 ≤ u ∧ u ≤ 0xDBFF) := by
    rintro ⟨hlow, hup⟩
    have : isSurrogate u = true := by simp [isSurrogate]; omega
    rw [hu] at this
    cases this
  rcases items with _ | ⟨b | v, t⟩
  · simp [decodeItems, hu]
  · simp [decodeItems, hu]
  · rw [decodeItems, if_neg fun h => hhigh ⟨h.1, h.2.1⟩, hu]
    rfl

theorem leadingBytes_append (c : Bytes) (items : List Item) :
    leadingBytes (c.map .byte ++ items) = c ++ leadingBytes items := by
  induction c with
  | nil => rfl
  | cons b c ih => exact congrArg (b :: ·) ih

theorem decodeItems_copy (c : Bytes) (items : List Item) :
    decodeItems c.length (c.map .byte ++ items) = c ++ decodeItems 0 items := by
  induction c with
  | nil => rfl
  | cons b c ih => simpa [decodeItems] using ih

theorem decodeItems_multi {c : Bytes} (hc : IsMulti c) (items : List Item) :
    decodeItems 0 (c.map .byte ++ items) = c ++ decodeItems 0 items := by
  have hwidth := hc.multiWidth_append (leadingBytes items)
  rw [← leadingBytes_append] at hwidth
  obtain ⟨a, t, rfl, ha, -⟩ := hc.bytes
  have hhigh : ¬ a < 0x80 := not_lt.2 (le_trans (by decide) ha)
  rw [map_cons, cons_append] at hwidth ⊢
  rw [decodeItems, if_neg hhigh, hwidth]
  exact congrArg _ (decodeItems_copy t items)

theorem encodeRune_toNat (hb : b < 0x80) : encodeRune b.toNat = [b] := by
  have hnat : b.toNat < 0x80 := UInt8.lt_iff_toNat_lt.1 hb
  rw [encodeRune, if_pos hnat, UInt8.ofNat_toNat]

theorem read_escapeByte (hb : b < 0x80) (hx : scanString x = some (items, n)) : ∃ item,
    scanString (escapeByte b ++ x) = some (item :: items, n + (escapeByte b).length) ∧
      decodeItems 0 (item :: items) = b :: decodeItems 0 items := by
  have hunit : decodeItems 0 (.unit b.toNat :: items) = b :: decodeItems 0 items := by
    have hnat : b.toNat < 0x80 := UInt8.lt_iff_toNat_lt.1 hb
    have hsurrogate : isSurrogate b.toNat = false := by simp [isSurrogate]; omega
    rw [decodeItems_unit hsurrogate, encodeRune_toNat hb]
    rfl
  unfold escapeByte
  split_ifs with hself h08 h0C h0A h0D h09 hcontrol
  · refine ⟨_, scanString_simple ?_ ?_ hx, hunit⟩
    · rcases hself with rfl | rfl <;> decide
    · rcases hself with rfl | rfl <;> decide
  · exact ⟨_, scanString_simple (by decide) (by subst h08; decide) hx, hunit⟩
  · exact ⟨_, scanString_simple (by decide) (by subst h0C; decide) hx, hunit⟩
  · exact ⟨_, scanString_simple (by decide) (by subst h0A; decide) hx, hunit⟩
  · exact ⟨_, scanString_simple (by decide) (by subst h0D; decide) hx, hunit⟩
  · exact ⟨_, scanString_simple (by decide) (by subst h09; decide) hx, hunit⟩
  · refine ⟨_, scanString_unicode ?_ hx, hunit⟩
    have hnat := b.toNat_lt
    have hzero : Hex.value 0x30 = some 0 := by decide
    rw [hex4, hzero, Hex.value_digit _ (by omega), Hex.value_digit _ (by omega)]
    refine congrArg some ?_
    omega
  · push Not at hself hcontrol
    refine ⟨_, scanString_byte hself.1 hself.2 hcontrol.1 hx, ?_⟩
    rw [decodeItems, if_pos hb]

theorem writeChars_skip (c : Bytes) (t : Bytes) :
    writeChars c.length 0 (c ++ t) = writeChars 0 0 t := by
  induction c with
  | nil => rfl
  | cons b c ih => exact ih

theorem writeChars_copy (c : Bytes) (t : Bytes) :
    writeChars 0 c.length (c ++ t) = c ++ writeChars 0 0 t := by
  induction c with
  | nil => rfl
  | cons b c ih => exact congrArg (b :: ·) ih

theorem writeChars_multi {c : Bytes} (hc : IsMulti c) (t : Bytes) :
    writeChars 0 0 (c ++ t) =
      (if c = [0xE2, 0x80, 0xA8] then S000.str "\\u2028"
        else if c = [0xE2, 0x80, 0xA9] then S000.str "\\u2029" else c) ++ writeChars 0 0 t := by
  have hfront {x : Bytes} (hx : IsMulti x) (hlength : x.length = 3) : (c ++ t).take 3 = x ↔ c = x := by
    refine ⟨fun h => ?_, fun h => by rw [h, ← hlength, take_left]⟩
    refine IsChar.eq_of_append_eq (.inr hc) (.inr hx) (s := t) (t := (c ++ t).drop 3) ?_
    rw [← h, take_append_drop]
  have hwidth := hc.multiWidth_append t
  have hlines := hfront (x := [0xE2, 0x80, 0xA8]) ⟨by decide, by decide⟩ rfl
  have hparagraphs := hfront (x := [0xE2, 0x80, 0xA9]) ⟨by decide, by decide⟩ rfl
  obtain ⟨a, r, rfl, ha, -⟩ := hc.bytes
  have hhigh : ¬ a < 0x80 := not_lt.2 (le_trans (by decide) ha)
  rw [cons_append] at hwidth hlines hparagraphs ⊢
  rw [writeChars, hwidth]
  dsimp only [length_cons]
  simp only [hlines, hparagraphs]
  split_ifs
  · rw [writeChars_skip]
  · rw [writeChars_skip]
  · rw [writeChars_copy]
    rfl

/-- **A string is read back**, up to its closing quote, with its invalid bytes replaced. -/
theorem read_writeChars {s s' : Bytes} (hs : Cleaned s s') (rest : Bytes) : ∃ items,
    scanString (writeChars 0 0 s ++ 0x22 :: rest) = some (items, (writeChars 0 0 s).length + 1) ∧
      decodeItems 0 items = s' := by
  induction hs with
  | nil => exact ⟨[], rfl, rfl⟩
  | @invalid b t t' hb hw _ ih =>
    obtain ⟨items, hscan, hdecode⟩ := ih
    refine ⟨.unit 0xFFFD :: items, ?_, by rw [decodeItems_unit (by decide), hdecode]⟩
    rw [writeChars, if_neg hb, hw]
    exact scanString_unicode (by decide) hscan
  | @ascii b t t' hb _ ih =>
    obtain ⟨items, hscan, hdecode⟩ := ih
    obtain ⟨item, hitem, hread⟩ := read_escapeByte hb hscan
    refine ⟨item :: items, ?_, by rw [hread, hdecode]⟩
    rw [writeChars, if_pos hb, append_assoc, hitem, length_append]
    congr 2
    omega
  | @multi c t t' hc _ ih =>
    obtain ⟨items, hscan, hdecode⟩ := ih
    -- the two line separators are escaped, any other character is copied
    have hseparator {u : ℕ} {x : Bytes} {d : UInt8} (hu : isSurrogate u = false)
        (hx : hex4 0x32 0x30 0x32 d = some u) (hrune : encodeRune u = c)
        (hwrite : x = [0x5C, 0x75, 0x32, 0x30, 0x32, d]) :
        ∃ items, scanString (x ++ writeChars 0 0 t ++ 0x22 :: rest) =
            some (items, (x ++ writeChars 0 0 t).length + 1) ∧ decodeItems 0 items = c ++ t' := by
      subst hwrite
      refine ⟨.unit u :: items, ?_, by rw [decodeItems_unit hu, hrune, hdecode]⟩
      rw [append_assoc, length_append]
      refine (scanString_unicode hx hscan).trans ?_
      congr 2
      simp
      omega
    rw [writeChars_multi hc]
    split_ifs with hline hparagraph
    · exact hseparator (u := 0x2028) (d := 0x38) (by decide) (by decide) (by rw [hline]; decide)
        (by decide)
    · exact hseparator (u := 0x2029) (d := 0x39) (by decide) (by decide)
        (by rw [hparagraph]; decide) (by decide)
    have hbytes : ∀ b ∈ c, 0x80 ≤ b := by
      obtain ⟨a, r, rfl, ha, hr⟩ := hc.bytes
      intro b hb
      rcases mem_cons.1 hb with rfl | hb
      · exact le_trans (by decide) ha
      have := hr b hb
      simp only [isCont, Bool.and_eq_true, decide_eq_true_eq] at this
      exact this.1
    refine ⟨c.map .byte ++ items, ?_, by rw [decodeItems_multi hc, hdecode]⟩
    rw [append_assoc, scanString_bytes hbytes hscan, length_append]
    congr 2
    omega

/-! ## Reading an object -/

theorem tokens_skip (x rest : Bytes) : tokens x.length (x ++ rest) = tokens 0 rest := by
  induction x with
  | nil => rfl
  | cons b x ih => exact ih

theorem tokens_writeString {s s' : Bytes} (hs : Cleaned s s') (rest : Bytes) :
    tokens 0 (writeString s ++ rest) = (tokens 0 rest).map (.scalar (.str s') :: ·) := by
  obtain ⟨items, hscan, hdecode⟩ := read_writeChars hs rest
  have hdoc : writeString s ++ rest = 0x22 :: (writeChars 0 0 s ++ 0x22 :: rest) := by
    simp [writeString]
  have htoken : nextToken (0x22 :: (writeChars 0 0 s ++ 0x22 :: rest)) =
      some (.scalar (.str s'), (writeChars 0 0 s).length + 1 + 1) := by
    simp [nextToken, hscan, hdecode]
  rw [hdoc, tokens, htoken]
  have hrest : tokens ((writeChars 0 0 s).length + 1) (writeChars 0 0 s ++ 0x22 :: rest) =
      tokens 0 rest := by
    have := tokens_skip (writeChars 0 0 s ++ [0x22]) rest
    simpa using this
  change (tokens ((writeChars 0 0 s).length + 1) (writeChars 0 0 s ++ 0x22 :: rest)).bind _ = _
  rw [hrest]
  cases tokens 0 rest <;> rfl

def memberTokens : List (Bytes × Bytes) → List Token
  | [] => []
  | [m] => [.scalar (.str m.1), .colon, .scalar (.str m.2)]
  | m :: ms => .scalar (.str m.1) :: .colon :: .scalar (.str m.2) :: .comma :: memberTokens ms

theorem tokens_colon (x : Bytes) : tokens 0 (0x3A :: x) = (tokens 0 x).map (.colon :: ·) := by
  change (tokens 0 x).bind _ = _
  cases tokens 0 x <;> rfl

theorem tokens_comma (x : Bytes) : tokens 0 (0x2C :: x) = (tokens 0 x).map (.comma :: ·) := by
  change (tokens 0 x).bind _ = _
  cases tokens 0 x <;> rfl

/-- Members with their invalid bytes replaced. -/
abbrev CleanedMembers : List (Bytes × Bytes) → List (Bytes × Bytes) → Prop :=
  Forall₂ fun m m' => Cleaned m.1 m'.1 ∧ Cleaned m.2 m'.2

variable {ms ms' : List (Bytes × Bytes)}

theorem tokens_writeMembers (hms : CleanedMembers ms ms') (rest : Bytes) :
    tokens 0 (writeMembers ms ++ rest) = (tokens 0 rest).map (memberTokens ms' ++ ·) := by
  induction hms with
  | nil => simp [writeMembers, memberTokens]
  | @cons m m' ms ms' hm hms ih =>
    obtain ⟨hname, hvalue⟩ := hm
    cases hms with
    | nil =>
      rw [writeMembers, append_assoc, cons_append, tokens_writeString hname, tokens_colon,
        tokens_writeString hvalue]
      simp [memberTokens, Function.comp_def]
    | cons hm' hms =>
      rw [writeMembers, append_assoc, cons_append, append_assoc, cons_append,
        tokens_writeString hname, tokens_colon, tokens_writeString hvalue, tokens_comma, ih]
      · simp [memberTokens, Function.comp_def]
      · simp

theorem foldlM_memberTokens (hne : ms ≠ []) (members : List (Bytes × Json)) (name : Bytes)
    (orClose : Bool) :
    foldlM step (.name orClose, [.obj members name]) (memberTokens ms ++ [.closeObj]) =
      some (.ended (.obj (members ++ ms.map fun m => (m.1, str m.2))), []) := by
  induction ms generalizing members name orClose with
  | nil => exact absurd rfl hne
  | cons m ms ih =>
    have hname : step (.name orClose, [.obj members name]) (.scalar (.str m.1)) =
        some (.colon, [.obj members m.1]) := by cases orClose <;> rfl
    cases ms with
    | nil =>
      rw [memberTokens, cons_append, foldlM_cons, hname]
      rfl
    | cons m' ms =>
      rw [memberTokens, cons_append, foldlM_cons, hname]
      · change foldlM step (.name false, [.obj (members ++ [(m.1, Json.str m.2)]) []])
          (memberTokens (m' :: ms) ++ [.closeObj]) = _
        rw [ih (by simp)]
        simp
      · simp

/-- **What was written is read back.** -/
theorem parse_writeObject (hne : ms' ≠ []) (hms : CleanedMembers ms ms') :
    parse (writeObject ms) = some (.obj (ms'.map fun m => (m.1, str m.2))) := by
  have htokens : tokens 0 (writeObject ms) = some (.openObj :: (memberTokens ms' ++ [.closeObj])) := by
    change (tokens 0 (writeMembers ms ++ [0x7D])).bind _ = _
    rw [tokens_writeMembers hms]
    rfl
  have hfold : foldlM step (.value, []) (.openObj :: (memberTokens ms' ++ [.closeObj])) = _ :=
    foldlM_memberTokens hne [] [] true
  rw [parse, htokens, Option.bind_some, hfold]
  simp

/-! ## Reading a number -/

def EndsNumber (c : UInt8) : Prop := c = 0x2C ∨ c = 0x7D

theorem digits_itoa_append (n : ℕ) (rest : Bytes) : digits (itoa n ++ rest) = itoa n ++ digits rest :=
  takeWhile_append_of_pos fun b hb => by simpa using mem_itoa hb

theorem digits_itoa (n : ℕ) (hc : EndsNumber c) (rest : Bytes) :
    digits (itoa n ++ c :: rest) = itoa n := by
  rw [digits_itoa_append, digits, takeWhile_cons_of_neg, append_nil]
  rcases hc with rfl | rfl <;> decide

theorem noFraction (hc : EndsNumber c) (rest : Bytes) :
    fractionLen (c :: rest) = some 0 ∧ exponentLen (c :: rest) = some 0 := by
  rcases hc with rfl | rfl <;> exact ⟨rfl, rfl⟩

/-- A number behind its sign: the digits have no leading zero, so all of them are read. -/
theorem numberLen_of_sign (m : ℕ) (sign : Bytes) (hc : EndsNumber c) (rest : Bytes)
    (hsign : (if (sign ++ (itoa m ++ c :: rest)).head? = some 0x2D then 1 else 0) = sign.length) :
    numberLen (sign ++ (itoa m ++ c :: rest)) = some (sign.length + (itoa m).length) := by
  obtain ⟨hfraction, hexponent⟩ := noFraction hc rest
  unfold numberLen
  rw [hsign]
  dsimp only
  rw [drop_left, digits_itoa m hc, if_neg (itoa_ne_nil m)]
  have hrest : (sign ++ (itoa m ++ c :: rest)).drop (sign.length + (itoa m).length) = c :: rest := by
    rw [← append_assoc, ← length_append, drop_left]
  rcases Nat.eq_zero_or_pos m with rfl | hpos
  · have hzero : (itoa (0 : ℕ)).length = 1 := by decide
    rw [hzero] at hrest
    rw [if_pos (by decide), hzero]
    simp only [Option.bind_eq_bind, Option.bind_some, hrest, hfraction, hexponent,
      Option.pure_def]
  · rw [if_neg (head_itoa hpos)]
    simp only [Option.bind_eq_bind, Option.bind_some, hrest, hfraction, add_zero, hexponent,
      Option.pure_def]

/-- **The length of a number** is that of its text, up to the byte that ends it. -/
theorem numberLen_itoa (n : ℤ) (hc : EndsNumber c) (rest : Bytes) :
    numberLen (itoa n ++ c :: rest) = some (itoa n).length := by
  rcases lt_or_ge n 0 with hneg | hnonneg
  · obtain ⟨m, rfl⟩ : ∃ m : ℕ, n = -m := ⟨n.natAbs, by omega⟩
    rw [itoa_neg (by omega)]
    have h := numberLen_of_sign m [0x2D] hc rest rfl
    rw [add_comm] at h
    exact h
  · obtain ⟨m, rfl⟩ := Int.eq_ofNat_of_zero_le hnonneg
    have hhead : (itoa m ++ c :: rest).head? ≠ some 0x2D := fun h => by
      rw [head?_append_of_ne_nil _ (itoa_ne_nil m)] at h
      exact absurd (mem_itoa (mem_of_head? h)).1 (by decide)
    have h := numberLen_of_sign m [] hc rest (if_neg hhead)
    rwa [length_nil, zero_add] at h

/-- The bytes that start other tokens than numbers, and those between tokens. -/
def otherStarts : Bytes := S000.str "[]\x7b\x7d,:\"ntf \t\n\r"

theorem itoa_cons (n : ℤ) : ∃ b t, itoa n = b :: t ∧ b ∉ otherStarts := by
  have hstarts : ∀ b ∈ otherStarts, ¬ (b = 0x2D ∨ 0x30 ≤ b ∧ b ≤ 0x39) := by decide +kernel
  rcases lt_or_ge n 0 with hneg | hnonneg
  · obtain ⟨m, rfl⟩ : ∃ m : ℕ, n = -m := ⟨n.natAbs, by omega⟩
    exact ⟨_, _, itoa_neg (by omega), by decide⟩
  obtain ⟨m, rfl⟩ := Int.eq_ofNat_of_zero_le hnonneg
  obtain ⟨b, t, hbt⟩ := exists_cons_of_ne_nil (itoa_ne_nil m)
  have hdigit : 0x30 ≤ b ∧ b ≤ 0x39 := mem_itoa (hbt ▸ mem_cons_self)
  exact ⟨b, t, hbt, fun hb => hstarts b hb (.inr hdigit)⟩

theorem tokens_itoa (n : ℤ) (hc : EndsNumber c) (rest : Bytes) :
    tokens 0 (itoa n ++ c :: rest) = (tokens 0 (c :: rest)).map (.scalar (.num (itoa n)) :: ·) := by
  have hlen := numberLen_itoa n hc rest
  obtain ⟨b, t, hbt, hb⟩ := itoa_cons n
  have hne (d : UInt8) (hd : d ∈ otherStarts) : b ≠ d := fun h => hb (h ▸ hd)
  have hword (w : Bytes) (hw : ∃ d ∈ S000.str "ntf", ∃ w', w = d :: w') :
      Strings.hasPrefix (b :: (t ++ c :: rest)) w = false := by
    obtain ⟨d, hd, w', rfl⟩ := hw
    have hbd : b ≠ d := hne d (by revert d; decide +kernel)
    rw [Strings.hasPrefix, isPrefixOf, beq_eq_false_iff_ne.2 hbd.symm, Bool.false_and]
  have htoken : nextToken (b :: (t ++ c :: rest)) =
      some (.scalar (.num (itoa n)), (itoa n).length) := by
    rw [hbt, cons_append] at hlen
    rw [nextToken, if_neg (hne _ (by decide)), if_neg (hne _ (by decide)), if_neg (hne _ (by decide)),
      if_neg (hne _ (by decide)), if_neg (hne _ (by decide)), if_neg (hne _ (by decide)),
      if_neg (hne _ (by decide)), hword (S000.str "null") ⟨0x6E, by decide, _, rfl⟩,
      hword (S000.str "true") ⟨0x74, by decide, _, rfl⟩,
      hword (S000.str "false") ⟨0x66, by decide, _, rfl⟩, hlen, hbt]
    simp
  have hspace : ¬ (b = 0x20 ∨ b = 0x09 ∨ b = 0x0A ∨ b = 0x0D) := by
    rintro (h | h | h | h) <;> exact hne _ (by decide) h
  have hrest : tokens ((itoa n).length - 1) (t ++ c :: rest) = tokens 0 (c :: rest) := by
    rw [hbt]
    exact tokens_skip t (c :: rest)
  conv_lhs => rw [hbt]
  rw [cons_append, tokens, if_neg hspace, htoken]
  change (tokens ((itoa n).length - 1) (t ++ c :: rest)).bind _ = _
  rw [hrest]
  cases tokens 0 (c :: rest) <;> rfl

/-- **A number in the range of `int64` is read back.** -/
theorem intOfText_itoa {n : ℤ} (hlow : -2 ^ 63 ≤ n) (hhigh : n < 2 ^ 63) :
    intOfText (itoa n) = some n := by
  have hdigits (m : ℕ) : digits (itoa m) = itoa m := by
    have h := digits_itoa_append m []
    rwa [show digits [] = [] from rfl, append_nil] at h
  rcases lt_or_ge n 0 with hneg | hnonneg
  · obtain ⟨m, rfl⟩ : ∃ m : ℕ, n = -m := ⟨n.natAbs, by omega⟩
    rw [itoa_neg (by omega), intOfText]
    simp [hdigits, itoa_ne_nil, foldl_itoa]
    omega
  · obtain ⟨m, rfl⟩ := Int.eq_ofNat_of_zero_le hnonneg
    have hhead : (itoa m).head? ≠ some 0x2D := fun h => by
      exact absurd (mem_itoa (mem_of_head? h)).1 (by decide)
    rw [intOfText]
    simp [hdigits, itoa_ne_nil, foldl_itoa, hhead]
    omega

end S000.Json
