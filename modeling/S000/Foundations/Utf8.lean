import S000.Foundations.Json

/-!
# Foundations/Utf8 — valid text and where it can be cut

A valid text is a sequence of characters, each one byte below `0x80` or one complete multi-byte
sequence.  Two such texts make one when put together (`Valid.append`), and a text can be cut before any
byte that starts a character (`Valid.of_append_cons`): the bytes after the first of a sequence are of a
kind of their own.
-/

namespace S000.Utf8

open List

/-- `utf8.ValidString` from a position on; `skip` bytes of the current character are left. -/
def validFrom : ℕ → Bytes → Bool
  | _, [] => true
  | skip + 1, _ :: t => validFrom skip t
  | 0, b :: t =>
    if b < 0x80 then validFrom 0 t
    else match multiWidth (b :: t) with
      | 0 => false
      | w + 1 => validFrom w t

/-- `utf8.ValidString`. -/
def validString (s : Bytes) : Bool := validFrom 0 s

/-- A character of more than one byte. -/
structure IsMulti (c : Bytes) : Prop where
  ne_nil : c ≠ []
  width : multiWidth c = c.length

/-- **Valid text**, character by character. -/
inductive Valid : Bytes → Prop
  | nil : Valid []
  | ascii {b : UInt8} {t : Bytes} : b < 0x80 → Valid t → Valid (b :: t)
  | multi {c t : Bytes} : IsMulti c → Valid t → Valid (c ++ t)

/-! ## Characters of more than one byte -/

variable {s c t : Bytes}

/-- **The three kinds** of such characters. -/
theorem multiWidth_cases (h : multiWidth s ≠ 0) :
    (∃ a b t, s = a :: b :: t ∧ (0xC2 ≤ a ∧ isCont b = true) ∧ ∀ t, multiWidth (a :: b :: t) = 2) ∨
    (∃ a b c t, s = a :: b :: c :: t ∧ (0xC2 ≤ a ∧ isCont b = true ∧ isCont c = true) ∧
      ∀ t, multiWidth (a :: b :: c :: t) = 3) ∨
    ∃ a b c d t, s = a :: b :: c :: d :: t ∧
      (0xC2 ≤ a ∧ isCont b = true ∧ isCont c = true ∧ isCont d = true) ∧
        ∀ t, multiWidth (a :: b :: c :: d :: t) = 4 := by
  have hcont {b low high : UInt8} (hlow : 0x80 ≤ low) (hhigh : high ≤ 0xBF)
      (hb : low ≤ b ∧ b ≤ high) : isCont b = true := by
    simp [isCont, hlow.trans hb.1, hb.2.trans hhigh]
  have hpos {p : Prop} [Decidable p] {n : ℕ} (h : (if p then n else 0) ≠ 0) : p :=
    by_contra fun hp => h (if_neg hp)
  rcases s with _ | ⟨a, _ | ⟨b, t⟩⟩
  · exact absurd rfl h
  · exact absurd rfl h
  rw [multiWidth] at h
  by_cases h₂ : 0xC2 ≤ a ∧ a ≤ 0xDF
  · rw [if_pos h₂] at h
    have hb := hpos h
    exact .inl ⟨a, b, t, rfl, ⟨h₂.1, hb⟩, fun t => by rw [multiWidth, if_pos h₂, if_pos hb]⟩
  rw [if_neg h₂] at h
  by_cases h₃ : 0xE0 ≤ a ∧ a ≤ 0xEF
  · rw [if_pos h₃] at h
    obtain ⟨hlow, hhigh, hc⟩ := hpos h
    rcases t with _ | ⟨c, t⟩
    · cases hc
    refine .inr (.inl ⟨a, b, c, t, rfl, ⟨?_, ?_, hc⟩, fun t => ?_⟩)
    · exact (by decide : 0xC2 ≤ 0xE0).trans h₃.1
    · exact hcont (by split_ifs <;> decide) (by split_ifs <;> decide) ⟨hlow, hhigh⟩
    · rw [multiWidth, if_neg h₂, if_pos h₃]
      exact if_pos ⟨hlow, hhigh, hc⟩
  rw [if_neg h₃] at h
  by_cases h₄ : 0xF0 ≤ a ∧ a ≤ 0xF4
  · rw [if_pos h₄] at h
    obtain ⟨hlow, hhigh, hc, hd⟩ := hpos h
    rcases t with _ | ⟨c, _ | ⟨d, t⟩⟩
    · cases hc
    · cases hd
    refine .inr (.inr ⟨a, b, c, d, t, rfl, ⟨?_, ?_, hc, hd⟩, fun t => ?_⟩)
    · exact (by decide : 0xC2 ≤ 0xF0).trans h₄.1
    · exact hcont (by split_ifs <;> decide) (by split_ifs <;> decide) ⟨hlow, hhigh⟩
    · rw [multiWidth, if_neg h₂, if_neg h₃, if_pos h₄]
      exact if_pos ⟨hlow, hhigh, hc, hd⟩
  · rw [if_neg h₄] at h
    exact absurd rfl h

theorem IsMulti.multiWidth_append (h : IsMulti c) (t : Bytes) : multiWidth (c ++ t) = c.length := by
  have hne : multiWidth c ≠ 0 := by simpa [h.width] using h.ne_nil
  have hlength := h.width
  rcases multiWidth_cases hne with ⟨a, b, r, rfl, -, hw⟩ | ⟨a, b, d, r, rfl, -, hw⟩ |
    ⟨a, b, d, e, r, rfl, -, hw⟩
  all_goals
    rw [hw] at hlength
    rw [← hlength]
    exact hw _

theorem exists_isMulti (h : multiWidth s ≠ 0) :
    ∃ c t, s = c ++ t ∧ IsMulti c ∧ c.length = multiWidth s := by
  rcases multiWidth_cases h with ⟨a, b, t, rfl, -, hw⟩ | ⟨a, b, d, t, rfl, -, hw⟩ |
    ⟨a, b, d, e, t, rfl, -, hw⟩
  · exact ⟨[a, b], t, rfl, ⟨by simp, hw []⟩, (hw t).symm⟩
  · exact ⟨[a, b, d], t, rfl, ⟨by simp, hw []⟩, (hw t).symm⟩
  · exact ⟨[a, b, d, e], t, rfl, ⟨by simp, hw []⟩, (hw t).symm⟩

/-- The first byte of a character is none that a character goes on with, and the others are. -/
theorem IsMulti.bytes (h : IsMulti c) : ∃ a t, c = a :: t ∧ 0xC2 ≤ a ∧ ∀ b ∈ t, isCont b = true := by
  have hne : multiWidth c ≠ 0 := by simpa [h.width] using h.ne_nil
  have hlength := h.width
  rcases multiWidth_cases hne with ⟨a, b, t, rfl, ⟨ha, hb⟩, hw⟩ |
    ⟨a, b, d, t, rfl, ⟨ha, hb, hd⟩, hw⟩ | ⟨a, b, d, e, t, rfl, ⟨ha, hb, hd, he⟩, hw⟩
  all_goals
    rw [hw] at hlength
    obtain rfl : t = [] := by simpa using hlength
    exact ⟨a, _, rfl, ha, by simp [*]⟩

/-! ## Valid text -/

theorem validFrom_append : validFrom c.length (c ++ t) = validFrom 0 t := by
  induction c with
  | nil => rfl
  | cons b c ih => exact ih

/-- **What `utf8.ValidString` accepts is valid text.** -/
theorem valid_of_validString (h : validString s = true) : Valid s := by
  induction hn : s.length using Nat.strong_induction_on generalizing s with
  | _ n ih =>
    rcases s with _ | ⟨b, t⟩
    · exact .nil
    unfold validString at h
    rw [validFrom] at h
    split_ifs at h with hb
    · exact .ascii hb (ih t.length (by simp [← hn]) h rfl)
    split at h
    · cases h
    next w hw =>
      obtain ⟨c, t', hct, hc, hlength⟩ := exists_isMulti (s := b :: t) (by simp [hw])
      rcases c with _ | ⟨b', c⟩
      · exact absurd rfl hc.ne_nil
      obtain ⟨rfl, ht⟩ := cons.inj hct
      obtain rfl : c.length = w := Nat.succ.inj (hlength.trans hw)
      rw [ht, append_eq, validFrom_append] at h
      rw [hct]
      refine .multi hc (ih t'.length ?_ h rfl)
      rw [← hn, ht]
      simp only [append_eq, length_append, length_cons]
      omega

/-- **Text with its invalid bytes replaced**, each by `U+FFFD`. -/
inductive Cleaned : Bytes → Bytes → Prop
  | nil : Cleaned [] []
  | ascii {b : UInt8} {s t : Bytes} : b < 0x80 → Cleaned s t → Cleaned (b :: s) (b :: t)
  | multi {c s t : Bytes} : IsMulti c → Cleaned s t → Cleaned (c ++ s) (c ++ t)
  | invalid {b : UInt8} {s t : Bytes} : ¬ b < 0x80 → multiWidth (b :: s) = 0 → Cleaned s t →
    Cleaned (b :: s) (encodeRune 0xFFFD ++ t)

theorem exists_cleaned (s : Bytes) : ∃ t, Cleaned s t := by
  induction hn : s.length using Nat.strong_induction_on generalizing s with
  | _ n ih =>
    rcases s with _ | ⟨b, s⟩
    · exact ⟨[], .nil⟩
    obtain ⟨t, ht⟩ := ih s.length (by simp [← hn]) s rfl
    by_cases hb : b < 0x80
    · exact ⟨_, .ascii hb ht⟩
    by_cases hw : multiWidth (b :: s) = 0
    · exact ⟨_, .invalid hb hw ht⟩
    obtain ⟨c, s', hcs, hc, -⟩ := exists_isMulti hw
    obtain ⟨t', ht'⟩ := ih s'.length (by
      have hpos := length_pos_iff.2 hc.ne_nil
      rw [← hn, hcs, length_append]
      omega) s' rfl
    rw [hcs]
    exact ⟨_, .multi hc ht'⟩

theorem Valid.cleaned (h : Valid s) : Cleaned s s := by
  induction h with
  | nil => exact .nil
  | ascii hb _ ih => exact .ascii hb ih
  | multi hc _ ih => exact .multi hc ih

theorem Cleaned.valid (h : Cleaned s t) : Valid t := by
  induction h with
  | nil => exact .nil
  | ascii hb _ ih => exact .ascii hb ih
  | multi hc _ ih => exact .multi hc ih
  | invalid _ _ _ ih => exact .multi ⟨by decide, by decide⟩ ih

theorem valid_of_ascii : ∀ {s : Bytes}, (∀ b ∈ s, b < 0x80) → Valid s
  | [], _ => .nil
  | b :: _, h => .ascii (h b mem_cons_self) (valid_of_ascii fun c hc => h c (mem_cons_of_mem b hc))

theorem Valid.append (hs : Valid s) (ht : Valid t) : Valid (s ++ t) := by
  induction hs with
  | nil => exact ht
  | ascii hb _ ih => exact .ascii hb ih
  | multi hc _ ih =>
    rw [append_assoc]
    exact .multi hc ih

def IsChar (c : Bytes) : Prop := (∃ b, c = [b] ∧ b < 0x80) ∨ IsMulti c

theorem Valid.cases (h : Valid s) : s = [] ∨ ∃ c t, s = c ++ t ∧ IsChar c ∧ Valid t := by
  cases h with
  | nil => exact .inl rfl
  | @ascii b t hb ht => exact .inr ⟨[b], t, rfl, .inl ⟨b, rfl, hb⟩, ht⟩
  | @multi c t hc ht => exact .inr ⟨c, t, rfl, .inr hc, ht⟩

variable {b : UInt8}

theorem not_cont_of_lt (h : b < 0x80) : isCont b = false := by simp [isCont, not_le.2 h]

theorem not_cont_of_le (h : 0xC2 ≤ b) : isCont b = false := by
  have : ¬ b ≤ 0xBF := fun hb => absurd (h.trans hb) (by decide)
  simp [isCont, this]

theorem IsChar.bytes (h : IsChar c) :
    ∃ a t, c = a :: t ∧ isCont a = false ∧ ∀ b ∈ t, isCont b = true := by
  rcases h with ⟨b, rfl, hb⟩ | hc
  · exact ⟨b, [], rfl, not_cont_of_lt hb, nofun⟩
  · obtain ⟨a, t, rfl, ha, ht⟩ := hc.bytes
    exact ⟨a, t, rfl, not_cont_of_le ha, ht⟩

theorem IsChar.eq_of_append_eq {d : Bytes} (hc : IsChar c) (hd : IsChar d) (h : c ++ s = d ++ t) :
    c = d := by
  have hmixed {b : UInt8} {c s t : Bytes} (hb : b < 0x80) (hc : IsMulti c) : [b] ++ s ≠ c ++ t := by
    obtain ⟨a, r, rfl, ha, -⟩ := hc.bytes
    intro h
    obtain ⟨rfl, -⟩ := cons.inj h
    exact absurd (ha.trans_lt hb) (by decide)
  rcases hc with ⟨b, rfl, hb⟩ | hc <;> rcases hd with ⟨b', rfl, hb'⟩ | hd
  · rw [(cons.inj h).1]
  · exact absurd h (hmixed hb hd)
  · exact absurd h.symm (hmixed hb' hc)
  · refine (append_inj h ?_).1
    rw [← hc.multiWidth_append s, h, hd.multiWidth_append]

end S000.Utf8
