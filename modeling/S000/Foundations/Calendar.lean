import S000.Foundations.Time
import Mathlib.Tactic.Ring

/-!
# Foundations/Calendar — a printed date is read back

The calendar repeats after 400 years of 146097 days, an *era*.  Counted from the first of March, an
era is a sequence of years (`yearStart`) and a year a sequence of months, the same in every year but
for its last day: so a day is an era, a year of the era and a day of the year (`exists_ofDays`), and
the date it is given is a date of the calendar (`ofDays_valid`) which leads back to it
(`toDays_ofDays`).

`parseAmz` then reads what `formatAmz` prints, to the second, exactly for the years of four digits
(`parseAmz_formatAmz`, `parseAmz_formatAmz_eq_none`), and so does `parseRFC3339` with what
`formatRFC3339` prints.
-/

namespace S000.Date

open List Strconv Option

/-! ## The years of an era -/

/-- The days of an era before its year `y`. -/
def yearStart (y : ℕ) : ℕ := 365 * y + y / 4 - y / 100

/-- The quotient that finds the year of a day. -/
def yearIndex (n : ℕ) : ℕ := n - n / 1460 + n / 36524 - n / 146096

variable {n y doy month day lo hi : ℕ}

theorem yearIndex_mono {m : ℕ} (h : m ≤ n) (hn : n < 146096) : yearIndex m ≤ yearIndex n := by
  unfold yearIndex
  rcases le_or_gt (n / 1460) (m / 1460) with hle | hlt
  · omega
  · omega

theorem yearIndex_ends : ∀ y < 400, 365 * y ≤ yearIndex (yearStart y) ∧
    yearIndex (yearStart (y + 1) - 1) < 365 * (y + 1) := by decide +kernel

theorem yearStart_le (hy : y < 400) : yearStart (y + 1) ≤ 146096 := by
  unfold yearStart
  omega

/-- A day of an era lies in a year of the era; the last day of all is the last of the year 399. -/
def InYear (n y : ℕ) : Prop := yearStart y ≤ n ∧ (n < yearStart (y + 1) ∨ y = 399 ∧ n = 146096)

theorem exists_inYear (hn : n < 146097) : ∃ y < 400, InYear n y := by
  have hsearch (k : ℕ) : k ≤ 400 → (∃ y < k, InYear n y) ∨ yearStart k ≤ n := by
    intro hk
    induction k with
    | zero => exact .inr (Nat.zero_le n)
    | succ k ih =>
      rcases ih (by omega) with ⟨y, hy, hn⟩ | hle
      · exact .inl ⟨y, by omega, hn⟩
      rcases lt_or_ge n (yearStart (k + 1)) with hlt | hge
      · exact .inl ⟨k, by omega, hle, .inl hlt⟩
      · exact .inr hge
  rcases hsearch 400 le_rfl with h | h
  · exact h
  have hend : yearStart 400 = 146096 := by decide
  have hlast : yearStart 399 ≤ 146096 := by decide
  exact ⟨399, by omega, by omega, .inr ⟨rfl, by omega⟩⟩

/-- **The year of a day is found by one division.** -/
theorem yearIndex_div (hy : y < 400) (h : InYear n y) : yearIndex n / 365 = y := by
  obtain ⟨hlo, hhi⟩ := h
  obtain ⟨hfirst, hlast⟩ := yearIndex_ends y hy
  rcases hhi with hhi | ⟨rfl, rfl⟩
  · have hle := yearStart_le hy
    have hlo' := yearIndex_mono hlo (by omega)
    have hhi' := yearIndex_mono (Nat.le_sub_one_of_lt hhi) (by omega)
    omega
  · decide

/-- A year has 365 days, and one more before the first of March of a leap year. -/
theorem inYear_day (h : InYear n y) : n - yearStart y ≤ 365 ∧
    (n - yearStart y = 365 → (y + 1) % 4 = 0 ∧ ((y + 1) % 100 ≠ 0 ∨ (y + 1) % 400 = 0)) := by
  obtain ⟨hlo, hhi | ⟨rfl, rfl⟩⟩ := h
  · unfold yearStart at *
    omega
  · decide

/-! ## The months of a year -/

/-- The month of a day of the year that starts in March, and the day of the month. -/
def monthOf (doy : ℕ) : ℕ × ℕ :=
  let mp := (5 * doy + 2) / 153
  (if mp < 10 then mp + 3 else mp - 9, doy - (153 * mp + 2) / 5 + 1)

/-- What there is to say about the days of a year. -/
@[mk_iff] structure MonthDay (doy month day : ℕ) : Prop where
  month_pos : 1 ≤ month
  month_le : month ≤ 12
  day_pos : 1 ≤ day
  day_le : day ≤ 31
  back : (153 * ((month + 9) % 12) + 2) / 5 + day = doy + 1
  short : month = 4 ∨ month = 6 ∨ month = 9 ∨ month = 11 → day ≤ 30
  february : month = 2 → day ≤ 28 ∨ day = 29 ∧ doy = 365

instance (doy month day : ℕ) : Decidable (MonthDay doy month day) :=
  decidable_of_iff' _ (monthDay_iff ..)

theorem monthDay_monthOf : ∀ doy < 366, MonthDay doy (monthOf doy).1 (monthOf doy).2 := by
  decide +kernel

theorem le_of_monthDay : ∀ doy < 366,
    (153 * ((5 * doy + 2) / 153) + 2) / 5 ≤ doy ∧ (5 * doy + 2) / 153 ≤ 11 := by
  decide +kernel

/-! ## The date of a day -/

/-- **A day is an era, a year of it and a day of that year**, and its date is read off from them. -/
theorem exists_ofDays (days : ℤ) : ∃ (era : ℤ) (y doy : ℕ), y < 400 ∧ doy < 366 ∧
    (doy = 365 → (y + 1) % 4 = 0 ∧ ((y + 1) % 100 ≠ 0 ∨ (y + 1) % 400 = 0)) ∧
    days + 719468 = era * 146097 + (yearStart y + doy : ℕ) ∧
    ofDays days = (era * 400 + (if (monthOf doy).1 ≤ 2 then y + 1 else y), monthOf doy) := by
  obtain ⟨n, hn⟩ := Int.eq_ofNat_of_zero_le
    (Int.emod_nonneg (days + 719468) (by decide : (146097 : ℤ) ≠ 0))
  have hlt : n < 146097 := by omega
  obtain ⟨y, hy, hin⟩ := exists_inYear hlt
  obtain ⟨hdoy, hleap⟩ := inYear_day hin
  obtain ⟨hback, hmp⟩ := le_of_monthDay (n - yearStart y) (by omega)
  refine ⟨(days + 719468) / 146097, y, n - yearStart y, hy, by omega, hleap, ?_, ?_⟩
  · have hle := hin.1
    omega
  have hdoe : days + 719468 - (days + 719468) / 146097 * 146097 = n := by omega
  have hyear : ((n : ℤ) - n / 1460 + n / 36524 - n / 146096) / 365 = y := by
    have h := yearIndex_div hy hin
    unfold yearIndex at h
    omega
  have hday : (n : ℤ) - (365 * y + y / 4 - y / 100) = (n - yearStart y : ℕ) := by
    have hle := hin.1
    unfold yearStart at *
    omega
  simp only [ofDays, hdoe, hyear, hday, monthOf]
  generalize n - yearStart y = doy at *
  have hmp' : (5 * (doy : ℤ) + 2) / 153 = ((5 * doy + 2) / 153 : ℕ) := by omega
  rw [hmp']
  refine Prod.ext ?_ (Prod.ext ?_ ?_)
  · split_ifs <;> omega
  · dsimp only
    split_ifs <;> omega
  · dsimp only
    omega

/-- **The date of a day leads back to the day.** -/
theorem toDays_ofDays (days : ℤ) :
    toDays (ofDays days).1 (ofDays days).2.1 (ofDays days).2.2 = days := by
  obtain ⟨era, y, doy, hy, hdoy, -, hdays, hdate⟩ := exists_ofDays days
  have hmonth := monthDay_monthOf doy hdoy
  rw [hdate]
  simp only [toDays]
  have hyear : (if (monthOf doy).1 ≤ 2
      then era * 400 + (if (monthOf doy).1 ≤ 2 then y + 1 else y) - 1
      else era * 400 + (if (monthOf doy).1 ≤ 2 then y + 1 else y)) = era * 400 + y := by
    split_ifs <;> push_cast <;> ring
  have hera : (era * 400 + y) / 400 = era := by omega
  have hyoe : era * 400 + y - era * 400 = y := by ring
  have hback : (153 * (((monthOf doy).1 + 9 : ℤ) % 12) + 2) / 5 + (monthOf doy).2 = doy + 1 := by
    exact_mod_cast hmonth.back
  rw [hyear, hera, hyoe]
  unfold yearStart at hdays
  omega

theorem MonthDay.day_le_daysIn {year : ℕ} (h : MonthDay doy month day)
    (hleap : month = 2 → doy = 365 → isLeap year = true) : day ≤ daysIn month year := by
  unfold daysIn
  split_ifs with htwo hisLeap hthirty
  · have := h.february htwo
    omega
  · -- a 29th of February is the last day of a year that leads into a leap year
    rcases h.february htwo with h | ⟨-, h⟩
    · exact h
    · exact absurd (hleap htwo h) hisLeap
  · exact h.short hthirty
  · exact h.day_le

/-- **The date of a day is a date of the calendar.** -/
theorem ofDays_valid (days : ℤ) : 1 ≤ (ofDays days).2.1 ∧ (ofDays days).2.1 ≤ 12 ∧
    1 ≤ (ofDays days).2.2 ∧ (ofDays days).2.2 ≤ 31 ∧
    (0 ≤ (ofDays days).1 → (ofDays days).2.2 ≤ daysIn (ofDays days).2.1 (ofDays days).1.toNat) := by
  obtain ⟨era, y, doy, hy, hdoy, hleap, -, hdate⟩ := exists_ofDays days
  have hmonth := monthDay_monthOf doy hdoy
  rw [hdate]
  refine ⟨hmonth.month_pos, hmonth.month_le, hmonth.day_pos, hmonth.day_le, fun hpos => ?_⟩
  refine hmonth.day_le_daysIn fun htwo hlast => ?_
  rw [if_pos (by omega)] at hpos ⊢
  simp only [isLeap, Bool.and_eq_true, Bool.or_eq_true, decide_eq_true_eq]
  omega

/-! ## Reading what was printed -/

theorem digit_ofNat : ∀ d < 10, digit (.ofNat (0x30 + d)) = some d := by decide

theorem getnum_pad (two : Bool) (h : n < 100) (s : Bytes) :
    getnum two (pad 2 n ++ s) = some (n, s) := by
  have htens := digit_ofNat (n / 10 % 10) (by omega)
  have hones := digit_ofNat (n % 10) (by omega)
  have hn : n / 10 % 10 * 10 + n % 10 = n := by omega
  simp only [pad, getnum, nil_append, cons_append, htens, hones, hn, bind_eq_bind, bind_some]

theorem year_pad (h : n < 10000) (s : Bytes) : year (pad 4 n ++ s) = some (n, s) := by
  have hthousands := digit_ofNat (n / 10 / 10 / 10 % 10) (by omega)
  have hhundreds := digit_ofNat (n / 10 / 10 % 10) (by omega)
  have htens := digit_ofNat (n / 10 % 10) (by omega)
  have hones := digit_ofNat (n % 10) (by omega)
  simp only [pad, year, nil_append, cons_append, hthousands, hhundreds, htens, hones,
    Option.pure_def, bind_eq_bind, bind_some, some.injEq, Prod.mk.injEq,
    and_true]
  omega

variable {s s' : Bytes}

theorem bounded_of_le (hlo : lo ≤ n) (hhi : n ≤ hi) :
    bounded lo hi (n, s) = some (n, s) := if_pos ⟨hlo, hhi⟩

/-- The numbers that a date and a time of day are printed from. -/
structure Parts (y mo d h mi sec : ℕ) : Prop where
  year_lt : y < 10000
  month_pos : 1 ≤ mo
  month_le : mo ≤ 12
  day_pos : 1 ≤ d
  day_le : d ≤ daysIn mo y
  day_lt : d < 100
  hour_le : h ≤ 23
  minute_le : mi ≤ 59
  second_le : sec ≤ 59

variable {t : Time}

/-- **A time whose year has four digits is printed from such numbers**, and they give it back to the
second. -/
theorem exists_parts (hpos : 0 ≤ (ofDays (t.unix / 86400)).1)
    (hle : (ofDays (t.unix / 86400)).1 ≤ 9999) : ∃ y mo d h mi sec, Parts y mo d h mi sec ∧
    toTime y mo d h mi sec 0 = t.unix * 1000000000 ∧
    formatAmz t = pad 4 y ++ pad 2 mo ++ pad 2 d ++ str "T" ++ pad 2 h ++ pad 2 mi ++ pad 2 sec ++
      str "Z" ∧
    formatRFC3339 t = pad 4 y ++ str "-" ++ pad 2 mo ++ str "-" ++ pad 2 d ++ str "T" ++ pad 2 h ++
      str ":" ++ pad 2 mi ++ str ":" ++ pad 2 sec ++ str "Z" := by
  obtain ⟨hmo, hmo', hd, hd31, hd'⟩ := ofDays_valid (t.unix / 86400)
  have hback := toDays_ofDays (t.unix / 86400)
  have hday := hd' hpos
  obtain ⟨y, mo, d, hdate⟩ : ∃ y mo d, ofDays (t.unix / 86400) = (y, mo, d) := ⟨_, _, _, rfl⟩
  rw [hdate] at hpos hle hmo hmo' hd hd31 hday hback
  dsimp only at hpos hle hmo hmo' hd hd31 hday hback
  lift y to ℕ using hpos
  have hyear : printYear y = pad 4 y := by simp [printYear, (by omega : y < 10000)]
  have hsec := Int.emod_nonneg t.unix (by decide : (86400 : ℤ) ≠ 0)
  have hsec' := Int.emod_lt_of_pos t.unix (by decide : (0 : ℤ) < 86400)
  refine ⟨y, mo, d, (t.unix % 86400).toNat / 3600, (t.unix % 86400).toNat / 60 % 60,
    (t.unix % 86400).toNat % 60,
    ⟨by omega, hmo, hmo', hd, hday, by omega, by omega, by omega, by omega⟩, ?_,
    by simp only [formatAmz, hdate, hyear], by simp only [formatRFC3339, hdate, hyear]⟩
  rw [toTime, hback]
  have hsecs : ((t.unix % 86400).toNat) = t.unix % 86400 := Int.toNat_of_nonneg hsec
  generalize (t.unix % 86400).toNat = n at *
  have hclock : ((t.unix / 86400 * 86400 + (n / 3600) * 3600 + (n / 60 % 60) * 60
      + (n % 60)) * 1000000000 + 0) = t.unix * 1000000000 := by omega
  exact hclock

section Parts

variable {y mo d h mi sec : ℕ} (p : Parts y mo d h mi sec)

include p

theorem parse_parts : parseAmz (pad 4 y ++ pad 2 mo ++ pad 2 d ++ str "T" ++ pad 2 h ++ pad 2 mi ++
      pad 2 sec ++ str "Z") = some (toTime y mo d h mi sec 0) ∧
    parseRFC3339 (pad 4 y ++ str "-" ++ pad 2 mo ++ str "-" ++ pad 2 d ++ str "T" ++ pad 2 h ++
      str ":" ++ pad 2 mi ++ str ":" ++ pad 2 sec ++ str "Z") = some (toTime y mo d h mi sec 0) := by
  obtain ⟨hy, hmo, hmo', hd, hd', hd100, hh, hmi, hsec⟩ := p
  have hT (s : Bytes) : lit 0x54 (str "T" ++ s) = some s := rfl
  have hdash (s : Bytes) : lit 0x2D (str "-" ++ s) = some s := rfl
  have hcolon (s : Bytes) : lit 0x3A (str ":" ++ s) = some s := rfl
  have hfraction : fraction (str "Z") = (0, str "Z") := rfl
  have hZ : lit 0x5A (str "Z") = some [] := rfl
  have hzone : zone (str "Z") = some 0 := rfl
  constructor <;> simp only [parseAmz, parseRFC3339, append_assoc, hT, hdash, hcolon, hfraction,
    hZ, hzone, year_pad hy, getnum_pad _ (by omega : mo < 100), getnum_pad _ hd100,
    getnum_pad _ (by omega : h < 100), getnum_pad _ (by omega : mi < 100),
    getnum_pad _ (by omega : sec < 100), bind_eq_bind, bind_some,
    bounded_of_le hmo hmo', bounded_of_le hd hd', bounded_of_le (Nat.zero_le h) hh,
    bounded_of_le (Nat.zero_le mi) hmi, bounded_of_le (Nat.zero_le sec) hsec, if_true, zero_mul,
    sub_zero]

end Parts

/-- **A printed date is read back**, to the second, when its year has four digits. -/
theorem parseAmz_formatAmz (hpos : 0 ≤ (ofDays (t.unix / 86400)).1)
    (hle : (ofDays (t.unix / 86400)).1 ≤ 9999) :
    parseAmz (formatAmz t) = some (t.unix * 1000000000) := by
  obtain ⟨y, mo, d, h, mi, sec, hparts, htime, hamz, -⟩ := exists_parts hpos hle
  rw [hamz, (parse_parts hparts).1, htime]

theorem parseRFC3339_formatRFC3339 (hpos : 0 ≤ (ofDays (t.unix / 86400)).1)
    (hle : (ofDays (t.unix / 86400)).1 ≤ 9999) :
    parseRFC3339 (formatRFC3339 t) = some (t.unix * 1000000000) := by
  obtain ⟨y, mo, d, h, mi, sec, hparts, htime, -, hrfc⟩ := exists_parts hpos hle
  rw [hrfc, (parse_parts hparts).2, htime]

theorem year_minus (s : Bytes) : year (0x2D :: s) = none := by
  rcases s with _ | ⟨b, _ | ⟨c, _ | ⟨d, s⟩⟩⟩ <;> rfl

theorem drop_of_year (h : year s = some (n, s')) : s' = s.drop 4 := by
  rcases s with _ | ⟨a, _ | ⟨b, _ | ⟨c, _ | ⟨d, s⟩⟩⟩⟩
  iterate 4 cases h
  simp only [year, bind_eq_bind, bind_eq_some_iff] at h
  obtain ⟨-, -, -, -, -, -, -, -, -, rfl⟩ := h
  rfl

theorem drop_of_getnum (h : getnum true s = some (n, s')) : s' = s.drop 2 := by
  rcases s with _ | ⟨a, _ | ⟨b, s⟩⟩
  · cases h
  · cases ha : digit a <;> simp [getnum] at h
  · cases ha : digit a <;> cases hb : digit b <;> simp [getnum, ha, hb] at h
    exact h.2.symm

theorem drop_of_getnum_bounded {x : ℕ × Bytes} (h : (getnum true s).bind (bounded lo hi) = some x) :
    x.2 = s.drop 2 := by
  obtain ⟨⟨n, s'⟩, hnum, hx⟩ := bind_eq_some_iff.1 h
  unfold bounded at hx
  split_ifs at hx
  cases hx
  exact drop_of_getnum hnum

theorem drop_of_parseAmz (h : parseAmz s = some t) : (s.drop 8).head? = some 0x54 := by
  obtain ⟨⟨y, s₁⟩, hy, h⟩ := bind_eq_some_iff.1 h
  obtain ⟨⟨mo, s₂⟩, hmo, h⟩ := bind_eq_some_iff.1 h
  obtain ⟨⟨d, s₃⟩, hd, h⟩ := bind_eq_some_iff.1 h
  obtain ⟨s₄, hT, -⟩ := bind_eq_some_iff.1 h
  have hyear := drop_of_year hy
  have hmonth := drop_of_getnum_bounded hmo
  have hday := drop_of_getnum_bounded hd
  dsimp only at hmonth hday
  rw [hyear, drop_drop] at hmonth
  rw [hmonth, drop_drop] at hday
  rw [← hday]
  rcases s₃ with _ | ⟨b, s₃⟩
  · cases hT
  simp only [lit, ite_none_right_eq_some] at hT
  rw [hT.1]
  rfl

theorem digit_pad : ∀ (w n : ℕ), ∀ b ∈ pad w n, (digit b).isSome
  | 0, _, b, h => by cases h
  | w + 1, n, b, h => by
    rcases mem_append.1 h with h | h
    · exact digit_pad w (n / 10) b h
    · rw [mem_singleton.1 h, digit_ofNat _ (by omega)]
      rfl

theorem length_pad : ∀ w n, (pad w n).length = w
  | 0, _ => rfl
  | w + 1, n => by rw [pad, length_append, length_pad w]; rfl

theorem digit_itoa (n : ℕ) : ∀ b ∈ itoa n, (digit b).isSome := by
  intro b hb
  rw [digit, if_pos (mem_itoa hb)]
  rfl

theorem length_itoa (h : ¬ n < 10000) : 5 ≤ (itoa n).length := by
  rw [itoa_natCast, length_map]
  have := Nat.length_toDigits_le_iff (n := n) (k := 4) (by decide : 1 < 10) (by decide)
  omega

/-- **…and only then**: other years have a sign, or too many digits. -/
theorem parseAmz_formatAmz_eq_none
    (h : ¬ (0 ≤ (ofDays (t.unix / 86400)).1 ∧ (ofDays (t.unix / 86400)).1 ≤ 9999)) :
    parseAmz (formatAmz t) = none := by
  obtain ⟨y, mo, d, hdate⟩ : ∃ y mo d, ofDays (t.unix / 86400) = (y, mo, d) := ⟨_, _, _, rfl⟩
  rw [hdate] at h
  simp only [formatAmz, hdate, printYear, append_assoc]
  rcases lt_or_ge y 0 with hneg | hpos
  · rw [if_pos hneg, parseAmz, singleton_append, year_minus]
    rfl
  -- at least nine digits stand before the `T`
  have hlong : ¬ y.natAbs < 10000 := by omega
  rw [if_neg (by omega), if_neg hlong, nil_append]
  have hlen := length_itoa hlong
  cases hparse : parseAmz _ with
  | none => rfl
  | some u =>
    have hT := drop_of_parseAmz hparse
    have hdigits : ∀ b ∈ itoa y.natAbs ++ pad 2 mo ++ pad 2 d, (digit b).isSome := by
      intro b hb
      simp only [mem_append] at hb
      rcases hb with (hb | hb) | hb
      · exact digit_itoa _ b hb
      · exact digit_pad _ _ b hb
      · exact digit_pad _ _ b hb
    have hlen' : 8 < (itoa y.natAbs ++ pad 2 mo ++ pad 2 d).length := by
      simp only [length_append, length_pad]
      omega
    rw [← append_assoc, ← append_assoc, drop_append_of_le_length hlen'.le,
      head?_append_of_ne_nil _ (fun h => absurd (drop_eq_nil_iff.1 h) hlen'.not_ge),
      head?_drop] at hT
    have hmem := mem_of_getElem? hT
    exact absurd (hdigits _ hmem) (by decide)

theorem printYear_ne_nil (y : ℤ) : printYear y ≠ [] := by
  intro h
  obtain ⟨-, h⟩ := append_eq_nil_iff.1 h
  split_ifs at h with hshort
  · cases (length_pad 4 _).symm.trans (congrArg length h)
  have hlen := length_itoa hshort
  rw [h] at hlen
  cases hlen

theorem printable_of_mem_printYear {y : ℤ} {b : UInt8} (h : b ∈ printYear y) : 0x20 < b ∧ b < 0x80 := by
  have hdigit : (digit b).isSome → 0x20 < b ∧ b < 0x80 := by
    intro hb
    unfold digit at hb
    split_ifs at hb with hbounds
    · exact ⟨lt_of_lt_of_le (by decide) hbounds.1, lt_of_le_of_lt hbounds.2 (by decide)⟩
    · cases hb
  rcases mem_append.1 h with h | h
  · split_ifs at h
    · rw [mem_singleton.1 h]
      decide
    · cases h
  · split_ifs at h
    · exact hdigit (digit_pad _ _ b h)
    · exact hdigit (digit_itoa _ b h)

theorem trimSpace_formatRFC3339 (t : Time) : Strings.trimSpace (formatRFC3339 t) = formatRFC3339 t := by
  obtain ⟨y, mo, d, hdate⟩ : ∃ y mo d, ofDays (t.unix / 86400) = (y, mo, d) := ⟨_, _, _, rfl⟩
  obtain ⟨b, rest, hyear⟩ := exists_cons_of_ne_nil (printYear_ne_nil y)
  obtain ⟨hb, hb'⟩ := printable_of_mem_printYear (y := y) (b := b) (hyear ▸ mem_cons_self)
  simp only [formatRFC3339, hdate, hyear, cons_append]
  exact Strings.trimSpace_eq_self hb hb' (by decide) (by decide)
    cons_append.symm

end S000.Date
