import S000.Foundations.Encoding
import S000.Foundations.Platform

/-!
# Foundations/Time — dates as text

The two layouts the program parses with `time.Parse` and prints with `Format`: the one of
`X-Amz-Date` and RFC 3339.  As in the Go package an hour may have one digit, and a fraction of a
second is read after the seconds although neither layout has one.
-/

namespace S000

namespace Date

/-! ## The calendar -/

/-- The number of days from the Unix epoch to a date of the proleptic Gregorian calendar, counted
from the first of March so that a leap day ends its year. -/
def toDays (year : ℤ) (month day : ℕ) : ℤ :=
  let y := if month ≤ 2 then year - 1 else year
  let era := y / 400
  let yearOfEra := y - era * 400
  let dayOfYear : ℤ := (153 * ((month + 9) % 12) + 2) / 5 + day - 1
  era * 146097 + (yearOfEra * 365 + yearOfEra / 4 - yearOfEra / 100 + dayOfYear) - 719468

/-- The date of a day, as year, month and day. -/
def ofDays (days : ℤ) : ℤ × ℕ × ℕ :=
  let z := days + 719468
  let era := z / 146097
  let doe := z - era * 146097
  let yearOfEra := (doe - doe / 1460 + doe / 36524 - doe / 146096) / 365
  let doy := doe - (365 * yearOfEra + yearOfEra / 4 - yearOfEra / 100)
  let mp := (5 * doy + 2) / 153
  let day := doy - (153 * mp + 2) / 5 + 1
  let month := if mp < 10 then mp + 3 else mp - 9
  (yearOfEra + era * 400 + (if month ≤ 2 then 1 else 0), month.toNat, day.toNat)

def isLeap (year : ℕ) : Bool := year % 4 = 0 && (year % 100 ≠ 0 || year % 400 = 0)

def daysIn (month year : ℕ) : ℕ :=
  if month = 2 then if isLeap year then 29 else 28
  else if month = 4 ∨ month = 6 ∨ month = 9 ∨ month = 11 then 30
  else 31

/-- `time.Date` in UTC. -/
def toTime (year month day hour minute second nanos : ℕ) : Time :=
  (toDays year month day * 86400 + hour * 3600 + minute * 60 + second) * 1000000000 + nanos

/-! ## Reading -/

def digit (b : UInt8) : Option ℕ := if 0x30 ≤ b ∧ b ≤ 0x39 then some (b.toNat - 0x30) else none

def lit (c : UInt8) : Bytes → Option Bytes
  | [] => none
  | b :: t => if b = c then some t else none

/-- A number of two digits; a number of one where the layout does not ask for two. -/
def getnum (two : Bool) : Bytes → Option (ℕ × Bytes)
  | [] => none
  | a :: t => do
    let x ← digit a
    match t with
    | [] => if two then none else some (x, [])
    | b :: t' => match digit b with
      | some y => some (x * 10 + y, t')
      | none => if two then none else some (x, b :: t')

def bounded (lo hi : ℕ) (x : ℕ × Bytes) : Option (ℕ × Bytes) :=
  if lo ≤ x.1 ∧ x.1 ≤ hi then some x else none

def year : Bytes → Option (ℕ × Bytes)
  | a :: b :: c :: d :: t => do
    return ((← digit a) * 1000 + (← digit b) * 100 + (← digit c) * 10 + (← digit d), t)
  | _ => none

/-- The fraction after the seconds, in nanoseconds; digits after the ninth are passed over. -/
def fraction (s : Bytes) : ℕ × Bytes :=
  match s with
  | p :: t =>
    let ds := t.takeWhile fun b => 0x30 ≤ b && b ≤ 0x39
    if (p = 0x2E ∨ p = 0x2C) ∧ ds ≠ [] then
      let nine := (ds.take 9).filterMap digit
      (nine.foldl (fun n d => n * 10 + d) 0 * 10 ^ (9 - nine.length), t.drop ds.length)
    else (0, s)
  | [] => (0, [])

/-- `time.Parse("20060102T150405Z", s)`. -/
def parseAmz (s : Bytes) : Option Time := do
  let (y, s) ← year s
  let (mo, s) ← (getnum true s).bind (bounded 1 12)
  let (d, s) ← (getnum true s).bind (bounded 1 (daysIn mo y))
  let s ← lit 0x54 s
  let (h, s) ← (getnum false s).bind (bounded 0 23)
  let (mi, s) ← (getnum true s).bind (bounded 0 59)
  let (sec, s) ← (getnum true s).bind (bounded 0 59)
  let (nanos, s) := fraction s
  let s ← lit 0x5A s
  if s = [] then some (toTime y mo d h mi sec nanos) else none

/-- The offset of a time zone, in seconds: `Z`, or a sign and hours and minutes. -/
def zone : Bytes → Option ℤ
  | [0x5A] => some 0
  | sign :: s => do
    let (h, s) ← (getnum true s).bind (bounded 0 24)
    let s ← lit 0x3A s
    let (m, s) ← (getnum true s).bind (bounded 0 60)
    let offset : ℤ := (h * 60 + m) * 60
    if s ≠ [] then none
    else if sign = 0x2B then some offset
    else if sign = 0x2D then some (-offset)
    else none
  | [] => none

/-- `time.Parse(time.RFC3339, s)`. -/
def parseRFC3339 (s : Bytes) : Option Time := do
  let (y, s) ← year s
  let s ← lit 0x2D s
  let (mo, s) ← (getnum true s).bind (bounded 1 12)
  let s ← lit 0x2D s
  let (d, s) ← (getnum true s).bind (bounded 1 (daysIn mo y))
  let s ← lit 0x54 s
  let (h, s) ← (getnum false s).bind (bounded 0 23)
  let s ← lit 0x3A s
  let (mi, s) ← (getnum true s).bind (bounded 0 59)
  let s ← lit 0x3A s
  let (sec, s) ← (getnum true s).bind (bounded 0 59)
  let (nanos, s) := fraction s
  let offset ← zone s
  some (toTime y mo d h mi sec nanos - offset * 1000000000)

/-! ## Printing -/

/-- The last `width` decimal digits of a number. -/
def pad : ℕ → ℕ → Bytes
  | 0, _ => []
  | w + 1, n => pad w (n / 10) ++ [.ofNat (0x30 + n % 10)]

/-- A year of at least four digits, with a sign when it is negative. -/
def printYear (y : ℤ) : Bytes :=
  (if y < 0 then [0x2D] else []) ++
    if y.natAbs < 10000 then pad 4 y.natAbs else Strconv.itoa y.natAbs

/-- `t.UTC().Format("20060102T150405Z")`. -/
def formatAmz (t : Time) : Bytes :=
  let (y, mo, d) := ofDays (t.unix / 86400)
  let sec := (t.unix % 86400).toNat
  printYear y ++ pad 2 mo ++ pad 2 d ++ str "T" ++ pad 2 (sec / 3600) ++ pad 2 (sec / 60 % 60) ++
    pad 2 (sec % 60) ++ str "Z"

/-- `t.UTC().Format("20060102")`. -/
def formatDay (t : Time) : Bytes :=
  let (y, mo, d) := ofDays (t.unix / 86400)
  printYear y ++ pad 2 mo ++ pad 2 d

/-- `t.UTC().Format(time.RFC3339)`. -/
def formatRFC3339 (t : Time) : Bytes :=
  let (y, mo, d) := ofDays (t.unix / 86400)
  let sec := (t.unix % 86400).toNat
  printYear y ++ str "-" ++ pad 2 mo ++ str "-" ++ pad 2 d ++ str "T" ++ pad 2 (sec / 3600) ++
    str ":" ++ pad 2 (sec / 60 % 60) ++ str ":" ++ pad 2 (sec % 60) ++ str "Z"

example : parseRFC3339 (str "2024-02-29T23:59:59.5-01:30") = some 1709256599500000000 := by decide

end Date

/-! ## Durations -/

/-- A duration is an `int64` of nanoseconds. -/
def minDuration : ℤ := -2 ^ 63

/-- `t.Sub(u)`, which stops at the ends of the range. -/
def Time.sub (t u : Time) : ℤ := max minDuration (min (2 ^ 63 - 1) (t - u))

theorem Time.sub_le_sub {t t' u u' : Time} (ht : t ≤ t') (hu : u' ≤ u) : t.sub u ≤ t'.sub u' := by
  have hdiff : t - u ≤ t' - u' := Int.sub_le_sub ht hu
  exact max_le_max le_rfl (min_le_min le_rfl hdiff)

def negDuration (d : ℤ) : ℤ := if d = minDuration then d else -d

end S000
