import S000.Foundations.Encoding

/-!
# Foundations/Json — reading JSON

`encoding/json` as the program uses it: a document is split into tokens, and the tokens drive a
machine whose stack holds the arrays and objects still open, so reading is one pass over a list.
Strings are decoded as `json.Unmarshal` decodes them: escapes are resolved, surrogate pairs joined,
and invalid UTF-8 is replaced by `U+FFFD`.
-/

namespace S000

open Strings

/-- A JSON value.  An object keeps its members in order, repeated names included; a number keeps
its text. -/
inductive Json
  | null
  | bool (b : Bool)
  | num (text : Bytes)
  | str (s : Bytes)
  | arr (l : List Json)
  | obj (l : List (Bytes × Json))

/-! ## UTF-8 -/

namespace Utf8

def isCont (b : UInt8) : Bool := 0x80 ≤ b && b ≤ 0xBF

/-- The width of the valid multi-byte sequence a string starts with, `0` when there is none. -/
def multiWidth : Bytes → ℕ
  | a :: b :: t =>
    if 0xC2 ≤ a ∧ a ≤ 0xDF then if isCont b then 2 else 0
    else if 0xE0 ≤ a ∧ a ≤ 0xEF then
      let low : UInt8 := if a = 0xE0 then 0xA0 else 0x80
      let high : UInt8 := if a = 0xED then 0x9F else 0xBF
      if low ≤ b ∧ b ≤ high ∧ t.head?.any isCont then 3 else 0
    else if 0xF0 ≤ a ∧ a ≤ 0xF4 then
      let low : UInt8 := if a = 0xF0 then 0x90 else 0x80
      let high : UInt8 := if a = 0xF4 then 0x8F else 0xBF
      if low ≤ b ∧ b ≤ high ∧ t.head?.any isCont ∧ (t.drop 1).head?.any isCont then 4 else 0
    else 0
  | _ => 0

/-- `utf8.EncodeRune`. -/
def encodeRune (r : ℕ) : Bytes :=
  if r < 0x80 then [.ofNat r]
  else if r < 0x800 then [.ofNat (0xC0 + r / 64), .ofNat (0x80 + r % 64)]
  else if r < 0x10000 then
    [.ofNat (0xE0 + r / 4096), .ofNat (0x80 + r / 64 % 64), .ofNat (0x80 + r % 64)]
  else
    [.ofNat (0xF0 + r / 262144), .ofNat (0x80 + r / 4096 % 64), .ofNat (0x80 + r / 64 % 64),
      .ofNat (0x80 + r % 64)]

end Utf8

namespace Json

/-! ## Tokens -/

/-- What stands between the quotes of a string: bytes as they are, and escaped code units. -/
inductive Item
  | byte (b : UInt8)
  | unit (u : ℕ)

/-- The code unit of a one-letter escape. -/
def simpleEscape (c : UInt8) : Option ℕ :=
  if c = 0x22 ∨ c = 0x5C ∨ c = 0x2F then some c.toNat
  else if c = 0x62 then some 0x08
  else if c = 0x66 then some 0x0C
  else if c = 0x6E then some 0x0A
  else if c = 0x72 then some 0x0D
  else if c = 0x74 then some 0x09
  else none

def hex4 (a b c d : UInt8) : Option ℕ := do
  return (← Hex.value a) * 4096 + (← Hex.value b) * 256 + (← Hex.value c) * 16 + (← Hex.value d)

/-- The contents of a string up to its closing quote, with the number of bytes read. -/
def scanString : Bytes → Option (List Item × ℕ)
  | [] => none
  | 0x22 :: _ => some ([], 1)
  | 0x5C :: 0x75 :: a :: b :: c :: d :: t => do
    let u ← hex4 a b c d
    let (items, n) ← scanString t
    return (.unit u :: items, n + 6)
  | 0x5C :: c :: t => do
    let u ← simpleEscape c
    let (items, n) ← scanString t
    return (.unit u :: items, n + 2)
  | b :: t =>
    if b < 0x20 ∨ b = 0x5C then none
    else do
      let (items, n) ← scanString t
      return (.byte b :: items, n + 1)

/-- The bytes at the front of a list of items. -/
def leadingBytes (items : List Item) : Bytes :=
  (items.map fun | .byte b => some b | .unit _ => none).takeWhile Option.isSome |>.reduceOption

/-- A rune that only a pair of code units can stand for. -/
def isSurrogate (u : ℕ) : Bool := 0xD800 ≤ u && u ≤ 0xDFFF

/-- The decoded string; `copy` bytes of the current sequence are still to be copied. -/
def decodeItems : ℕ → List Item → Bytes
  | _, [] => []
  | copy + 1, .byte b :: t => b :: decodeItems copy t
  | 0, .byte b :: t =>
    if b < 0x80 then b :: decodeItems 0 t
    else match Utf8.multiWidth (leadingBytes (.byte b :: t)) with
      | 0 => Utf8.encodeRune 0xFFFD ++ decodeItems 0 t
      | w + 1 => b :: decodeItems w t
  | _, .unit u :: .unit v :: t =>
    if 0xD800 ≤ u ∧ u ≤ 0xDBFF ∧ 0xDC00 ≤ v ∧ v ≤ 0xDFFF then
      Utf8.encodeRune ((u - 0xD800) * 1024 + (v - 0xDC00) + 0x10000) ++ decodeItems 0 t
    else Utf8.encodeRune (if isSurrogate u then 0xFFFD else u) ++ decodeItems 0 (.unit v :: t)
  | _, .unit u :: t => Utf8.encodeRune (if isSurrogate u then 0xFFFD else u) ++ decodeItems 0 t

inductive Token
  | openArr | closeArr | openObj | closeObj | comma | colon
  | scalar (v : Json)

def digits (s : Bytes) : Bytes := s.takeWhile fun b => 0x30 ≤ b && b ≤ 0x39

/-- The number of bytes of the exponent at the front of a string. -/
def exponentLen (s : Bytes) : Option ℕ :=
  match s with
  | e :: t =>
    if e = 0x65 ∨ e = 0x45 then
      let sign := if t.head? = some 0x2B ∨ t.head? = some 0x2D then 1 else 0
      let ds := digits (t.drop sign)
      if ds = [] then none else some (1 + sign + ds.length)
    else some 0
  | [] => some 0

/-- The number of bytes of the fraction at the front of a string. -/
def fractionLen (s : Bytes) : Option ℕ :=
  if s.head? = some 0x2E then
    let ds := digits (s.drop 1)
    if ds = [] then none else some (1 + ds.length)
  else some 0

/-- The number of bytes of the number at the front of a string. -/
def numberLen (s : Bytes) : Option ℕ := do
  let sign := if s.head? = some 0x2D then 1 else 0
  let ds := digits (s.drop sign)
  let int ← if ds = [] then none else if ds.head? = some 0x30 then some 1 else some ds.length
  let frac ← fractionLen (s.drop (sign + int))
  let exp ← exponentLen (s.drop (sign + int + frac))
  return sign + int + frac + exp

/-- The token at the front of a string, with the number of its bytes. -/
def nextToken (s : Bytes) : Option (Token × ℕ) :=
  match s with
  | [] => none
  | b :: t =>
    if b = 0x5B then some (.openArr, 1)
    else if b = 0x5D then some (.closeArr, 1)
    else if b = 0x7B then some (.openObj, 1)
    else if b = 0x7D then some (.closeObj, 1)
    else if b = 0x2C then some (.comma, 1)
    else if b = 0x3A then some (.colon, 1)
    else if b = 0x22 then
      (scanString t).map fun (items, n) => (.scalar (.str (decodeItems 0 items)), n + 1)
    else if hasPrefix s (S000.str "null") then some (.scalar .null, 4)
    else if hasPrefix s (S000.str "true") then some (.scalar (.bool true), 4)
    else if hasPrefix s (S000.str "false") then some (.scalar (.bool false), 5)
    else (numberLen s).map fun n => (.scalar (.num (s.take n)), n)

/-- The tokens of a document; `skip` bytes of the current one are left. -/
def tokens : ℕ → Bytes → Option (List Token)
  | _, [] => some []
  | skip + 1, _ :: t => tokens skip t
  | 0, b :: t =>
    if b = 0x20 ∨ b = 0x09 ∨ b = 0x0A ∨ b = 0x0D then tokens 0 t
    else do
      let (tok, n) ← nextToken (b :: t)
      return tok :: (← tokens (n - 1) t)

/-! ## Values -/

/-- An array or an object that is still open. -/
inductive Frame
  | arr (elems : List Json)
  /-- An object, with the name of the member being read. -/
  | obj (members : List (Bytes × Json)) (name : Bytes)

/-- What the machine expects next. -/
inductive Mode
  | value
  /-- A value, or the end of the array just opened. -/
  | firstElem
  /-- A member name; `orClose` says that the object may end. -/
  | name (orClose : Bool)
  | colon
  /-- A comma, or the end of the array or object. -/
  | after
  | ended (v : Json)

/-- A value is complete: it goes into the innermost open array or object. -/
def finish (v : Json) : List Frame → Mode × List Frame
  | [] => (.ended v, [])
  | .arr elems :: st => (.after, .arr (elems ++ [v]) :: st)
  | .obj members name :: st => (.after, .obj (members ++ [(name, v)]) [] :: st)

/-- Open an array or object, down to the depth the decoder allows. -/
def push (f : Frame) (m : Mode) (st : List Frame) : Option (Mode × List Frame) :=
  if st.length < 10000 then some (m, f :: st) else none

def step (s : Mode × List Frame) (t : Token) : Option (Mode × List Frame) :=
  match s.1, s.2, t with
  | .value, st, .scalar v => some (finish v st)
  | .value, st, .openArr => push (.arr []) .firstElem st
  | .value, st, .openObj => push (.obj [] []) (.name true) st
  | .firstElem, .arr elems :: st, .closeArr => some (finish (.arr elems) st)
  | .firstElem, st, .scalar v => some (finish v st)
  | .firstElem, st, .openArr => push (.arr []) .firstElem st
  | .firstElem, st, .openObj => push (.obj [] []) (.name true) st
  | .name true, .obj members _ :: st, .closeObj => some (finish (.obj members) st)
  | .name _, .obj members _ :: st, .scalar (.str k) => some (.colon, .obj members k :: st)
  | .colon, st, .colon => some (.value, st)
  | .after, .arr elems :: st, .closeArr => some (finish (.arr elems) st)
  | .after, .arr elems :: st, .comma => some (.value, .arr elems :: st)
  | .after, .obj members _ :: st, .closeObj => some (finish (.obj members) st)
  | .after, .obj members k :: st, .comma => some (.name false, .obj members k :: st)
  | _, _, _ => none

/-- The value of a document, when the document is valid JSON. -/
def parse (doc : Bytes) : Option Json :=
  match (tokens 0 doc).bind fun ts => ts.foldlM step (.value, []) with
  | some (.ended v, _) => some v
  | _ => none

/-! ## Decoding into Go values

`json.Unmarshal` leaves a string or a number as it is when the value is `null`, and fails when the
value is of another kind.  A decoder is given what the variable holds so far. -/

def toStr (old : Bytes) : Json → Option Bytes
  | .null => some old
  | .str s => some s
  | _ => none

/-- The text of an integer in the range of `int64`. -/
def intOfText (s : Bytes) : Option ℤ :=
  let neg := s.head? = some 0x2D
  let ds := if neg then s.drop 1 else s
  if ds = [] ∨ digits ds ≠ ds then none
  else
    let n : ℤ := ds.foldl (fun n b => n * 10 + (b.toNat - 0x30)) 0
    let n := if neg then -n else n
    if -2 ^ 63 ≤ n ∧ n < 2 ^ 63 then some n else none

/-- Decode into an `int64`. -/
def toInt64 (old : ℤ) : Json → Option ℤ
  | .null => some old
  | .num text => intOfText text
  | _ => none

/-- Decode a field of a struct: the members of its name, without regard to case, go into the field
one after another. -/
def field {β : Type} (decode : β → Json → Option β) (zero : β) (name : String)
    (members : List (Bytes × Json)) : Option β :=
  members.foldlM (fun old m =>
    if equalFold m.1 (S000.str name) then decode old m.2 else some old) zero

end Json

end S000
