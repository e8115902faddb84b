import S000.Foundations.Strings

/-!
# Foundations/Encoding — hex, numbers, base64 and percent-encoding

`encoding/hex`, the numbers of `strconv`, the two base64 alphabets the program uses (`StdEncoding`,
`RawURLEncoding`), and the percent-encodings of `net/url`.  Decoders return `none` where the Go
function returns an error.  The base64 decoders skip carriage returns and newlines, as
`encoding/base64` does.
-/

namespace S000

open List Strings

theorem ofNat_of_eq {n : ℕ} {b : UInt8} (h : n = b.toNat) : .ofNat n = b := by
  rw [h, UInt8.ofNat_toNat]

/-! ## Hexadecimal -/

namespace Hex

def digit (n : ℕ) : UInt8 := if n < 10 then .ofNat (0x30 + n) else .ofNat (0x57 + n)

def upperDigit (n : ℕ) : UInt8 := if n < 10 then .ofNat (0x30 + n) else .ofNat (0x37 + n)

/-- `hex.EncodeToString`. -/
def encode (s : Bytes) : Bytes := s.flatMap fun b => [digit (b.toNat / 16), digit (b.toNat % 16)]

/-- The value of a hexadecimal digit of either case. -/
def value (b : UInt8) : Option ℕ :=
  if 0x30 ≤ b ∧ b ≤ 0x39 then some (b.toNat - 0x30)
  else if 0x61 ≤ b ∧ b ≤ 0x66 then some (b.toNat - 0x57)
  else if 0x41 ≤ b ∧ b ≤ 0x46 then some (b.toNat - 0x37)
  else none

/-- `hex.DecodeString`. -/
def decode : Bytes → Option Bytes
  | [] => some []
  | [_] => none
  | a :: b :: t => do return .ofNat ((← value a) * 16 + (← value b)) :: (← decode t)

theorem digit_injOn : ∀ m < 16, ∀ n < 16, digit m = digit n → m = n := by decide

theorem value_digit : ∀ n < 16, value (digit n) = some n := by decide

theorem encode_cons (b : UInt8) (s : Bytes) :
    encode (b :: s) = digit (b.toNat / 16) :: digit (b.toNat % 16) :: encode s := rfl

/-- **Encoding is one-to-one.** -/
theorem encode_injective : Function.Injective encode
  | [], [], _ => rfl
  | [], _ :: _, h => by cases h
  | _ :: _, [], h => by cases h
  | b :: s, b' :: s', h => by
    obtain ⟨hhigh, h⟩ := cons.inj h
    obtain ⟨hlow, h⟩ := cons.inj h
    have hb := b.toNat_lt
    have hb' := b'.toNat_lt
    have hhigh := digit_injOn _ (by omega) _ (by omega) hhigh
    have hlow := digit_injOn _ (by omega) _ (by omega) hlow
    rw [encode_injective h, UInt8.toNat_inj.1 (by omega : b.toNat = b'.toNat)]

/-- **What was encoded is decoded.** -/
theorem decode_encode : ∀ s, decode (encode s) = some s
  | [] => rfl
  | b :: s => by
    have hb := b.toNat_lt
    have hsplit : .ofNat (b.toNat / 16 * 16 + b.toNat % 16) = b := ofNat_of_eq (by omega)
    rw [encode_cons, decode, value_digit _ (by omega), value_digit _ (by omega), decode_encode s]
    exact congrArg (fun b => some (b :: s)) hsplit

theorem printable_of_mem_encode {s : Bytes} {c : UInt8} (h : c ∈ encode s) : 0x20 < c ∧ c < 0x80 := by
  have hdigit : ∀ n < 16, 0x20 < digit n ∧ digit n < 0x80 := by decide
  obtain ⟨b, -, hb⟩ := mem_flatMap.1 h
  have := b.toNat_lt
  rcases mem_cons.1 hb with rfl | hb
  · exact hdigit _ (by omega)
  · rw [mem_singleton.1 hb]
    exact hdigit _ (by omega)

theorem not_mem_encode {c : UInt8} (hc : ∀ n < 16, digit n ≠ c) (s : Bytes) : c ∉ encode s := by
  intro h
  obtain ⟨b, -, hb⟩ := mem_flatMap.1 h
  have := b.toNat_lt
  rcases mem_cons.1 hb with hb | hb
  · exact hc _ (by omega) hb.symm
  · exact hc _ (by omega) (mem_singleton.1 hb).symm

theorem slash_not_mem_encode (s : Bytes) : 0x2F ∉ encode s := not_mem_encode (by decide) s

theorem quote_not_mem_encode (s : Bytes) : 0x22 ∉ encode s := not_mem_encode (by decide) s

end Hex

/-! ## Numbers -/

namespace Strconv

/-- `strconv.Itoa`. -/
def itoa (n : ℤ) : Bytes :=
  (if n < 0 then [0x2D] else []) ++ (Nat.toDigits 10 n.natAbs).map fun c => .ofNat c.toNat

/-- The value of a sequence of digits in a base of at most sixteen. -/
def digits (base : ℕ) : ℕ → Bytes → Option ℕ
  | n, [] => some n
  | n, b :: t => match Hex.value b with
    | some d => if d < base then digits base (n * base + d) t else none
    | none => none

/-- `strconv.ParseInt(s, base, 64)`, for a base of at most sixteen. -/
def parseInt (base : ℕ) (s : Bytes) : Option ℤ :=
  let negative := s.head? = some 0x2D
  let ds := if negative ∨ s.head? = some 0x2B then s.tail else s
  if ds = [] then none
  else match digits base 0 ds with
    | none => none
    | some n =>
      if negative then if n ≤ 2 ^ 63 then some (-n) else none
      else if n < 2 ^ 63 then some n else none

theorem itoa_natCast (n : ℕ) : itoa n = (Nat.toDigits 10 n).map fun c => .ofNat c.toNat := by
  rw [itoa, if_neg (by omega), nil_append, Int.natAbs_natCast]

variable {n : ℕ}

theorem toNat_digit {c : Char} (h : c ∈ Nat.toDigits 10 n) :
    (UInt8.ofNat c.toNat).toNat = c.toNat ∧ 0x30 ≤ c.toNat ∧ c.toNat ≤ 0x39 := by
  obtain ⟨hlo, hhi⟩ := Char.isDigit_iff_toNat.1 (Nat.isDigit_of_mem_toDigits (by decide) (by decide) h)
  have hzero : '0'.toNat = 0x30 := rfl
  have hnine : '9'.toNat = 0x39 := rfl
  have hsize : UInt8.size = 256 := rfl
  exact ⟨UInt8.toNat_ofNat_of_lt' (by omega), by omega, by omega⟩

theorem mem_itoa {b : UInt8} (h : b ∈ itoa n) : 0x30 ≤ b ∧ b ≤ 0x39 := by
  obtain ⟨c, hc, rfl⟩ := mem_map.1 h
  obtain ⟨hb, hlo, hhi⟩ := toNat_digit hc
  rw [UInt8.le_iff_toNat_le, UInt8.le_iff_toNat_le, hb]
  exact ⟨hlo, hhi⟩

theorem itoa_ne_nil (n : ℕ) : itoa n ≠ [] := by
  rw [itoa_natCast]
  simp

theorem head_itoa (h : 0 < n) : (itoa n).head? ≠ some 0x30 := by
  induction n using Nat.strong_induction_on with
  | _ n ih =>
    rw [itoa_natCast]
    by_cases hlt : n < 10
    · rw [Nat.toDigits_of_lt_base hlt]
      have hdigit : ∀ n < 10, 0 < n → ([n.digitChar].map fun c => UInt8.ofNat c.toNat).head? ≠
          some 0x30 := by decide
      exact hdigit n hlt h
    · rw [Nat.toDigits_of_base_le (by decide) (not_lt.1 hlt), map_append, ← itoa_natCast,
        head?_append_of_ne_nil _ (itoa_ne_nil _)]
      exact ih _ (by omega) (by omega)

theorem itoa_neg (h : 0 < n) : itoa (-n) = 0x2D :: itoa n := by
  rw [itoa, if_pos (by omega), Int.natAbs_neg]
  rfl

/-- **The digits of a printed number give the number back.** -/
theorem foldl_itoa (n : ℕ) : (itoa n).foldl (fun m b => m * 10 + (b.toNat - 0x30 : ℤ)) 0 = n := by
  have hdigits (l : List Char) (hl : ∀ c ∈ l, c ∈ Nat.toDigits 10 n) (m : ℕ) :
      (l.map fun c => UInt8.ofNat c.toNat).foldl (fun m b => m * 10 + (b.toNat - 0x30 : ℤ)) m
        = Nat.ofDigitChars 10 l m := by
    induction l generalizing m with
    | nil => simp
    | cons c l ih =>
      obtain ⟨hb, hlo, hhi⟩ := toNat_digit (hl c (by simp))
      have hzero : '0'.toNat = 0x30 := rfl
      rw [Nat.ofDigitChars_cons, ← ih fun c hc => hl c (by simp [hc]), map_cons, foldl_cons]
      congr 1
      omega
  have h := hdigits (Nat.toDigits 10 n) (fun _ h => h) 0
  rwa [Nat.ofDigitChars_ten_toDigits] at h

example : parseInt 10 (str "9223372036854775808") = none := by decide

end Strconv

/-! ## Base64 -/

namespace Base64

/-- The digits both alphabets share; `62` and `63` are given. -/
def digit (c62 c63 : UInt8) (n : ℕ) : UInt8 :=
  if n < 26 then .ofNat (0x41 + n)
  else if n < 52 then .ofNat (0x61 + (n - 26))
  else if n < 62 then .ofNat (0x30 + (n - 52))
  else if n = 62 then c62 else c63

def value (c62 c63 b : UInt8) : Option ℕ :=
  if 0x41 ≤ b ∧ b ≤ 0x5A then some (b.toNat - 0x41)
  else if 0x61 ≤ b ∧ b ≤ 0x7A then some (b.toNat - 0x61 + 26)
  else if 0x30 ≤ b ∧ b ≤ 0x39 then some (b.toNat - 0x30 + 52)
  else if b = c62 then some 62
  else if b = c63 then some 63
  else none

/-- The three bytes of a group of four digits. -/
def bytesOf (w x y z : ℕ) : Bytes :=
  [.ofNat (w * 4 + x / 16), .ofNat (x % 16 * 16 + y / 4), .ofNat (y % 4 * 64 + z)]

/-- Encode, without padding, over a digit function. -/
def encodeRaw (d : ℕ → UInt8) : Bytes → Bytes
  | [] => []
  | [a] => [d (a.toNat / 4), d (a.toNat % 4 * 16)]
  | [a, b] => [d (a.toNat / 4), d (a.toNat % 4 * 16 + b.toNat / 16), d (b.toNat % 16 * 4)]
  | a :: b :: c :: t =>
    d (a.toNat / 4) :: d (a.toNat % 4 * 16 + b.toNat / 16) ::
      d (b.toNat % 16 * 4 + c.toNat / 64) :: d (c.toNat % 64) :: encodeRaw d t

/-- Decode unpadded digits: a last group of two or three digits gives one or two bytes. -/
def decodeRaw (v : UInt8 → Option ℕ) : Bytes → Option Bytes
  | [] => some []
  | [_] => none
  | [a, b] => do return (bytesOf (← v a) (← v b) 0 0).take 1
  | [a, b, c] => do return (bytesOf (← v a) (← v b) (← v c) 0).take 2
  | a :: b :: c :: d :: t => do
    let group := bytesOf (← v a) (← v b) (← v c) (← v d)
    return group ++ (← decodeRaw v t)

/-- Decode padded digits: only the last group of four may end in padding. -/
def decodePadded (v : UInt8 → Option ℕ) : Bytes → Option Bytes
  | [] => some []
  | [a, b, 0x3D, 0x3D] => do return (bytesOf (← v a) (← v b) 0 0).take 1
  | [a, b, c, 0x3D] => do return (bytesOf (← v a) (← v b) (← v c) 0).take 2
  | a :: b :: c :: d :: t => do
    let group := bytesOf (← v a) (← v b) (← v c) (← v d)
    return group ++ (← decodePadded v t)
  | _ => none

/-- The decoder reads past line breaks. -/
def dropBreaks (s : Bytes) : Bytes := s.filter fun b => b ≠ 0x0D ∧ b ≠ 0x0A

/-- `base64.RawURLEncoding.EncodeToString`. -/
def rawURLEncode (s : Bytes) : Bytes := encodeRaw (digit 0x2D 0x5F) s

/-- `base64.RawURLEncoding.DecodeString`. -/
def rawURLDecode (s : Bytes) : Option Bytes := decodeRaw (value 0x2D 0x5F) (dropBreaks s)

/-- `base64.StdEncoding.DecodeString`. -/
def stdDecode (s : Bytes) : Option Bytes := decodePadded (value 0x2B 0x2F) (dropBreaks s)

/-- `base64.StdEncoding.EncodeToString`. -/
def stdEncode (s : Bytes) : Bytes :=
  let digits := encodeRaw (digit 0x2B 0x2F) s
  digits ++ replicate ((4 - digits.length % 4) % 4) 0x3D

theorem value_digit_url : ∀ n < 64, value 0x2D 0x5F (digit 0x2D 0x5F n) = some n := by decide

theorem digit_url_ne_break : ∀ n < 64, digit 0x2D 0x5F n ≠ 0x0D ∧ digit 0x2D 0x5F n ≠ 0x0A := by decide

theorem mem_encodeRaw {d : ℕ → UInt8} {b : UInt8} : ∀ {s : Bytes}, b ∈ encodeRaw d s → ∃ n < 64, b = d n
  | [], h => by cases h
  | [a], h => by
    have ha := a.toNat_lt
    simp only [encodeRaw, mem_cons, not_mem_nil, or_false] at h
    rcases h with h | h <;> exact ⟨_, by omega, h⟩
  | [a, c], h => by
    have ha := a.toNat_lt
    have hc := c.toNat_lt
    simp only [encodeRaw, mem_cons, not_mem_nil, or_false] at h
    rcases h with h | h | h <;> exact ⟨_, by omega, h⟩
  | a :: c :: e :: t, h => by
    have ha := a.toNat_lt
    have hc := c.toNat_lt
    have he := e.toNat_lt
    simp only [encodeRaw, mem_cons] at h
    rcases h with h | h | h | h | h
    · exact ⟨_, by omega, h⟩
    · exact ⟨_, by omega, h⟩
    · exact ⟨_, by omega, h⟩
    · exact ⟨_, by omega, h⟩
    · exact mem_encodeRaw h

/-- **The digits give the bytes back.** -/
theorem decodeRaw_encodeRaw {d : ℕ → UInt8} {v : UInt8 → Option ℕ} (hv : ∀ n < 64, v (d n) = some n) :
    ∀ s, decodeRaw v (encodeRaw d s) = some s
  | [] => rfl
  | [a] => by
    have ha := a.toNat_lt
    have hbyte : UInt8.ofNat (a.toNat / 4 * 4 + a.toNat % 4 * 16 / 16) = a := ofNat_of_eq (by omega)
    rw [encodeRaw, decodeRaw, hv _ (by omega), hv _ (by omega)]
    exact congrArg (fun b => some [b]) hbyte
  | [a, b] => by
    have ha := a.toNat_lt
    have hb := b.toNat_lt
    have hfirst : UInt8.ofNat (a.toNat / 4 * 4 + (a.toNat % 4 * 16 + b.toNat / 16) / 16) = a :=
      ofNat_of_eq (by omega)
    have hsecond : UInt8.ofNat ((a.toNat % 4 * 16 + b.toNat / 16) % 16 * 16 + b.toNat % 16 * 4 / 4) =
        b := ofNat_of_eq (by omega)
    rw [encodeRaw, decodeRaw, hv _ (by omega), hv _ (by omega), hv _ (by omega)]
    exact congrArg₂ (fun a b => some [a, b]) hfirst hsecond
  | a :: b :: c :: t => by
    have ha := a.toNat_lt
    have hb := b.toNat_lt
    have hc := c.toNat_lt
    have hfirst : UInt8.ofNat (a.toNat / 4 * 4 + (a.toNat % 4 * 16 + b.toNat / 16) / 16) = a :=
      ofNat_of_eq (by omega)
    have hsecond : UInt8.ofNat ((a.toNat % 4 * 16 + b.toNat / 16) % 16 * 16 +
        (b.toNat % 16 * 4 + c.toNat / 64) / 4) = b := ofNat_of_eq (by omega)
    have hthird : UInt8.ofNat ((b.toNat % 16 * 4 + c.toNat / 64) % 4 * 64 + c.toNat % 64) = c :=
      ofNat_of_eq (by omega)
    have hgroup : bytesOf (a.toNat / 4) (a.toNat % 4 * 16 + b.toNat / 16)
        (b.toNat % 16 * 4 + c.toNat / 64) (c.toNat % 64) = [a, b, c] := by
      rw [bytesOf, hfirst, hsecond, hthird]
    rw [encodeRaw, decodeRaw, hv _ (by omega), hv _ (by omega), hv _ (by omega), hv _ (by omega),
      decodeRaw_encodeRaw hv t]
    exact congrArg (fun g => some (g ++ t)) hgroup

/-- **What was encoded is decoded.** -/
theorem rawURLDecode_rawURLEncode (s : Bytes) : rawURLDecode (rawURLEncode s) = some s := by
  have hbreaks : dropBreaks (rawURLEncode s) = rawURLEncode s := by
    refine filter_eq_self.2 fun b hb => ?_
    obtain ⟨n, hn, rfl⟩ := mem_encodeRaw hb
    exact decide_eq_true (digit_url_ne_break n hn)
  rw [rawURLDecode, hbreaks]
  exact decodeRaw_encodeRaw value_digit_url s

end Base64

/-! ## Percent-encoding -/

namespace Url

/-- Percent-decoding; `plus` reads `+` as a space, as in a query component.  A percent sign that
no two hexadecimal digits follow is an error. -/
def unescape (plus : Bool) : Bytes → Option Bytes
  | [] => some []
  | [0x25] => none
  | [0x25, _] => none
  | 0x25 :: a :: b :: t => do
    let x ← Hex.value a
    let y ← Hex.value b
    return .ofNat (x * 16 + y) :: (← unescape plus t)
  | b :: t => do
    return (if plus ∧ b = 0x2B then 0x20 else b) :: (← unescape plus t)

/-- `url.PathUnescape`. -/
def pathUnescape (s : Bytes) : Option Bytes := unescape false s

/-- `url.QueryUnescape`. -/
def queryUnescape (s : Bytes) : Option Bytes := unescape true s

def isAlnum (b : UInt8) : Bool :=
  (0x41 ≤ b && b ≤ 0x5A) || (0x61 ≤ b && b ≤ 0x7A) || (0x30 ≤ b && b ≤ 0x39)

/-- The bytes of a token: a method name or a header name. -/
def isTokenByte (b : UInt8) : Bool := isAlnum b || (str "!#$%&'*+-.^_|~").contains b || b = 0x60

/-- The bytes no encoding escapes: letters, digits and `-`, `_`, `.`, `~`. -/
def isUnreserved (b : UInt8) : Bool :=
  isAlnum b || b = 0x2D || b = 0x5F || b = 0x2E || b = 0x7E

/-- The bytes escaped in a path: all but the unreserved ones and `$&+,/:;=@`. -/
def shouldEscapePath (b : UInt8) : Bool :=
  !(isUnreserved b || (str "$&+,/:;=@").contains b)

/-- A byte written as a percent sign and two upper-case digits. -/
def percent (b : UInt8) : Bytes :=
  [0x25, Hex.upperDigit (b.toNat / 16), Hex.upperDigit (b.toNat % 16)]

/-- `url.escape` in path mode. -/
def escapePath (s : Bytes) : Bytes := s.flatMap fun b => if shouldEscapePath b then percent b else [b]

/-- `url.QueryEscape`. -/
def queryEscape (s : Bytes) : Bytes :=
  s.flatMap fun b => if isUnreserved b then [b] else if b = 0x20 then [0x2B] else percent b

/-- `url.validEncoded` in path mode: the bytes that may stand in a raw path. -/
def validEncodedPath (s : Bytes) : Bool :=
  s.all fun b => (str "!$&'()*+,;=:@[]%").contains b || !shouldEscapePath b

/-- The part of a `url.URL` the program reads. -/
structure URL where
  /-- The decoded path. -/
  path : Bytes
  /-- The path as it was sent, or nothing when the default encoding of `path` was sent. -/
  rawPath : Bytes := []
  /-- The query as it was sent, without the question mark. -/
  rawQuery : Bytes := []
  /-- The host of an absolute request target. -/
  host : Bytes := []
deriving DecidableEq

/-- `(*url.URL).EscapedPath`. -/
def URL.escapedPath (u : URL) : Bytes :=
  if u.rawPath ≠ [] ∧ validEncodedPath u.rawPath ∧ pathUnescape u.rawPath = some u.path then
    u.rawPath
  else if u.path = str "*" then str "*"
  else escapePath u.path

/-- The name/value pairs of a query, in the order they stand. -/
abbrev Values := List (Bytes × Bytes)

/-- One `&`-separated piece of a query.  Empty pieces, pieces with a semicolon and pieces with a
bad escape are dropped. -/
def parseQueryPiece (piece : Bytes) : Option (Bytes × Bytes) :=
  if piece = [] ∨ piece.contains 0x3B then none
  else
    let kv := (cut 0x3D piece).getD (piece, [])
    do return (← queryUnescape kv.1, ← queryUnescape kv.2)

/-- `(*url.URL).Query`. -/
def URL.query (u : URL) : Values := (split u.rawQuery 0x26).filterMap parseQueryPiece

/-- `url.Values.Get`: the first value of the name, or the empty string. -/
def Values.get (q : Values) (name : Bytes) : Bytes :=
  ((q.find? fun p => p.1 = name).map Prod.snd).getD []

/-- Whether the name occurs: `_, ok := q[name]`. -/
def Values.has (q : Values) (name : Bytes) : Bool := q.any fun p => p.1 = name

/-- The elements of `path.Clean` on a rooted path: empty and `.` elements are dropped and `..`
takes away the element before it.  `stack` is what has been kept so far, in reverse. -/
def cleanElements (stack : List Bytes) : List Bytes → List Bytes
  | [] => stack.reverse
  | e :: t =>
    if e = [] ∨ e = str "." then cleanElements stack t
    else if e = str ".." then cleanElements stack.tail t
    else cleanElements (e :: stack) t

/-- `http.cleanPath`: the rooted, cleaned path, a trailing slash being kept. -/
def cleanPath (p : Bytes) : Bytes :=
  if p = [] then str "/"
  else
    let rooted := if hasPrefix p (str "/") then p else 0x2F :: p
    let cleaned := 0x2F :: join (cleanElements [] (split rooted 0x2F)) (str "/")
    if hasSuffix rooted (str "/") ∧ cleaned ≠ str "/" then cleaned ++ str "/" else cleaned

/-- `net.SplitHostPort`, of which the program uses the host. -/
def splitHost (hostport : Bytes) : Option Bytes :=
  match hostport.reverse.idxOf? 0x3A with
  | none => none
  | some k =>
    let i := hostport.length - 1 - k
    if hostport.head? = some 0x5B then
      match hostport.idxOf? 0x5D with
      | none => none
      | some e =>
        if e + 1 = i ∧ (hostport.drop 1).contains 0x5B = false ∧
            (hostport.drop (e + 1)).contains 0x5D = false then
          some ((hostport.take e).drop 1)
        else none
    else
      let host := hostport.take i
      if host.contains 0x3A ∨ hostport.contains 0x5B ∨ hostport.contains 0x5D then none
      else some host

end Url

end S000
