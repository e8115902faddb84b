import S000.Foundations.Strings

/-!
# Foundations/Platform — what the program takes from its libraries

Hash functions, the block cipher, the case mapping of non-ASCII text and HTTP dates are not part of
the program; they are the fields of a `Platform`, so that a result may assume of them what it needs
(an injective hash, a block cipher that is any function) and an example may put in the real ones.
-/

namespace S000

open Strings

/-- A point in time, in nanoseconds since the Unix epoch. -/
abbrev Time := ℤ

/-- `t.Unix()`. -/
def Time.unix (t : Time) : ℤ := t / 1000000000

/-- The functions of the Go library the program calls as black boxes. -/
structure Platform where
  sha256 : Bytes → Bytes
  sha1 : Bytes → Bytes
  md5 : Bytes → Bytes
  /-- The big-endian `crc32.ChecksumIEEE`. -/
  crc32 : Bytes → Bytes
  /-- The big-endian checksum over the Castagnoli polynomial. -/
  crc32c : Bytes → Bytes
  /-- One block of AES under a key. -/
  aes : Bytes → Bytes → Bytes
  /-- `strings.ToLower` on strings that are not ASCII. -/
  lowerUnicode : Bytes → Bytes
  /-- `strings.ToUpper` on strings that are not ASCII. -/
  upperUnicode : Bytes → Bytes
  /-- `http.ParseTime`. -/
  parseHTTPTime : Bytes → Option Time
  /-- `t.UTC().Format(http.TimeFormat)`. -/
  formatHTTPTime : Time → Bytes

namespace Platform

variable (P : Platform)

/-- `strings.ToLower`. -/
def toLower (s : Bytes) : Bytes :=
  if isAscii s then s.map lowerByte else P.lowerUnicode s

/-- `strings.ToUpper`. -/
def toUpper (s : Bytes) : Bytes :=
  if isAscii s then s.map upperByte else P.upperUnicode s

/-- The block HMAC is keyed with: the key, hashed when it is longer than a block, and padded. -/
def hmacBlock (key : Bytes) : Bytes :=
  let k := if key.length > 64 then P.sha256 key else key
  k ++ List.replicate (64 - k.length) 0

def hmacSHA256 (key data : Bytes) : Bytes :=
  let block := P.hmacBlock key
  P.sha256 (block.map (· ^^^ 0x5C) ++ P.sha256 (block.map (· ^^^ 0x36) ++ data))

end Platform

end S000
