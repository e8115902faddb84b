import S000.Foundations.Guards
import S000.Foundations.Json
import S000.Foundations.Platform

/-!
# Auth/Pat — personal access tokens

A token is `s000pat.<payload>.<signature>`: the payload is a JSON object in unpadded URL-safe
base64, the signature an HMAC over the payload as it is written.
-/

namespace S000.Pat

open Strings Json

/-- Why a token is refused. -/
inductive Error
  | invalid
  | expired
  | missingSigningKey
deriving DecidableEq

/-- `personalAccessTokenClaims`. -/
structure Claims where
  tokenID : Bytes := []
  subject : Bytes := []
  expiresAt : ℤ := 0
  issuedAt : ℤ := 0
deriving DecidableEq

/-- `json.Unmarshal` into the claims. -/
def Claims.unmarshal (payload : Bytes) : Option Claims :=
  match parse payload with
  | some .null => some {}
  | some (.obj members) => do
    return {
      tokenID := ← field toStr [] "jti" members
      subject := ← field toStr [] "sub" members
      expiresAt := ← field toInt64 0 "exp" members
      issuedAt := ← field toInt64 0 "iat" members }
  | _ => none

/-- `splitPersonalAccessToken`: the payload and the signature, as they are written. -/
def splitPersonalAccessToken (token : Bytes) : Option (Bytes × Bytes) :=
  match split token 0x2E with
  | [start, payload, sig] =>
    if start = str "s000pat" ∧ payload ≠ [] ∧ sig ≠ [] then some (payload, sig) else none
  | _ => none

variable (P : Platform)

/-- `signPersonalAccessTokenPayload`. -/
def signPersonalAccessTokenPayload (payload key : Bytes) : Bytes :=
  Base64.rawURLEncode (P.hmacSHA256 key payload)

/-- `VerifyPersonalAccessToken`: the subject of a token that is signed and has not expired. -/
def verifyPersonalAccessToken (token key : Bytes) (now : Time) : Except Error Bytes := do
  failIf (key = []) .missingSigningKey
  let (payload, sig) ← orThrow (splitPersonalAccessToken token) .invalid
  failIf (sig ≠ signPersonalAccessTokenPayload P payload key) .invalid
  let decoded ← orThrow (Base64.rawURLDecode payload) .invalid
  let claims ← orThrow (Claims.unmarshal decoded) .invalid
  failIf (trimSpace claims.subject = [] ∨ trimSpace claims.tokenID = [] ∨ claims.expiresAt ≤ 0)
    .invalid
  failIf (now.unix ≥ claims.expiresAt) .expired
  return trimSpace claims.subject

/-- `PersonalAccessTokenSubject`: the subject a token names, signed or not; empty when it names
none. -/
def personalAccessTokenSubject (token : Bytes) : Bytes :=
  ((do
    let (payload, _) ← splitPersonalAccessToken token
    let decoded ← Base64.rawURLDecode payload
    let claims ← Claims.unmarshal decoded
    return trimSpace claims.subject)).getD []

/-- An issued token, of which the verifier reads the fingerprint and whether it was revoked. -/
structure Issued where
  id : Bytes
  tokenHash : Bytes
  revoked : Bool

/-- `PersonalAccessTokenManager`, at the time it is asked. -/
structure Manager where
  signingKey : Bytes
  now : Time
  issued : List Issued

/-- `tokenFingerprint`. -/
def tokenFingerprint (token : Bytes) : Bytes := Hex.encode (P.sha256 token)

/-- `(*PersonalAccessTokenManager).Verify`: the record with the token's fingerprint decides whether
a valid token was revoked. -/
def Manager.verify (m : Manager) (token : Bytes) : Except Error Bytes := do
  let subject ← verifyPersonalAccessToken P token m.signingKey m.now
  let record := m.issued.find? fun rec => rec.tokenHash = tokenFingerprint P token
  failIf (record.any (·.revoked)) .invalid
  return subject

end S000.Pat
