import S000.Foundations.Encoding
import Mathlib.Data.List.AList

/-!
# Http/Request — the requests the handlers see

`http.Header` is a map from canonical names to lists of values, here an association list without
repeated names.  `Header.get` and `Header.values` canonicalise the name they are given, as the Go
methods do: a name that is a token gets its letters in canonical case, any other is taken as is.
-/

namespace S000

open Strings Url

/-- `textproto.CanonicalMIMEHeaderKey`; `upper` says that the next letter starts a word. -/
def canonicalLetters (upper : Bool) : Bytes → Bytes
  | [] => []
  | b :: t => (if upper then upperByte b else lowerByte b) :: canonicalLetters (b = 0x2D) t

@[inherit_doc canonicalLetters]
def canonicalMIMEHeaderKey (name : Bytes) : Bytes :=
  if name.all isTokenByte then canonicalLetters true name else name

/-- `http.Header`. -/
abbrev Header := AList fun _ : Bytes => List Bytes

namespace Header

/-- `http.Header.Values`. -/
def values (h : Header) (name : Bytes) : List Bytes :=
  (h.lookup (canonicalMIMEHeaderKey name)).getD []

/-- `http.Header.Get`: the first value, or the empty string. -/
def get (h : Header) (name : Bytes) : Bytes := (h.values name).headD []

def ofList (l : List (Bytes × Bytes)) : Header :=
  l.foldl (fun h p =>
    let name := canonicalMIMEHeaderKey p.1
    h.insert name ((h.lookup name).getD [] ++ [p.2])) ∅

end Header

/-- The part of an `http.Request` the program reads, its body apart. -/
structure Request where
  method : Bytes
  /-- The `Host` header, or the host of an absolute request target. -/
  host : Bytes := []
  /-- The request target as it was sent. -/
  requestURI : Bytes := []
  remoteAddr : Bytes := []
  url : URL
  header : Header := ∅
  /-- The principal the context carries; empty when it carries none. -/
  principal : Bytes := []
  /-- The request id the context carries. -/
  requestID : Bytes := []

namespace Request

/-- `r.URL.Query()`. -/
def query (r : Request) : Values := r.url.query

/-- `http.MethodGet` and `http.MethodHead`. -/
def isRead (r : Request) : Bool := r.method = str "GET" || r.method = str "HEAD"

end Request

/-- `AuditEvent`: what the audit log says about a request, the time apart. -/
structure AuditEvent where
  action : String
  outcome : String
  requestID : Bytes := []
  principal : Bytes := []
  bucket : Bytes := []
  key : Bytes := []
  reason : String := ""
deriving DecidableEq

end S000
