import S000.Foundations.Platform
import Mathlib.Data.List.AList

/-!
# Metadata/Model — the records of the metadata store

The records of `internal/metadata/model.go` the modelled handlers read or write.  A map from
strings to strings is an association list without repeated keys; a nil map and an empty one answer
every lookup alike.
-/

namespace S000.Metadata

inductive Error
  | notFound
  | conflict
  /-- Any other failure of the backend. -/
  | failed
deriving DecidableEq

/-- `map[string]string`. -/
abbrev StrMap := AList fun _ : Bytes => Bytes

/-- `m[k]`: the empty string when the key is absent. -/
def StrMap.at (m : StrMap) (k : Bytes) : Bytes := (m.lookup k).getD []

@[simp] theorem StrMap.at_insert_self (m : StrMap) (k v : Bytes) : StrMap.at (m.insert k v) k = v := by
  simp [StrMap.at]

theorem StrMap.at_insert_of_ne {m : StrMap} {k k' v : Bytes} (h : k' ≠ k) :
    StrMap.at (m.insert k v) k' = m.at k' := by
  simp [StrMap.at, AList.lookup_insert_ne h]

theorem StrMap.at_erase_of_ne {m : StrMap} {k k' : Bytes} (h : k' ≠ k) :
    StrMap.at (m.erase k) k' = m.at k' := by
  simp [StrMap.at, AList.lookup_erase_ne h]

/-- `Bucket`. -/
structure Bucket where
  name : Bytes
  region : Bytes
  versioningStatus : Bytes
  createdAt : Time
deriving DecidableEq

/-- `ObjectVersion`. -/
structure ObjectVersion where
  bucket : Bytes
  key : Bytes
  versionID : Bytes
  size : ℕ := 0
  eTag : Bytes := []
  checksumSHA256 : Bytes := []
  checksumSHA1 : Bytes := []
  checksumCRC32 : Bytes := []
  checksumCRC32C : Bytes := []
  storagePath : Bytes := []
  metadata : StrMap := ∅
  deleteMarker : Bool := false
  createdAt : Time
deriving DecidableEq

/-- `MultipartUpload`. -/
structure MultipartUpload where
  uploadID : Bytes
  bucket : Bytes
  key : Bytes
  sseAlgorithm : Bytes
  initiatedAt : Time
deriving DecidableEq

/-- `MultipartPart`. -/
structure MultipartPart where
  uploadID : Bytes
  partNumber : ℤ
  eTag : Bytes
  size : ℕ
  checksumSHA256 : Bytes
  checksumSHA1 : Bytes
  checksumCRC32 : Bytes
  checksumCRC32C : Bytes
  storagePath : Bytes
  createdAt : Time
deriving DecidableEq

/-- `CredentialRecord`. -/
structure CredentialRecord where
  accessKeyID : Bytes
  secretHash : Bytes
  status : Bytes
  createdAt : Time
  rotatedAt : Time
deriving DecidableEq

/-- `ObjectTagging`. -/
structure ObjectTagging where
  bucket : Bytes
  key : Bytes
  versionID : Bytes
  document : Bytes
deriving DecidableEq

/-! ## Bucket configurations -/

/-- `BucketWebsiteRoutingRule`, with its condition and its redirect. -/
structure BucketWebsiteRoutingRule where
  keyPrefixEquals : Bytes
  httpErrorCodeReturnedEquals : Bytes
  hostName : Bytes
  protocol : Bytes
  replaceKeyPrefixWith : Bytes
  replaceKeyWith : Bytes
  httpRedirectCode : Bytes
deriving DecidableEq

/-- `BucketWebsiteConfig`. -/
structure BucketWebsiteConfig where
  bucket : Bytes
  indexDocument : Bytes := []
  errorDocument : Bytes := []
  redirectAllHost : Bytes := []
  redirectAllProtocol : Bytes := []
  routingRules : List BucketWebsiteRoutingRule := []
  enabled : Bool
  publicRead : Bool
deriving DecidableEq

/-- `BucketCORSConfig`. -/
structure BucketCORSConfig where
  bucket : Bytes
  allowedOrigins : Bytes
  allowedMethods : Bytes
  allowedHeaders : Bytes
  exposeHeaders : Bytes
  maxAgeSeconds : ℤ
  enabled : Bool
deriving DecidableEq

/-- `BucketPolicy`. -/
structure BucketPolicy where
  bucket : Bytes
  document : Bytes
  enabled : Bool
deriving DecidableEq

/-- `BucketPublicAccessBlock`. -/
structure BucketPublicAccessBlock where
  bucket : Bytes
  blockPublicACLs : Bool := false
  ignorePublicACLs : Bool := false
  blockPublicPolicy : Bool
  restrictPublicBuckets : Bool
deriving DecidableEq

/-- `BucketLifecycle`, `BucketNotification` and `BucketReplication`: an XML document of a bucket. -/
structure BucketDocument where
  bucket : Bytes
  document : Bytes
  enabled : Bool
deriving DecidableEq

inductive ConfigKind
  | website | cors | policy | publicAccessBlock | lifecycle | notification | replication
deriving DecidableEq

def ConfigKind.Record : ConfigKind → Type
  | website => BucketWebsiteConfig
  | cors => BucketCORSConfig
  | policy => BucketPolicy
  | publicAccessBlock => BucketPublicAccessBlock
  | lifecycle | notification | replication => BucketDocument

/-- `cfg.Bucket`. -/
def ConfigKind.bucket : (kind : ConfigKind) → kind.Record → Bytes
  | website => BucketWebsiteConfig.bucket
  | cors => BucketCORSConfig.bucket
  | policy => BucketPolicy.bucket
  | publicAccessBlock => BucketPublicAccessBlock.bucket
  | lifecycle | notification | replication => BucketDocument.bucket

end S000.Metadata
