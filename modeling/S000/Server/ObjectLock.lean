import S000.Foundations.Time
import S000.Metadata.Model

/-!
# Server/ObjectLock — retention and legal hold

`internal/server/object_lock.go`: both are entries of a version's metadata map, under names that the
server reserves for itself.
-/

namespace S000

open Strings Metadata

/-- `lockRetentionModeKey`. -/
def lockRetentionModeKey : Bytes := str "__s000_retention_mode"

/-- `lockRetentionRetainUntilKey`. -/
def lockRetentionRetainUntilKey : Bytes := str "__s000_retention_retain_until"

/-- `lockLegalHoldKey`. -/
def lockLegalHoldKey : Bytes := str "__s000_legal_hold"

/-- **A version that is locked**: under a legal hold, or before the end of its retention. -/
def objectLocked (obj : ObjectVersion) (now : Time) : Bool :=
  if equalFold (obj.metadata.at lockLegalHoldKey) (str "ON") then true
  else match Date.parseRFC3339 (trimSpace (obj.metadata.at lockRetentionRetainUntilKey)) with
    | none => false
    | some until_ => now < until_

/-- `putRetentionMetadata`. -/
def putRetentionMetadata (obj : ObjectVersion) (mode : Bytes) (retainUntil : Time) : StrMap :=
  (obj.metadata.insert lockRetentionModeKey mode).insert lockRetentionRetainUntilKey
    (Date.formatRFC3339 retainUntil)

/-- `putLegalHoldMetadata`. -/
def putLegalHoldMetadata (obj : ObjectVersion) (status : Bytes) : StrMap :=
  obj.metadata.insert lockLegalHoldKey status

end S000
