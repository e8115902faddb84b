import S000.Server.FailedWrites
import S000.Server.Versioning
import S000.Server.DeleteBucket
import S000.Server.MultiDelete
import S000.Metadata.Equivalence
import S000.Server.Pages
import S000.Metadata.Integrity
import S000.Metadata.Transactions
import S000.Lifecycle.Races
import S000.Blob.Cleanup
import S000.Auth.Anonymous
import S000.Metadata.NullPuts
import S000.Server.UILocks
import S000.Server.SseRaces
import S000.Server.Halves
import S000.Server.Heavy
import S000.Auth.Credentials
import S000.Auth.Tokens
import S000.Metadata.Restart
import S000.Server.Identity
import S000.Server.AuditTrail
import S000.Server.Addressing
import S000.Server.Website
import S000.Server.Copies
import S000.Auth.CanonicalQuery
import S000.Auth.HeaderFrame
import S000.Server.ChunkedBodies
import S000.Server.Cors
