import S000.Blob.Store
import S000.Lifecycle.Rules
import S000.Store.Effects

/-!
# Lifecycle/Worker — the worker that expires objects

`internal/lifecycle/worker.go`: `RunOnce` first collects candidates, bucket by bucket, from the age of
the current version of each key, and then deletes all versions of each candidate's key, the rows before
the files.

The worker shares the two stores with the handlers; beside their calls it lists the buckets, reads
lifecycle documents and the clock, and may be cancelled.  What happens around a call is a `Moment`: how
it fails, how much time has passed before it, and whether the context is done.
-/

namespace S000.Lifecycle

open Metadata (Bucket ObjectVersion BucketDocument MemoryState)

/-! ## The world of the worker -/

/-- The two stores, the lifecycle documents and the time. -/
structure WorkerWorld extends World where
  lifecycles : AList fun _ : Bytes => BucketDocument := ∅
  clock : Time := 0

/-- What happens around a call. -/
structure Moment where
  fault : Fault := .ok
  elapsed : ℕ := 0
  cancelled : Bool := false

instance : Inhabited Moment := ⟨{}⟩

inductive WorkerCall
  | listBuckets
  | getBucketLifecycle (bucket : Bytes)
  | now
  | ctxErr
  | sleep (backoff : ℤ)
  /-- A call that handlers make, too. -/
  | store (o : Call)

/-- What a call returns: `ctxErr` whether the context is done, `sleep` whether it was not. -/
def WorkerCall.Val : WorkerCall → Type
  | listBuckets => Except Metadata.Error (List Bucket)
  | getBucketLifecycle _ => Except Metadata.Error BucketDocument
  | now => Time
  | ctxErr | sleep _ => Bool
  | store o => o.Val

abbrev workerCalls : Interface := ⟨WorkerCall, WorkerCall.Val⟩

abbrev WorkerAct := Prog workerCalls

def call (o : WorkerCall) : WorkerAct o.Val := .op (I := workerCalls) o

/-- `w.now()`. -/
def now : WorkerAct Time := call .now

/-- `ctx.Err() != nil`. -/
def ctxErr : WorkerAct Bool := call .ctxErr

/-- `w.sleep`. -/
def sleep (backoff : ℤ) : WorkerAct Bool := call (.sleep backoff)

/-- A program over the two stores, as one of the worker. -/
def onStores {α : Type} (p : Act α) : WorkerAct α := p.translate fun o => call (.store o)

/-- `GetBucketLifecycle`. -/
def WorkerWorld.getBucketLifecycle (w : WorkerWorld) (bucket : Bytes) : Except Metadata.Error BucketDocument :=
  match w.lifecycles.lookup bucket with
  | none => .error .notFound
  | some cfg => .ok cfg

/-- One call, once the time has passed. -/
def WorkerWorld.answer (w : WorkerWorld) (m : Moment) : (o : WorkerCall) → o.Val × WorkerWorld
  | .listBuckets => (reading m.fault (.ok (w.metadata.buckets.entries.map Sigma.snd)), w)
  | .getBucketLifecycle bucket => (reading m.fault (w.getBucketLifecycle bucket), w)
  | .now => (w.clock, w)
  | .ctxErr => (m.cancelled, w)
  | .sleep _ => (!m.cancelled, w)
  | .store o =>
    let r := step w.toWorld m.fault o
    (r.1, { w with toWorld := r.2 })

/-- **The stores and the surroundings of the worker**, as a machine. -/
def surroundings : Machine workerCalls Moment WorkerWorld where
  step w m o := { w with clock := w.clock + m.elapsed }.answer m o

/-! ## The worker -/

/-- `Worker`, as `NewWorker` makes it: no rule without a positive age, and no empty batches. -/
structure Worker where
  platform : Platform
  blob : Blob.Store
  rules : List Rule := []
  rules_pos : ∀ rule ∈ rules, 0 < rule.expireAfter := by decide
  batchSize : ℕ := 100
  batchSize_pos : 0 < batchSize := by decide
  maxRetries : ℕ := 3
  retryBackoff : ℤ := 0
  dryRun : Bool := false
  decode : Decoder := fun _ => none

/-- `Report`. -/
structure Report where
  scanned : ℕ := 0
  eligible : ℕ := 0
  deleted : ℕ := 0
  failed : ℕ := 0
  dryRun : Bool
  duration : ℤ := 0

/-- Why `RunOnce` or the deletion of a candidate failed. -/
inductive WorkerError
  | metadata (e : Metadata.Error)
  | blob
  | cancelled

namespace Worker

variable (w : Worker)

def path (v : ObjectVersion) : Bytes :=
  Blob.objectPath w.platform w.blob ⟨v.bucket, v.key, v.versionID⟩

/-! ### The scan -/

/-- The rules for a bucket with a lifecycle document or without; none where the document cannot be
read. -/
def rulesFor (cfg : Option BucketDocument) : Option (List Rule) :=
  match cfg with
  | none => some w.rules
  | some cfg =>
    if cfg.enabled then (parseLifecycleXMLRules w.decode cfg.document).map (w.rules ++ ·)
    else some w.rules

/-- The rules for a bucket, as a run finds them. -/
def bucketRules (bucket : Bytes) : WorkerAct (Option (List Rule)) := do
  match ← call (.getBucketLifecycle bucket) with
  | .ok cfg => return w.rulesFor (some cfg)
  | .error .notFound => return w.rulesFor none
  | .error _ => return none

def expires (rules : List Rule) (now : Time) (obj : ObjectVersion) : Bool :=
  let age := now.sub obj.createdAt
  !(age < 0) && matchesAnyRule rules obj.key age

def scanBucket (now : Time) (bucket : Bucket) (report : Report) :
    WorkerAct (Report × List ObjectVersion) := do
  match ← w.bucketRules bucket.name with
  | none => return ({ report with failed := report.failed + 1 }, [])
  | some rules =>
    if rules = [] then return (report, [])
    else match ← call (.store (.listObjects bucket.name)) with
      | .error _ => return ({ report with failed := report.failed + 1 }, [])
      | .ok objects =>
        let found := objects.filter (expires rules now)
        return ({ report with
          scanned := report.scanned + objects.length
          eligible := report.eligible + found.length }, found)

def scan (now : Time) : List Bucket → Report → WorkerAct (Report × List ObjectVersion)
  | [], report => return (report, [])
  | bucket :: buckets, report => do
    let (report, found) ← w.scanBucket now bucket report
    let (report, rest) ← scan now buckets report
    return (report, found ++ rest)

/-! ### The deletions -/

/-- The loop of `deleteOne`. -/
def deleteFiles : List ObjectVersion → WorkerAct Bool
  | [] => return true
  | v :: vs => do
    if ← onStores (Blob.deleteObject w.platform w.blob ⟨v.bucket, v.key, v.versionID⟩) then
      deleteFiles vs
    else return false

/-- `deleteOne`. -/
def deleteOne (candidate : ObjectVersion) : WorkerAct (Except WorkerError Bool) := do
  match ← call (.store (.deleteAllObjectVersions candidate.bucket candidate.key)) with
  | (_, some .notFound) => return .ok false
  | (_, some e) => return .error (.metadata e)
  | (versions, none) =>
    if ← w.deleteFiles versions then return .ok (versions.length > 0)
    else return .error .blob

/-- The answer of an attempt that did not fail: one that finds nothing after a failure has not made up
for it. -/
def settle (lastErr : Option WorkerError) (deleted : Bool) : Except WorkerError Bool :=
  match lastErr, deleted with
  | some e, false => .error e
  | _, _ => .ok deleted

/-- The loop of `deleteWithRetry`, with the number of attempts that are left after this one. -/
def attempt (candidate : ObjectVersion) :
    ℕ → Option WorkerError → WorkerAct (Except WorkerError Bool)
  | 0, lastErr => do
    match ← w.deleteOne candidate with
    | .ok deleted => return settle lastErr deleted
    | .error e => return .error e
  | left + 1, lastErr => do
    match ← w.deleteOne candidate with
    | .ok deleted => return settle lastErr deleted
    | .error e =>
      if w.retryBackoff ≤ 0 then attempt candidate left (some e)
      else if ← sleep (wrap (w.retryBackoff * wrap (2 ^ (w.maxRetries - (left + 1))))) then
        attempt candidate left (some e)
      else return .error .cancelled

/-- `deleteWithRetry`. -/
def deleteWithRetry (candidate : ObjectVersion) : WorkerAct (Except WorkerError Bool) :=
  w.attempt candidate w.maxRetries none

/-- The inner loop of `RunOnce`, and whether the context is done. -/
def expireBatch : List ObjectVersion → Report → WorkerAct (Report × Bool)
  | [], report => return (report, false)
  | candidate :: candidates, report => do
    if ← ctxErr then return (report, true)
    else if w.dryRun then expireBatch candidates report
    else match ← w.deleteWithRetry candidate with
      | .error _ => expireBatch candidates { report with failed := report.failed + 1 }
      | .ok true => expireBatch candidates { report with deleted := report.deleted + 1 }
      | .ok false => expireBatch candidates report

def expireBatches : List (List ObjectVersion) → Report → WorkerAct (Report × Bool)
  | [], report => return (report, false)
  | batch :: batches, report => do
    match ← w.expireBatch batch report with
    | (report, true) => return (report, true)
    | (report, false) => expireBatches batches report

/-- `candidates[start:end]` for the batches of a size, from the first on. -/
def batches {α : Type} (size : ℕ) : ℕ → List α → List (List α)
  | 0, _ => []
  | fuel + 1, l => if l = [] then [] else l.take size :: batches size fuel (l.drop size)

/-- `RunOnce`. -/
def runOnce : WorkerAct (Report × Option WorkerError) := do
  let started ← now
  match ← call .listBuckets with
  | .error e => return ({ dryRun := w.dryRun }, some (.metadata e))
  | .ok buckets =>
    let scanned ← now
    let (report, candidates) ← w.scan scanned buckets { dryRun := w.dryRun }
    let (report, cancelled) ←
      w.expireBatches (batches w.batchSize candidates.length candidates) report
    let finished ← now
    return ({ report with duration := finished.sub started },
      if cancelled then some .cancelled else none)

end Worker

end S000.Lifecycle
