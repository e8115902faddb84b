import S000.Foundations.Prog
import S000.Http.Request
import S000.Metadata.Memory

/-!
# Store/Machine — the two stores a handler calls

A handler calls the metadata store and the file system under the blob store, one call at a time; the
two together are the `World`, and `stores` is the machine that answers.  Each call may fail: the
environment chooses a `Fault` for it.

* `refused` — the call fails and nothing has happened.
* `unsaved` — the memory-backed store has changed its state, and then could not save it.
* `broken n` — the call fails half way: a read after `n` bytes, the put of a `null` row after the old
  row was deleted, a deletion of all rows after they were read, a removal of staged parts after some.

Directories are not part of the world: creating one can fail, and that is all.  A temporary file is
private to the request that writes it, so a call names it by its number and its content.
-/

namespace S000

open Function
open Metadata (Bucket ObjectVersion MultipartUpload MultipartPart MemoryState StrMap)

/-! ## The world -/

structure Disk where
  /-- Object files, by path. -/
  files : Bytes → Option Bytes := fun _ => none
  /-- The temporary files there are. -/
  temps : List ℕ := []
  /-- The number of the next temporary file. -/
  nextTemp : ℕ := 0
  /-- The part files of multipart uploads, by upload and number. -/
  staged : Bytes → ℤ → Option Bytes := fun _ _ => none

/-- What a request can change. -/
structure World where
  metadata : MemoryState := {}
  disk : Disk := {}

/-- How a call goes wrong. -/
inductive Fault
  | ok | refused | unsaved | broken (n : ℕ)
deriving DecidableEq

instance : Inhabited Fault := ⟨.ok⟩

/-- A sequence of bytes as a reader delivers it, and whether it ends with an error. -/
structure Stream where
  bytes : Bytes
  fails : Bool := false
deriving DecidableEq

/-- Two readers in a row. -/
def Stream.append (s t : Stream) : Stream :=
  if s.fails then s else ⟨s.bytes ++ t.bytes, t.fails⟩

/-- An open file, and the position at which reading it breaks down, if it does. -/
structure File where
  bytes : Bytes
  breakAt : Option ℕ := none
deriving DecidableEq

/-- Reading `n` bytes from a position on, or as many as there are. -/
def File.section (f : File) (start n : ℕ) : Stream :=
  match f.breakAt with
  | none => ⟨(f.bytes.drop start).take n, false⟩
  | some m => ⟨((f.bytes.take m).drop start).take n, m < min (start + n) f.bytes.length⟩

def File.stream (f : File) : Stream := f.section 0 f.bytes.length

/-! ## Calls -/

inductive Call
  -- the metadata store
  | getBucket (name : Bytes)
  | createBucket (b : Bucket)
  | updateBucketVersioning (bucket status : Bytes)
  | deleteBucket (bucket : Bytes)
  | listObjects (bucket : Bytes)
  | putObjectVersion (v : ObjectVersion)
  | getLatestObjectVersion (bucket key : Bytes)
  | getObjectVersion (bucket key versionID : Bytes)
  | updateObjectMetadata (bucket key versionID : Bytes) (metadata : StrMap)
  | deleteObjectVersion (bucket key versionID : Bytes)
  | deleteAllObjectVersions (bucket key : Bytes)
  | createMultipartUpload (u : MultipartUpload)
  | deleteMultipartUpload (uploadID : Bytes)
  | upsertMultipartPart (p : MultipartPart)
  | getMultipartUpload (uploadID : Bytes)
  | listMultipartUploads (bucket pre : Bytes)
  -- the file system
  | createTemp
  | writeTemp (id : ℕ) (data : Bytes)
  | syncTemp (id : ℕ)
  | closeTemp (id : ℕ)
  | removeTemp (id : ℕ)
  | mkdirAll (path : Bytes)
  /-- A temporary file becomes an object file. -/
  | rename (id : ℕ) (content path : Bytes)
  | syncDir (path : Bytes)
  | openFile (path : Bytes)
  | remove (path : Bytes)
  | mkdirUpload (uploadID : Bytes)
  /-- A temporary file becomes a part file. -/
  | renamePart (id : ℕ) (content uploadID : Bytes) (partNumber : ℤ)
  | openPart (uploadID : Bytes) (partNumber : ℤ)
  /-- A part file becomes an object file. -/
  | promote (uploadID : Bytes) (partNumber : ℤ) (path : Bytes)
  | removeUpload (uploadID : Bytes)
  -- the process
  | acquire
  | audit (e : AuditEvent)

/-- What a call returns; a call of the file system that returns nothing says whether it succeeded. -/
def Call.Val : Call → Type
  | getBucket _ => Except Metadata.Error Bucket
  | listObjects _ => Except Metadata.Error (List ObjectVersion)
  | getLatestObjectVersion .. | getObjectVersion .. | deleteObjectVersion .. =>
    Except Metadata.Error ObjectVersion
  | deleteAllObjectVersions .. => List ObjectVersion × Option Metadata.Error
  | getMultipartUpload _ => Except Metadata.Error (MultipartUpload × List MultipartPart)
  | listMultipartUploads .. => Except Metadata.Error (List MultipartUpload)
  | createBucket _ | updateBucketVersioning .. | deleteBucket _ | putObjectVersion _
  | updateObjectMetadata .. | createMultipartUpload _ | deleteMultipartUpload _
  | upsertMultipartPart _ => Except Metadata.Error Unit
  | createTemp => Option ℕ
  | openFile _ | openPart .. => Option File
  | writeTemp .. | syncTemp _ | closeTemp _ | removeTemp _ | mkdirAll _ | rename .. | syncDir _
  | remove _ | mkdirUpload _ | renamePart .. | promote .. | removeUpload _ | acquire => Bool
  | audit _ => Unit

abbrev calls : Interface := ⟨Call, Call.Val⟩

abbrev Act := Prog calls

abbrev CallEvent := Event calls Fault

def ask (o : Call) : Act o.Val := .op (I := calls) o

@[simp] theorem only_ask {A : (o : Call) → o.Val → Prop} {G : Call → Prop} (o : Call)
    {Q : o.Val → Prop} : (ask o).Only A G Q ↔ G o ∧ ∀ v, A o v → Q v := .rfl

/-! ## Answers -/

def reading {α : Type} (f : Fault) (x : Except Metadata.Error α) : Except Metadata.Error α :=
  match f with
  | .ok => x
  | _ => .error .failed

def writing {α : Type} (w : World) (f : Fault) (r : Except Metadata.Error α × MemoryState) :
    Except Metadata.Error α × World :=
  match f with
  | .ok => (r.1, { w with metadata := r.2 })
  | .unsaved => (r.1.bind fun _ => .error .failed, { w with metadata := r.2 })
  | _ => (.error .failed, w)

def putting (w : World) (v : ObjectVersion) : Fault → Except Metadata.Error Unit × World
  | .broken _ => (.error .failed, { w with metadata := w.metadata.dropNullVersion v })
  | f => writing w f (.ok (), w.metadata.putObjectVersion v)

def deletingAll (w : World) (bucket key : Bytes) (f : Fault) :
    (List ObjectVersion × Option Metadata.Error) × World :=
  let r := w.metadata.deleteAllObjectVersions bucket key
  match f, r.1 with
  | .ok, .ok l => ((l, none), { w with metadata := r.2 })
  | .unsaved, .ok _ => (([], some .failed), { w with metadata := r.2 })
  | .broken _, .ok l => ((l, some .failed), w)
  | .refused, .ok _ => (([], some .failed), w)
  | .ok, .error e => (([], some e), w)
  | _, .error _ => (([], some .failed), w)

/-- A change of the file system that needs something to be there. -/
def changing (w : World) (f : Fault) (there : Bool) (d : Disk) : Bool × World :=
  if f = .ok ∧ there then (true, { w with disk := d }) else (false, w)

variable {w w' w'' : World} {f : Fault} {there : Bool}

theorem changing_eq_true {d : Disk} (h : changing w f there d = (true, w')) :
    there = true ∧ w' = { w with disk := d } := by
  unfold changing at h
  split_ifs at h with hok
  · exact ⟨hok.2, (Prod.mk.inj h).2.symm⟩
  · cases (Prod.mk.inj h).1

theorem changing_eq_false {d : Disk} (h : changing w f there d = (false, w')) : w' = w := by
  unfold changing at h
  split_ifs at h
  · cases (Prod.mk.inj h).1
  · exact (Prod.mk.inj h).2.symm

def opening (f : Fault) (content : Option Bytes) : Option File :=
  match f with
  | .ok => content.map fun b => ⟨b, none⟩
  | .broken n => content.map fun b => ⟨b, some n⟩
  | _ => none

def Disk.dropTemp (d : Disk) (id : ℕ) : Disk := { d with temps := d.temps.erase id }

/-- The disk with an object file written or taken away. -/
def Disk.setFile (d : Disk) (path : Bytes) (content : Option Bytes) : Disk :=
  { d with files := update d.files path content }

theorem Disk.files_setFile (d : Disk) (path p : Bytes) (content : Option Bytes) :
    (d.setFile p content).files path = if path = p then content else d.files path :=
  update_apply d.files p content path

/-- The disk with a part file written or taken away. -/
def Disk.setPart (d : Disk) (uploadID : Bytes) (partNumber : ℤ) (content : Option Bytes) : Disk :=
  let parts := update (d.staged uploadID) partNumber content
  { d with staged := update d.staged uploadID parts }

/-- The disk without the part files of an upload that `gone` says. -/
def Disk.dropParts (d : Disk) (uploadID : Bytes) (gone : ℤ → Bool) : Disk :=
  let parts n := if gone n then none else d.staged uploadID n
  { d with staged := update d.staged uploadID parts }

/-- **One call.** -/
def step (w : World) (f : Fault) : (o : Call) → o.Val × World
  | .getBucket name => (reading f (w.metadata.getBucket name), w)
  | .createBucket b => writing w f (w.metadata.createBucket b)
  | .updateBucketVersioning bucket status =>
    writing w f (w.metadata.updateBucketVersioning bucket status)
  | .deleteBucket bucket => writing w f (w.metadata.deleteBucket bucket)
  | .listObjects bucket => (reading f (.ok (w.metadata.listObjects bucket)), w)
  | .putObjectVersion v => putting w v f
  | .getLatestObjectVersion bucket key =>
    (reading f (w.metadata.getLatestObjectVersion bucket key), w)
  | .getObjectVersion bucket key versionID =>
    (reading f (w.metadata.getObjectVersion bucket key versionID), w)
  | .updateObjectMetadata bucket key versionID metadata =>
    writing w f (w.metadata.updateObjectMetadata bucket key versionID metadata)
  | .deleteObjectVersion bucket key versionID =>
    writing w f (w.metadata.deleteObjectVersion bucket key versionID)
  | .deleteAllObjectVersions bucket key => deletingAll w bucket key f
  | .createMultipartUpload u => writing w f (w.metadata.createMultipartUpload u)
  | .deleteMultipartUpload uploadID => writing w f (w.metadata.deleteMultipartUpload uploadID)
  | .upsertMultipartPart p => writing w f (w.metadata.upsertMultipartPart p)
  | .getMultipartUpload uploadID => (reading f (w.metadata.getMultipartUpload uploadID), w)
  | .listMultipartUploads bucket pre => (reading f (w.metadata.listMultipartUploads bucket pre), w)
  | .createTemp =>
    if f = .ok then
      (some w.disk.nextTemp, { w with disk := { w.disk with
        temps := w.disk.nextTemp :: w.disk.temps, nextTemp := w.disk.nextTemp + 1 } })
    else (none, w)
  | .writeTemp .. | .syncTemp _ | .closeTemp _ | .mkdirAll _ | .syncDir _ | .mkdirUpload _
  | .acquire => (decide (f = .ok), w)
  | .removeTemp id => changing w f true (w.disk.dropTemp id)
  | .rename id content path =>
    changing w f (id ∈ w.disk.temps) ((w.disk.dropTemp id).setFile path (some content))
  | .openFile path => (opening f (w.disk.files path), w)
  | .remove path => changing w f true (w.disk.setFile path none)
  | .renamePart id content uploadID n =>
    changing w f (id ∈ w.disk.temps) ((w.disk.dropTemp id).setPart uploadID n (some content))
  | .openPart uploadID n => (opening f (w.disk.staged uploadID n), w)
  | .promote uploadID n path =>
    changing w f (w.disk.staged uploadID n).isSome
      ((w.disk.setPart uploadID n none).setFile path (w.disk.staged uploadID n))
  | .removeUpload uploadID => match f with
    | .ok => (true, { w with disk := w.disk.dropParts uploadID fun _ => true })
    | .broken m => (false, { w with disk := w.disk.dropParts uploadID fun n => n ≤ m })
    | _ => (false, w)
  | .audit _ => ((), w)

/-- **The two stores**, as a machine. -/
def stores : Machine calls Fault World := ⟨step⟩

@[simp] theorem ensures_ask (o : Call) {Q : o.Val → World → Prop} :
    stores.Ensures Q (ask o) w ↔ ∀ f, Q (step w f o).1 (step w f o).2 := .rfl

@[simp] theorem eval_ask (w : World) (o : Call) : stores.eval (ask o) w = step w .ok o := rfl

variable {o : Call}

theorem ensures_ask_of {Q : o.Val → World → Prop}
    (h : ∀ f (v : o.Val) (w' : World), step w f o = (v, w') → Q v w') :
    stores.Ensures Q (ask o) w :=
  fun f => h f _ _ rfl

theorem records_ask_of {x : Run calls Fault World} {Q : o.Val → Run calls Fault World → Prop}
    (h : ∀ f (v : o.Val), (step x.world f o).1 = v → Q v (stores.advance x f o)) :
    stores.recording.Ensures Q (ask o) x :=
  fun f => h f _ rfl

theorem ensuresWhen_ask_of {B : World → Event calls Fault → Prop} {Q : o.Val → World → Prop}
    (h : ∀ f (v : o.Val) (w' : World), step w f o = (v, w') → B w ⟨o, f, v⟩ → Q v w') :
    stores.EnsuresWhen B Q (ask o) w :=
  fun f hB => h f _ _ rfl hB

/-! ## Quiet calls -/

/-- The calls that leave buckets, rows and object files alone, whatever goes wrong. -/
def Call.Quiet : Call → Prop
  | createBucket _ | updateBucketVersioning .. | deleteBucket _
  | putObjectVersion _ | updateObjectMetadata .. | deleteObjectVersion ..
  | deleteAllObjectVersions .. | rename .. | promote .. | remove _ => False
  | _ => True

/-- The parts of a world that a quiet call leaves alone. -/
def World.Same (w w' : World) : Prop :=
  w'.metadata.buckets = w.metadata.buckets ∧ w'.metadata.objects = w.metadata.objects ∧
    w'.disk.files = w.disk.files

theorem World.Same.refl (w : World) : w.Same w := ⟨rfl, rfl, rfl⟩

theorem World.Same.trans (h : w.Same w') (h' : w'.Same w'') : w.Same w'' :=
  ⟨h'.1.trans h.1, h'.2.1.trans h.2.1, h'.2.2.trans h.2.2⟩

theorem World.Same.versions (h : w.Same w') (bucket key : Bytes) :
    w'.metadata.versions bucket key = w.metadata.versions bucket key := by
  rw [MemoryState.versions, h.2.1, ← MemoryState.versions]

theorem same_writing {α : Type} {r : Except Metadata.Error α × MemoryState}
    (hb : r.2.buckets = w.metadata.buckets) (ho : r.2.objects = w.metadata.objects) :
    w.Same (writing w f r).2 := by
  cases f
  · exact ⟨hb, ho, rfl⟩
  · exact .refl w
  · exact ⟨hb, ho, rfl⟩
  · exact .refl w

theorem same_changing {d : Disk} (hd : d.files = w.disk.files) : w.Same (changing w f there d).2 := by
  unfold changing
  split_ifs
  · exact ⟨rfl, rfl, hd⟩
  · exact .refl w

/-- **A quiet call is quiet.** -/
theorem Call.Quiet.same (h : o.Quiet) (w : World) (f : Fault) : w.Same (step w f o).2 := by
  cases o with
  | createBucket | updateBucketVersioning | deleteBucket | putObjectVersion
  | updateObjectMetadata | deleteObjectVersion | deleteAllObjectVersions | rename | promote
  | remove => exact h.elim
  | createMultipartUpload u =>
    refine same_writing ?_ ?_ <;> unfold MemoryState.createMultipartUpload <;> split_ifs <;> rfl
  | deleteMultipartUpload u =>
    refine same_writing ?_ ?_ <;> unfold MemoryState.deleteMultipartUpload <;> split_ifs <;> rfl
  | upsertMultipartPart p =>
    refine same_writing ?_ ?_ <;> unfold MemoryState.upsertMultipartPart <;> split_ifs <;> rfl
  | createTemp =>
    rw [step]
    split_ifs
    · exact ⟨rfl, rfl, rfl⟩
    · exact .refl w
  | removeTemp | renamePart => exact same_changing rfl
  | removeUpload u => cases f <;> exact ⟨rfl, rfl, rfl⟩
  | _ => exact .refl w

/-- The quiet calls that neither record an upload or a part nor stage a part. -/
def Call.Plain : Call → Prop
  | createMultipartUpload _ | upsertMultipartPart _ | renamePart .. => False
  | o => o.Quiet

theorem Call.Plain.quiet (h : o.Plain) : o.Quiet := by cases o <;> first | exact h | exact h.elim

/-! ## Idle calls -/

/-- The calls that change temporary files at most. -/
def Call.Idle : Call → Prop
  | getBucket _ | listObjects _ | getLatestObjectVersion .. | getObjectVersion ..
  | getMultipartUpload _ | listMultipartUploads .. | createTemp | writeTemp .. | syncTemp _
  | closeTemp _ | removeTemp _ | mkdirAll _ | syncDir _ | openFile _ | mkdirUpload _ | openPart ..
  | acquire | audit _ => True
  | _ => False

theorem Call.Idle.plain (h : o.Idle) : o.Plain := by cases o <;> first | exact h.elim | trivial

theorem Call.Idle.quiet (h : o.Idle) : o.Quiet := h.plain.quiet

/-- The parts of a world that an idle call leaves alone. -/
structure World.Kept (w w' : World) : Prop where
  metadata : w'.metadata = w.metadata
  files : w'.disk.files = w.disk.files
  staged : w'.disk.staged = w.disk.staged

theorem World.Kept.refl (w : World) : w.Kept w := ⟨rfl, rfl, rfl⟩

theorem World.Kept.trans (h : w.Kept w') (h' : w'.Kept w'') : w.Kept w'' :=
  ⟨h'.metadata.trans h.metadata, h'.files.trans h.files, h'.staged.trans h.staged⟩

/-- **An idle call is idle.** -/
theorem Call.Idle.kept (h : o.Idle) (w : World) (f : Fault) : w.Kept (step w f o).2 := by
  cases o with
  | createTemp =>
    rw [step]
    split_ifs <;> exact ⟨rfl, rfl, rfl⟩
  | removeTemp id =>
    rw [step]
    unfold changing
    split_ifs <;> exact ⟨rfl, rfl, rfl⟩
  | getBucket | listObjects | getLatestObjectVersion | getObjectVersion | getMultipartUpload
  | listMultipartUploads | writeTemp | syncTemp | closeTemp | mkdirAll | syncDir | openFile
  | mkdirUpload | openPart | acquire | audit => exact .refl w
  | _ => exact h.elim

theorem ensures_ask_idle {Q : o.Val → World → Prop} (ho : o.Idle)
    (h : ∀ (v : o.Val) (w' : World), w.Kept w' → Q v w') : stores.Ensures Q (ask o) w :=
  fun f => h _ _ (ho.kept w f)

/-- **A program of idle calls** leaves the two stores as they were. -/
theorem ensures_idle {α : Type} {p : Act α} {Q : α → Prop} (h : p.Only (fun _ _ => True) Call.Idle Q) :
    stores.Ensures (fun a w' => Q a ∧ w.Kept w') p w :=
  Machine.ensures_of_only (fun w' f _ hw' ho => ⟨trivial, hw'.trans (ho.kept w' f)⟩) h (.refl w)

end S000
