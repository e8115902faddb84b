import S000.Blob.Store
import S000.Foundations.Time
import S000.Store.Effects

/-!
# Blob/Directories — the file system from close up

The file system under the blob store, seen more closely than in `Store/Machine`: a temporary file has the
bytes that were written to it, and an upload has a directory with the time of its last change.  A call is
answered as from further away, on what the file really holds, or nothing happens (`toWorld_store`).
-/

namespace S000.Blob

open Function AList

/-! ## The machine -/

/-- The stores, what the temporary files hold, the directories of uploads with the times of their last
change, and the time. -/
structure DirWorld extends World where
  contents : ℕ → Bytes := fun _ => []
  dirs : AList fun _ : Bytes => Time := ∅
  clock : Time := 0

/-- How a call fails, and how much time has passed before it. -/
structure Beat where
  fault : Fault := .ok
  elapsed : ℕ := 0

instance : Inhabited Beat := ⟨{}⟩

/-- The calls of writes and clean-ups. -/
inductive DirCall
  /-- A call that handlers make, too. -/
  | store (o : Call)
  /-- A sync of the directory of an upload. -/
  | syncUpload (uploadID : Bytes)
  | readTemps
  | readUploads
  | stat (uploadID : Bytes)
  | now

def DirCall.Val : DirCall → Type
  | store o => o.Val
  | syncUpload _ => Bool
  | readTemps => Option (List ℕ)
  | readUploads => Option (List Bytes)
  | stat _ => Option Time
  | now => Time

abbrev dirCalls : Interface := ⟨DirCall, DirCall.Val⟩

abbrev DirAct := Prog dirCalls

def dirCall (o : DirCall) : DirAct o.Val := .op (I := dirCalls) o

/-- What the stores answer to a call of the handlers: the file that a rename moves holds what was written
to it, and a part file needs the directory of its upload. -/
def DirWorld.reply (w : DirWorld) (f : Fault) : (o : Call) → o.Val × World
  | .rename id _ path => step w.toWorld f (.rename id (w.contents id) path)
  | .renamePart id _ uploadID n =>
    if uploadID ∈ w.dirs then step w.toWorld f (.renamePart id (w.contents id) uploadID n)
    else (false, w.toWorld)
  | o => step w.toWorld f o

/-- What the temporary files hold after it. -/
def DirWorld.contentsAfter (w : DirWorld) (f : Fault) : Call → ℕ → Bytes
  | .createTemp => if f = .ok then update w.contents w.disk.nextTemp [] else w.contents
  | .writeTemp id data =>
    if f = .ok then update w.contents id (w.contents id ++ data) else w.contents
  | _ => w.contents

/-- The directories, after a change of the one of an upload. -/
def DirWorld.touched (w : DirWorld) (uploadID : Bytes) : AList fun _ : Bytes => Time :=
  if uploadID ∈ w.dirs then w.dirs.insert uploadID w.clock else w.dirs

def DirWorld.dirsAfter (w : DirWorld) (f : Fault) : Call → AList fun _ : Bytes => Time
  | .mkdirUpload uploadID =>
    if f = .ok ∧ uploadID ∉ w.dirs then w.dirs.insert uploadID w.clock else w.dirs
  | .renamePart id _ uploadID _ =>
    if f = .ok ∧ id ∈ w.disk.temps then w.touched uploadID else w.dirs
  | .promote uploadID _ _ => w.touched uploadID
  | .removeUpload uploadID => if f = .ok then w.dirs.erase uploadID else w.touched uploadID
  | _ => w.dirs

/-- A call of the handlers. -/
def DirWorld.store (w : DirWorld) (f : Fault) (o : Call) : o.Val × DirWorld :=
  let r := w.reply f o
  (r.1, { w with toWorld := r.2, contents := w.contentsAfter f o, dirs := w.dirsAfter f o })

/-- One call, once the time has passed. -/
def DirWorld.answer (w : DirWorld) (f : Fault) : (o : DirCall) → o.Val × DirWorld
  | .store o => w.store f o
  | .syncUpload uploadID => (decide (f = .ok ∧ uploadID ∈ w.dirs), w)
  | .readTemps => (if f = .ok then some w.disk.temps else none, w)
  | .readUploads => (if f = .ok then some (w.dirs.keys.insertionSort (· ≤ ·)) else none, w)
  | .stat uploadID => (if f = .ok then w.dirs.lookup uploadID else none, w)
  | .now => (w.clock, w)

/-- **The file system**, as a machine. -/
def directories : Machine dirCalls Beat DirWorld where
  step w b o := { w with clock := w.clock + b.elapsed }.answer b.fault o

/-! ## What a call can do -/

/-- What a call writes to a temporary file. -/
def DirCall.data (id : ℕ) : DirCall → Bytes
  | store (.writeTemp id' data) => if id' = id then data else []
  | _ => []

/-- The calls that move a temporary file to its place. -/
def DirCall.Moves (id : ℕ) : DirCall → Prop
  | store (.rename id' ..) | store (.renamePart id' ..) => id' = id
  | _ => False

/-- What a call can do to the temporary files. -/
inductive TempChange (d : Disk) : DirCall → Disk → Prop
  | same {o : DirCall} {d' : Disk} (ht : d'.temps = d.temps) (hn : d'.nextTemp = d.nextTemp) :
      TempChange d o d'
  | create {d' : Disk} (ht : d'.temps = d.nextTemp :: d.temps) (hn : d'.nextTemp = d.nextTemp + 1) :
      TempChange d (.store .createTemp) d'
  | drop {o : DirCall} {id : ℕ} {d' : Disk} (ho : o = .store (.removeTemp id) ∨ o.Moves id)
      (ht : d'.temps = d.temps.erase id) (hn : d'.nextTemp = d.nextTemp) : TempChange d o d'

variable {o : DirCall}

theorem tempChange_changing {w : World} {f : Fault} {there : Bool} {d : Disk}
    (h : TempChange w.disk o d) : TempChange w.disk o (changing w f there d).2.disk := by
  unfold changing
  split_ifs
  · exact h
  · exact .same rfl rfl

theorem tempChange_step (w : World) (f : Fault) (o : Call) :
    TempChange w.disk (.store o) (step w f o).2.disk := by
  have hwriting {α : Type} (r : Except Metadata.Error α × Metadata.MemoryState) :
      TempChange w.disk (.store o) (writing w f r).2.disk := by
    rcases writing_cases w f r with h | h <;> rw [h] <;> exact .same rfl rfl
  cases o with
  | createBucket | updateBucketVersioning | deleteBucket | updateObjectMetadata | deleteObjectVersion
  | createMultipartUpload | deleteMultipartUpload | upsertMultipartPart => exact hwriting _
  | putObjectVersion v =>
    rw [step]
    rcases putting_cases w v f with h | h | h <;> rw [h] <;> exact .same rfl rfl
  | deleteAllObjectVersions bucket key =>
    rw [step]
    rcases deletingAll_cases w bucket key f with h | h <;> rw [h] <;> exact .same rfl rfl
  | createTemp =>
    rw [step]
    split_ifs
    · exact .create rfl rfl
    · exact .same rfl rfl
  | removeTemp id => exact tempChange_changing (.drop (.inl rfl) rfl rfl)
  | rename id | renamePart id => exact tempChange_changing (.drop (.inr rfl) rfl rfl)
  | remove | promote => exact tempChange_changing (.same rfl rfl)
  | removeUpload u => cases f <;> exact .same rfl rfl
  | _ => exact .same rfl rfl

variable {w : DirWorld} {uploadID u : Bytes}

theorem DirWorld.mem_touched : u ∈ w.touched uploadID ↔ u ∈ w.dirs := by
  unfold touched
  split_ifs with h
  · rw [mem_insert]
    exact ⟨fun hu => hu.elim (fun heq => heq ▸ h) fun hu => hu, .inr⟩
  · exact .rfl

theorem DirWorld.lookup_touched_of_ne (h : uploadID ≠ u) :
    (w.touched uploadID).lookup u = w.dirs.lookup u := by
  unfold touched
  split_ifs
  · exact lookup_insert_ne h.symm
  · rfl

/-- The calls that change the directory of an upload, or make or remove it. -/
def DirCall.Touches (uploadID : Bytes) : DirCall → Prop
  | store (.mkdirUpload u) | store (.renamePart _ _ u _) | store (.promote u _ _)
  | store (.removeUpload u) => u = uploadID
  | _ => False

/-- The call that the stores see: what is moved is what was written. -/
def DirWorld.actual (w : DirWorld) : Call → Call
  | .rename id _ path => .rename id (w.contents id) path
  | .renamePart id _ uploadID n => .renamePart id (w.contents id) uploadID n
  | o => o

/-- **From further away**: the stores answer a call as they always do, or nothing happens to them. -/
theorem DirWorld.toWorld_store (w : DirWorld) (f : Fault) (o : Call) :
    (w.store f o).2.toWorld = w.toWorld ∨
      (w.store f o).2.toWorld = (step w.toWorld f (w.actual o)).2 := by
  cases o with
  | renamePart id content uploadID n =>
    by_cases hdir : uploadID ∈ w.dirs
    · exact .inr (congrArg Prod.snd (if_pos hdir))
    · exact .inl (congrArg Prod.snd (if_neg hdir))
  | _ => exact .inr rfl

/-- **The temporary files after a call.** -/
theorem tempChange_directories (w : DirWorld) (b : Beat) (o : DirCall) :
    TempChange w.disk o (directories.step w b o).2.disk := by
  have hstore (w : DirWorld) (o : Call) : TempChange w.disk (.store o) (w.store b.fault o).2.disk := by
    rcases w.toWorld_store b.fault o with h | h
    · rw [h]
      exact .same rfl rfl
    rw [h]
    have hchange := tempChange_step w.toWorld b.fault (w.actual o)
    cases o with
    | rename | renamePart =>
      cases hchange with
      | same ht hn => exact .same ht hn
      | drop ho ht hn => exact .drop (.inr (ho.resolve_left nofun)) ht hn
    | _ => exact hchange
  cases o with
  | store o => exact hstore { w with clock := w.clock + b.elapsed } o
  | _ => exact .same rfl rfl

variable {b : Beat}

/-- **What a temporary file holds after a call**: what it held, and what is written to it. -/
theorem contents_directories {id : ℕ} (h : o = .store .createTemp → id ≠ w.disk.nextTemp) :
    (directories.step w b o).2.contents id =
      w.contents id ++ if b.fault = .ok then o.data id else [] := by
  have hsame {o : DirCall} (hdata : o.data id = []) :
      w.contents id = w.contents id ++ if b.fault = .ok then o.data id else [] := by
    rw [hdata, ite_self, List.append_nil]
  cases o with
  | store o =>
    change w.contentsAfter b.fault o id = _
    cases o with
    | createTemp =>
      refine trans ?_ (hsame rfl)
      rw [DirWorld.contentsAfter]
      split_ifs
      · exact update_of_ne (h rfl) _ _
      · rfl
    | writeTemp id' data =>
      rw [DirWorld.contentsAfter, DirCall.data]
      split_ifs with hok hid
      · subst hid
        exact update_self ..
      · exact (update_of_ne (symm hid) _ _).trans (List.append_nil _).symm
      · exact (List.append_nil _).symm
    | _ => exact hsame rfl
  | _ => exact hsame rfl

/-- **The directories after a call.** -/
theorem lookup_directories (h : ¬ o.Touches u) :
    (directories.step w b o).2.dirs.lookup u = w.dirs.lookup u := by
  have hstore (w : DirWorld) {o : Call} (h : ¬ DirCall.Touches u (.store o)) :
      (w.dirsAfter b.fault o).lookup u = w.dirs.lookup u := by
    cases o with
    | mkdirUpload u' =>
      rw [DirWorld.dirsAfter]
      split_ifs
      · exact lookup_insert_ne (Ne.symm h)
      · rfl
    | renamePart id content u' n =>
      rw [DirWorld.dirsAfter]
      split_ifs
      · exact DirWorld.lookup_touched_of_ne h
      · rfl
    | promote => exact DirWorld.lookup_touched_of_ne h
    | removeUpload u' =>
      rw [DirWorld.dirsAfter]
      split_ifs
      · exact lookup_erase_ne (symm h)
      · exact DirWorld.lookup_touched_of_ne h
    | _ => rfl
  cases o with
  | store o => exact hstore { w with clock := w.clock + b.elapsed } h
  | _ => rfl

theorem DirWorld.mem_dirsAfter {f : Fault} {o : Call} (hu : u ∈ w.dirs) (ho : o ≠ .removeUpload u) :
    u ∈ w.dirsAfter f o := by
  cases o with
  | mkdirUpload u' =>
    rw [dirsAfter]
    split_ifs
    · exact (mem_insert _).2 (.inr hu)
    · exact hu
  | renamePart id content u' n =>
    rw [dirsAfter]
    split_ifs
    · exact mem_touched.2 hu
    · exact hu
  | promote => exact mem_touched.2 hu
  | removeUpload u' =>
    rw [dirsAfter]
    split_ifs
    · exact mem_erase.2 ⟨fun h => ho (by rw [h]), hu⟩
    · exact mem_touched.2 hu
  | _ => exact hu

theorem eq_removeUpload_of_lost (hu : u ∈ w.dirs) (hlost : u ∉ (directories.step w b o).2.dirs) :
    o = .store (.removeUpload u) := by
  cases o with
  | store o =>
    by_contra ho
    exact hlost (DirWorld.mem_dirsAfter hu
      fun h => ho (by rw [h]))
  | _ => exact absurd hu hlost

theorem clock_directories (w : DirWorld) (b : Beat) (o : DirCall) :
    (directories.step w b o).2.clock = w.clock + b.elapsed := by
  cases o <;> rfl

theorem clock_le_directories (w : DirWorld) (b : Beat) (o : DirCall) :
    w.clock ≤ (directories.step w b o).2.clock := by
  rw [clock_directories]
  exact le_add_of_nonneg_right (Int.natCast_nonneg _)

theorem TempChange.nextTemp_le {d d' : Disk} (h : TempChange d o d') : d.nextTemp ≤ d'.nextTemp := by
  cases h with
  | same _ hn | drop _ _ hn => exact hn.ge
  | create _ hn => exact hn ▸ Nat.le_succ _

/-- **A temporary file that is created** is new and empty. -/
theorem eq_of_created {w' : DirWorld} {id : ℕ}
    (h : directories.step w b (.store .createTemp) = ((some id), w')) :
    id = w.disk.nextTemp ∧ id < w'.disk.nextTemp ∧ id ∈ w'.disk.temps ∧ w'.contents id = [] := by
  have hval : (step w.toWorld b.fault .createTemp).1 = some id := congrArg Prod.fst h
  have hdisk : w'.disk = (step w.toWorld b.fault .createTemp).2.disk :=
    congrArg (fun r => r.2.disk) h.symm
  have hcontents : w'.contents = w.contentsAfter b.fault .createTemp :=
    congrArg (fun r => r.2.contents) h.symm
  rw [step] at hval hdisk
  rw [DirWorld.contentsAfter] at hcontents
  split_ifs at hval hdisk hcontents
  cases hval
  rw [hdisk, hcontents]
  exact ⟨rfl, Nat.lt_succ_self _, List.mem_cons_self, update_self ..⟩

theorem mem_dirs_of_mkdirUpload (u : Bytes) (hok : b.fault = .ok) :
    u ∈ (directories.step w b (.store (.mkdirUpload u))).2.dirs := by
  change u ∈ DirWorld.dirsAfter _ b.fault (.mkdirUpload u)
  rw [DirWorld.dirsAfter]
  by_cases hu : u ∈ w.dirs
  · rw [if_neg fun h => h.2 hu]
    exact hu
  · rw [if_pos ⟨hok, hu⟩]
    exact (mem_insert _).2 (.inl rfl)

end S000.Blob
