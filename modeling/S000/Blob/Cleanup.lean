import S000.Blob.Directories
import S000.Foundations.Digest

/-!
# Blob/Cleanup — the clean-up, while writes are under way

`RemoveStaleMultipartUploads` runs every five minutes beside the handlers.  It is `Recover`, which was
made for the start: it removes all temporary files there are, and the directories of uploads that have
not changed for long.

As long as the clean-up removes nothing that a write under way has made, every write succeeds and commits
its bytes (`writes_survive_cleanup`).
-/

namespace S000.Blob

open List Prog Machine

/-! ## Clean-ups and writes -/

/-- `RecoveryReport`. -/
structure RecoveryReport where
  removedTempFiles : ℕ := 0
  removedMultipartDir : ℕ := 0

/-- `os.ReadDir(s.tempRoot)`. -/
def readTemps : DirAct (Option (List ℕ)) := dirCall .readTemps

/-- `s.now()`. -/
def now : DirAct Time := dirCall .now

/-- `os.ReadDir(s.multipartRoot)`. -/
def readUploads : DirAct (Option (List Bytes)) := dirCall .readUploads

/-- `os.RemoveAll` of a temporary file. -/
def removeTemp (id : ℕ) : DirAct Bool := dirCall (.store (.removeTemp id))

/-- `entry.Info().ModTime()`. -/
def statDir (uploadID : Bytes) : DirAct (Option Time) := dirCall (.stat uploadID)

/-- `os.RemoveAll` of the directory of an upload. -/
def removeUploadDir (uploadID : Bytes) : DirAct Bool := dirCall (.store (.removeUpload uploadID))

/-- The first loop of `Recover`. -/
def removeTemps : List ℕ → RecoveryReport → DirAct (RecoveryReport × Bool)
  | [], report => return (report, true)
  | id :: ids, report => do
    if ← removeTemp id then
      removeTemps ids { report with removedTempFiles := report.removedTempFiles + 1 }
    else return (report, false)

def removeUploads (maxAge : ℤ) (now : Time) :
    List Bytes → RecoveryReport → DirAct (RecoveryReport × Bool)
  | [], report => return (report, true)
  | uploadID :: rest, report => do
    match ← statDir uploadID with
    | none => return (report, false)
    | some modTime =>
      if now.sub modTime ≤ maxAge then removeUploads maxAge now rest report
      else if ← removeUploadDir uploadID then
        removeUploads maxAge now rest
          { report with removedMultipartDir := report.removedMultipartDir + 1 }
      else return (report, false)

/-- `Recover`: the report, and whether there was no error. -/
def recoverDirs (maxAge : ℤ) : DirAct (RecoveryReport × Bool) := do
  match ← readTemps with
  | none => return ({}, false)
  | some ids =>
    let (report, ok) ← removeTemps ids {}
    if ok then
      let now ← now
      match ← readUploads with
      | none => return (report, false)
      | some uploadIDs => removeUploads maxAge now uploadIDs report
    else return (report, false)

/-- `RemoveStaleMultipartUploads`. -/
def removeStaleMultipartUploads (maxAge : ℤ) : DirAct (Option ℕ) := do
  let (report, ok) ← recoverDirs maxAge
  return if ok then some report.removedMultipartDir else none

/-- A write whose source does not fail, and whose arguments are not refused. -/
inductive Write
  | object (ref : ObjectRef) (href : ¬ (ref.bucket = [] ∨ ref.key = [])) (src : Bytes)
  | part (uploadID : Bytes) (n : ℤ) (hid : Strings.trimSpace uploadID ≠ []) (hn : ¬ n ≤ 0) (src : Bytes)

def Write.src : Write → Bytes
  | object _ _ src | part _ _ _ _ src => src

def Write.upload? : Write → Option Bytes
  | object .. => none
  | part uploadID .. => some uploadID

/-- The calls of a write: the directory in which a part is synced is that of its upload. -/
def onDirs (upload? : Option Bytes) : (o : Call) → DirAct o.Val
  | .syncDir path => match upload? with
    | none => dirCall (.store (.syncDir path))
    | some uploadID => dirCall (.syncUpload uploadID)
  | o => dirCall (.store o)

/-- `WriteObject` or `WriteMultipartPart`, and whether it succeeds. -/
def Write.act (P : Platform) (s : Store) (now : Time) : Write → DirAct Bool
  | object ref _ src => do
    let written ← (writeObject P s now ref ⟨src, false⟩).translate (onDirs none)
    return written.isSome
  | part uploadID n _ _ src => do
    let written ← (writeMultipartPart P s now uploadID n ⟨src, false⟩).translate (onDirs (some uploadID))
    return written.isSome

inductive Task
  | clean (maxAge : ℤ)
  | write (wr : Write)

def Task.act (P : Platform) (s : Store) (now : Time) : Task → DirAct Bool
  | clean maxAge => do
    let removed ← removeStaleMultipartUploads maxAge
    return removed.isSome
  | write wr => wr.act P s now

/-- Clean-ups and writes, before any of them has made a call. -/
def underWay (P : Platform) (s : Store) (now : Time) (tasks : List Task) (w : DirWorld) :
    Pool dirCalls Beat DirWorld Bool where
  threads := tasks.map (Task.act P s now)
  world := w

/-! ## What the tasks call -/

abbrev DirEvent := Event dirCalls Beat

def created (b : Beat) (id : ℕ) : DirEvent := ⟨.store .createTemp, b, (some id)⟩

def statted (uploadID : Bytes) (b : Beat) (modTime : Time) : DirEvent :=
  ⟨.stat uploadID, b, (some modTime)⟩

/-- The event that tells the time. -/
def told (b : Beat) (t : Time) : DirEvent := ⟨.now, b, t⟩

def written (id : ℕ) (es : List DirEvent) : Bytes := es.flatMap fun e => e.op.data id

def DirCall.Uses (uploadID : Bytes) : DirCall → Prop
  | store (.renamePart _ _ uploadID' _) | syncUpload uploadID' => uploadID' = uploadID
  | _ => False

/-- The calls of a write that neither move its file nor need the directory of an upload. -/
def DirCall.Early : DirCall → Prop
  | store .createTemp | store (.writeTemp ..) | store (.syncTemp _) | store (.closeTemp _)
  | store (.mkdirAll _) | store (.mkdirUpload _) | store (.syncDir _) => True
  | _ => False

def DirCall.Removes : DirCall → Prop
  | store (.removeTemp _) | store (.removeUpload _) | store (.promote ..) => True
  | _ => False

section Early

variable {o : DirCall} (h : o.Early)

include h

theorem DirCall.Early.not_moves (id : ℕ) : ¬ o.Moves id := by
  unfold Early at h
  split at h <;> first | exact h.elim | exact (fun h => h)

theorem DirCall.Early.not_uses (uploadID : Bytes) : ¬ o.Uses uploadID := by
  unfold Early at h
  split at h <;> first | exact h.elim | exact (fun h => h)

theorem DirCall.Early.not_removes : ¬ o.Removes := by
  unfold Early at h
  split at h <;> first | exact h.elim | exact (fun h => h)

end Early

/-- The last call of a write of a part: it needs the directory of the upload up to there. -/
def Write.Last (s : Store) (wr : Write) (o : DirCall) : Prop :=
  ∃ uploadID, wr.upload? = some uploadID ∧ o.Uses uploadID ∧
    (s.fsyncMode = .strict → o = .syncUpload uploadID)

def Write.Commits (P : Platform) (s : Store) : Write → DirCall → Prop
  | object ref _ _, .store (.rename _ _ path) => path = objectPath P s ref
  | part uploadID n _ _ _, .store (.renamePart _ _ uploadID' n') => uploadID' = uploadID ∧ n' = n
  | _, _ => False

/-- A temporary file of the write that holds the source, and has not been moved. -/
structure Ready (wr : Write) (id : ℕ) (es : List DirEvent) : Prop where
  created : ∃ b, created b id ∈ es
  written : written id es = wr.src
  unmoved : ∀ e ∈ es, ¬ e.op.Moves id

/-- A directory that the write has made, and still needs. -/
structure Opened (s : Store) (wr : Write) (uploadID : Bytes) (es : List DirEvent) : Prop where
  upload : wr.upload? = some uploadID
  made : ∃ e ∈ es, e.op = .store (.mkdirUpload uploadID)
  needed : ∀ e ∈ es, ¬ wr.Last s e.op

structure WriteGuard (P : Platform) (s : Store) (wr : Write) (es : List DirEvent) (o : DirCall) :
    Prop where
  spares : ¬ o.Removes
  writes : ∀ id data, o = .store (.writeTemp id data) → ∃ b, created b id ∈ es
  moves : ∀ id, o.Moves id → Ready wr id es ∧ wr.Commits P s o
  uses : ∀ uploadID, o.Uses uploadID → Opened s wr uploadID es

/-- The calls of a clean-up: it removes the directories that it has found too old. -/
structure CleanGuard (maxAge : ℤ) (es : List DirEvent) (o : DirCall) : Prop where
  reads : o.Removes ∨ o = .readTemps ∨ o = .readUploads ∨ (∃ uploadID, o = .stat uploadID) ∨ o = .now
  keeps : ∀ uploadID n path, o ≠ .store (.promote uploadID n path)
  stale : ∀ uploadID, o = .store (.removeUpload uploadID) →
    ∃ b modTime b' t, statted uploadID b modTime ∈ es ∧ told b' t ∈ es ∧ maxAge < t.sub modTime

/-- The answers that a write hopes for. -/
def Succeeds : (o : DirCall) → o.Val → Prop
  | .store .createTemp, (v : Option ℕ) => v.isSome = true
  | .store (.writeTemp ..), (v : Bool) | .store (.syncTemp _), (v : Bool)
  | .store (.closeTemp _), (v : Bool) | .store (.mkdirAll _), (v : Bool)
  | .store (.rename ..), (v : Bool) | .store (.syncDir _), (v : Bool)
  | .store (.mkdirUpload _), (v : Bool) | .store (.renamePart ..), (v : Bool)
  | .syncUpload _, (v : Bool) => v = true
  | _, _ => True

section Writes

variable {P : Platform} {s : Store} {now : Time} {wr : Write} {es es' : List DirEvent} {id : ℕ}
  {upload? : Option Bytes}

theorem DirCall.Early.writeGuard {o : DirCall} (h : o.Early)
    (hwrites : ∀ id data, o = .store (.writeTemp id data) → ∃ b, created b id ∈ es) :
    WriteGuard P s wr es o :=
  ⟨h.not_removes, hwrites, fun id hm => (h.not_moves id hm).elim, fun u hu => (h.not_uses u hu).elim⟩

/-- The program keeps to the guard of a write while its calls succeed, and with its result the events
satisfy `Q`. -/
abbrev WritesTo {α : Type} (P : Platform) (s : Store) (wr : Write) (upload? : Option Bytes)
    (Q : List DirEvent → α → Prop) (es : List DirEvent) (p : Act α) : Prop :=
  (p.translate (onDirs upload?)).Guarded Succeeds (WriteGuard P s wr) Q es

section Rules

variable {α β : Type} {p q : Act α} {Q : List DirEvent → α → Prop}

theorem writesTo_bind {R : List DirEvent → β → Prop} {g : α → Act β}
    (h : WritesTo P s wr upload? (fun es a => WritesTo P s wr upload? R es (g a)) es p) :
    WritesTo P s wr upload? R es (p >>= g) := by
  unfold WritesTo
  rw [translate_bind]
  exact guarded_bind.2 h

theorem writesTo_ite {c : Prop} [Decidable c] (hp : c → WritesTo P s wr upload? Q es p)
    (hq : ¬ c → WritesTo P s wr upload? Q es q) : WritesTo P s wr upload? Q es (if c then p else q) := by
  split_ifs with h
  · exact hp h
  · exact hq h

theorem writesTo_ask {o : Call} {Q : List DirEvent → o.Val → Prop}
    (hon : onDirs upload? o = dirCall (.store o)) (ho : WriteGuard P s wr es (.store o))
    (h : ∀ b (v : o.Val), Succeeds (.store o) v → Q (es ++ [⟨.store o, b, v⟩]) v) :
    WritesTo P s wr upload? Q es (ask o) := by
  have hact : (ask o).translate (onDirs upload?) = dirCall (.store o) >>= pure := by
    rw [← hon]
    rfl
  unfold WritesTo
  rw [hact]
  exact ⟨ho, h⟩

theorem writesTo_early {o : Call} {Q : List DirEvent → o.Val → Prop}
    (hon : onDirs upload? o = dirCall (.store o)) (ho : DirCall.Early (.store o))
    (hwrites : ∀ id data, o = .writeTemp id data → ∃ b, created b id ∈ es)
    (h : ∀ b (v : o.Val), Succeeds (.store o) v → Q (es ++ [⟨.store o, b, v⟩]) v) :
    WritesTo P s wr upload? Q es (ask o) := by
  refine writesTo_ask hon (ho.writeGuard ?_) h
  rintro id data ⟨⟩
  exact hwrites id data rfl

end Rules

/-- A temporary file with the source, after early calls only. -/
structure Filled (wr : Write) (id : ℕ) (es es' : List DirEvent) : Prop where
  pre : es <+: es'
  created : ∃ b, created b id ∈ es'
  written : written id es' = wr.src
  early : ∀ e ∈ es', e.op.Early

variable {e : DirEvent}

theorem Filled.append (h : Filled wr id es es') (he : e.op.Early)
    (hdata : e.op.data id = []) : Filled wr id es (es' ++ [e]) where
  pre := h.pre.trans (prefix_append es' [e])
  created := h.created.imp fun _ hb => mem_append_left _ hb
  written := by
    rw [Blob.written, flatMap_append, flatMap_singleton, hdata, append_nil]
    exact h.written
  early := forall_mem_append.2 ⟨h.early, forall_mem_singleton.2 he⟩

theorem Filled.ready (h : Filled wr id es es') : Ready wr id es' :=
  ⟨h.created, h.written, fun e he => (h.early e he).not_moves id⟩

theorem syncFile_writesTo {Q : List DirEvent → Bool → Prop} (hskip : Q es true)
    (hdone : ∀ b, Q (es ++ [⟨.store (.syncTemp id), b, true⟩]) true) :
    WritesTo P s wr upload? Q es (syncFile s id) := by
  refine writesTo_ite (fun _ => hskip) fun _ => ?_
  refine writesTo_early (o := .syncTemp id) rfl trivial nofun fun b v hv => ?_
  obtain rfl : v = true := hv
  exact hdone b

/-- **A temporary file is filled.** -/
theorem fillTemp_writesTo (wr : Write) (hes : ∀ e ∈ es, e.op.Early) (hempty : ∀ id, written id es = []) :
    WritesTo P s wr upload? (fun es' r => ∃ id, r = some id ∧ Filled wr id es es') es
      (fillTemp s ⟨wr.src, false⟩) := by
  refine writesTo_bind (writesTo_early rfl trivial (by rintro _ _ ⟨⟩)
    fun b v hv => ?_)
  obtain ⟨id, rfl⟩ := Option.isSome_iff_exists.1 hv
  have hmem : created b id ∈ es ++ [created b id] := mem_append_right _ mem_cons_self
  refine writesTo_bind (writesTo_early rfl trivial ?_
    fun b' v hv => ?_)
  · rintro _ _ ⟨⟩
    exact ⟨b, hmem⟩
  obtain rfl : v = true := hv
  have hfilled : Filled wr id es (es ++ [created b id] ++
      [⟨.store (.writeTemp id wr.src), b', true⟩]) := by
    refine ⟨?_, ⟨b, mem_append_left _ hmem⟩, ?_, ?_⟩
    · rw [append_assoc]
      exact prefix_append es _
    · rw [written, flatMap_append, flatMap_append, ← written, hempty]
      simp [DirCall.data, created]
    · exact forall_mem_append.2 ⟨forall_mem_append.2
        ⟨hes, forall_mem_singleton.2 trivial⟩, forall_mem_singleton.2 trivial⟩
  have hclose {es₁ : List DirEvent} (h : Filled wr id es es₁) :
      WritesTo P s wr upload? (fun es' r => ∃ id, r = some id ∧ Filled wr id es es') es₁
        (ask (.closeTemp id) >>= fun closed : Bool =>
          if !closed then cleanupTemp id else pure (some id)) := by
    refine writesTo_bind (writesTo_early rfl trivial (by rintro _ _ ⟨⟩)
      fun b v hv => ?_)
    obtain rfl : v = true := hv
    exact ⟨id, rfl, h.append trivial rfl⟩
  refine writesTo_bind (syncFile_writesTo ?_ fun b => ?_)
  · exact hclose hfilled
  · exact hclose (hfilled.append trivial rfl)

/-- **`WriteObject`.** -/
theorem writeObject_writesTo {ref : ObjectRef} (href : ¬ (ref.bucket = [] ∨ ref.key = [])) (src : Bytes) :
    WritesTo P s (.object ref href src) none (fun _ r => r.isSome = true) []
      (writeObject P s now ref ⟨src, false⟩) := by
  refine writesTo_ite (fun h => absurd h href) fun _ => ?_
  have hnil : ∀ e ∈ ([] : List DirEvent), e.op.Early := nofun
  refine writesTo_bind ((fillTemp_writesTo (.object ref href src) hnil fun _ => rfl).mono
    fun es₁ r h₁ => ?_)
  obtain ⟨id, rfl, hfilled⟩ := h₁
  refine writesTo_bind (writesTo_early (o := .mkdirAll _) rfl trivial nofun fun b (v : Bool) hv => ?_)
  obtain rfl : v = true := hv
  have hready := (hfilled.append (e := ⟨.store (.mkdirAll (objectPath P s ref)), b, true⟩) trivial rfl).ready
  refine writesTo_bind (writesTo_ask (o := .rename id src (objectPath P s ref)) rfl
    ⟨not_false, nofun, ?_, fun _ h => h.elim⟩ fun b' v hv => ?_)
  · rintro _ rfl
    exact ⟨hready, rfl⟩
  obtain rfl : v = true := hv
  have hsync {es : List DirEvent} : WritesTo P s (.object ref href src) none (fun _ r => r = true) es
      (syncParentDir s (objectPath P s ref)) := by
    refine writesTo_ite (fun _ => rfl) fun _ => ?_
    exact writesTo_early (o := .syncDir _) rfl trivial nofun fun _ _ hv => hv
  refine writesTo_bind (hsync.mono fun es₂ synced h₂ => ?_)
  obtain rfl := h₂
  rfl

/-- **`WriteMultipartPart`.** -/
theorem writeMultipartPart_writesTo {uploadID : Bytes} {n : ℤ} (hid : Strings.trimSpace uploadID ≠ [])
    (hn : ¬ n ≤ 0) (src : Bytes) :
    WritesTo P s (.part uploadID n hid hn src) (some uploadID) (fun _ r => r.isSome = true) []
      (writeMultipartPart P s now uploadID n ⟨src, false⟩) := by
  refine writesTo_ite (fun h => absurd h hn) fun _ => ?_
  have hmake : WritesTo P s (.part uploadID n hid hn src) (some uploadID)
      (fun es r => r = true ∧ ∃ b v, es = [⟨.store (.mkdirUpload uploadID), b, v⟩]) []
      (createMultipartUpload uploadID) := by
    refine writesTo_ite (fun h => absurd h hid) fun _ => ?_
    exact writesTo_early (o := .mkdirUpload uploadID) rfl trivial nofun fun b v hv => ⟨hv, b, v, rfl⟩
  refine writesTo_bind (hmake.mono fun es₀ made h₀ => ?_)
  obtain ⟨rfl, b₀, v₀, rfl⟩ := h₀
  have hone : ∀ e ∈ [(⟨.store (.mkdirUpload uploadID), b₀, v₀⟩ : DirEvent)], e.op.Early :=
    forall_mem_singleton.2 trivial
  refine writesTo_bind ((fillTemp_writesTo (.part uploadID n hid hn src) hone fun _ => rfl).mono
    fun es₁ r h₁ => ?_)
  obtain ⟨id, rfl, hfilled⟩ := h₁
  have hopened : Opened s (.part uploadID n hid hn src) uploadID es₁ := by
    refine ⟨rfl, ⟨_, hfilled.pre.subset mem_cons_self, rfl⟩, fun e he hlast => ?_⟩
    obtain ⟨u, -, huses, -⟩ := hlast
    exact (hfilled.early e he).not_uses u huses
  refine writesTo_bind (writesTo_ask rfl
    ⟨not_false, nofun, ?_, ?_⟩ fun b' v hv => ?_)
  · rintro _ rfl
    exact ⟨hfilled.ready, rfl, rfl⟩
  · rintro _ rfl
    exact hopened
  obtain rfl : v = true := hv
  have hsync : WritesTo P s (.part uploadID n hid hn src) (some uploadID) (fun _ r => r = true)
      (es₁ ++ [⟨.store (.renamePart id src uploadID n), b', true⟩])
      (syncParentDir s (multipartPartPath s uploadID n)) := by
    refine writesTo_ite (fun _ => rfl) fun hstrict => ?_
    have hstill : Opened s (.part uploadID n hid hn src) uploadID
        (es₁ ++ [⟨.store (.renamePart id src uploadID n), b', true⟩]) := by
      refine ⟨rfl, hopened.made.imp fun e he => ⟨mem_append_left _ he.1, he.2⟩, ?_⟩
      refine forall_mem_append.2 ⟨hopened.needed, forall_mem_singleton.2 ?_⟩
      rintro ⟨u, -, -, hlast⟩
      exact nomatch hlast (not_not.1 hstrict)
    refine ⟨⟨not_false, nofun, fun _ h => h.elim, ?_⟩, fun _ _ hv => hv⟩
    rintro _ rfl
    exact hstill
  refine writesTo_bind (hsync.mono fun es₂ synced h₂ => ?_)
  obtain rfl := h₂
  rfl

end Writes

section CleanUps

variable {maxAge : ℤ} {es : List DirEvent} {A : (o : DirCall) → o.Val → Prop}

theorem removeTemps_guarded : ∀ (ids : List ℕ) (report : RecoveryReport) (es : List DirEvent),
    (removeTemps ids report).Guarded A (CleanGuard maxAge) (fun es' _ => es <+: es') es
  | [], _, _ => prefix_rfl
  | id :: ids, report, es => by
    refine guarded_bind.2 ⟨⟨.inl trivial, nofun, nofun⟩, fun b (removed : Bool) _ => ?_⟩
    have hpre {more : List DirEvent} : es <+: es ++ more := prefix_append es more
    exact guarded_ite
      (fun _ => (removeTemps_guarded ids _ _).mono fun _ _ h => hpre.trans h) fun _ => hpre

/-- **A directory that is removed** was found too old. -/
theorem removeUploads_guarded {b : Beat} {t : Time} : ∀ (uploadIDs : List Bytes) (report : RecoveryReport)
    {es : List DirEvent}, told b t ∈ es →
    (removeUploads maxAge t uploadIDs report).Guarded A (CleanGuard maxAge) (fun _ _ => True) es
  | [], _, _, _ => trivial
  | uploadID :: rest, report, es, ht => by
    refine guarded_bind.2 ⟨⟨.inr (.inr (.inr (.inl ⟨uploadID, rfl⟩))), nofun,
      nofun⟩, fun b' v _ => ?_⟩
    cases v with
    | none => trivial
    | some modTime =>
      refine guarded_ite (fun _ => removeUploads_guarded rest report (mem_append_left _ ht))
        fun hold => ?_
      have hstat : statted uploadID b' modTime ∈ es ++ [statted uploadID b' modTime] :=
        mem_append_right _ mem_cons_self
      refine guarded_bind.2 ⟨⟨.inl trivial, nofun, ?_⟩, fun b'' (removed : Bool) _ => ?_⟩
      · rintro _ ⟨⟩
        exact ⟨b', modTime, b, t, hstat, mem_append_left _ ht, not_le.1 hold⟩
      · refine guarded_ite (fun _ => ?_) fun _ => trivial
        exact removeUploads_guarded rest _ (mem_append_left _ (mem_append_left _ ht))

/-- **`RemoveStaleMultipartUploads`.** -/
theorem removeStaleMultipartUploads_guarded :
    (removeStaleMultipartUploads maxAge).Guarded A (CleanGuard maxAge) (fun _ _ => True) [] := by
  have hread {o : DirCall} {es : List DirEvent} (ho : o = .readTemps ∨ o = .readUploads ∨ o = .now) :
      CleanGuard maxAge es o := by
    rcases ho with rfl | rfl | rfl
    · exact ⟨.inr (.inl rfl), nofun, nofun⟩
    · exact ⟨.inr (.inr (.inl rfl)), nofun, nofun⟩
    · exact ⟨.inr (.inr (.inr (.inr rfl))), nofun, nofun⟩
  suffices h : (recoverDirs maxAge).Guarded A (CleanGuard maxAge) (fun _ _ => True) [] from
    guarded_bind.2 (h.mono fun _ _ _ => trivial)
  refine guarded_bind.2 ⟨hread (.inl rfl), fun b v _ => ?_⟩
  cases v with
  | none => trivial
  | some ids =>
    refine guarded_bind.2 ((removeTemps_guarded ids {} _).mono fun es₁ r _ => ?_)
    refine guarded_ite (fun _ => ?_) fun _ => trivial
    refine guarded_bind.2 ⟨hread (.inr (.inr rfl)), fun b' t _ => ?_⟩
    have ht : told b' t ∈ es₁ ++ [told b' t] := mem_append_right _ mem_cons_self
    refine guarded_bind.2 ⟨hread (.inr (.inl rfl)), fun b'' v _ => ?_⟩
    cases v with
    | none => trivial
    | some uploadIDs => exact removeUploads_guarded uploadIDs r.1 (mem_append_left _ ht)

end CleanUps

/-! ## Any number of tasks -/

/-- What has happened, in the order in which it has. -/
abbrev History := List (ℕ × DirEvent)

def taskGuard (P : Platform) (s : Store) : Option Task → List DirEvent → DirCall → Prop
  | some (.write wr) => WriteGuard P s wr
  | some (.clean maxAge) => CleanGuard maxAge
  | none => fun _ _ => False

def taskAnswers : Option Task → (o : DirCall) → o.Val → Prop
  | some (.write _) => Succeeds
  | _ => fun _ _ => True

def taskResult : Option Task → Bool → Prop
  | some (.write _) => fun ok => ok = true
  | _ => fun _ => True

/-- **What the clean-up has to spare**: a temporary file that a write has created and not yet moved, and
the directory of an upload that a write has made and still needs; and no one changes a directory between
the clean-up's look at it and its removal.  The calls of the writes themselves succeed where the file or
directory that they need is there. -/
structure Spared (s : Store) (tasks : List Task) (x : Pool dirCalls Beat DirWorld Bool) (i : ℕ)
    (e : DirEvent) : Prop where
  sound : ∀ wr, tasks[i]? = some (.write wr) → e.fault.fault = .ok
  temps : ∀ id, e.op = .store (.removeTemp id) → ∀ j wr b, tasks[j]? = some (.write wr) →
    (j, created b id) ∈ x.events → ∃ e', (j, e') ∈ x.events ∧ e'.op.Moves id
  uploads : ∀ u, e.op = .store (.removeUpload u) → ∀ j wr e', tasks[j]? = some (.write wr) →
    wr.upload? = some u → (j, e') ∈ x.events → e'.op = .store (.mkdirUpload u) →
      ∃ e'', (j, e'') ∈ x.events ∧ wr.Last s e''.op
  unchanged : ∀ u, e.op = .store (.removeUpload u) → ∀ before b t since,
    x.events = before ++ (i, statted u b t) :: since → ∀ e' ∈ since, ¬ e'.2.op.Touches u

def own (i : ℕ) (events : History) : List DirEvent :=
  events.filterMap fun e => if e.1 = i then some e.2 else none

/-- **The invariant of the turns.** -/
structure Intact (s : Store) (tasks : List Task) (W : DirWorld) (events : History) : Prop where
  fresh : ∀ i b id, (i, created b id) ∈ events → id < W.disk.nextTemp
  once : ∀ i j b b' id, (i, created b id) ∈ events → (j, created b' id) ∈ events → i = j
  there : ∀ i wr b id, tasks[i]? = some (.write wr) → (i, created b id) ∈ events →
    (∀ e, (i, e) ∈ events → ¬ e.op.Moves id) → id ∈ W.disk.temps
  bytes : ∀ i b id, (i, created b id) ∈ events → W.contents id = written id (own i events)
  unwritten : ∀ i id, W.disk.nextTemp ≤ id → written id (own i events) = []
  dirs : ∀ i wr u e, tasks[i]? = some (.write wr) → wr.upload? = some u → (i, e) ∈ events →
    e.op = .store (.mkdirUpload u) → (∀ e', (i, e') ∈ events → ¬ wr.Last s e'.op) → u ∈ W.dirs
  clock : ∀ i b t, (i, told b t) ∈ events → t ≤ W.clock
  times : ∀ i u b t before since, events = before ++ (i, statted u b t) :: since →
    (∀ e ∈ since, ¬ e.2.op.Touches u) → W.dirs.lookup u = some t

section Turns

variable {P : Platform} {s : Store} {tasks : List Task} {x : Pool dirCalls Beat DirWorld Bool} {i : ℕ}
  {b : Beat} {o : DirCall} {val : o.Val} {W W' : DirWorld} {wr : Write}

theorem CleanGuard.idle {maxAge : ℤ} {es : List DirEvent} (h : CleanGuard maxAge es o) (id : ℕ) :
    ¬ o.Moves id ∧ o.data id = [] := by
  rcases h.reads with h | rfl | rfl | ⟨u, rfl⟩ | rfl
  · unfold DirCall.Removes at h
    split at h <;> first | exact h.elim | exact ⟨not_false, rfl⟩
  all_goals exact ⟨not_false, rfl⟩

variable {id j : ℕ}

theorem taskGuard.moves (h : taskGuard P s tasks[i]? (eventsOf x i) o) (hm : o.Moves id) :
    ∃ wr, tasks[i]? = some (.write wr) ∧ Ready wr id (eventsOf x i) ∧ wr.Commits P s o := by
  cases htask : tasks[i]? with
  | none =>
    rw [htask] at h
    exact h.elim
  | some task =>
    rw [htask] at h
    cases task with
    | clean maxAge => exact absurd hm (CleanGuard.idle h id).1
    | write wr => exact ⟨wr, rfl, WriteGuard.moves h id hm⟩

theorem taskGuard.writes (h : taskGuard P s tasks[i]? (eventsOf x i) o) (hdata : o.data id ≠ []) :
    ∃ wr, tasks[i]? = some (.write wr) ∧ ∃ b, (i, created b id) ∈ x.events := by
  cases htask : tasks[i]? with
  | none =>
    rw [htask] at h
    exact h.elim
  | some task =>
    rw [htask] at h
    cases task with
    | clean maxAge => exact absurd (CleanGuard.idle h id).2 hdata
    | write wr =>
      obtain ⟨data, rfl⟩ : ∃ data, o = .store (.writeTemp id data) := by
        unfold DirCall.data at hdata
        split at hdata
        · split_ifs at hdata with hid
          · exact ⟨_, by rw [hid]⟩
          · exact absurd rfl hdata
        · exact absurd rfl hdata
      exact ⟨wr, rfl, (WriteGuard.writes h id data rfl).imp fun _ hb => mem_eventsOf.1 hb⟩

theorem own_concat {events : History} :
    own j (events ++ [(i, e)]) = own j events ++ if i = j then [e] else [] := by
  unfold own
  rw [filterMap_append, filterMap_cons]
  split_ifs <;> rfl

theorem written_concat {events : History} :
    written id (own j (events ++ [(i, e)])) =
      written id (own j events) ++ if i = j then e.op.data id else [] := by
  rw [own_concat, written, flatMap_append]
  split_ifs
  · rw [flatMap_singleton]
    rfl
  · rfl

section Turn

variable (h : Intact s tasks x.world x.events) (hstep : directories.step x.world b o = (val, W'))
  (hguard : taskGuard P s tasks[i]? (eventsOf x i) o) (hB : Spared s tasks x i ⟨o, b, val⟩)

include h hstep hguard hB

/-- What has been written to a temporary file is in it. -/
theorem Intact.bytes_turn {b' : Beat} (hc : (j, created b' id) ∈ x.events) :
    W'.contents id = written id (own j (x.events ++ [(i, ⟨o, b, val⟩)])) := by
  have hne : o = .store .createTemp → id ≠ x.world.disk.nextTemp := fun _ => (h.fresh j b' id hc).ne
  have hcontents := contents_directories (b := b) hne
  rw [hstep] at hcontents
  rw [hcontents, written_concat, h.bytes j b' id hc]
  by_cases hdata : o.data id = []
  · rw [hdata, ite_self, ite_self]
  obtain ⟨wr, htask, b'', hown⟩ := hguard.writes hdata
  have hok : b.fault = .ok := hB.sound wr htask
  rw [if_pos hok, if_pos (h.once i j b'' b' id hown hc)]

/-- A temporary file that has not been moved is there. -/
theorem Intact.there_turn {b' : Beat} (htask : tasks[j]? = some (.write wr))
    (hc : (j, created b' id) ∈ x.events)
    (hm : ∀ e, (j, e) ∈ x.events ++ [(i, ⟨o, b, val⟩)] → ¬ e.op.Moves id) : id ∈ W'.disk.temps := by
  have hold := h.there j wr b' id htask hc fun e he => hm e (mem_append_left _ he)
  have hchange := tempChange_directories x.world b o
  rw [hstep] at hchange
  cases hchange with
  | same ht => exact ht ▸ hold
  | create ht => exact ht ▸ mem_cons_of_mem _ hold
  | @drop _ id' _ ho ht =>
    rw [ht]
    by_cases hid : id = id'
    · subst hid
      exfalso
      rcases ho with rfl | ho
      · obtain ⟨e, he, hmoves⟩ := hB.temps id rfl j wr b' htask hc
        exact hm e (mem_append_left _ he) hmoves
      obtain ⟨wr', -, hready, -⟩ := hguard.moves ho
      obtain ⟨b'', hown⟩ := hready.created
      obtain rfl := h.once i j b'' b' id (mem_eventsOf.1 hown) hc
      exact hm _ (mem_append_right _ mem_cons_self) ho
    · exact (mem_erase_of_ne hid).2 hold

/-- **A turn keeps the invariant.** -/
theorem Intact.turn : Intact s tasks W' (x.events ++ [(i, ⟨o, b, val⟩)]) := by
  have hnext : x.world.disk.nextTemp ≤ W'.disk.nextTemp := by
    have hchange := tempChange_directories x.world b o
    rw [hstep] at hchange
    exact hchange.nextTemp_le
  have hclock : x.world.clock ≤ W'.clock := by
    have hle := clock_le_directories x.world b o
    rwa [hstep] at hle
  constructor
  case fresh =>
    intro j b' id hc
    rcases mem_append.1 hc with hc | hc
    · exact (h.fresh j b' id hc).trans_le hnext
    · cases mem_singleton.1 hc
      exact (eq_of_created hstep).2.1
  case once =>
    intro j k b' b'' id hj hk
    rcases mem_append.1 hj with hj' | hj' <;> rcases mem_append.1 hk with hk' | hk'
    · exact h.once j k b' b'' id hj' hk'
    · cases mem_singleton.1 hk'
      exact absurd (eq_of_created hstep).1 (h.fresh j b' id hj').ne
    · cases mem_singleton.1 hj'
      exact absurd (eq_of_created hstep).1 (h.fresh k b'' id hk').ne
    · cases mem_singleton.1 hj'
      exact (congrArg Prod.fst (mem_singleton.1 hk')).symm
  case there =>
    intro j wr b' id htask hc hm
    rcases mem_append.1 hc with hc | hc
    · exact h.there_turn hstep hguard hB htask hc hm
    · cases mem_singleton.1 hc
      exact (eq_of_created hstep).2.2.1
  case bytes =>
    intro j b' id hc
    rcases mem_append.1 hc with hc | hc
    · exact h.bytes_turn hstep hguard hB hc
    cases mem_singleton.1 hc
    obtain ⟨hid, -, -, hempty⟩ := eq_of_created hstep
    rw [hempty, written_concat, h.unwritten i id hid.ge, if_pos rfl]
    rfl
  case unwritten =>
    intro j id hid
    rw [written_concat, h.unwritten j id (hnext.trans hid)]
    by_cases hdata : o.data id = []
    · exact (congrArg (if i = j then · else []) hdata).trans (ite_self _)
    · obtain ⟨-, -, b', hown⟩ := hguard.writes hdata
      exact absurd (h.fresh i b' id hown) (hnext.trans hid).not_gt
  case dirs =>
    intro j wr u e htask hu he hmade hlast
    rcases mem_append.1 he with he | he
    · by_contra hlost
      have hthere := h.dirs j wr u e htask hu he hmade fun e' he' => hlast e' (mem_append_left _ he')
      have ho : o = .store (.removeUpload u) :=
        eq_removeUpload_of_lost hthere (by rw [hstep]; exact hlost)
      obtain ⟨e', he', hdone⟩ := hB.uploads u ho j wr e htask hu he hmade
      exact hlast e' (mem_append_left _ he') hdone
    · cases mem_singleton.1 he
      subst hmade
      have hdirs := mem_dirs_of_mkdirUpload (w := x.world) u (hB.sound wr htask)
      rwa [hstep] at hdirs
  case clock =>
    intro j b' t ht
    rcases mem_append.1 ht with ht | ht
    · exact (h.clock j b' t ht).trans hclock
    cases mem_singleton.1 ht
    have htime : x.world.clock + b.elapsed = t := congrArg Prod.fst hstep
    have hworld : x.world.clock + b.elapsed = W'.clock := congrArg (fun r => r.2.clock) hstep
    exact (htime.symm.trans hworld).le
  case times =>
    intro j u b' t before since hevents hsince
    rcases split_concat hevents with ⟨rfl, he⟩ | ⟨since', rfl, hold⟩
    · cases he
      have hval : (if b.fault = .ok then x.world.dirs.lookup u else none) = some t :=
        congrArg Prod.fst hstep
      have hdirs : x.world.dirs = W'.dirs := congrArg (fun r => r.2.dirs) hstep
      split_ifs at hval
      exact hdirs ▸ hval
    · have hlookup := lookup_directories (w := x.world) (b := b)
        (hsince _ (mem_append_right _ mem_cons_self))
      rw [hstep] at hlookup
      rw [hlookup]
      exact h.times j u b' t before since' hold fun e he => hsince e (mem_append_left _ he)

end Turn

/-! ### What a turn achieves -/

/-- The file that a write commits is there, with its source. -/
def Write.Holds (P : Platform) (s : Store) : Write → World → Prop
  | object ref _ src, w => w.disk.files (objectPath P s ref) = some src
  | part uploadID n _ _ src, w => w.disk.staged uploadID n = some src

section Own

variable (h : Intact s tasks x.world x.events) (htask : tasks[i]? = some (.write wr))

include h htask

theorem Intact.ready (hready : Ready wr id (eventsOf x i)) :
    id ∈ x.world.disk.temps ∧ x.world.contents id = wr.src := by
  obtain ⟨b', hb'⟩ := hready.created
  have hc := mem_eventsOf.1 hb'
  refine ⟨h.there i wr b' id htask hc fun e he => ?_, (h.bytes i b' id hc).trans hready.written⟩
  exact hready.unmoved e (mem_eventsOf.2 he)

theorem Intact.opened {u : Bytes} (hopened : Opened s wr u (eventsOf x i)) : u ∈ x.world.dirs := by
  obtain ⟨e, he, hmade⟩ := hopened.made
  refine h.dirs i wr u e htask hopened.upload (mem_eventsOf.1 he) hmade fun e' he' => ?_
  exact hopened.needed e' (mem_eventsOf.2 he')

/-- **A rename moves the source to its place.** -/
theorem Intact.rename {content path : Bytes} (hok : b.fault = .ok)
    (hguard : WriteGuard P s wr (eventsOf x i) (.store (.rename id content path))) :
    (directories.step x.world b (.store (.rename id content path))).1 = true ∧
      (directories.step x.world b (.store (.rename id content path))).2.disk.files path = some wr.src := by
  obtain ⟨hthere, hcontent⟩ := h.ready htask (hguard.moves id rfl).1
  have hstep : step x.world.toWorld b.fault (.rename id (x.world.contents id) path) =
      (true, { x.world.toWorld with
        disk := (x.world.disk.dropTemp id).setFile path (some (x.world.contents id)) }) :=
    if_pos ⟨hok, decide_eq_true hthere⟩
  refine ⟨congrArg Prod.fst hstep, ?_⟩
  refine (congrArg (fun r => r.2.disk.files path) hstep).trans ?_
  rw [Disk.files_setFile, if_pos rfl, hcontent]

theorem Intact.renamePart {content u : Bytes} {n : ℤ} (hok : b.fault = .ok)
    (hguard : WriteGuard P s wr (eventsOf x i) (.store (.renamePart id content u n))) :
    (directories.step x.world b (.store (.renamePart id content u n))).1 = true ∧
      (directories.step x.world b (.store (.renamePart id content u n))).2.disk.staged u n =
        some wr.src := by
  obtain ⟨hthere, hcontent⟩ := h.ready htask (hguard.moves id rfl).1
  have hdir := h.opened htask (hguard.uses u rfl)
  have hstep : DirWorld.reply { x.world with clock := x.world.clock + b.elapsed } b.fault
      (.renamePart id content u n) = (true, { x.world.toWorld with
        disk := (x.world.disk.dropTemp id).setPart u n (some (x.world.contents id)) }) :=
    (if_pos hdir).trans (if_pos ⟨hok, decide_eq_true hthere⟩)
  refine ⟨congrArg Prod.fst hstep, ?_⟩
  refine (congrArg (fun r => r.2.disk.staged u n) hstep).trans ?_
  simp only [Disk.setPart, Function.update_self, hcontent]

/-- **The calls of a write succeed.** -/
theorem Intact.succeeds (hguard : WriteGuard P s wr (eventsOf x i) o) (hok : b.fault = .ok) :
    Succeeds o (directories.step x.world b o).1 := by
  unfold Succeeds
  split
  case h_1 =>
    change (step x.world.toWorld b.fault .createTemp).1.isSome = true
    rw [step, if_pos hok]
    rfl
  case h_6 => exact (h.rename htask hok hguard).1
  case h_9 => exact (h.renamePart htask hok hguard).1
  case h_10 u => exact decide_eq_true ⟨hok, h.opened htask (hguard.uses u rfl)⟩
  case h_11 => trivial
  all_goals exact decide_eq_true hok

/-- **What a write commits** is its source. -/
theorem Intact.holds (hguard : WriteGuard P s wr (eventsOf x i) o) (hok : b.fault = .ok)
    (hcommits : wr.Commits P s o) : wr.Holds P s (directories.step x.world b o).2.toWorld := by
  unfold Write.Commits at hcommits
  split at hcommits
  · subst hcommits
    exact (h.rename htask hok hguard).2
  · obtain ⟨rfl, rfl⟩ := hcommits
    exact (h.renamePart htask hok hguard).2
  · exact hcommits.elim

end Own

/-- **A directory that a clean-up removes** is older than allowed. -/
theorem Intact.stale {maxAge : ℤ} {u : Bytes} {t : Time} (h : Intact s tasks x.world x.events)
    (hguard : CleanGuard maxAge (eventsOf x i) o)
    (hB : Spared s tasks x i ⟨o, b, (directories.step x.world b o).1⟩)
    (hthere : x.world.dirs.lookup u = some t)
    (hlost : (directories.step x.world b o).2.dirs.lookup u = none) :
    maxAge < (directories.step x.world b o).2.clock.sub t := by
  have hu : u ∈ x.world.dirs := AList.lookup_isSome.1 (by rw [hthere]; rfl)
  have ho : o = .store (.removeUpload u) := eq_removeUpload_of_lost hu (AList.lookup_eq_none.1 hlost)
  obtain ⟨b₁, t₁, b₂, t₂, hstat, htold, hold⟩ := hguard.stale u ho
  obtain ⟨before, since, hevents⟩ := append_of_mem (mem_eventsOf.1 hstat)
  have htime := h.times i u b₁ t₁ before since hevents (hB.unchanged u ho before b₁ t₁ since hevents)
  obtain rfl := Option.some.inj (htime.symm.trans hthere)
  have hnow := (h.clock i b₂ t₂ (mem_eventsOf.1 htold)).trans (clock_le_directories x.world b o)
  exact hold.trans_le (Time.sub_le_sub hnow le_rfl)

/-! ### All turns -/

theorem Task.act_guarded (now : Time) (task : Task) :
    (task.act P s now).Guarded (taskAnswers (some task)) (taskGuard P s (some task))
      (fun _ ok => taskResult (some task) ok) [] := by
  cases task with
  | clean maxAge => exact guarded_bind.2 (removeStaleMultipartUploads_guarded.mono fun _ _ _ => trivial)
  | write wr =>
    cases wr with
    | object ref href src => exact guarded_bind.2 ((writeObject_writesTo href src).mono fun _ _ h => h)
    | part u n hid hn src =>
      exact guarded_bind.2 ((writeMultipartPart_writesTo hid hn src).mono fun _ _ h => h)

theorem intact_start (W : DirWorld) : Intact s tasks W [] where
  fresh _ _ _ h := nomatch h
  once _ _ _ _ _ h := nomatch h
  there _ _ _ _ _ h := nomatch h
  bytes _ _ _ h := nomatch h
  unwritten _ _ _ := rfl
  dirs _ _ _ _ _ _ h := nomatch h
  clock _ _ _ h := nomatch h
  times _ _ _ _ _ _ h := absurd h.symm (append_ne_nil_of_right_ne_nil _ (cons_ne_nil _ _))

variable {schedule : List (ℕ × Beat)}

/-- **As long as the clean-ups spare the writes**, every task keeps to its guard. -/
theorem underWay_intact {now : Time}
    (hB : directories.Meets (Spared s tasks) (underWay P s now tasks W) schedule) :
    let x := directories.runPool (underWay P s now tasks W) schedule;
    (∀ i (p : DirAct Bool), x.threads[i]? = some p →
      p.Guarded (taskAnswers tasks[i]?) (taskGuard P s tasks[i]?) (fun _ ok => taskResult tasks[i]? ok)
        (eventsOf x i)) ∧ Intact s tasks x.world x.events := by
  refine runPool_of_guarded (fun x i b o hx hG hB => ⟨?_, hx.turn rfl hG hB⟩) (fun i p hp => ?_)
    (intact_start W) hB
  · cases htask : tasks[i]? with
    | none => trivial
    | some task =>
      cases task with
      | clean => trivial
      | write wr =>
        rw [htask] at hG
        exact hx.succeeds htask hG (hB.sound wr htask)
  · have hmap : (tasks.map (Task.act P s now))[i]? = some p := hp
    rw [getElem?_map] at hmap
    cases htask : tasks[i]? with
    | none =>
      rw [htask] at hmap
      cases hmap
    | some task =>
      rw [htask] at hmap
      cases hmap
      exact task.act_guarded now

end Turns

/-! ## Every write ends -/

section Ends

variable {P : Platform} {s : Store} {now : Time}

theorem within_ask (o : Call) : (ask o).Within 1 := fun _ => trivial

theorem within_cleanupTemp {α : Type} (id : ℕ) : (cleanupTemp (α := α) id).Within 2 :=
  fun _ _ => trivial

theorem within_syncFile (id : ℕ) : (syncFile s id).Within 1 := within_ite (within_pure _) (within_ask _)

theorem within_syncParentDir (path : Bytes) : (syncParentDir s path).Within 1 :=
  within_ite (within_pure _) (within_ask _)

theorem within_fillTemp (src : Stream) : (fillTemp s src).Within 6 := by
  refine within_bind (m := 5) (fun v => ?_) (within_ask _)
  cases v with
  | none => exact within_pure _
  | some id =>
    have hclean {n : ℕ} : (cleanupTemp (α := ℕ) id).Within (n + 2) := (within_cleanupTemp id).mono
      (Nat.le_add_left 2 n)
    refine within_bind (m := 4) (fun _ => within_ite hclean ?_) (within_ask _)
    refine within_bind (m := 3) (fun _ => within_ite hclean ?_) (within_syncFile id)
    exact within_bind (m := 2) (fun _ => within_ite hclean (within_pure _)) (within_ask _)

theorem within_writeObject (ref : ObjectRef) (src : Stream) : (writeObject P s now ref src).Within 10 := by
  refine within_ite (within_pure _) (within_bind (m := 4) (fun v => ?_) (within_fillTemp src))
  cases v with
  | none => exact within_pure _
  | some id =>
    have hclean {n : ℕ} : (cleanupTemp (α := ObjectMeta) id).Within (n + 2) := (within_cleanupTemp id).mono
      (Nat.le_add_left 2 n)
    refine within_bind (m := 3) (fun _ => within_ite hclean ?_) (within_ask _)
    refine within_bind (m := 2) (fun _ => within_ite hclean ?_) (within_ask _)
    exact within_bind (m := 1) (fun _ => within_ite (within_pure _) (within_pure _)) (within_syncParentDir _)

theorem within_writeMultipartPart (uploadID : Bytes) (n : ℤ) (src : Stream) :
    (writeMultipartPart P s now uploadID n src).Within 10 := by
  refine within_ite (within_pure _) (within_bind (m := 9) (fun _ => within_ite (within_pure _) ?_)
    (within_ite (within_pure _) (within_ask _)))
  refine within_bind (m := 3) (fun v => ?_) (within_fillTemp src)
  cases v with
  | none => exact within_pure _
  | some id =>
    refine within_bind (fun _ => within_ite (within_cleanupTemp id) ?_) (within_ask _)
    exact within_bind (m := 1) (fun _ => within_ite (within_pure _) (within_pure _)) (within_syncParentDir _)

theorem within_onDirs (upload? : Option Bytes) (o : Call) : (onDirs upload? o).Within 1 := by
  cases o with
  | syncDir path => cases upload? <;> exact fun _ => trivial
  | _ => exact fun _ => trivial

/-- **A write makes ten calls at most.** -/
theorem Write.within_act (wr : Write) : (wr.act P s now).Within 10 := by
  cases wr with
  | object ref href src =>
    exact within_bind (m := 0) (fun _ => within_pure _)
      (within_translate (within_onDirs none) (within_writeObject ref _))
  | part u n hid hn src =>
    exact within_bind (m := 0) (fun _ => within_pure _)
      (within_translate (within_onDirs (some u)) (within_writeMultipartPart u n _))

end Ends

/-! ## The guarantee -/

/-- **A turn is as it should be**: what a write commits is its source, and a directory that a clean-up
removes is older than allowed. -/
structure TurnOk (P : Platform) (s : Store) (tasks : List Task) (x : Pool dirCalls Beat DirWorld Bool)
    (i : ℕ) (b : Beat) : Prop where
  commits : ∀ wr e, tasks[i]? = some (.write wr) →
    (directories.turn x i b).events = x.events ++ [(i, e)] → wr.Commits P s e.op →
      wr.Holds P s (directories.turn x i b).world.toWorld
  removes : ∀ maxAge u t, tasks[i]? = some (.clean maxAge) → x.world.dirs.lookup u = some t →
    (directories.turn x i b).world.dirs.lookup u = none →
      maxAge < (directories.turn x i b).world.clock.sub t

/-- **Writes and clean-ups at the same time.**  A write has succeeded once it has had ten turns, and no
turn has gone wrong. -/
structure AllWell (P : Platform) (s : Store) (now : Time) (tasks : List Task) (W : DirWorld)
    (schedule : List (ℕ × Beat)) : Prop where
  succeeds : ∀ i wr, tasks[i]? = some (.write wr) → 10 ≤ (schedule.filter fun t => t.1 = i).length →
    (directories.runPool (underWay P s now tasks W) schedule).threads[i]? = some (.ret true)
  turns : ∀ before i b behind, schedule = before ++ (i, b) :: behind →
    TurnOk P s tasks (directories.runPool (underWay P s now tasks W) before) i b

section Guarantee

variable {P : Platform} {s : Store} {now : Time} {tasks : List Task} {W : DirWorld}

theorem turnOk {i : ℕ} {b : Beat}
    (hB : directories.Meets (Spared s tasks) (underWay P s now tasks W) (schedule ++ [(i, b)])) :
    TurnOk P s tasks (directories.runPool (underWay P s now tasks W) schedule) i b := by
  obtain ⟨hbefore, hlast, -⟩ := meets_append.1 hB
  obtain ⟨hthreads, hx⟩ := underWay_intact hbefore
  generalize directories.runPool (underWay P s now tasks W) schedule = x at hlast hthreads hx ⊢
  unfold Machine.MeetsNext at hlast
  have hidle (hnext : directories.turn x i b = x) : TurnOk P s tasks x i b := by
    refine ⟨fun wr e _ hevents => ?_, fun maxAge u t _ hthere hlost => ?_⟩
    · rw [hnext] at hevents
      exact absurd hevents (by simp)
    · rw [hnext, hthere] at hlost
      cases hlost
  cases hnext : x.threads[i]? with
  | none => exact hidle (by rw [turn, hnext])
  | some p =>
    cases p with
    | ret a => exact hidle (by rw [turn, hnext])
    | call o k =>
      rw [hnext] at hlast
      have hspared : Spared s tasks x i ⟨o, b, (directories.step x.world b o).1⟩ := hlast
      have hguard := (hthreads i _ hnext).1
      have hturn : directories.turn x i b = ⟨x.threads.set i (k (directories.step x.world b o).1),
          (directories.step x.world b o).2, x.events ++ [(i, ⟨o, b, (directories.step x.world b o).1⟩)]⟩ := by
        rw [turn, hnext]
      refine ⟨fun wr e htask hevents hcommits => ?_, fun maxAge u t htask hthere hlost => ?_⟩
      · rw [hturn] at hevents ⊢
        rw [htask] at hguard
        obtain rfl := (Prod.mk.inj (singleton_inj.1 (append_cancel_left hevents))).2
        exact hx.holds htask hguard (hspared.sound wr htask) hcommits
      · rw [hturn] at hlost ⊢
        rw [htask] at hguard
        exact hx.stale hguard hspared hthere hlost

/-- **Writes survive the clean-ups** that spare what they have made, whatever the turns. -/
theorem writes_survive_cleanup (P : Platform) (s : Store) (now : Time) (tasks : List Task) (W : DirWorld)
    (schedule : List (ℕ × Beat))
    (hB : directories.Meets (Spared s tasks) (underWay P s now tasks W) schedule) :
    AllWell P s now tasks W schedule := by
  refine ⟨fun i wr htask hturns => ?_, fun before i b behind hschedule => ?_⟩
  · have hstart : (underWay P s now tasks W).threads[i]? = some (wr.act P s now) := by
      change (tasks.map (Task.act P s now))[i]? = _
      rw [getElem?_map, htask]
      rfl
    obtain ⟨a, ha⟩ := exists_ret_of_within hstart wr.within_act hturns
    have hresult := (underWay_intact hB).1 i _ ha
    rw [htask] at hresult
    rwa [hresult] at ha
  · have hsplit : schedule = before ++ [(i, b)] ++ behind := by
      rw [hschedule, append_assoc, singleton_append]
    rw [hsplit] at hB
    exact turnOk (meets_append.1 hB).1

end Guarantee

def sampleWrite : Write := .object ⟨str "b", str "k", Metadata.nullVersion⟩ (by decide) (str "x")

def sampleStore : Store := { objectsRoot := str "/data/objects", multipartRoot := str "/data/multipart" }

instance (o : DirCall) : Decidable o.Removes := by
  unfold DirCall.Removes
  split <;> infer_instance

/-- Nothing goes wrong, and nothing is removed. -/
def Gentle (e : DirEvent) : Prop := e.fault.fault = .ok ∧ ¬ e.op.Removes

instance (e : DirEvent) : Decidable (Gentle e) := inferInstanceAs (Decidable (_ ∧ _))

theorem Gentle.spared {s : Store} {tasks : List Task} {x : Pool dirCalls Beat DirWorld Bool} {i : ℕ}
    (h : Gentle e) : Spared s tasks x i e := by
  have hop {o : DirCall} (ho : e.op = o) : ¬ o.Removes := ho ▸ h.2
  exact ⟨fun _ _ => h.1, fun _ ho => absurd trivial (hop ho), fun _ ho => absurd trivial (hop ho),
    fun _ ho => absurd trivial (hop ho)⟩

/-- A clean-up that has looked at the temporary files before the write begins spares it. -/
theorem writes_survive_cleanup_apart :
    AllWell digestPlatform sampleStore 0 [.clean 0, .write sampleWrite] {}
      ([(0, default), (1, default), (0, default), (0, default)] ++ replicate 9 (1, default)) := by
  have hgentle : directories.Meets (fun _ _ => Gentle)
      (underWay digestPlatform sampleStore 0 [.clean 0, .write sampleWrite] {})
      ([(0, default), (1, default), (0, default), (0, default)] ++ replicate 9 (1, default)) := by
    decide +kernel
  exact writes_survive_cleanup _ _ _ _ _ _ (hgentle.mono fun _ _ _ h => h.spared)

/-- **The clean-up removes the temporary file of a write under way**, and the write fails. -/
theorem cleanup_fails_write :
    ¬ AllWell digestPlatform sampleStore 0 [.clean 0, .write sampleWrite] {}
      ([(1, default), (0, default), (0, default)] ++ replicate 9 (1, default)) := by
  have hfailed : ((directories.runPool (underWay digestPlatform sampleStore 0
      [.clean 0, .write sampleWrite] {})
      ([(1, default), (0, default), (0, default)] ++ replicate 9 (1, default))).threads[1]?.bind
        result?) = some false := by decide +kernel
  intro h
  rw [h.succeeds 1 sampleWrite rfl (by decide)] at hfailed
  cases hfailed

end S000.Blob
