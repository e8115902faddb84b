import S000.Server.LockSafety
import S000.Server.Retention

/-!
# Server/LockRaces — lock updates, deletions and writes that take turns

A change of retention or legal hold reads a version and writes its whole metadata back; a deletion or a
write reads a version, sees that it is not locked, and acts.  Nothing keeps another request from acting
in between.  Where nothing does (`Orderly`), an entry that a request has set stands until a request
of the same kind sets it again or the version goes (`Standing`), and the version does not go while the
entry locks it.
-/

namespace S000

open Strings Metadata Blob Machine Prog MemoryState List Versions Option StrMap

/-! ## Lock entries -/

/-- What a request sets in the metadata of a version. -/
inductive LockEntry
  | retention (mode until_ : Bytes)
  | legalHold (status : Bytes)
deriving DecidableEq

namespace LockEntry

def set : LockEntry → StrMap → StrMap
  | retention mode until_, m =>
    (m.insert lockRetentionModeKey mode).insert lockRetentionRetainUntilKey until_
  | legalHold status, m => m.insert lockLegalHoldKey status

def In : LockEntry → StrMap → Prop
  | retention mode until_, m =>
    m.at lockRetentionModeKey = mode ∧ m.at lockRetentionRetainUntilKey = until_
  | legalHold status, m => m.at lockLegalHoldKey = status

/-- The entries that take the place of each other. -/
def sameKind : LockEntry → LockEntry → Bool
  | retention .., retention .. | legalHold _, legalHold _ => true
  | _, _ => false

def locks (now : Time) : LockEntry → Bool
  | retention _ until_ => (Date.parseRFC3339 (trimSpace until_)).any (now < ·)
  | legalHold status => equalFold status (str "ON")

variable {entry entry' : LockEntry} {m : StrMap}

theorem sameKind_self (entry : LockEntry) : entry.sameKind entry = true := by cases entry <;> rfl

theorem in_set : entry.In (entry.set m) := by
  cases entry with
  | retention mode until_ =>
    exact ⟨by rw [set, at_insert_of_ne (by decide), at_insert_self],
      at_insert_self _ _ _⟩
  | legalHold status => exact at_insert_self _ _ _

/-- **An entry of another kind stays.** -/
theorem In.set (h : entry.In m) (hkind : entry'.sameKind entry = false) : entry.In (entry'.set m) := by
  cases entry with
  | retention mode until_ =>
    cases entry' with
    | retention => cases hkind
    | legalHold status =>
      exact ⟨(at_insert_of_ne (by decide)).trans h.1,
        (at_insert_of_ne (by decide)).trans h.2⟩
  | legalHold status =>
    cases entry' with
    | legalHold => cases hkind
    | retention mode until_ =>
      exact (at_insert_of_ne (by decide)).trans ((at_insert_of_ne (by decide)).trans h)

theorem In.objectLocked {obj : ObjectVersion} {now : Time} (h : entry.In obj.metadata)
    (hlocks : entry.locks now = true) : objectLocked obj now = true := by
  rw [objectLocked_iff]
  cases entry with
  | retention mode until_ =>
    rw [locks] at hlocks
    cases hparse : Date.parseRFC3339 (trimSpace until_) with
    | none =>
      rw [hparse] at hlocks
      cases hlocks
    | some u =>
      rw [hparse] at hlocks
      exact .inr ⟨u, by rw [retainUntil, h.2, hparse], of_decide_eq_true hlocks⟩
  | legalHold status =>
    refine .inl ?_
    rw [onLegalHold, h]
    exact hlocks

end LockEntry

def S3Request.lockEntry (a : S3API) : S3Request → Option LockEntry
  | putRetention _ _ _ (some (mode, retainUntilDate)) =>
    (Date.parseRFC3339 (trimSpace retainUntilDate)).map fun u =>
      .retention (a.platform.toUpper (trimSpace mode)) (Date.formatRFC3339 u)
  | putLegalHold _ _ _ (some status) => some (.legalHold (a.platform.toUpper (trimSpace status)))
  | _ => none

/-- The requests that change a lock, delete or write an object of the key. -/
def S3Request.OnKey (bucket key : Bytes) : S3Request → Prop
  | putRetention _ b k _ | putLegalHold _ b k _ | deleteObject _ b k | putObject _ b k _ =>
    b = bucket ∧ k = key
  | _ => False

instance (bucket key : Bytes) (request : S3Request) : Decidable (request.OnKey bucket key) := by
  apply @S3Request.casesOn (fun request => Decidable (request.OnKey bucket key)) request <;> intros <;>
    dsimp only [S3Request.OnKey] <;> infer_instance

/-! ## What the requests call -/

section Guards

variable (a : S3API) (c : Ctx) (bucket key : Bytes) (A : (o : Call) → o.Val → Prop)

/-- The calls of a request that sets an entry: it writes back what it has read, with the entry. -/
def LockerGuard (entry : Option LockEntry) : Call → Prop
  | .updateObjectMetadata b k versionID metadata => b = bucket ∧ k = key ∧ ∃ e ∈ entry,
    ∃ checked obj, A (.getObjectVersion bucket key checked) (.ok obj) ∧
      versionID = (if checked = [] then obj.versionID else checked) ∧ metadata = e.set obj.metadata
  | o => o.Plain

/-- The calls of a request that deletes or writes: it acts after a check that found no lock, or on a
version with a new id. -/
def WriterGuard : Call → Prop
  | .deleteObjectVersion b k versionID => b = bucket ∧ k = key ∧ Unlocked A c bucket key versionID
  | .deleteAllObjectVersions b k => b = bucket ∧ k = key ∧ ∃ checked, Unlocked A c bucket key checked
  | .rename _ _ p | .promote _ _ p | .remove p => (∃ checked, Unlocked A c bucket key checked) ∨
    ∃ i, p = a.path ⟨bucket, key, newVersionID c i⟩
  | .putObjectVersion v => RowOk a v ∧ v.bucket = bucket ∧ v.key = key ∧
    (v.versionID = nullVersion → ∃ checked, Unlocked A c bucket key checked)
  | o => o.Quiet

def RequestGuard (request : S3Request) (o : Call) : Prop :=
  if request.setsLock then LockerGuard bucket key A (request.lockEntry a) o
  else WriterGuard a c bucket key A o

/-- A request that sets an entry and is accepted has set it. -/
def RequestResult (request : S3Request) (reply : Reply) : Prop :=
  request.setsLock = true → reply = .answer 200 → (∃ entry, request.lockEntry a = some entry) ∧
    ∃ versionID metadata, A (.updateObjectMetadata bucket key versionID metadata) (.ok ())

end Guards

variable {a : S3API} {w : World} {c : Ctx} {bucket key : Bytes} {A : (o : Call) → o.Val → Prop}

theorem updateLock_guarded {r : Request} {failure : String} {entry : Option LockEntry}
    {change : ObjectVersion → Except Reply StrMap}
    (hchange : ∀ obj m, change obj = .ok m → ∃ e ∈ entry, m = e.set obj.metadata)
    (herror : ∀ obj reply, change obj = .error reply → reply ≠ .answer 200) :
    (updateLock r bucket key failure change).Only A (LockerGuard bucket key A entry) fun reply =>
      reply = .answer 200 → (∃ e, entry = some e) ∧ ∃ versionID metadata,
        A (.updateObjectMetadata bucket key versionID metadata) (.ok ()) := by
  refine ⟨trivial, fun v hv => ?_⟩
  rcases v with _ | obj
  · exact nofun
  refine only_ite nofun fun _ => ?_
  cases hm : change obj with
  | error e => exact fun h => absurd h (herror obj e hm)
  | ok metadata =>
    obtain ⟨e, he, rfl⟩ := hchange obj metadata hm
    refine ⟨⟨rfl, rfl, e, he, r.query.get (str "versionId"), obj, hv, rfl, rfl⟩, fun v hv => ?_⟩
    rcases v with _ | _
    · exact nofun
    · exact fun _ => ⟨⟨e, he⟩, _, _, hv⟩

theorem writeGuard_writer : WriteGuard a A (WriterGuard a c bucket key A) c bucket key := by
  have hpath {ref : ObjectRef} (h : Target A c bucket key ref) :
      (∃ checked, Unlocked A c bucket key checked) ∨
        ∃ i, a.path ref = a.path ⟨bucket, key, newVersionID c i⟩ := by
    obtain ⟨b, -, hid⟩ := h.versionID_eq
    rcases writtenVersionID_cases c b with hnull | hnew
    · exact .inl ⟨nullVersion, h.unlocked (hid.trans hnull)⟩
    · refine .inr ⟨0, ?_⟩
      rw [← hnew, ← hid, ← h.bucket_eq, ← h.key_eq]
  exact ⟨fun ref h _ => hpath h, fun ref h _ _ => hpath h, fun row h => ⟨h.rowOk,
    h.target.bucket_eq, h.target.key_eq, fun hnull => ⟨nullVersion, h.target.unlocked hnull⟩⟩⟩

variable {request : S3Request}

/-- **What a request calls.** -/
theorem handle_guarded (h : request.OnKey bucket key) :
    (handle a c request).Only A (RequestGuard a c bucket key A request)
      (RequestResult a bucket key A request) := by
  have hwriter : ∀ o, Call.Idle o → WriterGuard a c bucket key A o := by
    intro o ho
    cases o with
    | deleteObjectVersion | deleteAllObjectVersions | rename | promote | remove | putObjectVersion =>
      exact ho.elim
    | _ => exact ho.quiet
  have hdone {request : S3Request} (hsets : request.setsLock = false) (reply : Reply) :
      RequestResult a bucket key A request reply := fun h => by
    rw [hsets] at h
    cases h
  have hlock {fn : Act Reply} {Q : Reply → Prop} {entry : Option LockEntry}
      (h : fn.Only A (LockerGuard bucket key A entry) fun reply => reply = .answer 200 → Q reply) :
      (inBucket bucket fn).Only A (LockerGuard bucket key A entry) fun reply =>
        reply = .answer 200 → Q reply := by
    refine ⟨trivial, fun v _ => ?_⟩
    rcases v with _ | _
    · exact nofun
    · exact h
  cases request with
  | putRetention r b k body =>
    obtain ⟨rfl, rfl⟩ := h
    refine (hlock (updateLock_guarded (fun obj m hm => ?_) fun obj reply hreply => ?_)).mono
      fun reply h _ => h
    · rcases body with _ | ⟨mode, date⟩
      · cases hm
      dsimp only at hm
      split_ifs at hm
      split at hm
      · cases hm
      next u hu =>
        cases hm
        have hparse := (filter_eq_some_iff.1 hu).1
        exact ⟨_, mem_def.2 (by rw [S3Request.lockEntry, hparse]; rfl), rfl⟩
    · rintro rfl
      rcases body with _ | ⟨mode, date⟩
      · cases hreply
      dsimp only at hreply
      split_ifs at hreply
      · cases hreply
      · split at hreply <;> cases hreply
  | putLegalHold r b k body =>
    obtain ⟨rfl, rfl⟩ := h
    refine (hlock (updateLock_guarded (fun obj m hm => ?_) fun obj reply hreply => ?_)).mono
      fun reply h _ => h
    · rcases body with _ | status
      · cases hm
      dsimp only at hm
      split_ifs at hm
      cases hm
      exact ⟨_, rfl, rfl⟩
    · rintro rfl
      rcases body with _ | status
      · cases hreply
      dsimp only at hreply
      split_ifs at hreply
      cases hreply
  | putObject r b k body =>
    obtain ⟨rfl, rfl⟩ := h
    exact (inBucket_only hwriter (handlePutObject_only hwriter writeGuard_writer)).mono
      fun reply _ => hdone rfl reply
  | deleteObject r b k =>
    obtain ⟨rfl, rfl⟩ := h
    refine (inBucket_only hwriter (handleDeleteObject_only hwriter
      ⟨fun _ h => ⟨rfl, rfl, h⟩, fun _ h _ _ _ => .inl ⟨_, h⟩⟩
      (fun _ _ _ _ => ⟨deleteMarker_rowOk b k c 0, rfl, rfl, fun hnull =>
        absurd hnull (newVersionID_ne_null c 0)⟩)
      fun _ _ _ _ => ⟨fun h => ⟨rfl, rfl, _, h⟩, fun h _ _ _ _ _ _ => .inl ⟨_, h⟩⟩)).mono
      fun reply _ => hdone rfl reply
  | _ => exact h.elim

/-! ## What has happened -/

/-- What a call has read of a version of the key: the id it asked for, and the answer. -/
def Call.read? (bucket key : Bytes) : (o : Call) → o.Val → Option (Bytes × Except Error ObjectVersion)
  | getObjectVersion b k versionID, v => if b = bucket ∧ k = key then some (versionID, v) else none
  | _, _ => none

def Call.altersRows (bucket key : Bytes) (f : Fault) : Call → Bool
  | putObjectVersion v => v.bucket = bucket && v.key = key && f ≠ .refused
  | updateObjectMetadata b k .. | deleteObjectVersion b k _ | deleteAllObjectVersions b k =>
    b = bucket && k = key && decide f.Lands
  | _ => false

/-- The calls that change anything of an object. -/
def Call.acts : Call → Bool
  | putObjectVersion _ | updateObjectMetadata .. | deleteObjectVersion .. | deleteAllObjectVersions ..
  | rename .. | promote .. | remove _ => true
  | _ => false

def Call.onFile : Call → Bool
  | rename .. | promote .. | remove _ => true
  | _ => false

/-- The calls that delete or replace a version, or its blob. -/
def Call.strikes (a : S3API) (r : ObjectVersion) : Call → Bool
  | rename _ _ p | promote _ _ p | remove p => p = a.path (blobRef r)
  | deleteObjectVersion b k versionID => b = r.bucket && k = r.key && versionID = r.versionID
  | deleteAllObjectVersions b k => b = r.bucket && k = r.key
  | putObjectVersion v => v.bucket = r.bucket && v.key = r.key && v.versionID = r.versionID
  | _ => false

/-- What has happened since a request first read a version of the key. -/
def sinceRead (bucket key : Bytes) (i : ℕ) (events : List (ℕ × CallEvent)) : List (ℕ × CallEvent) :=
  events.dropWhile fun t => !(t.1 = i && (t.2.op.read? bucket key t.2.val).isSome)

/-- The version that a request has read is the one with the id. -/
def LookedAt (bucket key : Bytes) (events : List (ℕ × CallEvent)) (i : ℕ) (versionID : Bytes) : Prop :=
  ∀ t ∈ events, t.1 = i → ∀ q ∈ t.2.op.read? bucket key t.2.val,
    (q.1 = [] ∨ q.1 = versionID) ∧ ∀ r ∈ q.2.toOption, r.versionID = versionID

/-- **A call that nothing comes in the way of.** -/
@[mk_iff]
structure Orderly (a : S3API) (bucket key : Bytes) (x : Pool calls Fault World Reply) (i : ℕ)
    (e : CallEvent) : Prop where
  /-- A new id is not in use. -/
  fresh : FreshPut x.world e
  /-- The reads do not fail. -/
  reads : (e.op.read? bucket key e.val).isSome = true → e.fault = .ok
  /-- No other request has changed a row of the key since the request has read it. -/
  alone : e.op.acts = true → ∀ t ∈ sinceRead bucket key i x.events, t.1 ≠ i →
    t.2.op.altersRows bucket key t.2.fault = false
  /-- A version that is deleted or replaced is the one that the request has looked at. -/
  checked : ∀ r ∈ x.world.metadata.versions bucket key, e.op.strikes a r = true →
    LookedAt bucket key x.events i r.versionID ∧ (e.op.onFile = true → r.versionID = nullVersion)

instance (bucket key : Bytes) (events : List (ℕ × CallEvent)) (i : ℕ) (versionID : Bytes) :
    Decidable (LookedAt bucket key events i versionID) :=
  inferInstanceAs (Decidable (∀ t ∈ events, t.1 = i → ∀ q ∈ t.2.op.read? bucket key t.2.val,
    (q.1 = [] ∨ q.1 = versionID) ∧ ∀ r ∈ q.2.toOption, r.versionID = versionID))

instance (a : S3API) (bucket key : Bytes) (x : Pool calls Fault World Reply) (i : ℕ) (e : CallEvent) :
    Decidable (Orderly a bucket key x i e) := decidable_of_iff' _ (orderly_iff ..)

/-! ## Entries that stand -/

section Standing

variable (entries : ℕ → Option LockEntry) (bucket key versionID : Bytes) (entry : LockEntry)

/-- An update that was answered. -/
def Call.Sets : (o : Call) → o.Val → Prop
  | updateObjectMetadata b k id _, v => b = bucket ∧ k = key ∧ id = versionID ∧ v = .ok ()
  | _, _ => False

/-- A call after which an entry need not be there: an update of the same kind, or one that deletes or
replaces the version. -/
def Overrides (t : ℕ × CallEvent) : Prop :=
  match t.2.op with
  | .updateObjectMetadata b k id _ => b = bucket ∧ k = key ∧ id = versionID ∧ t.2.fault.Lands ∧
    ∃ entry' ∈ entries t.1, entry'.sameKind entry = true
  | .putObjectVersion v => v.bucket = bucket ∧ v.key = key ∧ v.versionID = versionID ∧
    t.2.fault ≠ .refused
  | .deleteObjectVersion b k id => b = bucket ∧ k = key ∧ id = versionID ∧ t.2.fault.Lands
  | .deleteAllObjectVersions b k => b = bucket ∧ k = key ∧ t.2.fault.Lands
  | _ => False

/-- **An entry stands**: its request has set it on the version, and nothing has overridden it since. -/
def Standing (events : List (ℕ × CallEvent)) (j : ℕ) : Prop :=
  entries j = some entry ∧ ∃ before e since, events = before ++ (j, e) :: since ∧
    e.op.Sets bucket key versionID e.val ∧
    ∀ t ∈ since, ¬ Overrides entries bucket key versionID entry t

instance (o : Call) : ∀ v, Decidable (o.Sets bucket key versionID v) := by
  apply @Call.casesOn (fun o => ∀ v, Decidable (o.Sets bucket key versionID v)) o
  case updateObjectMetadata =>
    exact fun b k id _ (v : Except Error Unit) => match v with
      | .ok () => decidable_of_iff (b = bucket ∧ k = key ∧ id = versionID)
        ⟨fun h => ⟨h.1, h.2.1, h.2.2, rfl⟩, fun h => ⟨h.1, h.2.1, h.2.2.1⟩⟩
      | .error _ => .isFalse fun h => nomatch h.2.2.2
  all_goals
    intros
    exact .isFalse id

instance (t : ℕ × CallEvent) : Decidable (Overrides entries bucket key versionID entry t) := by
  unfold Overrides
  split <;> infer_instance

instance (events : List (ℕ × CallEvent)) (j : ℕ) :
    Decidable (Standing entries bucket key versionID entry events j) :=
  decidable_of_iff (entries j = some entry ∧ ∃ l ∈ events.tails, ∃ t ∈ l.head?, t.1 = j ∧
      t.2.op.Sets bucket key versionID t.2.val ∧
      ∀ t ∈ l.tail, ¬ Overrides entries bucket key versionID entry t) <| by
    refine and_congr_right fun _ => ⟨?_, ?_⟩
    · rintro ⟨l, hl, ⟨j, e⟩, ht, rfl, h⟩
      obtain ⟨before, rfl⟩ := (mem_tails _ _).1 hl
      exact ⟨before, e, l.tail, by rw [cons_head?_tail ht], h⟩
    · rintro ⟨before, e, since, rfl, h⟩
      exact ⟨_, (mem_tails _ _).2 ⟨before, rfl⟩, (j, e), rfl, rfl, h⟩

end Standing

variable {entries : ℕ → Option LockEntry} {versionID : Bytes} {entry : LockEntry}
  {events : List (ℕ × CallEvent)} {i j : ℕ} {e : CallEvent} {f : Fault} {o : Call}

/-- After one more call, an entry that stands has just been set, or stood before. -/
theorem Standing.concat (h : Standing entries bucket key versionID entry (events ++ [(i, e)]) j) :
    (entries j = some entry ∧ j = i ∧ e.op.Sets bucket key versionID e.val) ∨
      (Standing entries bucket key versionID entry events j ∧
        ¬ Overrides entries bucket key versionID entry (i, e)) := by
  obtain ⟨hentry, before, e', since, hsplit, hsets, hsince⟩ := h
  rcases split_concat hsplit with ⟨rfl, he⟩ | ⟨since', rfl, hevents⟩
  · cases he
    exact .inl ⟨hentry, rfl, hsets⟩
  · exact .inr ⟨⟨hentry, before, e', since', hevents, hsets, fun t ht =>
      hsince t (mem_append_left _ ht)⟩,
      hsince _ (mem_append_right _ (mem_singleton_self _))⟩

theorem mem_sinceRead {before since : List (ℕ × CallEvent)}
    (hevents : events = before ++ (i, e) :: since)
    (hread : (e.op.read? bucket key e.val).isSome = true) :
    ∀ t ∈ since, t ∈ sinceRead bucket key i events := by
  intro t ht
  subst hevents
  unfold sinceRead
  induction before with
  | nil =>
    rw [nil_append, dropWhile_cons_of_neg (by simp [hread])]
    exact mem_cons_of_mem _ ht
  | cons t' before ih =>
    rw [cons_append, dropWhile_cons]
    split_ifs
    · exact ih
    · exact mem_cons_of_mem _ (mem_append_right _ (mem_cons_of_mem _ ht))

theorem versions_of_not_altersRows (h : o.altersRows bucket key f = false) :
    (step w f o).2.metadata.versions bucket key = w.metadata.versions bucket key := by
  have hchange := rowChange_step w f o bucket key
  generalize hl : w.metadata.versions bucket key = l at hchange ⊢
  generalize hl' : (step w f o).2.metadata.versions bucket key = l' at hchange ⊢
  cases hchange with
  | same => rfl
  | drop hb hk | put hb hk =>
    obtain rfl : f = .refused := by simpa [Call.altersRows, hb, hk] using h
    rw [← hl', ← hl]
    rfl
  | remove | update =>
    have hf : ¬ f.Lands := by simpa [Call.altersRows] using h
    rw [← hl', ← hl, step, writing_of_not_lands hf]
  | clear =>
    have hf : ¬ f.Lands := by simpa [Call.altersRows] using h
    rw [← hl', ← hl, step, deletingAll_of_not_lands hf]

/-! ## The invariant -/

variable (a bucket key entries) in
/-- **Entries that stand are there**, and a request that has read a version has read the entries that
others have set on it, as long as no other request has changed a row since. -/
structure LocksKept (w : World) (events : List (ℕ × CallEvent)) : Prop where
  wellFormed : WellFormed a w
  standing : ∀ j versionID entry, Standing entries bucket key versionID entry events j →
    ∃ r ∈ w.metadata.versions bucket key, r.versionID = versionID ∧ entry.In r.metadata
  reads : ∀ i before e since, events = before ++ (i, e) :: since →
    (∀ t ∈ since, t.1 ≠ i → t.2.op.altersRows bucket key t.2.fault = false) →
    ∀ q ∈ e.op.read? bucket key e.val, ∀ j versionID entry, j ≠ i →
      Standing entries bucket key versionID entry events j → (q.1 = [] ∨ q.1 = versionID) →
        ∃ r, q.2 = .ok r ∧ (q.1 = versionID → r.versionID = versionID) ∧
          (r.versionID = versionID → entry.In r.metadata)

theorem Call.Sets.altersRows {v : o.Val} (h : o.Sets bucket key versionID v)
    (hv : v = (step w f o).1) : o.altersRows bucket key f = true := by
  subst hv
  cases o with
  | updateObjectMetadata b k id metadata =>
    obtain ⟨rfl, rfl, rfl, hok⟩ := h
    have hf : f.Lands := by
      by_contra hf
      cases f with
      | ok | unsaved => exact hf trivial
      | refused | broken => cases hok
    simp [altersRows, hf]
  | _ => exact h.elim

variable {r : ObjectVersion} {metadata : StrMap}

/-- A row after an update. -/
theorem mem_of_update (versionID : Bytes) (metadata : StrMap) (hw : WellFormed a w)
    (hr : r ∈ w.metadata.versions bucket key) (hf : f.Lands) :
    (if r.versionID = versionID then { r with metadata } else r) ∈
      (step w f (.updateObjectMetadata bucket key versionID metadata)).2.metadata.versions
        bucket key := by
  have hfind : find ObjectVersion.versionID r.versionID
      ((w.metadata.updateObjectMetadata bucket key versionID metadata).2.versions bucket key) = _ :=
    find_updateObjectMetadata r.versionID
  rw [find_of_mem (hw bucket key).distinct hr] at hfind
  rw [step, writing_of_lands hf]
  exact (find_some hfind).1

theorem exists_of_update {u : Unit}
    (h : (step w f (.updateObjectMetadata bucket key versionID metadata)).1 = .ok u) :
    f.Lands ∧ ∃ r ∈ w.metadata.versions bucket key, r.versionID = versionID := by
  obtain ⟨hok, -⟩ := eq_ok_of_writing h
  refine ⟨?_, ?_⟩
  · cases f with
    | ok | unsaved => trivial
    | refused | broken => cases h
  rw [updateObjectMetadata] at hok
  split at hok
  · cases hok
  next n hn =>
    obtain ⟨hlt, hid, -⟩ := findIdx?_eq_some_iff_getElem.1 hn
    exact ⟨_, getElem_mem hlt, of_decide_eq_true hid⟩

variable {x : Pool calls Fault World Reply}

/-- **What a request has read** shows the entries that others have set. -/
theorem LocksKept.seen {checked : Bytes} {v : Except Error ObjectVersion}
    (hx : LocksKept a bucket key entries x.world x.events)
    (hseen : Seen (eventsOf x i) (.getObjectVersion bucket key checked) v)
    (halone : ∀ t ∈ sinceRead bucket key i x.events, t.1 ≠ i →
      t.2.op.altersRows bucket key t.2.fault = false) (hj : j ≠ i)
    (h : Standing entries bucket key versionID entry x.events j)
    (hid : checked = [] ∨ checked = versionID) :
    ∃ r, v = .ok r ∧ (checked = versionID → r.versionID = versionID) ∧
      (r.versionID = versionID → entry.In r.metadata) := by
  obtain ⟨f₀, hmem⟩ := hseen
  obtain ⟨before, since, hsplit⟩ := append_of_mem (mem_eventsOf.1 hmem)
  have hread : Call.read? bucket key (.getObjectVersion bucket key checked) v = some (checked, v) :=
    if_pos ⟨rfl, rfl⟩
  refine hx.reads i before _ since hsplit (fun t ht => halone t ?_) (checked, v) hread j versionID
    entry hj h hid
  exact mem_sinceRead hsplit (isSome_iff_exists.2 ⟨_, hread⟩) t ht

theorem RequestGuard.putsOk (h : RequestGuard a c bucket key A request o) : PutsOk a o := by
  rintro v rfl
  unfold RequestGuard at h
  split_ifs at h
  · exact h.elim
  · exact h.1

theorem getObjectVersion_of_mem {checked : Bytes} (hw : WellFormed a w)
    (hr : r ∈ w.metadata.versions bucket key) (hid : checked = [] ∨ checked = r.versionID) :
    ∃ r', w.metadata.getObjectVersion bucket key checked = .ok r' ∧
      (checked = r.versionID → r'.versionID = r.versionID) ∧ (r'.versionID = r.versionID → r' = r) := by
  rcases hid with rfl | rfl
  · obtain ⟨last, hlast⟩ := isSome_iff_exists.1 (getLast?_isSome.2 (ne_nil_of_mem hr))
    refine ⟨last, ?_, fun h => absurd h.symm ((hw bucket key).rows r hr).named, fun h => ?_⟩
    · exact getLatestObjectVersion_eq_ok.2 hlast
    · exact inj_on_of_nodup_map (hw bucket key).distinct (mem_of_getLast? hlast) hr h
  · exact ⟨r, (hw bucket key).getObjectVersion hr, fun _ => rfl, fun _ => rfl⟩

section Turn

variable (hx : LocksKept a bucket key entries x.world x.events)
  (ho : RequestGuard a c bucket key (Seen (eventsOf x i)) request o)
  (hentry : entries i = request.lockEntry a)
  (hB : Orderly a bucket key x i ⟨o, f, (step x.world f o).1⟩)
include hx ho hentry hB

/-- **An entry that stands is there** after a call that does not override it. -/
theorem LocksKept.standing_concat
    (h : Standing entries bucket key versionID entry
      (x.events ++ [(i, ⟨o, f, (step x.world f o).1⟩)]) j) :
    ∃ r ∈ (step x.world f o).2.metadata.versions bucket key,
      r.versionID = versionID ∧ entry.In r.metadata := by
  rcases h.concat with ⟨hset, rfl, hsets⟩ | ⟨hold, hnot⟩
  · -- the entry has just been set
    cases o with
    | updateObjectMetadata b k id metadata =>
      obtain ⟨rfl, rfl, rfl, hok⟩ := hsets
      unfold RequestGuard at ho
      split_ifs at ho
      · obtain ⟨-, -, e, he, checked, obj, -, -, rfl⟩ := ho
        obtain rfl : entry = e := some.inj ((hset.symm.trans hentry).trans he)
        obtain ⟨hf, r, hr, rfl⟩ := exists_of_update hok
        have hmem := mem_of_update r.versionID (entry.set obj.metadata) hx.wellFormed hr hf
        rw [if_pos rfl] at hmem
        exact ⟨_, hmem, rfl, LockEntry.in_set⟩
      · exact ho.elim
    | _ => exact hsets.elim
  obtain ⟨r, hr, hid, hin⟩ := hx.standing j versionID entry hold
  by_cases halters : o.altersRows bucket key f = false
  · exact ⟨r, by rwa [versions_of_not_altersRows halters], hid, hin⟩
  cases o with
  | putObjectVersion v =>
    simp only [Call.altersRows, Bool.not_eq_false, Bool.and_eq_true, decide_eq_true_eq] at halters
    have hne : v.versionID ≠ r.versionID := fun h =>
      hnot ⟨halters.1.1, halters.1.2, h.trans hid, halters.2⟩
    refine ⟨r, ?_, hid, hin⟩
    have hchange := rowChange_step x.world f (.putObjectVersion v) bucket key
    generalize x.world.metadata.versions bucket key = l at hchange hr
    generalize (step x.world f _).2.metadata.versions bucket key = l' at hchange
    cases hchange with
    | same => exact hr
    | drop _ _ hv =>
      have hnull : r.versionID ≠ nullVersion := fun h => hne (hv.trans h.symm)
      exact mem_filter.2 ⟨hr, decide_eq_true hnull⟩
    | put => exact mem_put.2 (.inr ⟨hr, fun hv h => hne (hv.trans h.symm)⟩)
  | updateObjectMetadata b k id metadata =>
    simp only [Call.altersRows, Bool.not_eq_false, Bool.and_eq_true, decide_eq_true_eq] at halters
    obtain ⟨⟨rfl, rfl⟩, hf⟩ := halters
    have hmem := mem_of_update id metadata hx.wellFormed hr hf
    split_ifs at hmem with hne
    · -- another request has written back what it has read, which shows the entry
      unfold RequestGuard at ho
      split_ifs at ho
      · obtain ⟨-, -, e, he, checked, obj, hseen, rfl, rfl⟩ := ho
        have hother : e.sameKind entry = false := by
          by_contra hsame
          exact hnot ⟨rfl, rfl, hne.symm.trans hid, hf, e, hentry.trans he, Bool.not_eq_false _ ▸ hsame⟩
        have hj : j ≠ i := by
          rintro rfl
          obtain rfl : entry = e := some.inj ((hold.1.symm.trans hentry).trans he)
          rw [LockEntry.sameKind_self] at hother
          cases hother
        have hversion : (if checked = [] then obj.versionID else checked) = versionID :=
          hne.symm.trans hid
        obtain ⟨r', hobj, hread, hin'⟩ := hx.seen hseen (hB.alone rfl) hj hold (by
          split_ifs at hversion with hnil
          · exact .inl hnil
          · exact .inr hversion)
        cases hobj
        have hseen : obj.versionID = versionID := by
          split_ifs at hversion with hnil
          · exact hversion
          · exact hread hversion
        exact ⟨_, hmem, hid, (hin' hseen).set hother⟩
      · exact ho.elim
    · exact ⟨r, hmem, hid, hin⟩
  | deleteObjectVersion b k id =>
    simp only [Call.altersRows, Bool.not_eq_false, Bool.and_eq_true, decide_eq_true_eq] at halters
    obtain ⟨⟨rfl, rfl⟩, hf⟩ := halters
    have hne : r.versionID ≠ id := fun h => hnot ⟨rfl, rfl, h.symm.trans hid, hf⟩
    refine ⟨r, ?_, hid, hin⟩
    rw [step, writing_of_lands hf, versions_deleteObjectVersion, if_pos ⟨rfl, rfl⟩]
    exact (mem_remove_of_ne hne).2 hr
  | deleteAllObjectVersions b k =>
    simp only [Call.altersRows, Bool.not_eq_false, Bool.and_eq_true, decide_eq_true_eq] at halters
    exact absurd ⟨halters.1.1, halters.1.2, halters.2⟩ hnot
  | _ => exact absurd rfl halters

/-- **A call keeps the invariant.** -/
theorem LocksKept.turn :
    LocksKept a bucket key entries (step x.world f o).2
      (x.events ++ [(i, ⟨o, f, (step x.world f o).1⟩)]) where
  wellFormed := hx.wellFormed.step ho.putsOk hB.fresh
  standing j versionID entry h := hx.standing_concat ho hentry hB h
  reads i₀ before e₀ since hsplit halone q hq j versionID entry hj hst hid := by
    rcases split_concat hsplit with ⟨rfl, he⟩ | ⟨since', rfl, hevents⟩
    · -- the read has just been made
      cases he
      cases o with
      | getObjectVersion b k checked =>
        have hok := hB.reads (isSome_iff_exists.2 ⟨q, hq⟩)
        subst hok
        change (if b = bucket ∧ k = key then _ else none) = some q at hq
        split_ifs at hq with hkey
        obtain ⟨rfl, rfl⟩ := hkey
        cases hq
        rcases hst.concat with ⟨-, -, hsets⟩ | ⟨hold, -⟩
        · exact hsets.elim
        obtain ⟨r, hr, rfl, hin⟩ := hx.standing j versionID entry hold
        obtain ⟨r', hget, hversion, hsame⟩ := getObjectVersion_of_mem hx.wellFormed hr hid
        exact ⟨r', hget, hversion, fun h => hsame h ▸ hin⟩
      | _ => cases hq
    · rcases hst.concat with ⟨-, rfl, hsets⟩ | ⟨hold, -⟩
      · have halters := halone _ (mem_append_right _ (mem_singleton_self _)) hj
        rw [hsets.altersRows rfl] at halters
        cases halters
      · exact hx.reads i₀ before e₀ since' hevents (fun t ht => halone t (mem_append_left _ ht))
          q hq j versionID entry hj hold hid

end Turn

/-! ## Locked versions -/

/-- **A deletion or a write spares a version that an entry locks.** -/
theorem LocksKept.not_strikes (hsha : Function.Injective a.platform.sha256)
    (hx : LocksKept a bucket key entries x.world x.events)
    (ho : WriterGuard a c bucket key (Seen (eventsOf x i)) o)
    (hB : Orderly a bucket key x i ⟨o, f, (step x.world f o).1⟩) (hj : j ≠ i)
    (h : Standing entries bucket key r.versionID entry x.events j)
    (hlocks : entry.locks c.now = true) (hr : r ∈ x.world.metadata.versions bucket key) :
    o.strikes a r = false := by
  by_contra hstrikes
  rw [Bool.not_eq_false] at hstrikes
  obtain ⟨hlooked, hnull⟩ := hB.checked r hr hstrikes
  have hacts : o.acts = true := by
    cases o with
    | rename | promote | remove | deleteObjectVersion | deleteAllObjectVersions
    | putObjectVersion => rfl
    | _ => cases hstrikes
  obtain ⟨checked, v, hseen, hunlocked⟩ : ∃ checked,
      Unlocked (Seen (eventsOf x i)) c bucket key checked := by
    cases o with
    | rename id content p | promote u n p | remove p =>
      refine ho.resolve_right fun ⟨n, hp⟩ => ?_
      have hpath : a.path (blobRef r) = a.path ⟨bucket, key, newVersionID c n⟩ :=
        (of_decide_eq_true hstrikes).symm.trans hp
      obtain ⟨-, hversion⟩ := objectPath_inj hsha hpath
      rw [ObjectRef.version_eq ((hx.wellFormed bucket key).rows r hr).named,
        ObjectRef.version_eq (newVersionID_ne_nil c n)] at hversion
      exact newVersionID_ne_null c n (hversion.symm.trans (hnull rfl))
    | deleteObjectVersion b k id => exact ⟨_, ho.2.2⟩
    | deleteAllObjectVersions b k => exact ho.2.2
    | putObjectVersion v =>
      simp only [Call.strikes, Bool.and_eq_true, decide_eq_true_eq] at hstrikes
      refine ho.2.2.2 ((hB.fresh v rfl).resolve_right fun hunused => hunused ?_)
      rw [ho.2.1, ho.2.2.1, hstrikes.2]
      exact mem_map_of_mem hr
    | _ => cases hstrikes
  obtain ⟨f₀, hmem⟩ := hseen
  have hread : Call.read? bucket key (.getObjectVersion bucket key checked) v = some (checked, v) :=
    if_pos ⟨rfl, rfl⟩
  obtain ⟨hchecked, hversion⟩ := hlooked _ (mem_eventsOf.1 hmem) rfl (checked, v) hread
  obtain ⟨r', rfl, -, hin⟩ := hx.seen ⟨f₀, hmem⟩ (hB.alone hacts) hj h hchecked
  have hlocked := (hin (hversion r' rfl)).objectLocked hlocks
  rw [hunlocked r' rfl] at hlocked
  cases hlocked

theorem mem_of_not_strikes (hw : WellFormed a w) (ho : WriterGuard a c bucket key A o)
    (hr : r ∈ w.metadata.versions bucket key) (h : o.strikes a r = false) :
    r ∈ (step w f o).2.metadata.versions bucket key := by
  obtain ⟨hb, hk⟩ := (hw bucket key).keyed r hr
  have hchange := rowChange_step w f o bucket key
  generalize (step w f o).2.metadata.versions bucket key = l' at hchange
  cases hchange with
  | same => exact hr
  | @drop v _ hb' hk' hv =>
    have hne : r.versionID ≠ nullVersion := by
      intro hnull
      simp [Call.strikes, hb, hk, hb', hk', hv, hnull] at h
    exact mem_filter.2 ⟨hr, decide_eq_true hne⟩
  | @put v _ hb' hk' =>
    refine mem_put.2 (.inr ⟨hr, fun hv hnull => ?_⟩)
    simp [Call.strikes, hb, hk, hb', hk', hv, hnull] at h
  | @remove id =>
    refine (mem_remove_of_ne fun hid => ?_).2 hr
    simp [Call.strikes, hb, hk, hid] at h
  | clear => simp [Call.strikes, hb, hk] at h
  | update => exact ho.elim

theorem files_of_not_strikes (h : o.strikes a r = false) :
    (step w f o).2.disk.files (a.path (blobRef r)) = w.disk.files (a.path (blobRef r)) := by
  refine (fileChange_step w f o _).eq_of_not_touches fun htouches => ?_
  cases o with
  | rename | promote | remove =>
    obtain rfl := htouches
    simp [Call.strikes] at h
  | _ => exact htouches

/-! ## Whole runs -/

section Runs

variable (a bucket key) (requests : List (Ctx × S3Request)) (x : Pool calls Fault World Reply)

def lockEntries (i : ℕ) : Option LockEntry := requests[i]?.bind fun q => q.2.lockEntry a

/-- A request for a lock that was answered with 200 has set its entry on a version. -/
def Acknowledged : Prop :=
  ∀ j q, requests[j]? = some q → q.2.setsLock = true → x.threads[j]? = some (.ret (.answer 200)) →
    ∃ entry versionID e, lockEntries a requests j = some entry ∧ (j, e) ∈ x.events ∧
      e.op.Sets bucket key versionID e.val

/-- **Every entry that stands is present.** -/
def EntriesPresent : Prop :=
  ∀ j versionID entry, Standing (lockEntries a requests) bucket key versionID entry x.events j →
    ∃ r, x.world.metadata.getObjectVersion bucket key versionID = .ok r ∧ entry.In r.metadata

/-- **The next turn of a deletion or a write spares a version that an entry locks**: its row and its
blob stay as they are. -/
def SparesLocked (i : ℕ) (f : Fault) : Prop :=
  ∀ q, requests[i]? = some q → q.2.setsLock = false → ∀ j versionID entry,
    Standing (lockEntries a requests) bucket key versionID entry x.events j →
      entry.locks q.1.now = true → ∃ r,
        x.world.metadata.getObjectVersion bucket key versionID = .ok r ∧
        (stores.turn x i f).world.metadata.getObjectVersion bucket key versionID = .ok r ∧
        (stores.turn x i f).world.disk.files (a.path (blobRef r)) =
          x.world.disk.files (a.path (blobRef r))

end Runs

variable {requests : List (Ctx × S3Request)} {schedule : List (ℕ × Fault)}

theorem lockEntry_of_not_setsLock (h : request.OnKey bucket key) (hsets : request.setsLock = false) :
    request.lockEntry a = none := by
  cases request with
  | putRetention | putLegalHold => cases hsets
  | putObject | deleteObject => rfl
  | _ => exact h.elim

theorem locksKept_start (hw : WellFormed a w) : LocksKept a bucket key entries w [] where
  wellFormed := hw
  standing j versionID entry h := by
    obtain ⟨-, before, e, since, hsplit, -⟩ := h
    exact absurd hsplit.symm (append_ne_nil_of_right_ne_nil _ (cons_ne_nil _ _))
  reads i before e since hsplit :=
    absurd hsplit.symm (append_ne_nil_of_right_ne_nil _ (cons_ne_nil _ _))

/-- The invariant holds after every run, and every request keeps to its calls. -/
theorem locksKept_runPool (hw : WellFormed a w) (hrequests : ∀ q ∈ requests, q.2.OnKey bucket key)
    (hB : stores.Meets (Orderly a bucket key) (requestPool a w requests) schedule) :
    (∀ i (p : Act Reply), (stores.runPool (requestPool a w requests) schedule).threads[i]? = some p →
      p.Guarded (fun _ _ => True)
        (fun es o => ∃ q, requests[i]? = some q ∧ RequestGuard a q.1 bucket key (Seen es) q.2 o)
        (fun es reply => ∃ q, requests[i]? = some q ∧ RequestResult a bucket key (Seen es) q.2 reply)
        (eventsOf (stores.runPool (requestPool a w requests) schedule) i)) ∧
      LocksKept a bucket key (lockEntries a requests)
        (stores.runPool (requestPool a w requests) schedule).world
        (stores.runPool (requestPool a w requests) schedule).events := by
  refine runPool_of_guarded
    (fun x i f o hx ⟨q, hq, ho⟩ hB => ⟨trivial, hx.turn ho (by rw [lockEntries, hq]; rfl) hB⟩)
    (fun i p hp => ?_) (locksKept_start hw) hB
  rw [requestPool, getElem?_map] at hp
  obtain ⟨q, hq, rfl⟩ := map_eq_some_iff.1 hp
  have hguarded : (handle a q.1 q.2).Guarded (fun _ _ => True)
      (fun es => RequestGuard a q.1 bucket key (Seen es) q.2)
      (fun es => RequestResult a bucket key (Seen es) q.2)
      (eventsOf (requestPool a w requests) i) :=
    guarded_of_only fun _ _ => handle_guarded (hrequests q (mem_of_getElem? hq))
  exact (hguarded.weaken (fun _ _ h => h) fun es o h => ⟨q, hq, h⟩).mono fun es reply h => ⟨q, hq, h⟩

/-- **Locks stand where nothing comes in between.**  In every run of requests for retention and legal
holds, deletions and writes of one key, however their calls take turns and whatever fails, as long as
each call is orderly: a request that was answered with 200 has set its entry, an entry that stands is
present, and a version that such an entry locks is neither deleted nor overwritten. -/
theorem locks_stand_of_orderly (hsha : Function.Injective a.platform.sha256) (hw : WellFormed a w)
    (hrequests : ∀ q ∈ requests, q.2.OnKey bucket key)
    (hB : stores.Meets (Orderly a bucket key) (requestPool a w requests) schedule) :
    Acknowledged a bucket key requests (stores.runPool (requestPool a w requests) schedule) ∧
    EntriesPresent a bucket key requests (stores.runPool (requestPool a w requests) schedule) ∧
    ∀ before i f behind, schedule = before ++ (i, f) :: behind →
      SparesLocked a bucket key requests (stores.runPool (requestPool a w requests) before) i f := by
  obtain ⟨hthreads, hkept⟩ := locksKept_runPool hw hrequests hB
  refine ⟨fun j q hq hsets hreply => ?_, fun j versionID entry h => ?_,
    fun before i f behind hsplit q hq hsets j versionID entry h hlocks => ?_⟩
  · obtain ⟨q', hq', hresult⟩ := hthreads j _ hreply
    obtain rfl := some.inj (hq.symm.trans hq')
    obtain ⟨⟨entry, hentry⟩, versionID, metadata, f, hmem⟩ := hresult hsets rfl
    exact ⟨entry, versionID, _, by rw [lockEntries, hq]; exact hentry,
      mem_eventsOf.1 hmem, rfl, rfl, rfl, rfl⟩
  · obtain ⟨r, hr, rfl, hin⟩ := hkept.standing j versionID entry h
    exact ⟨r, (hkept.wellFormed bucket key).getObjectVersion hr, hin⟩
  · subst hsplit
    obtain ⟨hbefore, hnext, -⟩ := meets_append.1 hB
    obtain ⟨hthreads, hx⟩ := locksKept_runPool hw hrequests hbefore
    generalize stores.runPool (requestPool a w requests) before = x at hthreads hx hnext h ⊢
    obtain ⟨r, hr, rfl, -⟩ := hx.standing j versionID entry h
    have hget := (hx.wellFormed bucket key).getObjectVersion hr
    unfold MeetsNext at hnext
    unfold turn
    split at hnext
    next o k hk =>
      obtain ⟨⟨q', hq', hguard⟩, -⟩ := hthreads i _ hk
      obtain rfl := some.inj (hq.symm.trans hq')
      have hentry : lockEntries a requests i = q.2.lockEntry a := by
        rw [lockEntries, hq]
        rfl
      have hj : j ≠ i := by
        rintro rfl
        have hnone := hentry.trans (lockEntry_of_not_setsLock (hrequests q (mem_of_getElem? hq)) hsets)
        rw [h.1] at hnone
        cases hnone
      have hwriter : WriterGuard a q.1 bucket key (Seen (eventsOf x i)) o := by
        rwa [RequestGuard, hsets] at hguard
      have hstrikes := hx.not_strikes hsha hwriter hnext hj h hlocks hr
      have hmem := mem_of_not_strikes (f := f) hx.wellFormed hwriter hr hstrikes
      refine ⟨r, hget, ?_, files_of_not_strikes hstrikes⟩
      exact ((hx.turn hguard hentry hnext).wellFormed bucket key).getObjectVersion hmem
    next => exact ⟨r, hget, hget, rfl⟩

/-! ## Three requests for one object -/

def racedWorld : World := afterAll heldAPI {} retentionHistory

theorem wellFormed_racedWorld : WellFormed heldAPI racedWorld :=
  wellFormed_of_entries (by decide +kernel)

def racedRequests : List (Ctx × S3Request) :=
  [(sampleCtx 3, .putRetention objectRequest (str "b") (str "k")
      (some (str "GOVERNANCE", str "2030-01-01T00:00:00Z"))),
    (sampleCtx 4, .putLegalHold objectRequest (str "b") (str "k") (some (str "ON"))),
    (sampleCtx 5, .deleteObject objectRequest (str "b") (str "k"))]

/-- The pool after a schedule of them in which nothing fails. -/
def raced (schedule : List ℕ) : Pool calls Fault World Reply :=
  stores.runPool (requestPool heldAPI racedWorld racedRequests) (schedule.map (·, .ok))

def RacedStanding (entry : LockEntry) (x : Pool calls Fault World Reply) (j : ℕ) : Prop :=
  Standing (lockEntries heldAPI racedRequests) (str "b") (str "k") nullVersion entry x.events j

instance (entry : LockEntry) (x : Pool calls Fault World Reply) (j : ℕ) :
    Decidable (RacedStanding entry x j) :=
  inferInstanceAs (Decidable (Standing ..))

def racedRetention : LockEntry := .retention (str "GOVERNANCE") (str "2030-01-01T00:00:00Z")

def racedHold : LockEntry := .legalHold (str "ON")

/-- They take turns, but each lock is set right after it was read. -/
def racedTurns : List ℕ := [2, 0, 1, 0, 0, 2, 1, 1]

/-- Both entries are there, and the object survives. -/
theorem locks_stand_turns :
    (∃ r, (raced (racedTurns ++ [2])).world.metadata.getObjectVersion (str "b") (str "k") nullVersion =
      .ok r ∧ racedRetention.In r.metadata) ∧
    (∃ r, (raced (racedTurns ++ [2])).world.metadata.getObjectVersion (str "b") (str "k") nullVersion =
      .ok r ∧ racedHold.In r.metadata) ∧
    SparesLocked heldAPI (str "b") (str "k") racedRequests (raced racedTurns) 2 .ok := by
  have hsha : Function.Injective heldAPI.platform.sha256 := spread_sha256_injective (by decide +kernel)
  have hrequests : ∀ q ∈ racedRequests, q.2.OnKey (str "b") (str "k") := by decide
  have hB : stores.Meets (Orderly heldAPI (str "b") (str "k"))
      (requestPool heldAPI racedWorld racedRequests)
      ((racedTurns ++ [2]).map (·, Fault.ok)) := by decide +kernel
  obtain ⟨-, hpresent, hspares⟩ := locks_stand_of_orderly hsha wellFormed_racedWorld hrequests hB
  have hretention : RacedStanding racedRetention (raced (racedTurns ++ [2])) 0 := by decide +kernel
  have hhold : RacedStanding racedHold (raced (racedTurns ++ [2])) 1 := by decide +kernel
  exact ⟨hpresent _ _ _ hretention, hpresent _ _ _ hhold,
    hspares (racedTurns.map (·, Fault.ok)) 2 .ok [] rfl⟩

/-- **A lost entry, and a lost object**: where the retention and the legal hold both read before they
write, both are answered with 200 and the retention is gone; where the legal hold is set after the
deletion has found no lock, it is answered with 200 and the object is deleted. -/
theorem locks_lost :
    ((raced [0, 0, 1, 1, 0, 1]).threads[0]? = some (.ret (.answer 200)) ∧
      (raced [0, 0, 1, 1, 0, 1]).threads[1]? = some (.ret (.answer 200)) ∧
      ¬ EntriesPresent heldAPI (str "b") (str "k") racedRequests (raced [0, 0, 1, 1, 0, 1])) ∧
    (raced [2, 2, 2, 1, 1, 1]).threads[1]? = some (.ret (.answer 200)) ∧
      ¬ SparesLocked heldAPI (str "b") (str "k") racedRequests (raced [2, 2, 2, 1, 1, 1]) 2 .ok := by
  refine ⟨⟨rfl, rfl, fun h => ?_⟩, rfl, fun h => ?_⟩
  · have hstands : RacedStanding racedRetention (raced [0, 0, 1, 1, 0, 1]) 0 := by decide +kernel
    obtain ⟨r, hr, hin, -⟩ := h _ _ _ hstands
    have hgone : (((raced [0, 0, 1, 1, 0, 1]).world.metadata.getObjectVersion (str "b") (str "k")
        nullVersion).toOption.map fun r => r.metadata.at lockRetentionModeKey) = some [] := by
      decide +kernel
    rw [hr] at hgone
    have hmode := hin.symm.trans (some.inj hgone)
    exact absurd hmode (by decide)
  · have hstands : RacedStanding racedHold (raced [2, 2, 2, 1, 1, 1]) 1 := by decide +kernel
    obtain ⟨r, -, hr, -⟩ := h _ rfl rfl _ _ _ hstands (by decide +kernel)
    have hgone : ((stores.turn (raced [2, 2, 2, 1, 1, 1]) 2 .ok).world.metadata.getObjectVersion
        (str "b") (str "k") nullVersion).toOption.isSome = false := by decide +kernel
    rw [hr] at hgone
    cases hgone

end S000
