import S000.Foundations.Calendar
import S000.Server.WebUI
import S000.Store.Effects

/-!
# Server/Retention — what an update of a lock does

A retention, like a legal hold, is a change of the metadata map of one version: the handlers of the S3
API and of the web UI read a version, change its map and write the map back (`LockUpdate`).  Neither of
them compares the new retention with the old one.

The date of a retention is printed to the second and read back whenever a lock is checked.  A retention
that is accepted lasts as long as was asked for when its date has no fraction of a second and a year of
four digits; otherwise it ends early, or has no effect at all.
-/

namespace S000

open Strings Metadata Machine MemoryState List Versions Date StrMap Option

/-! ## Locks, read from the metadata -/

def onLegalHold (metadata : StrMap) : Bool := equalFold (metadata.at lockLegalHoldKey) (str "ON")

def retainUntil (metadata : StrMap) : Option Time :=
  parseRFC3339 (trimSpace (metadata.at lockRetentionRetainUntilKey))

variable {obj : ObjectVersion}

theorem objectLocked_iff {now : Time} : objectLocked obj now = true ↔
    onLegalHold obj.metadata = true ∨ ∃ u, retainUntil obj.metadata = some u ∧ now < u := by
  unfold objectLocked onLegalHold retainUntil
  split_ifs with hhold
  · exact iff_of_true rfl (.inl hhold)
  · cases parseRFC3339 (trimSpace (obj.metadata.at lockRetentionRetainUntilKey)) <;> simp [hhold]

def FourDigitYear (t : Time) : Prop :=
  0 ≤ (ofDays (t.unix / 86400)).1 ∧ (ofDays (t.unix / 86400)).1 ≤ 9999

instance (t : Time) : Decidable (FourDigitYear t) := inferInstanceAs (Decidable (_ ∧ _))

section Put

variable {obj : ObjectVersion} {mode : Bytes} {until_ : Time}

theorem mode_putRetentionMetadata :
    (putRetentionMetadata obj mode until_).at lockRetentionModeKey = mode := by
  rw [putRetentionMetadata, at_insert_of_ne (by decide), at_insert_self]

/-- **A retention is kept to the second**. -/
theorem retainUntil_putRetentionMetadata (h : FourDigitYear until_) :
    retainUntil (putRetentionMetadata obj mode until_) = some (until_.unix * 1000000000) := by
  rw [retainUntil, putRetentionMetadata, at_insert_self, trimSpace_formatRFC3339,
    parseRFC3339_formatRFC3339 h.1 h.2]

end Put

/-! ## Updates -/

/-- An update of a lock: a version is read, and its metadata replaced by what `R` makes of it. -/
def LockUpdate (bucket key versionID : Bytes) (R : ObjectVersion → StrMap → Prop)
    (st st' : MemoryState) : Prop :=
  ∃ obj metadata, st.getObjectVersion bucket key versionID = .ok obj ∧ R obj metadata ∧
    st' = (st.updateObjectMetadata bucket key obj.versionID metadata).2

variable {R : ObjectVersion → StrMap → Prop} {st st' : MemoryState}

theorem LockUpdate.mono {bucket key versionID : Bytes} {R' : ObjectVersion → StrMap → Prop}
    (hR : ∀ obj metadata, R obj metadata → R' obj metadata)
    (h : LockUpdate bucket key versionID R st st') : LockUpdate bucket key versionID R' st st' := by
  obtain ⟨obj, metadata, hobj, hmetadata, hst⟩ := h
  exact ⟨obj, metadata, hobj, hR obj metadata hmetadata, hst⟩

variable {a : S3API} {w : World} {c : Ctx} {r : Request} {bucket key versionID : Bytes}

/-- **An update through the S3 API.** -/
theorem updateLock_ensures {failure : String} {change : ObjectVersion → Except Reply StrMap}
    (hchange : ∀ obj e, change obj = .error e → e.accepted = false) :
    stores.Ensures (fun reply w' =>
        (reply.accepted = false ∧ w'.metadata = w.metadata) ∨
          LockUpdate bucket key (r.query.get (str "versionId"))
            (fun obj metadata => change obj = .ok metadata) w.metadata w'.metadata)
      (updateLock r bucket key failure change) w := by
  simp only [updateLock, ensures_bind]
  refine ensures_ask_of fun f v w₁ hv => ?_
  obtain ⟨hread, rfl⟩ := Prod.mk.inj hv
  cases v with
  | error e => exact .inl ⟨rfl, rfl⟩
  | ok obj =>
    have hobj := eq_ok_of_reading hread
    have hid : (if r.query.get (str "versionId") = [] then obj.versionID
        else r.query.get (str "versionId")) = obj.versionID := by
      split_ifs with h
      · rfl
      · exact ((mem_of_getObjectVersion hobj).2 h).symm
    refine ensures_ite _ (fun _ => .inl ⟨rfl, rfl⟩) fun _ => ?_
    cases hmetadata : change obj with
    | error e => exact .inl ⟨hchange obj e hmetadata, rfl⟩
    | ok metadata =>
      simp only [ensures_bind]
      refine ensures_ask_of fun f' v w₂ hv' => ?_
      obtain ⟨hcases, hdone⟩ := writing_outcome hv'
      rw [hid] at hcases hdone
      have hupdate (h : w₂ = { w with
          metadata := (w.metadata.updateObjectMetadata bucket key obj.versionID metadata).2 }) :
          LockUpdate bucket key (r.query.get (str "versionId"))
            (fun obj metadata => change obj = .ok metadata) w.metadata w₂.metadata :=
        ⟨obj, metadata, hobj, hmetadata, by rw [h]⟩
      cases v with
      | error e =>
        rcases hcases with rfl | h
        · exact .inl ⟨rfl, rfl⟩
        · exact .inr (hupdate h)
      | ok u => exact .inr (hupdate (hdone u rfl).2)

/-- **An update through the web UI.** -/
theorem uiUpdateLock_ensures {change : StrMap → Except String StrMap} :
    stores.Ensures (fun _ w' => w'.metadata = w.metadata ∨
        LockUpdate (trimSpace bucket) (trimSpace key) []
          (fun obj metadata => change obj.metadata = .ok metadata) w.metadata w'.metadata)
      (uiUpdateLock bucket key change) w := by
  refine ensures_ite _ (fun _ => .inl rfl) fun _ => ?_
  simp only [ensures_bind]
  refine ensures_ask_of fun f v w₁ hv => ?_
  obtain ⟨hread, rfl⟩ := Prod.mk.inj hv
  cases v with
  | error e => exact .inl rfl
  | ok obj =>
    refine ensures_ite _ (fun _ => .inl rfl) fun _ => ?_
    cases hmetadata : change obj.metadata with
    | error e => exact .inl rfl
    | ok metadata =>
      simp only [ensures_bind]
      refine ensures_ask_of fun f' v w₂ hv' => ?_
      have hupdate : w₂.metadata = w.metadata ∨ LockUpdate (trimSpace bucket) (trimSpace key) []
          (fun obj metadata => change obj.metadata = .ok metadata) w.metadata w₂.metadata := by
        rcases (writing_outcome hv').1 with rfl | h
        · exact .inl rfl
        · exact .inr ⟨obj, metadata, eq_ok_of_reading hread, hmetadata, by rw [h]⟩
      cases v with
      | error e => exact hupdate
      | ok u => exact hupdate

theorem inBucket_ensures {fn : Act Reply} {Q : Reply → World → Prop}
    (hnone : Q (noSuchBucket bucket) w) (h : stores.Ensures Q fn w) :
    stores.Ensures Q (inBucket bucket fn) w := by
  simp only [inBucket, ensures_bind]
  refine ensures_ask_of fun f v w₁ hv => ?_
  obtain ⟨-, rfl⟩ := Prod.mk.inj hv
  cases v with
  | error e => exact hnone
  | ok b => exact h

/-- **The version that is read is the version that is changed.** -/
theorem LockUpdate.find (h : LockUpdate bucket key versionID R st st') :
    ∃ obj v, st.getObjectVersion bucket key versionID = .ok obj ∧ R obj v.metadata ∧
      find ObjectVersion.versionID obj.versionID (st'.versions bucket key) = some v := by
  obtain ⟨obj, metadata, hobj, hR, rfl⟩ := h
  cases hold : find ObjectVersion.versionID obj.versionID (st.versions bucket key) with
  | none => exact absurd rfl (find_eq_none.1 hold obj (mem_of_getObjectVersion hobj).1)
  | some v =>
    refine ⟨obj, { v with metadata := metadata }, hobj, hR, ?_⟩
    rw [find_updateObjectMetadata, hold, map_some, if_pos rfl]

/-! ## Retentions through the S3 API -/

/-- What a retention document makes of the metadata of a version. -/
def Retains (a : S3API) (c : Ctx) (body : Option (Bytes × Bytes)) (obj : ObjectVersion)
    (metadata : StrMap) : Prop :=
  ∃ mode date until_, body = some (mode, date) ∧
    (a.platform.toUpper (trimSpace mode) = str "GOVERNANCE" ∨
      a.platform.toUpper (trimSpace mode) = str "COMPLIANCE") ∧
    parseRFC3339 (trimSpace date) = some until_ ∧ c.now < until_ ∧
    metadata = putRetentionMetadata obj (a.platform.toUpper (trimSpace mode)) until_

variable {body : Option (Bytes × Bytes)}

theorem handlePutRetention_ensures :
    stores.Ensures (fun reply w' =>
        (reply.accepted = false ∧ w'.metadata = w.metadata) ∨
          LockUpdate bucket key (r.query.get (str "versionId")) (Retains a c body) w.metadata
            w'.metadata)
      (handlePutRetention a c r bucket key body) w := by
  refine .mono (fun reply w' h => h.imp_right (.mono ?_)) (updateLock_ensures ?_)
  · intro obj e h
    rcases body with _ | ⟨mode, date⟩
    · cases h
      rfl
    dsimp only at h
    split_ifs at h
    · cases h
      rfl
    · split at h <;> cases h
      rfl
  · intro obj metadata h
    rcases body with _ | ⟨mode, date⟩
    · cases h
    dsimp only at h
    split_ifs at h with hmode
    split at h
    · cases h
    next until_ huntil =>
      cases h
      obtain ⟨huntil, hnow⟩ := filter_eq_some_iff.1 huntil
      exact ⟨mode, date, until_, rfl, or_iff_not_and_not.2 hmode, huntil, by simpa using hnow, rfl⟩

def retentionHistory : List Step :=
  [⟨.createBucket (str "b"), sampleCtx 1, []⟩,
    ⟨.putObject objectRequest (str "b") (str "k") ⟨str "one", false⟩, sampleCtx 2, []⟩]

def retentionStep (date : String) (mode : String := "COMPLIANCE") : Step :=
  ⟨.putRetention objectRequest (str "b") (str "k") (some (str mode, str date)), sampleCtx 3, []⟩

/-- The metadata of a version under compliance retention until a time, or longer. -/
structure Complies (until_ : Time) (metadata : StrMap) : Prop where
  mode : metadata.at lockRetentionModeKey = str "COMPLIANCE"
  retained : ∃ u, retainUntil metadata = some u ∧ until_ ≤ u

theorem Complies.locked {until_ : Time} {v : ObjectVersion} (h : Complies until_ v.metadata) {t : Time}
    (ht : t < until_) : objectLocked v t = true := by
  obtain ⟨u, hu, hle⟩ := h.retained
  exact objectLocked_iff.2 (.inr ⟨u, hu, lt_of_lt_of_le ht hle⟩)

/-- A retention of a mode until a time is no weaker than compliance until another. -/
def AtLeast (until_ : Time) (mode : Bytes) (u : Time) : Prop :=
  mode ≠ str "GOVERNANCE" ∧ (mode = str "COMPLIANCE" → until_ ≤ u)

/-- **Requests that do not weaken a retention**: a retention through the S3 API that would be stored
for the version keeps the mode, has a year of four digits, and ends at the time or later; one through
the web UI is not blank, keeps the mode, and ends at the time or later. -/
def ServerStep.Extends (a : S3API) (bucket key versionID : Bytes) (until_ : Time) (w : World) :
    ServerStep → Prop
  | s3 ⟨.putRetention r b k body, c, _⟩ => b = bucket → k = key →
    ∀ obj, w.metadata.getObjectVersion b k (r.query.get (str "versionId")) = .ok obj →
      obj.versionID = versionID →
        ∀ mode date u, body = some (mode, date) → parseRFC3339 (trimSpace date) = some u →
          c.now < u → FourDigitYear u ∧
            AtLeast until_ (a.platform.toUpper (trimSpace mode)) (u.unix * 1000000000)
  | ui (.updateObjectRetention b k retentionMode retainUntil) _ _ =>
    trimSpace b = bucket → trimSpace k = key →
    ∀ obj, w.metadata.getLatestObjectVersion bucket key = .ok obj → obj.versionID = versionID →
      ¬ (a.platform.toUpper (trimSpace retentionMode) = [] ∧ trimSpace retainUntil = []) ∧
      ∀ u, parseRFC3339 (trimSpace retainUntil) = some u →
        AtLeast until_ (a.platform.toUpper (trimSpace retentionMode)) u
  | _ => True

def ServerStep.updatesLock : ServerStep → Bool
  | s3 ⟨.putRetention .., _, _⟩ | s3 ⟨.putLegalHold .., _, _⟩ => true
  | ui (.updateObjectRetention ..) _ _ | ui (.updateObjectLegalHold ..) _ _ => true
  | _ => false

/-- A version is under compliance retention until a time, or longer. -/
def CompliesAt (bucket key versionID : Bytes) (until_ : Time) (st : MemoryState) : Prop :=
  ((st.versions bucket key).map ObjectVersion.versionID).Nodup ∧
    ∃ v, find ObjectVersion.versionID versionID (st.versions bucket key) = some v ∧
      Complies until_ v.metadata

variable {until_ : Time}

theorem Complies.insert_legalHold {metadata : StrMap} (h : Complies until_ metadata) (status : Bytes) :
    Complies until_ (metadata.insert lockLegalHoldKey status) := by
  obtain ⟨hmode, u, hu, hle⟩ := h
  refine ⟨?_, u, ?_, hle⟩
  · rwa [at_insert_of_ne (by decide)]
  · rwa [retainUntil, at_insert_of_ne (by decide)]

variable {b k id : Bytes}

/-- What is read under no id, or under the id of a version, is that version, where ids are distinct. -/
theorem find_of_getObjectVersion (hdistinct : ((st.versions b k).map ObjectVersion.versionID).Nodup)
    (h : st.getObjectVersion b k id = .ok obj) :
    find ObjectVersion.versionID obj.versionID (st.versions b k) = some obj :=
  find_of_mem hdistinct (mem_of_getObjectVersion h).1

/-- **An update that keeps to the retention** leaves the version under it. -/
theorem CompliesAt.update (hst : CompliesAt bucket key versionID until_ st)
    (h : LockUpdate b k id R st st')
    (hR : b = bucket → k = key → ∀ obj, st.getObjectVersion b k id = .ok obj →
      obj.versionID = versionID → Complies until_ obj.metadata →
        ∀ metadata, R obj metadata → Complies until_ metadata) :
    CompliesAt bucket key versionID until_ st' := by
  obtain ⟨hdistinct, v, hfind, hv⟩ := hst
  obtain ⟨obj, metadata, hobj, hmetadata, rfl⟩ := h
  by_cases hkey : bucket = b ∧ key = k
  · obtain ⟨rfl, rfl⟩ := hkey
    have hids : ((st.updateObjectMetadata bucket key obj.versionID metadata).2.versions bucket key).map
        ObjectVersion.versionID = (st.versions bucket key).map ObjectVersion.versionID := by
      have h := congrArg (map ObjectVersion.versionID)
        (@versions_updateObjectMetadata st bucket key obj.versionID metadata)
      simpa [Function.comp_def] using h
    refine ⟨by rwa [hids], _, by rw [find_updateObjectMetadata, hfind, map_some], ?_⟩
    split_ifs with hid
    · -- the version that was read is the version itself
      subst hid
      obtain rfl : obj = v := by
        rw [find_of_getObjectVersion hdistinct hobj] at hfind
        exact some.inj hfind
      exact hR rfl rfl obj hobj rfl hv metadata hmetadata
    · exact hv
  · rw [CompliesAt, versions_updateObjectMetadata_of_ne hkey]
    exact ⟨hdistinct, v, hfind, hv⟩

/-- What a retention makes of the metadata, through the S3 API, -/
theorem Retains.complies {metadata : StrMap} (h : Retains a c body obj metadata)
    (hbody : ∀ mode date u, body = some (mode, date) → parseRFC3339 (trimSpace date) = some u →
      c.now < u → FourDigitYear u ∧
        AtLeast until_ (a.platform.toUpper (trimSpace mode)) (u.unix * 1000000000)) :
    Complies until_ metadata := by
  obtain ⟨mode, date, u, rfl, hmode, hu, hnow, rfl⟩ := h
  obtain ⟨hyear, hne, hle⟩ := hbody mode date u rfl hu hnow
  have hmode := hmode.resolve_left hne
  exact ⟨mode_putRetentionMetadata.trans hmode, _, retainUntil_putRetentionMetadata hyear, hle hmode⟩

section Keeps

variable (hw : CompliesAt bucket key versionID until_ w.metadata)
include hw

/-- …and through the web UI. -/
theorem uiUpdateObjectRetention_ensures {mode date : Bytes}
    (hstep : trimSpace b = bucket → trimSpace k = key → ∀ obj,
      w.metadata.getLatestObjectVersion bucket key = .ok obj → obj.versionID = versionID →
        ¬ (a.platform.toUpper (trimSpace mode) = [] ∧ trimSpace date = []) ∧
        ∀ u, parseRFC3339 (trimSpace date) = some u →
          AtLeast until_ (a.platform.toUpper (trimSpace mode)) u) :
    stores.Ensures (fun _ w' => CompliesAt bucket key versionID until_ w'.metadata)
      (uiUpdateObjectRetention a b k mode date) w := by
  refine .mono (fun _ w' h => ?_) uiUpdateLock_ensures
  rcases h with h | h
  · rwa [h]
  refine hw.update h fun hb hk obj hobj hid _ metadata hmetadata => ?_
  subst hb hk
  obtain ⟨hblank, hleast⟩ := hstep rfl rfl obj hobj hid
  dsimp only at hmetadata
  split_ifs at hmetadata with hmode hparse
  cases hmetadata
  obtain ⟨u, hu⟩ := ne_none_iff_exists'.1 hparse
  obtain ⟨hne, hle⟩ := hleast u hu
  have hmode := (or_iff_not_and_not.2 hmode).resolve_left hne
  refine ⟨?_, u, ?_, hle hmode⟩
  · rw [at_insert_of_ne (by decide), at_insert_self, hmode]
  · rw [retainUntil, at_insert_self, trimSpace_trimSpace, hu]

theorem uiUpdateObjectLegalHold_ensures {status : Bytes} :
    stores.Ensures (fun _ w' => CompliesAt bucket key versionID until_ w'.metadata)
      (uiUpdateObjectLegalHold a b k status) w := by
  refine .mono (fun _ w' h => ?_) uiUpdateLock_ensures
  rcases h with h | h
  · rwa [h]
  refine hw.update h fun _ _ obj _ _ hobj metadata hmetadata => ?_
  dsimp only at hmetadata
  split_ifs at hmetadata
  cases hmetadata
  exact hobj.insert_legalHold _

theorem handlePutLegalHold_ensures {body : Option Bytes} :
    stores.Ensures (fun _ w' => CompliesAt bucket key versionID until_ w'.metadata)
      (handlePutLegalHold a r b k body) w := by
  refine .mono (fun _ w' h => ?_) (updateLock_ensures fun obj e h => ?_)
  · rcases h with ⟨-, h⟩ | h
    · rwa [h]
    refine hw.update h fun _ _ obj _ _ hobj metadata hmetadata => ?_
    cases body with
    | none => cases hmetadata
    | some status =>
      dsimp only at hmetadata
      split_ifs at hmetadata
      cases hmetadata
      exact hobj.insert_legalHold _
  · cases body with
    | none =>
      cases h
      rfl
    | some status =>
      dsimp only at h
      split_ifs at h
      cases h
      rfl

/-- **A request that does not weaken the retention keeps it.** -/
theorem CompliesAt.run {s : ServerStep}
    (hlock : s.updatesLock = true) (hs : s.Extends a bucket key versionID until_ w) :
    CompliesAt bucket key versionID until_ (s.run a w).world.metadata := by
  match s with
  | .s3 ⟨.putRetention r b k body, c, faults⟩ =>
    refine respond_of_ensures
      (Q := fun _ w' => CompliesAt bucket key versionID until_ w'.metadata) ?_
    refine inBucket_ensures hw (handlePutRetention_ensures.mono fun _ w' h => ?_)
    rcases h with ⟨-, h⟩ | h
    · rwa [h]
    · refine hw.update h fun hb hk obj hobj hid _ metadata hmetadata => ?_
      exact hmetadata.complies (hs hb hk obj hobj hid)
  | .s3 ⟨.putLegalHold r b k body, c, faults⟩ =>
    exact respond_of_ensures (s := ⟨.putLegalHold r b k body, c, faults⟩)
      (inBucket_ensures hw (handlePutLegalHold_ensures hw))
  | .ui (.updateObjectRetention b k mode date) c faults =>
    exact exec_of_ensures (x := ⟨w, []⟩)
      (uiUpdateObjectRetention_ensures hw hs)
  | .ui (.updateObjectLegalHold b k status) c faults =>
    exact exec_of_ensures (x := ⟨w, []⟩)
      (uiUpdateObjectLegalHold_ensures hw)

end Keeps

/-- **Compliance retention is kept.**  Under every sequence of retentions and legal holds, through the
S3 API or the web UI and whatever goes wrong, in which no retention of the version is weaker than the
one it has at the start, the version stays under compliance retention until that time or longer, and
so is locked at every time before. -/
theorem compliance_kept {steps : List ServerStep} {v : ObjectVersion}
    (hv : find ObjectVersion.versionID versionID (w.metadata.versions bucket key) = some v)
    (hmode : v.metadata.at lockRetentionModeKey = str "COMPLIANCE")
    (huntil : retainUntil v.metadata = some until_)
    (hdistinct : ((w.metadata.versions bucket key).map ObjectVersion.versionID).Nodup)
    (hlock : ∀ s ∈ steps, s.updatesLock = true)
    (hsteps : ∀ i (h : i < steps.length),
      steps[i].Extends a bucket key versionID until_ (serverAfter a w (steps.take i))) (n : ℕ) :
    ∃ v', find ObjectVersion.versionID versionID
        ((serverAfter a w (steps.take n)).metadata.versions bucket key) = some v' ∧
      v'.metadata.at lockRetentionModeKey = str "COMPLIANCE" ∧
      (∃ u, retainUntil v'.metadata = some u ∧ until_ ≤ u) ∧
      ∀ t < until_, objectLocked v' t = true := by
  have hrun : CompliesAt bucket key versionID until_ (serverAfter a w (steps.take n)).metadata := by
    induction n with
    | zero => exact ⟨hdistinct, v, hv, hmode, until_, huntil, le_rfl⟩
    | succ n ih =>
      rcases lt_or_ge n steps.length with hn | hn
      · rw [take_succ_eq_append_getElem hn, serverAfter, foldl_append]
        exact ih.run (hlock _ (getElem_mem hn)) (hsteps n hn)
      · rwa [take_of_length_le (by omega), ← take_of_length_le hn]
  obtain ⟨-, v', hv', hcomplies⟩ := hrun
  exact ⟨v', hv', hcomplies.mode, hcomplies.retained, fun t ht => hcomplies.locked ht⟩

/-- The object under compliance retention until the year 2030. -/
def retainedWorld : World :=
  after sampleAPI (afterAll sampleAPI {} retentionHistory) (retentionStep "2030-01-01T00:00:00Z")

/-- The retention is extended by a year, and the version taken off legal hold. -/
def extendingSteps : List ServerStep :=
  [.s3 (retentionStep "2031-01-01T00:00:00Z"),
    .ui (.updateObjectLegalHold (str "b") (str "k") (str "off")) (sampleCtx 4) []]

/-- A retention that is extended is kept. -/
theorem compliance_kept_extending : ∃ v',
    find ObjectVersion.versionID nullVersion ((serverAfter sampleAPI retainedWorld
      (extendingSteps.take 2)).metadata.versions (str "b") (str "k")) = some v' ∧
    ∀ t < 1893456000000000000, objectLocked v' t = true := by
  obtain ⟨v, hv, hmode, huntil⟩ : ∃ v, find ObjectVersion.versionID nullVersion
      (retainedWorld.metadata.versions (str "b") (str "k")) = some v ∧
      v.metadata.at lockRetentionModeKey = str "COMPLIANCE" ∧
      retainUntil v.metadata = some 1893456000000000000 := by
    refine ⟨_, rfl, ?_, ?_⟩ <;> decide +kernel
  have hsteps (i : ℕ) (hi : i < extendingSteps.length) :
      extendingSteps[i].Extends sampleAPI (str "b") (str "k") nullVersion 1893456000000000000
        (serverAfter sampleAPI retainedWorld (extendingSteps.take i)) := by
    match i with
    | 0 =>
      intro _ _ obj _ _ mode date u hbody hdate _
      cases hbody
      obtain rfl : 1924992000000000000 = u := some.inj
        ((by decide +kernel : parseRFC3339 (trimSpace (str "2031-01-01T00:00:00Z")) =
          some 1924992000000000000).symm.trans hdate)
      exact ⟨by decide +kernel, by decide +kernel, fun _ => by decide +kernel⟩
    | 1 => trivial
  obtain ⟨v', hv', -, -, hlocked⟩ := compliance_kept hv hmode huntil (by decide +kernel)
    (by decide +kernel) hsteps 2
  exact ⟨v', hv', hlocked⟩

/-- **A retention that is shortened, and one that is removed**: nothing compares the new one with the
old. -/
theorem compliance_weakened :
    (retainedWorld.metadata.versions (str "b") (str "k")).map (fun v =>
      (v.metadata.at lockRetentionModeKey, retainUntil v.metadata, objectLocked v 5000000000)) =
        [(str "COMPLIANCE", some 1893456000000000000, true)] ∧
    (respond sampleAPI retainedWorld (retentionStep "1970-01-01T00:00:04Z" "GOVERNANCE")).1.accepted =
      true ∧
    ((after sampleAPI retainedWorld
      (retentionStep "1970-01-01T00:00:04Z" "GOVERNANCE")).metadata.versions (str "b") (str "k")).map
        (objectLocked · 5000000000) = [false] ∧
    ((serverAfter sampleAPI retainedWorld [.ui (.updateObjectRetention (str "b") (str "k") [] [])
      (sampleCtx 4) []]).metadata.versions (str "b") (str "k")).map (objectLocked · 5000000000) =
        [false] := by
  refine ⟨?_, ?_, ?_, ?_⟩ <;> decide +kernel

end S000
