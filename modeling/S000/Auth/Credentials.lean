import S000.Auth.SigV4
import S000.Foundations.Digest

/-!
# Auth/Credentials — the credential store

A credential keeps its secret and the one its last rotation replaced, each twice: as a hash, which
`VerifySecret` compares, and as it is, which `resolveSecrets` hands to the verifier of signatures.  The
two paths agree, and both accept what the history of calls says they should (`secrets_of_history`).

A history is read through its `log`: the calls that succeeded, the last one first.  `lastCall` finds
the last call of a kind together with the ones before it, so that *the secret that the last rotation
replaced* is the last secret set before the last rotation.
-/

namespace S000

/-! ## The store -/

/-- `CredentialStatus`: a string, of which two values have names. -/
inductive CredentialStatus
  | active
  | disabled
  | other (name : Bytes)
deriving DecidableEq

inductive CredentialError
  | alreadyExists
  | notFound
  | bootstrapAlreadyCompleted
  | invalidInput
deriving DecidableEq

/-- `credentialRecord`. -/
structure CredentialRecord where
  accessKeyID : Bytes
  secretHash : Bytes
  previousSecretHash : Bytes := []
  previousSecretUntil : Time := 0
  status : CredentialStatus
  createdAt : Time
  rotatedAt : Time := 0
  secret : Bytes
  previousSecret : Bytes := []
deriving DecidableEq

/-- `CredentialStore.creds`. -/
abbrev Credentials := AList fun _ : Bytes => CredentialRecord

variable (P : Platform)

/-- `hashSecret`. -/
def hashSecret (secret : Bytes) : Bytes := Hex.encode (P.sha256 secret)

/-- `compareSecret`. -/
def compareSecret (secret expectedHash : Bytes) : Bool := hashSecret P secret = expectedHash

def newCredential (now : Time) (id secret : Bytes) : CredentialRecord :=
  { accessKeyID := id, secretHash := hashSecret P secret, status := .active, createdAt := now, secret }

/-- `BootstrapAdminCredential`: the error, if any, and the store after it. -/
def bootstrapAdminCredential (creds : Credentials) (now : Time) (id secret : Bytes) :
    Option CredentialError × Credentials :=
  if id = [] ∨ secret = [] then (some .invalidInput, creds)
  else if creds.keys.length ≠ 0 then (some .bootstrapAlreadyCompleted, creds)
  else (none, creds.insert id (newCredential P now id secret))

/-- `CreateCredential`. -/
def createCredential (creds : Credentials) (now : Time) (id secret : Bytes) :
    Option CredentialError × Credentials :=
  if id = [] ∨ secret = [] then (some .invalidInput, creds)
  else if (creds.lookup id).isSome then (some .alreadyExists, creds)
  else (none, creds.insert id (newCredential P now id secret))

def CredentialRecord.rotated (rec : CredentialRecord) (now : Time) (newSecret : Bytes) (overlap : ℤ) :
    CredentialRecord :=
  { rec with
    previousSecretHash := rec.secretHash
    previousSecret := rec.secret
    previousSecretUntil := now + overlap
    secret := newSecret
    secretHash := hashSecret P newSecret
    rotatedAt := now }

/-- `RotateCredential`. -/
def rotateCredential (creds : Credentials) (now : Time) (id newSecret : Bytes) (overlap : ℤ) :
    Option CredentialError × Credentials :=
  if id = [] ∨ newSecret = [] then (some .invalidInput, creds)
  else match creds.lookup id with
    | none => (some .notFound, creds)
    | some rec => (none, creds.insert id (rec.rotated P now newSecret overlap))

/-- `SetStatus`. -/
def setStatus (creds : Credentials) (id : Bytes) (status : CredentialStatus) :
    Option CredentialError × Credentials :=
  match creds.lookup id with
  | none => (some .notFound, creds)
  | some rec => (none, creds.insert id { rec with status })

/-- `VerifySecret`. -/
def verifySecret (creds : Credentials) (id secret : Bytes) (now : Time) : Bool :=
  match creds.lookup id with
  | none => false
  | some rec =>
    if rec.status ≠ .active then false
    else if compareSecret P secret rec.secretHash then true
    else if rec.previousSecret ≠ [] ∧ now < rec.previousSecretUntil ∧
      compareSecret P secret rec.previousSecretHash then true
    else false

/-- `resolveSecrets`: the secrets, whether the credential exists, and whether it is active. -/
def resolveSecrets (creds : Credentials) (id : Bytes) (now : Time) : List Bytes × Bool × Bool :=
  match creds.lookup id with
  | none => ([], false, false)
  | some rec =>
    if rec.status ≠ .active then ([], true, false)
    else
      let secrets := [rec.secret]
      let secrets := if rec.previousSecret ≠ [] ∧ now < rec.previousSecretUntil then
        secrets ++ [rec.previousSecret] else secrets
      (secrets, true, true)

/-! ### What the verifier of signatures reads -/

def CredentialRecord.credential (rec : CredentialRecord) : SigV4.Credential :=
  ⟨rec.secret, rec.previousSecret, rec.previousSecretUntil, rec.status = .active⟩

/-- The verifier resolves a key as the store does. -/
theorem sigV4_resolveSecrets {creds : Credentials} {store : SigV4.CredentialStore} {id : Bytes}
    (h : store.lookup id = (creds.lookup id).map CredentialRecord.credential) (now : Time) :
    SigV4.resolveSecrets store id now = match resolveSecrets creds id now with
      | (secrets, true, true) => .ok secrets
      | (_, true, false) => .error .accessDenied
      | (_, false, _) => .error .invalidAccessKeyID := by
  rw [SigV4.resolveSecrets, resolveSecrets, h]
  cases creds.lookup id with
  | none => rfl
  | some rec =>
    by_cases hactive : rec.status = .active
    · by_cases hprevious : rec.previousSecret ≠ [] ∧ now < rec.previousSecretUntil <;>
        simp [hactive, hprevious, CredentialRecord.credential, SigV4.Credential.secrets]
    · simp [hactive, CredentialRecord.credential]

/-! ## Histories -/

inductive CredentialCall
  | bootstrap (id secret : Bytes)
  | create (id secret : Bytes)
  | rotate (id newSecret : Bytes) (overlap : ℤ)
  | setStatus (id : Bytes) (status : CredentialStatus)
deriving DecidableEq

/-- The error of a call, if any, and the store after it. -/
def CredentialCall.run (creds : Credentials) (now : Time) :
    CredentialCall → Option CredentialError × Credentials
  | bootstrap id secret => bootstrapAdminCredential P creds now id secret
  | create id secret => createCredential P creds now id secret
  | rotate id newSecret overlap => rotateCredential P creds now id newSecret overlap
  | setStatus id status => S000.setStatus creds id status

/-- A store and the calls that succeeded on it, the last one first. -/
structure CredentialRun where
  creds : Credentials := ∅
  log : List (Time × CredentialCall) := []

/-- One call of a history. -/
def CredentialRun.perform (r : CredentialRun) (call : Time × CredentialCall) : CredentialRun where
  creds := (call.2.run P r.creds call.1).2
  log := if (call.2.run P r.creds call.1).1 = none then call :: r.log else r.log

/-- A history, from the empty store. -/
def performAll (history : List (Time × CredentialCall)) : CredentialRun :=
  history.foldl (fun r call => r.perform P call) {}

/-! ## What a log says -/

/-- The last call that `f` picks, and the calls before it. -/
def lastCall {β : Type} (f : Time × CredentialCall → Option β) :
    List (Time × CredentialCall) → Option (β × List (Time × CredentialCall))
  | [] => none
  | call :: earlier => match f call with
    | some b => some (b, earlier)
    | none => lastCall f earlier

def createdBy (id : Bytes) : Time × CredentialCall → Option Unit
  | (_, .bootstrap id' _) | (_, .create id' _) => if id' = id then some () else none
  | _ => none

/-- The secret that a call gives to the credential. -/
def secretBy (id : Bytes) : Time × CredentialCall → Option Bytes
  | (_, .bootstrap id' secret) | (_, .create id' secret) | (_, .rotate id' secret _) =>
    if id' = id then some secret else none
  | (_, .setStatus _ _) => none

/-- The status that a call gives to the credential. -/
def statusBy (id : Bytes) : Time × CredentialCall → Option CredentialStatus
  | (_, .bootstrap id' _) | (_, .create id' _) => if id' = id then some .active else none
  | (_, .setStatus id' status) => if id' = id then some status else none
  | (_, .rotate _ _ _) => none

/-- The end of the overlap that a rotation of the credential starts. -/
def overlapBy (id : Bytes) : Time × CredentialCall → Option Time
  | (now, .rotate id' _ overlap) => if id' = id then some (now + overlap) else none
  | _ => none

def ExistsIn (log : List (Time × CredentialCall)) (id : Bytes) : Prop :=
  (lastCall (createdBy id) log).isSome

def currentSecret (log : List (Time × CredentialCall)) (id : Bytes) : Option Bytes :=
  (lastCall (secretBy id) log).map Prod.fst

def currentStatus (log : List (Time × CredentialCall)) (id : Bytes) : Option CredentialStatus :=
  (lastCall (statusBy id) log).map Prod.fst

/-- The secret that the last rotation replaced, and the end of the overlap. -/
def replacedSecret (log : List (Time × CredentialCall)) (id : Bytes) : Option (Bytes × Time) :=
  (lastCall (overlapBy id) log).bind fun (expiry, before) =>
    (currentSecret before id).map (·, expiry)

/-- **What a history accepts**: the credential exists and is active, and the secret is the one set
last, or the one that the last rotation replaced while its overlap lasts. -/
def Accepts (log : List (Time × CredentialCall)) (id secret : Bytes) (now : Time) : Prop :=
  ExistsIn log id ∧ currentStatus log id = some .active ∧
    (currentSecret log id = some secret ∨
      ∃ expiry, replacedSecret log id = some (secret, expiry) ∧ now < expiry)

/-! ### The logs of one more call -/

section Cons

variable (id : Bytes) (call : Time × CredentialCall) (log : List (Time × CredentialCall))

theorem existsIn_cons : ExistsIn (call :: log) id ↔ createdBy id call = some () ∨ ExistsIn log id := by
  unfold ExistsIn
  rw [lastCall]
  cases createdBy id call <;> simp

theorem currentSecret_cons :
    currentSecret (call :: log) id = (secretBy id call).or (currentSecret log id) := by
  unfold currentSecret
  rw [lastCall]
  cases secretBy id call <;> rfl

theorem currentStatus_cons :
    currentStatus (call :: log) id = (statusBy id call).or (currentStatus log id) := by
  unfold currentStatus
  rw [lastCall]
  cases statusBy id call <;> rfl

theorem replacedSecret_cons : replacedSecret (call :: log) id = match overlapBy id call with
    | some expiry => (currentSecret log id).map (·, expiry)
    | none => replacedSecret log id := by
  unfold replacedSecret
  rw [lastCall]
  cases overlapBy id call <;> rfl

end Cons

def CredentialCall.id : CredentialCall → Bytes
  | bootstrap id _ | create id _ | rotate id _ _ | setStatus id _ => id

variable {id secret : Bytes} {call : Time × CredentialCall}

theorem skips_of_ne (h : call.2.id ≠ id) :
    createdBy id call = none ∧ secretBy id call = none ∧ statusBy id call = none ∧
      overlapBy id call = none := by
  obtain ⟨now, call⟩ := call
  cases call <;>
    exact ⟨by simp_all [createdBy, CredentialCall.id], by simp_all [secretBy, CredentialCall.id],
      by simp_all [statusBy, CredentialCall.id], by simp_all [overlapBy, CredentialCall.id]⟩

/-! ## What a call writes -/

/-- **The record that a call leaves**, in view of the one it finds. -/
inductive Wrote (now : Time) : CredentialCall → Option CredentialRecord → CredentialRecord → Prop
  | bootstrap {id secret : Bytes} (hsecret : secret ≠ []) :
    Wrote now (.bootstrap id secret) none (newCredential P now id secret)
  | create {id secret : Bytes} (hsecret : secret ≠ []) :
    Wrote now (.create id secret) none (newCredential P now id secret)
  | rotate {id newSecret : Bytes} {overlap : ℤ} {old : CredentialRecord} (hsecret : newSecret ≠ []) :
    Wrote now (.rotate id newSecret overlap) (some old) (old.rotated P now newSecret overlap)
  | setStatus {id : Bytes} {status : CredentialStatus} {old : CredentialRecord} :
    Wrote now (.setStatus id status) (some old) { old with status }

/-- **What a call does**: it fails and changes nothing, or it writes the record of its credential. -/
theorem run_cases (creds : Credentials) (now : Time) (call : CredentialCall) :
    ((∃ e, (call.run P creds now).1 = some e) ∧ (call.run P creds now).2 = creds) ∨
      ∃ rec, call.run P creds now = (none, creds.insert call.id rec) ∧
        Wrote P now call (creds.lookup call.id) rec := by
  cases call with
  | bootstrap id secret =>
    simp only [CredentialCall.run, bootstrapAdminCredential, CredentialCall.id]
    split_ifs with hinput hkeys
    · exact .inl ⟨⟨_, rfl⟩, rfl⟩
    · exact .inl ⟨⟨_, rfl⟩, rfl⟩
    have hnone : creds.lookup id = none := by
      rw [AList.lookup_eq_none, AList.mem_keys, List.length_eq_zero_iff.1 (not_not.1 hkeys)]
      exact List.not_mem_nil
    rw [hnone]
    exact .inr ⟨_, rfl, .bootstrap (not_or.1 hinput).2⟩
  | create id secret =>
    simp only [CredentialCall.run, createCredential, CredentialCall.id]
    split_ifs with hinput hthere
    · exact .inl ⟨⟨_, rfl⟩, rfl⟩
    · exact .inl ⟨⟨_, rfl⟩, rfl⟩
    · rw [Option.not_isSome_iff_eq_none.1 hthere]
      exact .inr ⟨_, rfl, .create (not_or.1 hinput).2⟩
  | rotate id newSecret overlap =>
    simp only [CredentialCall.run, rotateCredential, CredentialCall.id]
    split_ifs with hinput
    · exact .inl ⟨⟨_, rfl⟩, rfl⟩
    cases creds.lookup id with
    | none => exact .inl ⟨⟨_, rfl⟩, rfl⟩
    | some old => exact .inr ⟨_, rfl, .rotate (not_or.1 hinput).2⟩
  | setStatus id status =>
    simp only [CredentialCall.run, setStatus, CredentialCall.id]
    cases creds.lookup id with
    | none => exact .inl ⟨⟨_, rfl⟩, rfl⟩
    | some old => exact .inr ⟨_, rfl, .setStatus⟩

/-! ## The store tells its log -/

/-- What the log says of a credential, its record says too. -/
structure Tells (log : List (Time × CredentialCall)) (id : Bytes) (rec : Option CredentialRecord) :
    Prop where
  existing : ExistsIn log id ↔ rec.isSome
  status : currentStatus log id = rec.map CredentialRecord.status
  secret : currentSecret log id = rec.map CredentialRecord.secret
  replaced : replacedSecret log id = rec.bind fun rec =>
    if rec.previousSecret = [] then none else some (rec.previousSecret, rec.previousSecretUntil)
  nonempty : ∀ r ∈ rec, r.secret ≠ []
  hashed : ∀ r ∈ rec, r.secretHash = hashSecret P r.secret
  previousHashed : ∀ r ∈ rec, r.previousSecret ≠ [] →
    r.previousSecretHash = hashSecret P r.previousSecret

variable {P} {log : List (Time × CredentialCall)} {rec : Option CredentialRecord}

theorem Tells.skip (h : Tells P log id rec) (hne : call.2.id ≠ id) : Tells P (call :: log) id rec := by
  obtain ⟨hcreated, hsecret, hstatus, hoverlap⟩ := skips_of_ne hne
  refine ⟨?_, ?_, ?_, ?_, h.nonempty, h.hashed, h.previousHashed⟩
  · rw [existsIn_cons, hcreated, h.existing]
    simp
  · rw [currentStatus_cons, hstatus, h.status, Option.none_or]
  · rw [currentSecret_cons, hsecret, h.secret, Option.none_or]
  · rw [replacedSecret_cons, hoverlap, h.replaced]

variable {now : Time}

theorem Tells.wrote {call : CredentialCall} {old : Option CredentialRecord} {rec : CredentialRecord}
    (h : Tells P log call.id old) (hrec : Wrote P now call old rec) :
    Tells P ((now, call) :: log) call.id (some rec) := by
  have hexisting := existsIn_cons call.id (now, call) log
  have hstatus := currentStatus_cons call.id (now, call) log
  have hsecret := currentSecret_cons call.id (now, call) log
  have hreplaced := replacedSecret_cons call.id (now, call) log
  rw [h.existing] at hexisting
  rw [h.status] at hstatus
  rw [h.secret] at hsecret hreplaced
  rw [h.replaced] at hreplaced
  cases hrec with
  | bootstrap hnonempty | create hnonempty =>
    constructor <;>
      simp_all [CredentialCall.id, createdBy, statusBy, secretBy, overlapBy, newCredential]
  | rotate hnonempty =>
    have hold := h.nonempty _ rfl
    have hhash := h.hashed _ rfl
    constructor <;>
      simp_all [CredentialCall.id, createdBy, statusBy, secretBy, overlapBy, CredentialRecord.rotated]
  | setStatus =>
    have hold := h.nonempty _ rfl
    have hhash := h.hashed _ rfl
    have hprevious := h.previousHashed _ rfl
    constructor <;> simp_all [CredentialCall.id, statusBy, secretBy, overlapBy]

/-- **One call keeps the store telling its log.** -/
theorem tells_perform {r : CredentialRun} (h : ∀ id, Tells P r.log id (r.creds.lookup id))
    (call : Time × CredentialCall) (id : Bytes) :
    Tells P (r.perform P call).log id ((r.perform P call).creds.lookup id) := by
  unfold CredentialRun.perform
  rcases run_cases P r.creds call.1 call.2 with ⟨⟨e, hfails⟩, hsame⟩ | ⟨rec, hrun, hrec⟩
  · rw [hfails, hsame]
    exact h id
  rw [hrun]
  by_cases hid : call.2.id = id
  · subst hid
    rw [AList.lookup_insert]
    exact (h _).wrote hrec
  · rw [AList.lookup_insert_ne (symm hid)]
    exact (h id).skip hid

/-- **Every history keeps the store telling its log.** -/
theorem tells_performAll (history : List (Time × CredentialCall)) (id : Bytes) :
    Tells P (performAll P history).log id ((performAll P history).creds.lookup id) := by
  suffices h : ∀ (history : List (Time × CredentialCall)) (r : CredentialRun),
      (∀ id, Tells P r.log id (r.creds.lookup id)) →
        ∀ id, Tells P (history.foldl (fun r call => r.perform P call) r).log id
          ((history.foldl (fun r call => r.perform P call) r).creds.lookup id) by
    refine h history {} (fun id => ?_) id
    exact ⟨by simp [ExistsIn, lastCall], rfl, rfl, rfl, by simp, by simp, by simp⟩
  intro history
  induction history with
  | nil => exact fun r h => h
  | cons call history ih => exact fun r h => ih _ (tells_perform h call)

/-! ## The two paths -/

/-- With a hash that does not collide, the comparison of hashes is the comparison of secrets. -/
theorem compareSecret_iff (hsha : Function.Injective P.sha256) {secret' : Bytes} :
    compareSecret P secret (hashSecret P secret') = true ↔ secret = secret' := by
  unfold compareSecret hashSecret
  rw [decide_eq_true_iff, Hex.encode_injective.eq_iff, hsha.eq_iff]

/-- The secrets that a record is good for at a time. -/
def CredentialRecord.Takes (rec : CredentialRecord) (secret : Bytes) (now : Time) : Prop :=
  secret = rec.secret ∨
    rec.previousSecret ≠ [] ∧ now < rec.previousSecretUntil ∧ secret = rec.previousSecret

theorem mem_resolveSecrets_iff {creds : Credentials} :
    (∃ secrets, resolveSecrets creds id now = (secrets, true, true) ∧ secret ∈ secrets) ↔
      ∃ rec, creds.lookup id = some rec ∧ rec.status = .active ∧ rec.Takes secret now := by
  unfold resolveSecrets
  cases creds.lookup id with
  | none => simp
  | some rec =>
    by_cases hactive : rec.status = .active
    · by_cases hprevious : rec.previousSecret ≠ [] ∧ now < rec.previousSecretUntil
      · simp [hactive, hprevious, CredentialRecord.Takes]
      have htakes : rec.Takes secret now ↔ secret = rec.secret :=
        or_iff_left fun h => hprevious ⟨h.1, h.2.1⟩
      simp [hactive, if_neg hprevious, htakes]
    · simp [hactive]

theorem verifySecret_iff (hsha : Function.Injective P.sha256) {creds : Credentials}
    (h : Tells P log id (creds.lookup id)) :
    verifySecret P creds id secret now = true ↔
      ∃ rec, creds.lookup id = some rec ∧ rec.status = .active ∧ rec.Takes secret now := by
  unfold verifySecret
  have hhash := h.hashed
  have hprevious := h.previousHashed
  cases hrec : creds.lookup id with
  | none => simp
  | some rec =>
    rw [hrec] at hhash hprevious
    have hcurrent : compareSecret P secret rec.secretHash = true ↔ secret = rec.secret := by
      rw [hhash rec rfl]
      exact compareSecret_iff hsha
    by_cases hset : rec.previousSecret = []
    · by_cases hactive : rec.status = .active <;> simp [hset, hcurrent, CredentialRecord.Takes]
    have hreplaced : compareSecret P secret rec.previousSecretHash = true ↔
        secret = rec.previousSecret := by
      rw [hprevious rec rfl hset]
      exact compareSecret_iff hsha
    by_cases hactive : rec.status = .active <;>
      simp [hcurrent, hreplaced, CredentialRecord.Takes]

theorem accepts_iff (h : Tells P log id rec) :
    Accepts log id secret now ↔ ∃ r, rec = some r ∧ r.status = .active ∧ r.Takes secret now := by
  unfold Accepts
  rw [h.existing, h.status, h.secret, h.replaced]
  cases rec with
  | none => simp
  | some rec =>
    by_cases hset : rec.previousSecret = []
    · simp [hset, CredentialRecord.Takes, eq_comm]
    · simp [hset, CredentialRecord.Takes, eq_comm, and_comm]

/-- **The two paths agree with the history.**  After every history of calls, at every time,
`VerifySecret` accepts a secret exactly when `resolveSecrets` reports the credential active and lists
it, and exactly when the history accepts it; and a call that fails changes nothing. -/
theorem secrets_of_history (hsha : Function.Injective P.sha256) (history : List (Time × CredentialCall))
    (id secret : Bytes) (now : Time) :
    (verifySecret P (performAll P history).creds id secret now = true ↔
      ∃ secrets, resolveSecrets (performAll P history).creds id now = (secrets, true, true) ∧
        secret ∈ secrets) ∧
    (verifySecret P (performAll P history).creds id secret now = true ↔
      Accepts (performAll P history).log id secret now) ∧
    (∀ (time : Time) (call : CredentialCall) (e : CredentialError),
      (call.run P (performAll P history).creds time).1 = some e →
        (call.run P (performAll P history).creds time).2 = (performAll P history).creds) := by
  have htells := tells_performAll (P := P) history id
  refine ⟨?_, ?_, fun time call e he => ?_⟩
  · rw [verifySecret_iff hsha htells, mem_resolveSecrets_iff]
  · rw [verifySecret_iff hsha htells, accepts_iff htells]
  rcases run_cases P (performAll P history).creds time call with ⟨-, hsame⟩ | ⟨rec, hrun, -⟩
  · exact hsame
  · rw [hrun] at he
    cases he

/-- A platform whose hash is SHA-256 on the secrets of `twoRotations`, and injective. -/
def rotationPlatform : Platform :=
  { Sha256.platform with sha256 := spread Sha256.hash [str "first", str "second", str "third"] }

/-- Two rotations inside one overlap, and a call that fails. -/
def twoRotations : List (Time × CredentialCall) :=
  [(0, .create (str "akid") (str "first")), (10, .rotate (str "akid") (str "second") 100),
    (20, .create (str "akid") (str "fourth")), (30, .rotate (str "akid") (str "third") 100)]

theorem secrets_of_history_twoRotations :
    Function.Injective rotationPlatform.sha256 ∧
      verifySecret rotationPlatform (performAll rotationPlatform twoRotations).creds (str "akid")
        (str "first") 40 = false ∧
      verifySecret rotationPlatform (performAll rotationPlatform twoRotations).creds (str "akid")
        (str "second") 40 = true ∧
      Accepts (performAll rotationPlatform twoRotations).log (str "akid") (str "second") 40 := by
  have hsha : Function.Injective rotationPlatform.sha256 := spread_sha256_injective (by decide +kernel)
  have hsecond : verifySecret rotationPlatform (performAll rotationPlatform twoRotations).creds
      (str "akid") (str "second") 40 = true := by decide +kernel
  exact ⟨hsha, by decide +kernel, hsecond,
    (secrets_of_history hsha twoRotations (str "akid") (str "second") 40).2.1.1 hsecond⟩

end S000
