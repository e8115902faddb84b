import S000.Auth.Pat
import S000.Foundations.Digest
import S000.Foundations.JsonText
import Mathlib.Data.List.AList

/-!
# Auth/Tokens — issuing and revoking personal access tokens

A token carries its claims, so it verifies without a record; the records that a manager keeps only
serve to find the tokens that were revoked.  Both together accept **exactly the unexpired tokens that
were produced under the key and not revoked** (`verify_of_history`).

That strings which carry a valid signature were produced under the key is what a MAC is for, and is
taken as an assumption about the string in question.  That what was written as JSON and base64 is read
back, for valid text, is proved (`Claims.unmarshal_marshal`).
-/

namespace S000.Pat

open Strings List Strconv Base64 Utf8

/-! ## Making a token -/

/-- `json.Marshal` of the claims. -/
def Claims.marshal (c : Claims) : Bytes :=
  0x7B :: (Json.writeString (str "jti") ++ 0x3A :: (Json.writeString c.tokenID ++ 0x2C ::
    (Json.writeString (str "sub") ++ 0x3A :: (Json.writeString c.subject ++ 0x2C ::
      (Json.writeString (str "exp") ++ 0x3A :: (itoa c.expiresAt ++ 0x2C ::
        (Json.writeString (str "iat") ++ 0x3A :: (itoa c.issuedAt ++ [0x7D]))))))))

/-- Why no token is made. -/
inductive CreateError
  | invalidCredentialInput
  | missingSigningKey
deriving DecidableEq

variable (P : Platform)

def tokenOf (key : Bytes) (claims : Claims) : Bytes :=
  let payloadEncoded := rawURLEncode claims.marshal
  str "s000pat" ++ 0x2E ::
    (payloadEncoded ++ 0x2E :: signPersonalAccessTokenPayload P payloadEncoded key)

/-- `createPersonalAccessTokenWithID`. -/
def createPersonalAccessTokenWithID (subject key : Bytes) (now : Time) (ttl : ℤ) (tokenID : Bytes) :
    Except CreateError Bytes := do
  let subject := trimSpace subject
  let tokenID := trimSpace tokenID
  failIf (subject = [] ∨ tokenID = [] ∨ ttl ≤ 0) .invalidCredentialInput
  failIf (key = []) .missingSigningKey
  let claims : Claims :=
    { tokenID, subject, issuedAt := now.unix, expiresAt := Time.unix (now + ttl) }
  return tokenOf P key claims

/-! ## The manager -/

/-- `issuedPATRecord`. -/
structure IssuedPATRecord where
  id : Bytes
  label : Bytes
  subject : Bytes
  createdAt : Time
  expiresAt : Time
  revoked : Bool := false
  revokedAt : Time := 0
  tokenHash : Bytes
deriving DecidableEq

/-- `PersonalAccessTokenManager.issued`. -/
abbrev IssuedTokens := AList fun _ : Bytes => IssuedPATRecord

/-- The part of a record that verification reads. -/
def IssuedPATRecord.shown (rec : IssuedPATRecord) : Issued := ⟨rec.id, rec.tokenHash, rec.revoked⟩

/-- `randomTokenID`, from the random bytes that were read. -/
def randomTokenID : Option Bytes → Bytes
  | none => []
  | some b => Hex.encode b

/-- `Issue`: the token and its record, and the records after it. -/
def issue (key : Bytes) (issued : IssuedTokens) (now : Time) (random : Option Bytes) (subject : Bytes)
    (ttl : ℤ) (label : Bytes) : Except CreateError (Bytes × IssuedPATRecord) × IssuedTokens :=
  let tokenID := randomTokenID random
  match createPersonalAccessTokenWithID P subject key now ttl tokenID with
  | .error e => (.error e, issued)
  | .ok token =>
    let rec_ : IssuedPATRecord :=
      { id := tokenID, label := trimSpace label, subject := trimSpace subject, createdAt := now
        expiresAt := now + ttl, tokenHash := tokenFingerprint P token }
    (.ok (token, rec_), issued.insert tokenID rec_)

/-- `Revoke`: whether the token was found, and the records after it. -/
def revoke (issued : IssuedTokens) (now : Time) (tokenID : Bytes) : Bool × IssuedTokens :=
  let tokenID := trimSpace tokenID
  match issued.lookup tokenID with
  | none => (false, issued)
  | some rec =>
    if rec.revoked then (true, issued)
    else (true, issued.insert tokenID { rec with revoked := true, revokedAt := now })

/-! ## Histories -/

inductive TokenCall
  | issue (random : Option Bytes) (subject : Bytes) (ttl : ℤ) (label : Bytes)
  | revoke (tokenID : Bytes)
deriving DecidableEq

/-- What a call that succeeds leaves behind. -/
inductive TokenEvent
  | issued (id token : Bytes)
  | revoked (id : Bytes)
deriving DecidableEq

/-- The records, and what has happened, the last event first. -/
structure TokenRun where
  issued : IssuedTokens := ∅
  log : List TokenEvent := []

/-- One call of a history. -/
def TokenRun.perform (key : Bytes) (r : TokenRun) (call : Time × TokenCall) : TokenRun :=
  match call.2 with
  | .issue random subject ttl label =>
    match issue P key r.issued call.1 random subject ttl label with
    | (.error _, issued) => ⟨issued, r.log⟩
    | (.ok (token, rec), issued) => ⟨issued, .issued rec.id token :: r.log⟩
  | .revoke tokenID =>
    match revoke r.issued call.1 tokenID with
    | (false, issued) => ⟨issued, r.log⟩
    | (true, issued) => ⟨issued, .revoked (trimSpace tokenID) :: r.log⟩

/-- A history, from a manager without records. -/
def performAll (key : Bytes) (history : List (Time × TokenCall)) : TokenRun :=
  history.foldl (fun r call => r.perform P key call) {}

def handedOut (history : List (Time × TokenCall)) : List Bytes :=
  history.filterMap fun call => match call.2 with
    | .issue (some b) _ _ _ => some (randomTokenID (some b))
    | _ => none

/-! ## What was made is read back -/

/-- A number that an `int64` holds. -/
def IsInt64 (n : ℤ) : Prop := -2 ^ 63 ≤ n ∧ n < 2 ^ 63

instance (n : ℤ) : Decidable (IsInt64 n) := inferInstanceAs (Decidable (_ ∧ _))

theorem Claims.tokens_marshal {c : Claims} (hid : Valid c.tokenID) (hsub : Valid c.subject) :
    Json.tokens 0 c.marshal = some [.openObj,
      .scalar (.str (str "jti")), .colon, .scalar (.str c.tokenID), .comma,
      .scalar (.str (str "sub")), .colon, .scalar (.str c.subject), .comma,
      .scalar (.str (str "exp")), .colon, .scalar (.num (itoa c.expiresAt)), .comma,
      .scalar (.str (str "iat")), .colon, .scalar (.num (itoa c.issuedAt)), .closeObj] := by
  have hname (s : Bytes) (hs : validString s = true) := (valid_of_validString hs).cleaned
  change (Json.tokens 0 _).bind _ = _
  rw [Json.tokens_writeString (hname (str "jti") (by decide)), Json.tokens_colon,
    Json.tokens_writeString hid.cleaned, Json.tokens_comma,
    Json.tokens_writeString (hname (str "sub") (by decide)), Json.tokens_colon,
    Json.tokens_writeString hsub.cleaned, Json.tokens_comma,
    Json.tokens_writeString (hname (str "exp") (by decide)), Json.tokens_colon,
    Json.tokens_itoa _ (.inl rfl), Json.tokens_comma,
    Json.tokens_writeString (hname (str "iat") (by decide)), Json.tokens_colon,
    Json.tokens_itoa _ (.inr rfl)]
  rfl

/-- **Claims are read back**, when their texts are valid. -/
theorem Claims.unmarshal_marshal {c : Claims} (hid : Valid c.tokenID) (hsub : Valid c.subject)
    (hexp : IsInt64 c.expiresAt) (hiat : IsInt64 c.issuedAt) : unmarshal c.marshal = some c := by
  have hparse : Json.parse c.marshal = some (.obj [(str "jti", .str c.tokenID),
      (str "sub", .str c.subject), (str "exp", .num (itoa c.expiresAt)),
      (str "iat", .num (itoa c.issuedAt))]) := by
    rw [Json.parse, tokens_marshal hid hsub]
    rfl
  have hexpires : Json.toInt64 0 (.num (itoa c.expiresAt)) = some c.expiresAt :=
    Json.intOfText_itoa hexp.1 hexp.2
  have hissued : Json.toInt64 0 (.num (itoa c.issuedAt)) = some c.issuedAt :=
    Json.intOfText_itoa hiat.1 hiat.2
  -- no name is another one in upper or lower case
  have hfold : ∀ n ∈ ["jti", "sub", "exp", "iat"], ∀ m ∈ ["jti", "sub", "exp", "iat"],
      equalFold (str n) (str m) = decide (n = m) := by decide
  rw [unmarshal, hparse]
  simp [Json.field, hfold, Json.toStr, hexpires, hissued]

variable {P}

theorem dot_not_mem (s : Bytes) : 0x2E ∉ rawURLEncode s := by
  intro h
  obtain ⟨n, hn, hdigit⟩ := mem_encodeRaw h
  have hdots : ∀ n < 64, 0x2E ≠ digit 0x2D 0x5F n := by decide
  exact hdots n hn hdigit

theorem rawURLEncode_injective : Function.Injective rawURLEncode := fun s s' h => by
  have hs := rawURLDecode_rawURLEncode s
  rw [h, rawURLDecode_rawURLEncode] at hs
  exact (Option.some.inj hs).symm

variable {s key subject token id : Bytes}

theorem rawURLEncode_ne_nil (h : s ≠ []) : rawURLEncode s ≠ [] := fun hnil =>
  h (rawURLEncode_injective (hnil.trans rfl))

theorem split_tokenOf (hsha : ∀ s, P.sha256 s ≠ []) (key : Bytes) (c : Claims) :
    splitPersonalAccessToken (tokenOf P key c) = some (rawURLEncode c.marshal,
      signPersonalAccessTokenPayload P (rawURLEncode c.marshal) key) := by
  have hstart : 0x2E ∉ str "s000pat" := by decide
  have hsig : signPersonalAccessTokenPayload P (rawURLEncode c.marshal) key ≠ [] :=
    rawURLEncode_ne_nil (hsha _)
  have hdot : 0x2E ∉ signPersonalAccessTokenPayload P (rawURLEncode c.marshal) key :=
    dot_not_mem _
  have hpayload : rawURLEncode c.marshal ≠ [] := rawURLEncode_ne_nil (cons_ne_nil _ _)
  rw [splitPersonalAccessToken, tokenOf, split, splitOn_append_cons_self_of_not_mem hstart,
    splitOn_append_cons_self_of_not_mem (dot_not_mem _), splitOn_eq_singleton hdot]
  exact if_pos ⟨rfl, hpayload, hsig⟩

/-- **A token has one id.** -/
theorem tokenID_of_tokenOf {c c' : Claims} (h : tokenOf P key c = tokenOf P key c')
    (hc : Valid c.tokenID) (hc' : Valid c'.tokenID) : c.tokenID = c'.tokenID := by
  have hrest := (append_cons_inj (by decide) (by decide) h).2
  have hmarshal : c.marshal = c'.marshal :=
    rawURLEncode_injective (append_cons_inj (dot_not_mem _) (dot_not_mem _) hrest).1
  have hread (d : Claims) (hd : Valid d.tokenID) : ∃ items n,
      Json.scanString (d.marshal.drop (str "\x7b\"jti\":\"").length) = some (items, n) ∧
        Json.decodeItems 0 items = d.tokenID := by
    obtain ⟨items, hitems, hdecode⟩ := Json.read_writeChars hd.cleaned (0x2C ::
      (Json.writeString (str "sub") ++ 0x3A :: (Json.writeString d.subject ++ 0x2C ::
        (Json.writeString (str "exp") ++ 0x3A :: (itoa d.expiresAt ++ 0x2C ::
          (Json.writeString (str "iat") ++ 0x3A :: (itoa d.issuedAt ++ [0x7D])))))))
    exact ⟨items, _, .trans (congrArg _ (append_assoc _ _ _)) hitems, hdecode⟩
  obtain ⟨items, n, hscan, hid⟩ := hread c hc
  obtain ⟨items', n', hscan', hid'⟩ := hread c' hc'
  rw [hmarshal, hscan'] at hscan
  rw [← hid, ← hid', (Prod.mk.inj (Option.some.inj hscan)).1]

variable {now time : Time}

theorem create_eq_ok_iff {tokenID : Bytes} {ttl : ℤ} :
    createPersonalAccessTokenWithID P subject key now ttl tokenID = .ok token ↔
      (trimSpace subject ≠ [] ∧ trimSpace tokenID ≠ [] ∧ 0 < ttl) ∧ key ≠ [] ∧
        token = tokenOf P key { tokenID := trimSpace tokenID, subject := trimSpace subject
                                issuedAt := now.unix, expiresAt := Time.unix (now + ttl) } := by
  unfold createPersonalAccessTokenWithID
  simp only [failIf_bind_eq_ok, pure_eq_ok, not_or, not_le]
  exact and_congr_right fun _ => and_congr_right fun _ => eq_comm

/-! ## What a single token is worth -/

/-- The token carries a valid signature under the key. -/
def CarriesMac (P : Platform) (key token : Bytes) : Prop :=
  ∃ payload, splitPersonalAccessToken token =
    some (payload, signPersonalAccessTokenPayload P payload key)

/-- **The token was produced under the key**, for a subject and up to a second; the texts are valid and
the seconds are numbers a `time.Time` has. -/
def Produced (P : Platform) (key token subject : Bytes) (expires : ℤ) : Prop :=
  ∃ (raw : Bytes) (now : Time) (ttl : ℤ) (id : Bytes),
    createPersonalAccessTokenWithID P raw key now ttl id = .ok token ∧
      trimSpace raw = subject ∧ Time.unix (now + ttl) = expires ∧
      Valid (trimSpace raw) ∧ Valid (trimSpace id) ∧ IsInt64 now.unix ∧ IsInt64 expires

theorem carriesMac_of_verify (h : verifyPersonalAccessToken P token key now = .ok subject) :
    CarriesMac P key token := by
  unfold verifyPersonalAccessToken at h
  simp only [failIf_bind_eq_ok, orThrow_bind_eq_ok] at h
  obtain ⟨-, ⟨payload, sig⟩, hsplit, hsig, -⟩ := h
  have hsig : sig = signPersonalAccessTokenPayload P payload key := not_not.1 hsig
  exact ⟨payload, hsplit.trans (by rw [hsig])⟩

/-- A produced token verifies exactly until it expires, as long as the second it expires at is one that
verification takes for a date. -/
theorem verify_of_produced (hsha : ∀ s, P.sha256 s ≠ []) {expires : ℤ}
    (h : Produced P key token subject expires) :
    verifyPersonalAccessToken P token key now = .ok s ↔
      0 < expires ∧ now.unix < expires ∧ s = subject := by
  obtain ⟨raw, made, ttl, id, hcreate, rfl, rfl, hraw, hid, hmade, hexpires⟩ := h
  obtain ⟨⟨hsubject, htokenID, -⟩, hkey, rfl⟩ := create_eq_ok_iff.1 hcreate
  have hunmarshal : Claims.unmarshal (Claims.marshal
      { tokenID := trimSpace id, subject := trimSpace raw, issuedAt := made.unix
        expiresAt := Time.unix (made + ttl) }) = _ :=
    Claims.unmarshal_marshal hid hraw hexpires hmade
  unfold verifyPersonalAccessToken
  simp only [failIf_bind_eq_ok, orThrow_bind_eq_ok, pure_eq_ok, split_tokenOf hsha,
    Option.some.injEq, exists_eq_left', ne_eq, not_true_eq_false, not_false_eq_true, true_and,
    rawURLDecode_rawURLEncode, hunmarshal, trimSpace_trimSpace, hkey, hsubject, htokenID,
    false_or, not_le]
  exact and_congr_right fun _ => and_congr_right fun _ => eq_comm

/-! ## What the records tell -/

def RevokedIn (log : List TokenEvent) (token : Bytes) : Prop :=
  ∃ id, .issued id token ∈ log ∧ .revoked id ∈ log

/-- The records as verification sees them, in some order. -/
def records (issued : IssuedTokens) : List Issued := issued.entries.map fun e => e.2.shown

/-- **The records tell what has happened.** -/
structure Kept (P : Platform) (key : Bytes) (handed : List Bytes) (r : TokenRun) : Prop where
  record : ∀ id rec, r.issued.lookup id = some rec → ∃ token, .issued id token ∈ r.log ∧
    rec.tokenHash = tokenFingerprint P token ∧ (rec.revoked = true ↔ .revoked id ∈ r.log)
  issued : ∀ id token, .issued id token ∈ r.log → ∃ rec, r.issued.lookup id = some rec ∧
    rec.tokenHash = tokenFingerprint P token
  made : ∀ id token, .issued id token ∈ r.log → ∃ c,
    c.tokenID = id ∧ Valid id ∧ token = tokenOf P key c
  revoked : ∀ id, .revoked id ∈ r.log → (r.issued.lookup id).isSome
  handed : ∀ id, (r.issued.lookup id).isSome → id ∈ handed

variable {handed : List Bytes} {r : TokenRun}

theorem Kept.issue {rec : IssuedPATRecord} (h : Kept P key handed r) (hid : id ∉ handed)
    (hrec : rec.tokenHash = tokenFingerprint P token) (hnew : rec.revoked = false)
    (hmade : ∃ c, c.tokenID = id ∧ Valid id ∧ token = tokenOf P key c) :
    Kept P key (handed ++ [id]) ⟨r.issued.insert id rec, .issued id token :: r.log⟩ := by
  have hnone : ¬ (r.issued.lookup id).isSome := fun h' => hid (h.handed id h')
  refine ⟨fun id' rec' hrec' => ?_, fun id' token' hmem => ?_, fun id' token' hmem => ?_,
    fun id' hmem => ?_, fun id' hsome => ?_⟩
  · by_cases heq : id' = id
    · subst heq
      rw [AList.lookup_insert] at hrec'
      cases hrec'
      refine ⟨token, mem_cons_self, hrec, ?_⟩
      rw [hnew]
      refine ⟨fun h' => (by cases h'), fun hmem => ?_⟩
      rcases mem_cons.1 hmem with h' | h'
      · cases h'
      · exact absurd (h.revoked id' h') hnone
    · rw [AList.lookup_insert_ne heq] at hrec'
      obtain ⟨token', hmem, hhash, hrevoked⟩ := h.record id' rec' hrec'
      refine ⟨token', mem_cons_of_mem _ hmem, hhash, hrevoked.trans ?_⟩
      simp
  · by_cases heq : id' = id
    · subst heq
      rcases mem_cons.1 hmem with h' | h'
      · cases h'
        exact ⟨rec, AList.lookup_insert _, hrec⟩
      · obtain ⟨rec', hlookup, -⟩ := h.issued id' token' h'
        exact absurd (Option.isSome_of_eq_some hlookup) hnone
    · rw [AList.lookup_insert_ne heq]
      exact h.issued id' token' ((mem_cons.1 hmem).resolve_left fun h' => by
        cases h'
        exact heq rfl)
  · rcases mem_cons.1 hmem with h' | h'
    · cases h'
      exact hmade
    · exact h.made id' token' h'
  · by_cases heq : id' = id
    · subst heq
      rw [AList.lookup_insert]
      rfl
    · rw [AList.lookup_insert_ne heq]
      exact h.revoked id' (by simpa using hmem)
  · by_cases heq : id' = id
    · exact mem_append_right _ (mem_singleton.2 heq)
    · rw [AList.lookup_insert_ne heq] at hsome
      exact mem_append_left _ (h.handed id' hsome)

theorem Kept.revoke {rec rec' : IssuedPATRecord} (h : Kept P key handed r)
    (hrec : r.issued.lookup id = some rec) (hhash : rec'.tokenHash = rec.tokenHash)
    (hrevoked : rec'.revoked = true) :
    Kept P key handed ⟨r.issued.insert id rec', .revoked id :: r.log⟩ := by
  have hsome : (r.issued.lookup id).isSome := Option.isSome_of_eq_some hrec
  refine ⟨fun id' rec'' hrec'' => ?_, fun id' token hmem => ?_, fun id' token hmem => ?_,
    fun id' hmem => ?_, fun id' hsome' => ?_⟩
  · by_cases heq : id' = id
    · subst heq
      rw [AList.lookup_insert] at hrec''
      cases hrec''
      obtain ⟨token, hmem, htoken, -⟩ := h.record id' rec hrec
      refine ⟨token, mem_cons_of_mem _ hmem, hhash.trans htoken, ?_⟩
      simp [hrevoked]
    · rw [AList.lookup_insert_ne heq] at hrec''
      obtain ⟨token, hmem, htoken, hiff⟩ := h.record id' rec'' hrec''
      refine ⟨token, mem_cons_of_mem _ hmem, htoken, hiff.trans ?_⟩
      simp [heq]
  · have hmem : .issued id' token ∈ r.log := by simpa using hmem
    obtain ⟨rec'', hlookup, htoken⟩ := h.issued id' token hmem
    by_cases heq : id' = id
    · subst heq
      obtain rfl := Option.some.inj (hrec.symm.trans hlookup)
      exact ⟨rec', AList.lookup_insert _, hhash.trans htoken⟩
    · exact ⟨rec'', (AList.lookup_insert_ne heq).trans hlookup, htoken⟩
  · exact h.made id' token (by simpa using hmem)
  · by_cases heq : id' = id
    · subst heq
      rw [AList.lookup_insert]
      rfl
    · rw [AList.lookup_insert_ne heq]
      exact h.revoked id' (by simpa [heq] using hmem)
  · by_cases heq : id' = id
    · exact heq ▸ h.handed id hsome
    · rw [AList.lookup_insert_ne heq] at hsome'
      exact h.handed id' hsome'

theorem Kept.again (h : Kept P key handed r) (hrevoked : .revoked id ∈ r.log) :
    Kept P key handed ⟨r.issued, .revoked id :: r.log⟩ := by
  have hmem (e : TokenEvent) : e ∈ .revoked id :: r.log ↔ e ∈ r.log := by
    refine ⟨fun h' => (mem_cons.1 h').elim (fun h' => h' ▸ hrevoked) fun h' => h', fun h' =>
      mem_cons_of_mem _ h'⟩
  exact ⟨by simpa only [hmem] using h.record, by simpa only [hmem] using h.issued,
    by simpa using h.made, by simpa only [hmem] using h.revoked, h.handed⟩

theorem handedOut_append (history : List (Time × TokenCall)) (call : Time × TokenCall) :
    handedOut (history ++ [call]) = handedOut history ++ handedOut [call] := filterMap_append

theorem performAll_append (key : Bytes) (history : List (Time × TokenCall)) (call : Time × TokenCall) :
    performAll P key (history ++ [call]) = (performAll P key history).perform P key call := by
  unfold performAll
  rw [foldl_append]
  rfl

/-- **One call keeps the records telling**, when it hands out an id that is new. -/
theorem Kept.perform (h : Kept P key handed r) {call : Time × TokenCall}
    (hnew : (handed ++ handedOut [call]).Nodup) :
    Kept P key (handed ++ handedOut [call]) (r.perform P key call) := by
  obtain ⟨now, call⟩ := call
  cases call with
  | issue random subject ttl label =>
    unfold TokenRun.perform Pat.issue
    cases hcreate : createPersonalAccessTokenWithID P subject key now ttl (randomTokenID random) with
    | error e =>
      simp only [hcreate]
      exact ⟨h.record, h.issued, h.made, h.revoked, fun id hid => mem_append_left _ (h.handed id hid)⟩
    | ok token =>
      obtain ⟨⟨-, htokenID, -⟩, -, htoken⟩ := create_eq_ok_iff.1 hcreate
      cases random with
      | none => exact absurd rfl htokenID
      | some b =>
        have hprintable : ∀ c ∈ Hex.encode b, 0x20 < c ∧ c < 0x80 := fun c =>
          Hex.printable_of_mem_encode
        have htrim : trimSpace (randomTokenID (some b)) = randomTokenID (some b) :=
          trimSpace_of_printable hprintable
        simp only [hcreate]
        refine h.issue (fun hmem => ?_) rfl rfl ⟨_, htrim, ?_, htoken⟩
        · exact (nodup_append.1 hnew).2.2 _ hmem _ (mem_singleton_self _) rfl
        · exact valid_of_ascii fun c hc => (hprintable c hc).2
  | revoke tokenID =>
    rw [show handedOut [(now, .revoke tokenID)] = [] from rfl, append_nil]
    unfold TokenRun.perform Pat.revoke
    cases hlookup : r.issued.lookup (trimSpace tokenID) with
    | none =>
      simp only [hlookup]
      exact h
    | some rec =>
      simp only [hlookup]
      by_cases hrevoked : rec.revoked = true
      · rw [if_pos hrevoked]
        obtain ⟨-, -, -, hiff⟩ := h.record _ rec hlookup
        exact h.again (hiff.1 hrevoked)
      · rw [if_neg hrevoked]
        exact h.revoke hlookup rfl rfl

/-- **Every history keeps the records telling.** -/
theorem kept_performAll (key : Bytes) {history : List (Time × TokenCall)}
    (hids : (handedOut history).Nodup) : Kept P key (handedOut history) (performAll P key history) := by
  induction history using reverseRecOn with
  | nil =>
    exact ⟨fun _ _ h => (by cases h), fun _ _ h => (by cases h), fun _ _ h => (by cases h),
      fun _ h => (by cases h), fun _ h => (by cases h)⟩
  | append_singleton history call ih =>
    rw [handedOut_append] at hids ⊢
    rw [performAll_append]
    exact (ih (nodup_append.1 hids).1).perform hids

/-! ## What a manager accepts -/

theorem tokenFingerprint_injective (hsha : Function.Injective P.sha256) :
    Function.Injective (tokenFingerprint P) := Hex.encode_injective.comp hsha

theorem mem_records {issued : IssuedTokens} {x : Issued} :
    x ∈ records issued ↔ ∃ id rec, issued.lookup id = some rec ∧ rec.shown = x := by
  unfold records
  rw [mem_map]
  constructor
  · rintro ⟨⟨id, rec⟩, hmem, rfl⟩
    exact ⟨id, rec, AList.mem_lookup_iff.2 hmem, rfl⟩
  · rintro ⟨id, rec, hlookup, rfl⟩
    exact ⟨⟨id, rec⟩, AList.mem_lookup_iff.1 hlookup, rfl⟩

/-- **The record that verification finds** says whether the token was revoked, in whatever order it goes
through the records. -/
theorem Kept.find?_iff (hsha : Function.Injective P.sha256) (h : Kept P key handed r)
    (token : Bytes) {order : List Issued} (horder : order.Perm (records r.issued)) :
    (order.find? fun rec => rec.tokenHash = tokenFingerprint P token).any (·.revoked) = true ↔
      RevokedIn r.log token := by
  -- a record with the fingerprint is the record of the token
  have hfound (x : Issued) (hfind : order.find? (fun rec => rec.tokenHash = tokenFingerprint P token) =
      some x) : ∃ id, .issued id token ∈ r.log ∧ (x.revoked = true ↔ .revoked id ∈ r.log) := by
    obtain ⟨id, rec, hlookup, rfl⟩ := mem_records.1 (horder.mem_iff.1 (mem_of_find?_eq_some hfind))
    have hhash := find?_some hfind
    rw [decide_eq_true_iff] at hhash
    obtain ⟨token', hmem, hhash', hiff⟩ := h.record id rec hlookup
    rw [tokenFingerprint_injective hsha (hhash.symm.trans hhash')]
    exact ⟨id, hmem, hiff⟩
  constructor
  · intro hany
    obtain ⟨x, hfind, hrevoked⟩ := (Option.any_eq_true _ _).1 hany
    obtain ⟨id, hmem, hiff⟩ := hfound x hfind
    exact ⟨id, hmem, hiff.1 hrevoked⟩
  rintro ⟨id, hissued, hrevoked⟩
  obtain ⟨rec, hlookup, hhash⟩ := h.issued id token hissued
  have hmem : rec.shown ∈ order := horder.mem_iff.2 (mem_records.2 ⟨id, rec, hlookup, rfl⟩)
  obtain ⟨x, hfind⟩ := Option.isSome_iff_exists.1 (find?_isSome
    (p := fun rec : Issued => rec.tokenHash = tokenFingerprint P token)
    |>.2 ⟨rec.shown, hmem, decide_eq_true hhash⟩)
  rw [hfind]
  obtain ⟨id', hissued', hiff⟩ := hfound x hfind
  -- the two ids are of one token, which has one id
  obtain ⟨c, rfl, hvalid, htoken⟩ := h.made id token hissued
  obtain ⟨c', rfl, hvalid', htoken'⟩ := h.made id' token hissued'
  rw [tokenID_of_tokenOf (htoken.symm.trans htoken') hvalid hvalid'] at hrevoked
  exact hiff.2 hrevoked

/-- What a manager accepts: what the signature, the claims and the clock accept, and was not revoked. -/
theorem Kept.verify_iff (hsha : Function.Injective P.sha256) (h : Kept P key handed r)
    {order : List Issued} (horder : order.Perm (records r.issued)) :
    Manager.verify P ⟨key, now, order⟩ token = .ok s ↔
      verifyPersonalAccessToken P token key now = .ok s ∧ ¬ RevokedIn r.log token := by
  have hfind := h.find?_iff hsha token horder
  unfold Manager.verify
  rw [bind_eq_ok]
  simp only [failIf_bind_eq_ok, pure_eq_ok, hfind]
  constructor
  · rintro ⟨subject, hverify, hrevoked, rfl⟩
    exact ⟨hverify, hrevoked⟩
  · rintro ⟨hverify, hrevoked⟩
    exact ⟨s, hverify, hrevoked, rfl⟩

theorem mem_log_of_append {history later : List (Time × TokenCall)} {e : TokenEvent}
    (h : e ∈ (performAll P key history).log) : e ∈ (performAll P key (history ++ later)).log := by
  induction later using reverseRecOn with
  | nil => rwa [append_nil]
  | append_singleton later call ih =>
    rw [← append_assoc, performAll_append]
    unfold TokenRun.perform
    split
    · split
      · exact ih
      · exact mem_cons_of_mem _ ih
    · split
      · exact ih
      · exact mem_cons_of_mem _ ih

theorem mem_log_revoke {e : TokenEvent} :
    e ∈ (r.perform P key (time, .revoke id)).log → e ∈ r.log ∨ e = .revoked (trimSpace id) := by
  unfold TokenRun.perform
  split
  · next h => cases h
  next h =>
  cases h
  split
  · exact .inl
  · exact fun he => (mem_cons.1 he).symm

theorem revokedIn_revoke (hother : .issued (trimSpace id) token ∉ r.log) :
    RevokedIn (r.perform P key (time, .revoke id)).log token ↔ RevokedIn r.log token := by
  have hkeeps (e : TokenEvent) (he : e ∈ r.log) : e ∈ (r.perform P key (time, .revoke id)).log := by
    unfold TokenRun.perform
    dsimp only
    split
    · exact he
    · exact mem_cons_of_mem _ he
  constructor
  · rintro ⟨id', hissued, hrevoked⟩
    rcases mem_log_revoke hissued with hissued | h
    · rcases mem_log_revoke hrevoked with hrevoked | h
      · exact ⟨id', hissued, hrevoked⟩
      · cases h
        exact absurd hissued hother
    · cases h
  · rintro ⟨id', hissued, hrevoked⟩
    exact ⟨id', hkeeps _ hissued, hkeeps _ hrevoked⟩

/-- **What a manager accepts.**  After every history that hands out distinct ids, a string verifies with
a subject exactly when it was produced for that subject under the key, expires at a second after the
epoch that is not reached yet, and was not revoked.  Revoking an id does not matter to another token. -/
theorem verify_of_history (hsha : Function.Injective P.sha256) (hsome : ∀ s, P.sha256 s ≠ [])
    (key : Bytes) (history : List (Time × TokenCall)) (hids : (handedOut history).Nodup) (token : Bytes)
    (hmac : CarriesMac P key token → ∃ subject expires, Produced P key token subject expires) :
    (∀ (order : List Issued), order.Perm (records (performAll P key history).issued) →
      ∀ (now : Time) (s : Bytes), Manager.verify P ⟨key, now, order⟩ token = .ok s ↔
        ∃ expires, Produced P key token s expires ∧ 0 < expires ∧ now.unix < expires ∧
          ¬ RevokedIn (performAll P key history).log token) ∧
    (∀ (time : Time) (id : Bytes), .issued (trimSpace id) token ∉ (performAll P key history).log →
      ∀ order order', order.Perm (records (performAll P key history).issued) →
        order'.Perm (records (performAll P key (history ++ [(time, .revoke id)])).issued) →
        ∀ (now : Time) (s : Bytes), Manager.verify P ⟨key, now, order'⟩ token = .ok s ↔
          Manager.verify P ⟨key, now, order⟩ token = .ok s) ∧
    (RevokedIn (performAll P key history).log token → ∀ later,
      (handedOut (history ++ later)).Nodup →
        ∀ order, order.Perm (records (performAll P key (history ++ later)).issued) →
          ∀ (now : Time) (s : Bytes), Manager.verify P ⟨key, now, order⟩ token ≠ .ok s) := by
  have hkept := kept_performAll (P := P) key hids
  refine ⟨fun order horder now s => ?_, fun time id hother order order' horder horder' now s => ?_,
    fun hrevoked later hids' order horder now s hverify => ?_⟩
  · rw [hkept.verify_iff hsha horder]
    constructor
    · rintro ⟨hverify, hrevoked⟩
      obtain ⟨subject, expires, hproduced⟩ := hmac (carriesMac_of_verify hverify)
      obtain ⟨hpositive, hnow, rfl⟩ := (verify_of_produced hsome hproduced).1 hverify
      exact ⟨expires, hproduced, hpositive, hnow, hrevoked⟩
    · rintro ⟨expires, hproduced, hpositive, hnow, hrevoked⟩
      exact ⟨(verify_of_produced hsome hproduced).2 ⟨hpositive, hnow, rfl⟩, hrevoked⟩
  · have hids' : (handedOut (history ++ [(time, .revoke id)])).Nodup := by
      simpa [handedOut] using hids
    have hkept' := kept_performAll (P := P) key hids'
    rw [hkept.verify_iff hsha horder, hkept'.verify_iff hsha horder', performAll_append]
    exact and_congr_right fun _ => not_congr (revokedIn_revoke hother)
  · have hkept' := kept_performAll (P := P) key hids'
    obtain ⟨id, hissued, hid⟩ := hrevoked
    exact ((hkept'.verify_iff hsha horder).1 hverify).2
      ⟨id, mem_log_of_append hissued, mem_log_of_append hid⟩

/-! ### An hour's token -/

def sampleRandom : Bytes := [0x5b, 0x1f, 0x00, 0xa7, 0x3c, 0xd2, 0x88, 0x09]

/-- A token for an hour, and another call that fails. -/
def sampleHistory : List (Time × TokenCall) :=
  [(1000000000000, .issue (some sampleRandom) (str " cli-user") 3600000000000 (str "local shell")),
    (1500000000000, .revoke (str "0000000000000000"))]

/-- The token that `sampleHistory` issues. -/
def sampleToken : Bytes :=
  tokenOf Sha256.platform (str "signing-key")
    { tokenID := Hex.encode sampleRandom, subject := str "cli-user"
      expiresAt := 4600, issuedAt := 1000 }

/-- What is hashed for the signature of a text under the sample's key. -/
def macInputs (payload : Bytes) : List Bytes :=
  let block := Sha256.platform.hmacBlock (str "signing-key")
  let inner := block.map (· ^^^ 0x36) ++ payload
  [inner, block.map (· ^^^ 0x5C) ++ Sha256.hash inner]

/-- A platform whose hash is SHA-256 where the sample needs it, and injective. -/
def tokenPlatform : Platform :=
  { Sha256.platform with
    sha256 := spread Sha256.hash (sampleToken :: macInputs (rawURLEncode (Claims.marshal
      { tokenID := Hex.encode sampleRandom, subject := str "cli-user"
        expiresAt := 4600, issuedAt := 1000 }))) }

theorem tokenPlatform_injective : Function.Injective tokenPlatform.sha256 :=
  spread_sha256_injective (by decide +kernel)

theorem tokenPlatform_ne_nil (s : Bytes) : tokenPlatform.sha256 s ≠ [] := spread_sha256_ne_nil _ s

theorem verify_of_history_sample :
    (handedOut sampleHistory).Nodup ∧
      (performAll tokenPlatform (str "signing-key") sampleHistory).log =
        [.issued (Hex.encode sampleRandom) sampleToken] ∧
      Manager.verify tokenPlatform ⟨str "signing-key", 4599000000000,
        records (performAll tokenPlatform (str "signing-key") sampleHistory).issued⟩ sampleToken =
        .ok (str "cli-user") := by
  have hids : (handedOut sampleHistory).Nodup := by decide +kernel
  have hlog : (performAll tokenPlatform (str "signing-key") sampleHistory).log =
      [.issued (Hex.encode sampleRandom) sampleToken] := by decide +kernel
  have hproduced : Produced tokenPlatform (str "signing-key") sampleToken (str "cli-user") 4600 := by
    refine ⟨str " cli-user", 1000000000000, 3600000000000, Hex.encode sampleRandom,
      create_eq_ok_iff.2 ⟨⟨by decide, by decide, by decide⟩, by decide, by decide +kernel⟩, by decide,
      by decide, ?_, ?_, by decide, by decide⟩
    · exact valid_of_validString (by decide)
    · exact valid_of_validString (by decide)
  refine ⟨hids, hlog, ((verify_of_history tokenPlatform_injective tokenPlatform_ne_nil _ _ hids _
    fun _ => ⟨_, _, hproduced⟩).1 _ (Perm.refl _) 4599000000000 _).2
      ⟨4600, hproduced, by decide, by decide, ?_⟩⟩
  rintro ⟨id, -, hrevoked⟩
  rw [hlog] at hrevoked
  simp at hrevoked

/-! ### A token from before the epoch -/

/-- A token for fifty seconds, issued a hundred seconds before 1970. -/
def earlyHistory : List (Time × TokenCall) :=
  [(-100000000000, .issue (some sampleRandom) (str "cli-user") 50000000000 (str "local shell"))]

/-- The token that `earlyHistory` issues. -/
def earlyToken : Bytes :=
  tokenOf Sha256.platform (str "signing-key")
    { tokenID := Hex.encode sampleRandom, subject := str "cli-user"
      expiresAt := -50, issuedAt := -100 }

/-- **A second of expiry before the epoch is taken for none**: the token has not expired and was not
revoked, and it does not verify. -/
theorem earlyToken_invalid :
    (performAll Sha256.platform (str "signing-key") earlyHistory).log =
      [.issued (Hex.encode sampleRandom) earlyToken] ∧
    createPersonalAccessTokenWithID Sha256.platform (str "cli-user") (str "signing-key")
      (-100000000000) 50000000000 (Hex.encode sampleRandom) = .ok earlyToken ∧
    Time.unix (-80000000000) < Time.unix (-100000000000 + 50000000000) ∧
    ∀ s, Manager.verify Sha256.platform ⟨str "signing-key", -80000000000,
      records (performAll Sha256.platform (str "signing-key") earlyHistory).issued⟩ earlyToken ≠
        .ok s := by
  refine ⟨by decide +kernel, create_eq_ok_iff.2 ⟨⟨by decide, by decide, by decide⟩, by decide,
    by decide +kernel⟩, by decide, fun s h => ?_⟩
  have hfails : (Manager.verify Sha256.platform ⟨str "signing-key", -80000000000,
      records (performAll Sha256.platform (str "signing-key") earlyHistory).issued⟩
        earlyToken).toOption = none := by
    decide +kernel
  rw [h] at hfails
  cases hfails

end S000.Pat
