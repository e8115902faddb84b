import S000.Auth.Coverage
import S000.Server.Api

/-!
# Auth/HeaderFrame — what verification leaves of the headers

`canonicalHeaderValue` collapses the white space of a signed header in the slice that the header map
holds, so the handlers see the collapsed values.  Collapsing twice changes nothing more
(`normalizeValue_normalizeValue`), hence a header is as it was sent exactly if all its values were
collapsed when they were sent.
-/

namespace S000

namespace Strings

open List

variable {b : UInt8} {s t w : Bytes}

/-- A text in which no white space starts. -/
def Unspaced (s : Bytes) : Prop := ∀ y, y <:+ s → y ≠ [] → spaceWidth y = 0

/-- A space behind a text does not make white space of its end. -/
theorem spaceWidth_append_space (h : spaceWidth (b :: s) = 0) :
    spaceWidth (b :: s ++ 0x20 :: t) = 0 := by
  have hb := not_isAsciiSpace h
  rcases s with _ | ⟨c, _ | ⟨d, s⟩⟩
  all_goals
    unfold spaceWidth at h ⊢
    split <;> simp_all +decide
  next heq =>
    rw [← heq.2.2.1]
    decide

theorem fieldsFrom_unspaced {cur : Bytes} (h : ∀ y, y <:+ w → y ≠ [] → spaceWidth (y ++ t) = 0) :
    fieldsFrom 0 cur (w ++ t) = fieldsFrom 0 (w.reverse ++ cur) t := by
  induction w generalizing cur with
  | nil => rfl
  | cons b w ih =>
    rw [cons_append, fieldsFrom, show spaceWidth (b :: (w ++ t)) = 0 from
      h _ suffix_rfl (cons_ne_nil b w)]
    rw [ih fun y hy => h y (hy.trans (suffix_cons b w)), reverse_cons, append_assoc]
    rfl

theorem unspaced_of_mem_fieldsFrom {skip : ℕ} {cur : Bytes} (hskip : skip ≠ 0 → cur = [])
    (hcur : ∀ y, y <:+ cur.reverse → y ≠ [] → spaceWidth (y ++ s) = 0)
    (h : w ∈ fieldsFrom skip cur s) : Unspaced w ∧ w ≠ [] := by
  have hword {s : Bytes} {cur : Bytes} (hnil : cur ≠ [])
      (hcur : ∀ y, y <:+ cur.reverse → y ≠ [] → spaceWidth (y ++ s) = 0) :
      Unspaced cur.reverse ∧ cur.reverse ≠ [] :=
    ⟨fun y hy hne => spaceWidth_of_isPrefix (prefix_append y s) (hcur y hy hne),
      reverse_ne_nil_iff.2 hnil⟩
  have hnone (s : Bytes) : ∀ y, y <:+ [].reverse → y ≠ [] → spaceWidth (y ++ s) = 0 :=
    fun y hy hne => absurd (suffix_nil.1 hy) hne
  induction s generalizing skip cur with
  | nil =>
    rw [fieldsFrom] at h
    split_ifs at h with hnil
    · cases h
    · exact mem_singleton.1 h ▸ hword hnil hcur
  | cons b t ih =>
    cases skip with
    | succ skip =>
      obtain rfl := hskip (Nat.succ_ne_zero skip)
      exact ih (fun _ => rfl) (hnone t) h
    | zero =>
      rw [fieldsFrom] at h
      split at h
      next hwidth =>
        refine ih (fun h => absurd rfl h) (fun y hy hne => ?_) h
        rw [reverse_cons, suffix_concat_iff] at hy
        obtain rfl | ⟨y, rfl, hy⟩ := hy
        · exact absurd rfl hne
        rw [append_assoc]
        rcases eq_or_ne y [] with rfl | hy'
        · exact hwidth
        · exact hcur y hy hy'
      next =>
        split_ifs at h with hnil
        · exact ih (fun _ => rfl) (hnone t) h
        rcases mem_cons.1 h with rfl | h
        · exact hword hnil hcur
        · exact ih (fun _ => rfl) (hnone t) h

/-- **Words joined by spaces** are the words of what they are joined to. -/
theorem fields_join : ∀ {ws : List Bytes}, (∀ w ∈ ws, Unspaced w ∧ w ≠ []) →
    fields (join ws (str " ")) = ws
  | [], _ => rfl
  | [w], h => by
    obtain ⟨hw, hne⟩ := h w mem_cons_self
    have hjoin : join [w] (str " ") = w ++ [] := by simp [join]
    rw [hjoin, fields, fieldsFrom_unspaced (fun y hy => by
      rw [append_nil]
      exact hw y hy), append_nil, fieldsFrom,
      if_neg (reverse_ne_nil_iff.2 hne), reverse_reverse]
  | w :: w' :: ws, h => by
    obtain ⟨hw, hne⟩ := h w mem_cons_self
    have hrest := fields_join fun x hx => h x (mem_cons_of_mem w hx)
    rw [join_cons_cons, append_assoc, fields,
      fieldsFrom_unspaced, append_nil]
    · change (if w.reverse = [] then _ else w.reverse.reverse :: _) = _
      rw [if_neg (reverse_ne_nil_iff.2 hne), reverse_reverse]
      exact congrArg (w :: ·) hrest
    · intro y hy hne
      obtain ⟨b, y, rfl⟩ := exists_cons_of_ne_nil hne
      exact spaceWidth_append_space (hw _ hy hne)

end Strings

namespace SigV4

open Strings

theorem normalizeValue_normalizeValue (v : Bytes) :
    normalizeValue (normalizeValue v) = normalizeValue v := by
  have hwords : ∀ w ∈ fields v, Unspaced w ∧ w ≠ [] := fun w hw =>
    unspaced_of_mem_fieldsFrom (fun h => absurd rfl h)
      (fun y hy hne => absurd (List.suffix_nil.1 hy) hne) hw
  rw [normalizeValue, normalizeValue, fields_join hwords]

/-- The signed headers that are read: those before the first that is not in the request. -/
def consulted (r : Request) (names : List Bytes) : List Bytes :=
  names.takeWhile fun name => name ≠ [] && (canonicalHeaderValue r name).isSome

/-- All values of a header are written as they are signed. -/
def Collapsed (r : Request) (name : Bytes) : Prop :=
  name ≠ str "host" → ∀ v ∈ r.header.values name, normalizeValue v = v

theorem consulted_normalizeHeader (r : Request) (name : Bytes) (names : List Bytes) :
    consulted (normalizeHeader r name) names = consulted r names := by
  unfold consulted
  congr 1
  funext n
  have hhost : signedHost (normalizeHeader r name) = signedHost r := rfl
  have hvalues : (normalizeHeader r name).header.values n = [] ↔ r.header.values n = [] := by
    rw [values_normalizeHeader]
    split_ifs <;> simp
  unfold canonicalHeaderValue
  simp only [hhost, hvalues]
  split_ifs <;> rfl

/-- **The headers after they were read**: those that were are collapsed. -/
theorem values_canonicalHeaders (r : Request) (names : List Bytes) (n : Bytes) :
    (canonicalHeaders r names).2.header.values n =
      if ∃ name ∈ consulted r names, name ≠ str "host" ∧
          canonicalMIMEHeaderKey n = canonicalMIMEHeaderKey name then
        (r.header.values n).map normalizeValue
      else r.header.values n := by
  induction names generalizing r with
  | nil => simp [canonicalHeaders, consulted]
  | cons name names ih =>
    rw [canonicalHeaders]
    by_cases hname : name = []
    · simp [hname, consulted]
    rw [if_neg hname]
    cases hv : canonicalHeaderValue r name with
    | none => simp [consulted, hv]
    | some x =>
      obtain ⟨value, r'⟩ := x
      have hconsulted : consulted r (name :: names) = name :: consulted r names := by
        simp [consulted, hname, hv]
      rw [ih, hconsulted]
      simp only [List.exists_mem_cons_iff]
      unfold canonicalHeaderValue at hv
      by_cases hhost : name = str "host"
      · split_ifs at hv
        obtain rfl := (Prod.mk.inj (Option.some.inj hv)).2
        simp only [hhost, ne_eq, not_true_eq_false, false_and, false_or]
      split_ifs at hv
      obtain rfl := (Prod.mk.inj (Option.some.inj hv)).2
      simp only [consulted_normalizeHeader, values_normalizeHeader, hhost, ne_eq, not_false_eq_true,
        true_and]
      have htwice (l : List Bytes) : (l.map normalizeValue).map normalizeValue =
          l.map normalizeValue := by simp [normalizeValue_normalizeValue]
      by_cases hkey : canonicalMIMEHeaderKey n = canonicalMIMEHeaderKey name
      · rw [if_pos hkey, htwice, ite_self, if_pos (.inl hkey)]
      · simp [hkey]

theorem values_canonicalHeaders_eq_iff (r : Request) (names : List Bytes) :
    (∀ n, (canonicalHeaders r names).2.header.values n = r.header.values n) ↔
      ∀ name ∈ consulted r names, Collapsed r name := by
  simp only [values_canonicalHeaders]
  constructor
  · intro h name hname hhost v hv
    have hmap := h name
    rw [if_pos ⟨name, hname, hhost, rfl⟩] at hmap
    exact List.map_inj_left.1 (hmap.trans (List.map_id _).symm) v hv
  intro h n
  split_ifs with hread
  · obtain ⟨name, hname, hhost, hkey⟩ := hread
    have hvalues : r.header.values n = r.header.values name := by
      rw [Header.values, hkey, Header.values]
    rw [hvalues]
    exact (List.map_inj_left.2 (h name hname hhost)).trans (List.map_id _)
  · rfl

/-- **When verification leaves the headers alone.**  Every header is after the call what it was
before, whether the request is accepted or not, exactly if the request does not get as far as its
signature, or all headers that are read for it, the host apart, were sent with their white space
collapsed. -/
theorem verifyRequest_header_eq_iff (P : Platform) (v : Verifier) (r : Request) :
    (∀ n, (v.verifyRequest P r).2.header.values n = r.header.values n) ↔
      ∀ c secrets, v.signatureData r = .ok c →
        resolveSecrets v.store c.scope.accessKeyID (v.now (if c.presigned then 2 else 1)) =
          .ok secrets →
        ∀ name ∈ consulted r (normalizedHeaders P c.signedHeaders), Collapsed r name := by
  unfold Verifier.verifyRequest
  cases hc : v.signatureData r with
  | error e => simp
  | ok c =>
    dsimp only
    unfold Verifier.checkSignature
    cases hs : resolveSecrets v.store c.scope.accessKeyID (v.now (if c.presigned then 2 else 1)) with
    | error e =>
      refine iff_of_true (fun n => rfl) fun c' secrets hc' hs' => ?_
      cases hc'
      rw [hs] at hs'
      cases hs'
    | ok secrets =>
      -- whatever comes of the signature, the headers have been read
      have hiff := values_canonicalHeaders_eq_iff r (normalizedHeaders P c.signedHeaders)
      rcases hb : buildCanonicalRequest P r c.signedHeaders c.presigned with ⟨x, r'⟩
      rw [show (canonicalHeaders r (normalizedHeaders P c.signedHeaders)).2 = r' from
        congrArg Prod.snd hb] at hiff
      have hcondition : (∀ c' secrets', Except.ok c = .ok (ε := AuthError) c' →
          resolveSecrets v.store c'.scope.accessKeyID (v.now (if c'.presigned then 2 else 1)) =
            .ok secrets' → ∀ name ∈ consulted r (normalizedHeaders P c'.signedHeaders),
          Collapsed r name) ↔
          ∀ name ∈ consulted r (normalizedHeaders P c.signedHeaders), Collapsed r name :=
        ⟨fun h => h c secrets rfl hs, fun h c' _ hc' _ => Except.ok.inj hc' ▸ h⟩
      rw [hcondition, ← hiff]
      cases x with
      | error e => exact .rfl
      | ok canonicalRequest =>
        dsimp only
        split_ifs <;> exact .rfl

/-- A `PUT` of `k` in `b`, signed with the secret of `AKID`, with a note among its user metadata. -/
def notedPut : Request where
  method := str "PUT"
  host := str "s3.local"
  url := { path := str "/b/k" }
  header := .ofList
    [(str "X-Amz-Date", str "20260101T120000Z"), (str "X-Amz-Meta-Note", str "a  b"),
      (str "Authorization", str <| "AWS4-HMAC-SHA256 " ++
        "Credential=AKID/20260101/us-east-1/s3/aws4_request, SignedHeaders=host;x-amz-meta-note, " ++
        "Signature=777ce58925653e177cacc65386d13194359f402d73ab1e3513a3e0fb2abbaf2b")]

/-- **The note is not stored as it was sent**: the request is accepted, and one of its two spaces is
gone. -/
theorem note_collapsed : (sampleVerifier.verifyRequest Sha256.platform notedPut).1 = none ∧
    (collectUserMetadata Sha256.platform notedPut.header).lookup (str "note") = some (str "a  b") ∧
    (collectUserMetadata Sha256.platform
      (sampleVerifier.verifyRequest Sha256.platform notedPut).2.header).lookup (str "note") =
        some (str "a b") := by
  decide +kernel

end SigV4

end S000
