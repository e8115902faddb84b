import S000.Foundations.Paths
import S000.Metadata.Catalog
import S000.Server.Api

/-!
# Server/Cors — the CORS configuration of a bucket

`PUT ?cors` keeps the first rule of the document, each of its lists as one text with commas;
`GET ?cors` takes the texts apart.  A list comes back exactly if its values have no comma and nothing
to trim (`splitCSV_join_iff`), so that a document comes back exactly if it is one rule of such lists
(`cors_round_trip_iff`).
-/

namespace S000

open List Strings Metadata

/-- A `CORSRule` element. -/
structure CORSRule where
  allowedOrigins : List Bytes
  allowedMethods : List Bytes
  allowedHeaders : List Bytes := []
  exposeHeaders : List Bytes := []
  maxAgeSeconds : ℤ := 0
deriving DecidableEq

/-- `splitCSV`. -/
def splitCSV (value : Bytes) : List Bytes :=
  if trimSpace value = [] then [] else ((split value 0x2C).map trimSpace).filter (· ≠ [])

/-- The record of a rule. -/
def CORSRule.config (rule : CORSRule) (bucket : Bytes) : BucketCORSConfig where
  bucket := bucket
  allowedOrigins := join rule.allowedOrigins (str ",")
  allowedMethods := join rule.allowedMethods (str ",")
  allowedHeaders := join rule.allowedHeaders (str ",")
  exposeHeaders := join rule.exposeHeaders (str ",")
  maxAgeSeconds := rule.maxAgeSeconds
  enabled := true

/-- `handlePutBucketCORS`; the body is `none` where it is no document, and `saved` says whether a save
of the store succeeds. -/
def handlePutBucketCORS (s : MemoryBackedStore) (bucket : Bytes) (body : Option (List CORSRule))
    (saved : Bool) : Reply × MemoryBackedStore :=
  if bucket ∉ s.st.buckets then (noSuchBucket bucket, s)
  else match body with
    | none | some [] =>
      (bucketError bucket 400 "MalformedXML" "The XML you provided was not well-formed.", s)
    | some (rule :: _) =>
      if rule.allowedOrigins = [] ∨ rule.allowedMethods = [] then
        (bucketError bucket 400 "InvalidRequest" "CORSRule requires AllowedOrigin and AllowedMethod.", s)
      else
        match s.call (.putConfig .cors (rule.config bucket)) saved with
        | (.error _, s) => (bucketError bucket 500 "InternalError" "Put bucket CORS failed.", s)
        | (.ok _, s) => (.answer 200, s)

/-- `handleGetBucketCORS`: the rules of the document, or an error. -/
def handleGetBucketCORS (s : MemoryBackedStore) (bucket : Bytes) : Except Reply (List CORSRule) :=
  match s.st.getConfig .cors bucket with
  | .error .notFound => .error (bucketError bucket 404 "NoSuchCORSConfiguration"
      "The CORS configuration does not exist.")
  | .error _ => .error (bucketError bucket 500 "InternalError" "Get bucket CORS failed.")
  | .ok (cfg : BucketCORSConfig) => .ok [
      { allowedOrigins := splitCSV cfg.allowedOrigins
        allowedMethods := splitCSV cfg.allowedMethods
        allowedHeaders := splitCSV cfg.allowedHeaders
        exposeHeaders := splitCSV cfg.exposeHeaders
        maxAgeSeconds := cfg.maxAgeSeconds }]

/-! ## One list -/

/-- A value that `splitCSV` gives back. -/
def PlainValue (v : Bytes) : Prop := v ≠ [] ∧ trimSpace v = v ∧ 0x2C ∉ v

/-- **A list comes back** if and only if all of its values are plain. -/
theorem splitCSV_join_iff {l : List Bytes} :
    splitCSV (join l (str ",")) = l ↔ ∀ v ∈ l, PlainValue v := by
  rw [splitCSV, show str "," = [0x2C] by decide]
  constructor
  · intro h v hv
    split_ifs at h
    · rw [← h] at hv
      cases hv
    rw [← h] at hv
    obtain ⟨hmem, hne⟩ := mem_filter.1 hv
    obtain ⟨part, hpart, rfl⟩ := mem_map.1 hmem
    exact ⟨of_decide_eq_true hne, trimSpace_trimSpace part,
      fun hcomma => (mem_split hpart).1 ((trimSpace_isInfix part).subset hcomma)⟩
  · intro h
    match l, h with
    | [], _ => rfl
    | v :: l, h =>
      obtain ⟨hne, htrim, -⟩ := h v mem_cons_self
      have hvalue : trimSpace (join (v :: l) [0x2C]) ≠ [] := by
        cases l with
        | nil => simpa [join, htrim] using hne
        | cons v' l =>
          refine ne_nil_of_mem (mem_trimSpace (b := 0x2C) (by decide) (by decide) ?_)
          simp [join_cons_cons]
      rw [if_neg hvalue, Url.split_join (fun v hv => (h v hv).2.2) (cons_ne_nil _ _),
        map_congr_left fun v hv => (h v hv).2.1, map_id', filter_eq_self.2 fun v hv => ?_]
      exact decide_eq_true (h v hv).1

/-! ## A document -/

/-- A rule whose values all come back. -/
def CORSRule.Plain (rule : CORSRule) : Prop :=
  ∀ l ∈ [rule.allowedOrigins, rule.allowedMethods, rule.allowedHeaders, rule.exposeHeaders],
    ∀ v ∈ l, PlainValue v

/-- What an accepted document leaves in the store. -/
theorem config_of_put {s s' : MemoryBackedStore} {bucket : Bytes} {rules : List CORSRule}
    {saved : Bool} (hput : handlePutBucketCORS s bucket (some rules) saved = (.answer 200, s')) :
    ∃ rule rest, rules = rule :: rest ∧ s'.st.getConfig .cors bucket = .ok (rule.config bucket) := by
  have hget {kind : ConfigKind} (cfg : kind.Record) :
      (s.st.setConfig kind bucket cfg).getConfig kind bucket = .ok cfg := by
    simp [StoreState.getConfig, StoreState.setConfig]
  by_cases hb : bucket ∈ s.st.buckets
  · cases rules with
    | nil =>
      simp only [handlePutBucketCORS, hb] at hput
      cases hput
    | cons rule rest =>
      simp only [handlePutBucketCORS] at hput
      split_ifs at hput
      · cases hput
      refine ⟨rule, rest, rfl, ?_⟩
      have hst := MemoryBackedStore.call_st (s := s) (.putConfig .cors (rule.config bucket)) saved
      split at hput
      · cases hput
      next heq =>
        cases hput
        rw [heq] at hst
        have hset : s'.st = s.st.setConfig .cors bucket (rule.config bucket) :=
          hst.trans (congrArg Prod.snd (if_pos hb))
        rw [hset]
        exact hget _
  · simp only [handlePutBucketCORS, hb] at hput
    cases hput

/-- **The round trip of a CORS document.**  What `PUT ?cors` has accepted, `GET ?cors` returns if and
only if it is one rule whose values are not empty, have no comma and nothing to trim. -/
theorem cors_round_trip_iff {s s' : MemoryBackedStore} {bucket : Bytes} {rules : List CORSRule}
    {saved : Bool} (hput : handlePutBucketCORS s bucket (some rules) saved = (.answer 200, s')) :
    handleGetBucketCORS s' bucket = .ok rules ↔ ∃ rule, rules = [rule] ∧ rule.Plain := by
  obtain ⟨rule, rest, rfl, hstored⟩ := config_of_put hput
  rw [handleGetBucketCORS, hstored]
  obtain ⟨origins, methods, headers, expose, age⟩ := rule
  simp only [Except.ok.injEq, cons.injEq, CORSRule.config, CORSRule.mk.injEq, and_true,
    splitCSV_join_iff]
  constructor
  · rintro ⟨⟨horigins, hmethods, hheaders, hexpose⟩, rfl⟩
    refine ⟨_, ⟨rfl, rfl⟩, ?_⟩
    simp only [CORSRule.Plain, forall_mem_cons, not_mem_nil, false_implies, implies_true, and_true]
    exact ⟨horigins, hmethods, hheaders, hexpose⟩
  · rintro ⟨_, ⟨rfl, rfl⟩, h⟩
    simp only [CORSRule.Plain, forall_mem_cons] at h
    exact ⟨⟨h.1, h.2.1, h.2.2.1, h.2.2.2.1⟩, rfl⟩

/-! ## Three documents -/

/-- A store with the bucket `b`. -/
def corsStore : MemoryBackedStore :=
  { st := { buckets := .singleton (str "b") ⟨str "b", [], [], 0⟩ } }

def corsRule (origin : String) : CORSRule where
  allowedOrigins := [str origin]
  allowedMethods := [str "GET", str "PUT"]
  maxAgeSeconds := 60

/-- What `GET ?cors` returns after a `PUT ?cors`. -/
def corsAfter (rules : List CORSRule) : Except Reply (List CORSRule) :=
  handleGetBucketCORS (handlePutBucketCORS corsStore (str "b") (some rules) true).2 (str "b")

/-- One plain rule comes back, -/
theorem cors_round_trip_plain : corsAfter [corsRule "*"] = .ok [corsRule "*"] := by
  have hput : handlePutBucketCORS corsStore (str "b") (some [corsRule "*"]) true = (.answer 200, _) :=
    rfl
  refine (cors_round_trip_iff hput).2 ⟨_, rfl, ?_⟩
  unfold CORSRule.Plain PlainValue
  decide

/-- **…of two only the first, and a comma in a value splits it.** -/
theorem cors_round_trip_loses :
    corsAfter [corsRule "*", corsRule "a"] = .ok [corsRule "*"] ∧
      corsAfter [corsRule "a,b"] = .ok [{ corsRule "" with allowedOrigins := [str "a", str "b"] }] := by
  decide

end S000
