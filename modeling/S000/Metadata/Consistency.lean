import S000.Metadata.Catalog

/-!
# Metadata/Consistency — what belongs to no bucket, found and repaired

`validateState` and `repairState` are traversals that are written apart.  They agree on what is broken
(`repairState_eq`): the repair deletes the records that the other one reports and counts them, so that
nothing is left to report, and what belongs to a bucket is kept (`repair_consistent`).
-/

namespace S000.Metadata

open List Function StoreState Sigma

/-- `ConsistencyIssue`. -/
structure ConsistencyIssue where
  code : String
  message : Bytes
deriving DecidableEq

namespace StoreState

variable (st : StoreState)

def orphanObjects : List (Bytes × Bytes) := st.objects.keys.filter fun key => key.1 ∉ st.buckets

def orphanUploads : List (Sigma fun _ : Bytes => MultipartUpload) :=
  st.multipart.entries.filter fun e => e.2.bucket ∉ st.buckets

def orphanConfigs (kind : ConfigKind) : List Bytes :=
  (st.configs kind).keys.filter fun bucket => bucket ∉ st.buckets

/-- The loop of `validateState` over one map of configurations; `quote` is the verb `%q`. -/
def configIssues (quote : Bytes → Bytes) (kind : ConfigKind) (code what : String) :
    List ConsistencyIssue :=
  (st.orphanConfigs kind).map fun bucket =>
    ⟨code, str what ++ str " exists for missing bucket " ++ quote bucket⟩

/-- `validateState`, with the maps in any order. -/
def validateState (quote : Bytes → Bytes) : List ConsistencyIssue :=
  (st.orphanObjects.map fun key =>
    ⟨"orphan_object_versions", str "object versions exist for missing bucket " ++ quote key.1⟩) ++
  (st.orphanUploads.map fun e =>
    ⟨"orphan_multipart_upload", str "multipart upload " ++ quote e.1 ++
      str " references missing bucket " ++ quote e.2.bucket⟩) ++
  st.configIssues quote .website "orphan_website_config" "website configuration" ++
  st.configIssues quote .cors "orphan_cors_config" "cors configuration" ++
  st.configIssues quote .policy "orphan_bucket_policy" "bucket policy" ++
  st.configIssues quote .publicAccessBlock "orphan_public_access_block" "public access block"

/-! ## Deleting keys from a map -/

section Purge

variable {κ : Type} [DecidableEq κ] {β : κ → Type} {m : AList β} {k : κ} {ks : List κ}

/-- The map without some keys. -/
def purge (ks : List κ) (m : AList β) : AList β := ks.foldl (fun m k => m.erase k) m

theorem mem_purge : k ∈ purge ks m ↔ k ∈ m ∧ k ∉ ks := by
  induction ks generalizing m with
  | nil => simp [purge]
  | cons k' ks ih =>
    rw [purge, foldl_cons, ← purge, ih, AList.mem_erase, mem_cons]
    tauto

theorem lookup_purge (h : k ∉ ks) : (purge ks m).lookup k = m.lookup k := by
  induction ks generalizing m with
  | nil => rfl
  | cons k' ks ih =>
    obtain ⟨hne, hks⟩ := not_or.1 (mt mem_cons.2 h)
    rw [purge, foldl_cons, ← purge, ih hks, AList.lookup_erase_ne hne]

/-- Without the keys that have a property, no key has it. -/
theorem filter_keys_purge (p : κ → Bool) : (purge (m.keys.filter p) m).keys.filter p = [] := by
  refine filter_eq_nil_iff.2 fun k hk hp => ?_
  obtain ⟨hmem, hnot⟩ := mem_purge.1 (AList.mem_keys.2 hk)
  exact hnot (mem_filter.2 ⟨hmem, hp⟩)

end Purge

/-! ## The repair -/

/-- **A sweep** counts the orphans and deletes them. -/
theorem sweep_eq {κ S : Type} {orphan : κ → Bool} {delete : κ → S → S} (keys : List κ) (x : ℕ × S) :
    sweep orphan delete keys x = (x.1 + (keys.filter orphan).length,
      (keys.filter orphan).foldl (fun s k => delete k s) x.2) := by
  induction keys generalizing x with
  | nil => rfl
  | cons k keys ih =>
    rw [sweep, foldl_cons, ← sweep, ih, filter_cons]
    split_ifs
    · simp only [length_cons, foldl_cons]
      rw [add_assoc, add_comm 1]
    · rfl

variable {st} {n : ℕ}

theorem repairObjects_eq : repairObjects (n, st) = (n + st.orphanObjects.length,
    { st with objects := purge st.orphanObjects st.objects }) := by
  have hfold (ks : List (Bytes × Bytes)) (st : StoreState) :
      ks.foldl (fun st key => { st with toMemoryState := st.eraseVersions key.1 key.2 }) st =
        { st with objects := purge ks st.objects } := by
    induction ks generalizing st with
    | nil => rfl
    | cons k ks ih => exact ih _
  rw [repairObjects, sweep_eq, hfold]
  rfl

theorem repairUploads_eq : repairUploads (n, st) = (n + st.orphanUploads.length,
    { st with multipart := purge (st.orphanUploads.map fst) st.multipart
              parts := purge (st.orphanUploads.map fst) st.parts }) := by
  have hfold (es : List (Sigma fun _ : Bytes => MultipartUpload)) (st : StoreState) :
      es.foldl (fun st e => { st with
        multipart := st.multipart.erase e.1, parts := st.parts.erase e.1 }) st =
        { st with multipart := purge (es.map fst) st.multipart
                  parts := purge (es.map fst) st.parts } := by
    induction es generalizing st with
    | nil => rfl
    | cons e es ih => exact ih _
  rw [repairUploads, sweep_eq, hfold]
  rfl

theorem repairConfigs_eq (kind : ConfigKind) : repairConfigs kind (n, st) =
    (n + (st.orphanConfigs kind).length, { st with
      configs := update st.configs kind (purge (st.orphanConfigs kind) (st.configs kind)) }) := by
  have hfold (ks : List Bytes) (st : StoreState) :
      ks.foldl (fun st bucket => st.eraseConfig kind bucket) st =
        { st with configs := update st.configs kind (purge ks (st.configs kind)) } := by
    induction ks generalizing st with
    | nil => simp [purge]
    | cons k ks ih =>
      rw [foldl_cons, ih]
      simp [eraseConfig, purge]
  rw [repairConfigs, sweep_eq, hfold]
  rfl

/-- **The repair deletes what is reported.** -/
theorem repairState_eq (quote : Bytes → Bytes) : st.repairState = ((st.validateState quote).length,
    { st with
      objects := purge st.orphanObjects st.objects
      multipart := purge (st.orphanUploads.map fst) st.multipart
      parts := purge (st.orphanUploads.map fst) st.parts
      configs := fun kind => if kind ∈ [.website, .cors, .policy, .publicAccessBlock] then
        purge (st.orphanConfigs kind) (st.configs kind) else st.configs kind }) := by
  rw [repairState, repairObjects_eq, repairUploads_eq]
  simp only [foldl_cons, repairConfigs_eq]
  refine Prod.ext ?_ ?_
  · simp [validateState, configIssues, orphanConfigs, orphanUploads]
    omega
  · refine congrArg (StoreState.mk _ _ · _) (funext fun kind => ?_)
    cases kind <;> simp [orphanConfigs]

/-- **A repair that counts nothing has changed nothing.** -/
theorem repairState_eq_self (h : st.repairState.1 = 0) : st.repairState.2 = st := by
  rw [repairState_eq id] at h ⊢
  simp only [validateState, configIssues, length_eq_zero_iff, append_eq_nil_iff, map_eq_nil_iff] at h
  obtain ⟨⟨⟨⟨⟨hobjects, huploads⟩, hwebsite⟩, hcors⟩, hpolicy⟩, haccess⟩ := h
  rw [hobjects, huploads]
  refine congrArg (StoreState.mk _ _ · _) (funext fun kind => ?_)
  cases kind <;> simp [hwebsite, hcors, hpolicy, haccess, purge]

/-- What belongs to a bucket is the same in both states. -/
structure KeepsOwned (st st' : StoreState) : Prop where
  buckets : st'.buckets = st.buckets
  objects : ∀ bucket key, bucket ∈ st.buckets →
    st'.objects.lookup (bucket, key) = st.objects.lookup (bucket, key)
  uploads : ∀ uploadID u, st.multipart.lookup uploadID = some u → u.bucket ∈ st.buckets →
    st'.multipart.lookup uploadID = some u ∧ st'.parts.lookup uploadID = st.parts.lookup uploadID
  configs : ∀ kind bucket, bucket ∈ st.buckets →
    (st'.configs kind).lookup bucket = (st.configs kind).lookup bucket
  taggings : st'.taggings = st.taggings
  credentials : st'.credentials = st.credentials

theorem lookup_of_mem_orphanUploads {e : Sigma fun _ : Bytes => MultipartUpload}
    (h : e ∈ st.orphanUploads) :
    st.multipart.lookup e.1 = some e.2 ∧ e.2.bucket ∉ st.buckets := by
  obtain ⟨hmem, horphan⟩ := mem_filter.1 h
  exact ⟨AList.mem_lookup_iff.2 hmem, of_decide_eq_true horphan⟩

theorem keepsOwned_repairState : KeepsOwned st st.repairState.2 := by
  rw [repairState_eq id]
  have hupload {uploadID : Bytes} {u : MultipartUpload}
      (hu : st.multipart.lookup uploadID = some u) (hb : u.bucket ∈ st.buckets) :
      uploadID ∉ st.orphanUploads.map fst := by
    rintro hmem
    obtain ⟨e, he, rfl⟩ := mem_map.1 hmem
    obtain ⟨hlookup, horphan⟩ := lookup_of_mem_orphanUploads he
    exact horphan (Option.some.inj (hu.symm.trans hlookup) ▸ hb)
  refine ⟨rfl, fun bucket key hb => lookup_purge ?_, fun uploadID u hu hb => ⟨?_, ?_⟩,
    fun kind bucket hb => ?_, rfl, rfl⟩
  · exact fun h => of_decide_eq_true (mem_filter.1 h).2 hb
  · exact (lookup_purge (hupload hu hb)).trans hu
  · exact lookup_purge (hupload hu hb)
  have hconfig : bucket ∉ st.orphanConfigs kind := fun h => of_decide_eq_true (mem_filter.1 h).2 hb
  dsimp only
  split_ifs
  · exact lookup_purge hconfig
  · rfl

/-- **Nothing is reported after a repair.** -/
theorem validateState_repairState (quote : Bytes → Bytes) :
    st.repairState.2.validateState quote = [] := by
  rw [repairState_eq quote]
  have huploads : (purge (st.orphanUploads.map fst) st.multipart).entries.filter
      (fun e => decide (e.2.bucket ∉ st.buckets)) = [] := by
    refine filter_eq_nil_iff.2 fun e he horphan => ?_
    have hmem : e.1 ∈ purge (st.orphanUploads.map fst) st.multipart := mem_map_of_mem he
    have hnot := (mem_purge.1 hmem).2
    have hlookup := AList.mem_lookup_iff.2 he
    rw [lookup_purge hnot] at hlookup
    exact hnot (mem_map_of_mem (mem_filter.2 ⟨AList.mem_lookup_iff.1 hlookup, horphan⟩))
  simp only [validateState, configIssues, append_eq_nil_iff, map_eq_nil_iff]
  exact ⟨⟨⟨⟨⟨filter_keys_purge _, huploads⟩, filter_keys_purge _⟩, filter_keys_purge _⟩,
    filter_keys_purge _⟩, filter_keys_purge _⟩

end StoreState

/-- `RepairConsistency`. -/
theorem MemoryBackedStore.call_repairConsistency (s : MemoryBackedStore) (saved : Bool) :
    s.call .repairConsistency saved =
      if s.st.repairState.1 = 0 then (.ok s.st.repairState.1, { s with st := s.st.repairState.2 })
      else if saved then (.ok s.st.repairState.1, ⟨s.st.repairState.2, s.st.repairState.2⟩)
      else (.error .failed, { s with st := s.st.repairState.2 }) := by
  rw [call, mutate_repairConsistency]
  generalize s.st.repairState = r
  obtain ⟨repaired, st⟩ := r
  cases repaired <;> rfl

/-- **Consistency after a repair.**  In every state: nothing is reported afterwards, the repair has
counted what was reported before, another one counts nothing and changes nothing, and what belongs to a
bucket is kept.  A save that fails is the only error. -/
theorem repair_consistent (quote : Bytes → Bytes) (s : MemoryBackedStore) (saved : Bool) :
    let reported := (s.st.validateState quote).length
    let x := s.call .repairConsistency saved
    x.1 = (if saved ∨ reported = 0 then .ok reported else .error .failed : Except Error ℕ) ∧
      x.2.st.validateState quote = [] ∧
      (∀ saved', x.2.call .repairConsistency saved' = (.ok (0 : ℕ), x.2)) ∧
      KeepsOwned s.st x.2.st := by
  have hst : (s.call .repairConsistency saved).2.st = s.st.repairState.2 := by
    rw [MemoryBackedStore.call_st, mutate_repairConsistency]
  have hcount (st : StoreState) : st.repairState.1 = (st.validateState quote).length :=
    congrArg Prod.fst (repairState_eq quote)
  have hclean : s.st.repairState.2.validateState quote = [] := validateState_repairState quote
  refine ⟨?_, by rw [hst, hclean], fun saved' => ?_, by rw [hst]; exact keepsOwned_repairState⟩
  · rw [MemoryBackedStore.call_repairConsistency, hcount]
    by_cases hzero : (s.st.validateState quote).length = 0
    · rw [if_pos hzero, if_pos (.inr hzero)]
      rfl
    rw [if_neg hzero]
    cases saved with
    | true => exact (if_pos (.inl rfl)).symm
    | false => exact (if_neg fun h => h.elim nofun hzero).symm
  · have hzero : (s.call .repairConsistency saved).2.st.repairState.1 = 0 := by
      rw [hcount, hst, hclean]
      rfl
    rw [MemoryBackedStore.call_repairConsistency, if_pos hzero, hzero, repairState_eq_self hzero]

end S000.Metadata
