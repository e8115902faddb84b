import S000.Server.S3
import S000.Store.Effects

/-!
# Server/DeleteBucket — what a deleted bucket leaves behind

`handleDeleteBucket` deletes a bucket for which `ListObjects` lists nothing.  That list has the latest
version of each key, and not even that where it is a delete marker; versions behind a marker and
multipart uploads stay in the store and are there again when a bucket of that name is created.
-/

namespace S000

open Metadata MemoryState Machine

/-- Nothing of a bucket is stored: no version of a key, be it current, older or a delete marker, and no
multipart upload. -/
structure BucketEmpty (w : World) (bucket : Bytes) : Prop where
  versions : ∀ key, w.metadata.versions bucket key = []
  uploads : ∀ uploadID, ∀ u ∈ w.metadata.multipart.lookup uploadID, u.bucket ≠ bucket

/-- Nothing of a bucket is hidden from `ListObjects`: no delete marker is the latest version of a key,
and there is no upload. -/
structure NothingHidden (w : World) (bucket : Bytes) : Prop where
  latest : ∀ key v, (w.metadata.versions bucket key).getLast? = some v → v.deleteMarker = false
  uploads : ∀ uploadID, ∀ u ∈ w.metadata.multipart.lookup uploadID, u.bucket ≠ bucket

variable {a : S3API} {w : World} {r : Request} {c : Ctx} {bucket : Bytes}

theorem bucketEmpty_iff (h : w.metadata.listObjects bucket = []) :
    BucketEmpty w bucket ↔ NothingHidden w bucket := by
  have hlisted := listObjects_eq_nil_iff.1 h
  constructor
  · intro hempty
    refine ⟨fun key v hv => ?_, hempty.uploads⟩
    rw [hempty.versions key] at hv
    cases hv
  · intro hhidden
    refine ⟨fun key => ?_, hhidden.uploads⟩
    rw [← List.getLast?_eq_none_iff]
    by_contra hne
    obtain ⟨v, hv⟩ := Option.ne_none_iff_exists'.1 hne
    exact absurd ((hhidden.latest key v hv).symm.trans (hlisted key v hv)) (by decide)

theorem ensures_audited {action outcome reason : String} {key : Bytes} {reply : Reply}
    {Q : Reply → World → Prop} (h : Q reply w) :
    stores.Ensures Q (emitAudit a r action outcome bucket key reason >>= fun _ => pure reply) w :=
  (ensures_bind stores).2 (ensures_ite stores (fun _ _ => h) fun _ => h)

/-- **A deletion that succeeds** found nothing to list, and has removed the bucket alone. -/
theorem handleDeleteBucket_ensures :
    stores.Ensures (fun reply w' => reply = .answer 204 →
        w.metadata.listObjects bucket = [] ∧ w'.metadata.objects = w.metadata.objects ∧
          w'.metadata.multipart = w.metadata.multipart)
      (handleDeleteBucket a r bucket) w := by
  simp only [handleDeleteBucket, ensures_bind, ensures_ask]
  intro f
  cases hl : (step w f (.listObjects bucket)).1 with
  | error e => exact ensures_audited fun h => by cases h
  | ok objects =>
    obtain rfl := Except.ok.inj (eq_ok_of_reading hl)
    refine ensures_ite stores (fun _ => ensures_audited fun h => by cases h) fun hnil => ?_
    simp only [ensures_bind, ensures_ask]
    intro f'
    cases hd : (step (step w f (.listObjects bucket)).2 f' (.deleteBucket bucket)).1 with
    | error e => exact ensures_audited fun h => by cases h
    | ok u =>
      obtain ⟨-, hworld⟩ := eq_ok_of_writing hd
      refine ensures_audited fun _ => ⟨not_not.1 hnil, ?_, ?_⟩
      · rw [step, hworld]
        exact w.metadata.objects_deleteBucket bucket
      · rw [step, hworld]
        exact w.metadata.multipart_deleteBucket bucket

/-- **A creation that succeeds** has added the bucket alone. -/
theorem handleCreateBucket_ensures :
    stores.Ensures (fun reply w' => reply = .answer 200 →
        bucket ∈ w'.metadata.buckets ∧ w'.metadata.objects = w.metadata.objects ∧
          w'.metadata.multipart = w.metadata.multipart)
      (handleCreateBucket a c bucket) w := by
  simp only [handleCreateBucket, ensures_bind, ensures_ask]
  intro f
  cases hc : (step w f (.createBucket ⟨bucket, a.region, str "Suspended", c.now⟩)).1 with
  | error e => cases e <;> exact fun h => by cases h
  | ok u =>
    obtain ⟨hok, hworld⟩ := eq_ok_of_writing hc
    intro _
    rw [step, hworld]
    exact ⟨mem_buckets_createBucket hok, w.metadata.objects_createBucket _,
      w.metadata.multipart_createBucket _⟩

/-- **Deleted buckets were empty exactly where nothing was hidden** from the listing, and that is also
when a bucket that is created again under the name shows no version and no upload. -/
theorem deletedBucket_empty_iff {faults : List Fault}
    (h : (respond a w ⟨.deleteBucket r bucket, c, faults⟩).1 = .answer 204) :
    (BucketEmpty w bucket ↔ NothingHidden w bucket) ∧
    ∀ (c' : Ctx) (faults' : List Fault), let w' := after a w ⟨.deleteBucket r bucket, c, faults⟩
      let w'' := after a w' ⟨.createBucket bucket, c', faults'⟩
      (respond a w' ⟨.createBucket bucket, c', faults'⟩).1 = .answer 200 →
        (w''.metadata.listObjectVersions bucket = .ok [] ∧
          w''.metadata.listMultipartUploads bucket [] = .ok [] ↔ NothingHidden w bucket) := by
  obtain ⟨hlisted, hobjects, huploads⟩ := respond_of_ensures
    (s := ⟨.deleteBucket r bucket, c, faults⟩) handleDeleteBucket_ensures h
  refine ⟨bucketEmpty_iff hlisted, ?_⟩
  intro c' faults' w' w'' hcreated
  obtain ⟨hmem, hobjects', huploads'⟩ := respond_of_ensures
    (s := ⟨.createBucket bucket, c', faults'⟩) handleCreateBucket_ensures hcreated
  change bucket ∈ w''.metadata.buckets at hmem
  have hversions (key : Bytes) : w''.metadata.versions bucket key = w.metadata.versions bucket key :=
    congrArg (fun o => (o.lookup (bucket, key)).getD []) (hobjects'.trans hobjects)
  have hmultipart : w''.metadata.multipart = w.metadata.multipart := huploads'.trans huploads
  rw [← bucketEmpty_iff hlisted, listObjectVersions_eq_nil_iff hmem,
    listMultipartUploads_eq_nil_iff hmem, hmultipart]
  simp only [hversions, ne_eq, not_true_eq_false, false_and]
  exact ⟨fun h => ⟨h.1, h.2⟩, fun h => ⟨h.1, h.2⟩⟩

/-! ## Two deletions -/

/-- A bucket whose object was deleted and whose upload was aborted. -/
def emptiedBucket : List Step :=
  [⟨.createBucket (str "b"), sampleCtx 1, []⟩,
    ⟨.putObject objectRequest (str "b") (str "k") ⟨str "one", false⟩, sampleCtx 2, []⟩,
    ⟨.createMultipartUpload objectRequest (str "b") (str "k"), sampleCtx 3, []⟩,
    ⟨.deleteObject objectRequest (str "b") (str "k"), sampleCtx 4, []⟩,
    ⟨.abortMultipartUpload objectRequest (str "b") (str "k") (str "3-"), sampleCtx 4, []⟩]

/-- A versioned bucket with an object behind a delete marker. -/
def hiddenHistory : List Step :=
  [⟨.createBucket (str "b"), sampleCtx 1, []⟩,
    ⟨.putBucketVersioning (str "b") (.document (str "Enabled")), sampleCtx 2, []⟩,
    ⟨.putObject objectRequest (str "b") (str "k") ⟨str "one", false⟩, sampleCtx 3, []⟩,
    ⟨.deleteObject objectRequest (str "b") (str "k"), sampleCtx 4, []⟩]

def bucketDelete : Step := ⟨.deleteBucket objectRequest (str "b"), sampleCtx 5, []⟩

def bucketCreate : Step := ⟨.createBucket (str "b"), sampleCtx 6, []⟩

/-- The bucket that was emptied leaves nothing, and a new one shows nothing. -/
theorem emptiedBucket_empty :
    BucketEmpty (afterAll sampleAPI {} emptiedBucket) (str "b") ∧
    let w := afterAll sampleAPI {} (emptiedBucket ++ [bucketDelete, bucketCreate])
    w.metadata.listObjectVersions (str "b") = .ok [] ∧
      w.metadata.listMultipartUploads (str "b") [] = .ok [] := by
  have hdeleted : (respond sampleAPI (afterAll sampleAPI {} emptiedBucket) bucketDelete).1 =
      .answer 204 := by decide +kernel
  have hcreated : (respond sampleAPI (afterAll sampleAPI {} (emptiedBucket ++ [bucketDelete]))
      bucketCreate).1 = .answer 200 := by decide +kernel
  have hrows : ∀ e ∈ (afterAll sampleAPI {} emptiedBucket).metadata.objects.entries, e.2 = [] := by
    decide +kernel
  have hnone : NothingHidden (afterAll sampleAPI {} emptiedBucket) (str "b") := by
    refine ⟨fun key v hv => ?_, fun uploadID u hu => ?_⟩
    · obtain ⟨e, he, -, hv⟩ := mem_entries_of_mem_versions (List.mem_of_getLast? hv)
      rw [hrows e he] at hv
      cases hv
    · have huploads : (afterAll sampleAPI {} emptiedBucket).metadata.multipart.entries = [] := by
        decide +kernel
      have hmem := AList.mem_lookup_iff.1 hu
      rw [huploads] at hmem
      cases hmem
  exact ⟨(deletedBucket_empty_iff hdeleted).1.2 hnone,
    ((deletedBucket_empty_iff hdeleted).2 _ _ hcreated).2 hnone⟩

/-- **A bucket that is not empty is deleted**: the object behind the marker and the marker are still
there, and a new bucket has them. -/
theorem hiddenVersions_outlive_bucket :
    (respond sampleAPI (afterAll sampleAPI {} hiddenHistory) bucketDelete).1 = .answer 204 ∧
    ((afterAll sampleAPI {} hiddenHistory).metadata.versions (str "b") (str "k")).map
      (fun v => (v.versionID, v.deleteMarker)) = [(str "3-", false), (str "4-", true)] ∧
    (respond sampleAPI (afterAll sampleAPI {} (hiddenHistory ++ [bucketDelete])) bucketCreate).1 =
      .answer 200 ∧
    ((afterAll sampleAPI {} (hiddenHistory ++ [bucketDelete, bucketCreate])).metadata.listObjectVersions
      (str "b")).map (fun l => l.map ObjectVersion.versionID) = .ok [str "4-", str "3-"] := by
  refine ⟨?_, ?_, ?_, ?_⟩ <;> decide +kernel

end S000
