import S000.Server.Actions
import S000.Server.Gate
import S000.Server.Readable

/-!
# Server/Sparing — versions that a request leaves alone

Which versions survive a request, and why, is asked about locked versions, about the versions of a
suspended bucket, about all versions of a versioned one.  The argument is one: fix a set `S` of versions
that are there when the request starts.  The calls of the request spare them (`Spares`) as long as the
stores give `Answers` that say the truth about them; in turn the stores do so as long as their rows are
`Kept`.
-/

namespace S000

open Strings Metadata Blob MemoryState List

/-- The ids of the versions that a request can act on. -/
def InReach (w : World) (c : Ctx) (b k versionID : Bytes) : Prop :=
  versionID = nullVersion ∨ (∃ i, versionID = newVersionID c i) ∨
    versionID ∈ (w.metadata.versions b k).map ObjectVersion.versionID

def VersioningEnabled (w : World) (bucket : Bytes) : Prop :=
  ∃ b, w.metadata.getBucket bucket = .ok b ∧ b.versioningStatus = str "Enabled"

/-- The latest version of a key is no delete marker. -/
def Listed (w : World) (bucket key : Bytes) : Prop :=
  ∃ v, (w.metadata.versions bucket key).getLast? = some v ∧ v.deleteMarker = false

/-- What a request acts on, under a key, has the path of one of the versions only if it is that
version. -/
def Apart (a : S3API) (w : World) (c : Ctx) (S : Bytes → Bytes → ObjectVersion → Prop)
    (bucket key : Bytes) : Prop :=
  ∀ versionID, InReach w c bucket key versionID → ∀ b k r, S b k r →
    a.path (blobRef r) = a.path ⟨bucket, key, versionID⟩ → blobRef r = ⟨bucket, key, versionID⟩

variable {a : S3API} {w w₀ : World} {c : Ctx} {s : Step} {b k bucket key : Bytes}
  {l l' : List ObjectVersion} {o : Call} {r : ObjectVersion}
  {S : Bytes → Bytes → ObjectVersion → Prop} {trusted still : Prop}

theorem not_versioningEnabled {b : Bucket} (hb : w.metadata.getBucket bucket = .ok b)
    (h : b.versioningStatus ≠ str "Enabled") : ¬ VersioningEnabled w bucket := by
  rintro ⟨b', hb', henabled⟩
  obtain rfl := Except.ok.inj (hb.symm.trans hb')
  exact h henabled

/-! ## Calls that spare versions -/

section Spares

variable (a w₀ c S trusted still)

/-- The calls that do the versions no harm.  Where the rows are to stand `still`, no row of a key with
such a version changes at all. -/
def Spares : Call → Prop
  | .putObjectVersion v => RowOk a v ∧
    (v.versionID = nullVersion ∨ ∃ i, v.versionID = newVersionID c i) ∧
    ∀ r, S v.bucket v.key r →
      ¬ still ∧ (v.versionID = nullVersion → r.versionID ≠ nullVersion)
  | .deleteObjectVersion b k versionID => ∀ r, S b k r →
    ¬ still ∧ r.versionID ≠ versionID
  | .deleteAllObjectVersions b k => ∀ r, ¬ S b k r
  | .rename _ _ p | .promote _ _ p | .remove p => ∀ b k r, S b k r →
    a.path (blobRef r) ≠ p
  | .createBucket _ | .updateBucketVersioning .. | .updateObjectMetadata .. => False
  | _ => True

/-- The truth about the versions; what a read of one of them returns is part of it only where reads are
`trusted` not to fail. -/
def Answers : (o : Call) → o.Val → Prop
  | .getBucket name, v => ∀ b, v = .ok b → w₀.metadata.getBucket name = .ok b
  | .listObjects b, v => still → ∀ objects, v = .ok objects → ∀ obj ∈ objects, ∀ r,
    S b obj.key r → Listed w₀ b obj.key
  | .getObjectVersion b k versionID, v => trusted → ∀ r, S b k r →
    (versionID = r.versionID → v = .ok r) ∧
    (still → versionID = [] → v = w₀.metadata.getObjectVersion b k [])
  | .deleteObjectVersion b k versionID, v => ∀ removed, v = .ok removed →
    blobRef removed = ⟨b, k, versionID⟩ ∧ InReach w₀ c b k versionID
  | .deleteAllObjectVersions b k, v => ∀ removed ∈ v.1,
    removed.bucket = b ∧ removed.key = k ∧ InReach w₀ c b k removed.versionID
  | _, _ => True

/-- **The invariant of a request**: the rows of the versions are there, and no call has touched their
blobs. -/
structure Kept (x : Run calls Fault World) : Prop where
  wellFormed : WellFormed a x.world
  buckets : ∀ name b, x.world.metadata.getBucket name = .ok b → w₀.metadata.getBucket name = .ok b
  ids : ∀ b k, ∀ v ∈ x.world.metadata.versions b k, InReach w₀ c b k v.versionID
  rows : ∀ b k r, S b k r → r ∈ x.world.metadata.versions b k ∧
    (still → x.world.metadata.versions b k = w₀.metadata.versions b k)
  blobs : ∀ b k r, S b k r →
    ∀ e ∈ x.events, ¬ e.op.Touches (a.path (blobRef r))

end Spares

theorem Call.Quiet.spares (h : o.Quiet) : Spares a c S still o := by
  cases o with
  | createBucket | updateBucketVersioning | deleteBucket | putObjectVersion | updateObjectMetadata
  | deleteObjectVersion | deleteAllObjectVersions | rename | promote | remove => exact h.elim
  | _ => trivial

theorem Spares.not_touches (ho : Spares a c S still o) (hr : S b k r) :
    ¬ o.Touches (a.path (blobRef r)) := by
  cases o with
  | rename | promote | remove => exact fun h => ho b k r hr h.symm
  | _ => exact id

/-- **The rows after a call that spares them.** -/
theorem Spares.rows (ho : Spares a c S still o) (h : RowChange b k o l l')
    (hr : S b k r) (hl : r ∈ l) : r ∈ l' ∧ (still → l' = l) := by
  cases h with
  | same => exact ⟨hl, fun _ => rfl⟩
  | drop hb hk hv =>
    obtain ⟨hstill, hne⟩ := ho.2.2 r (hb ▸ hk ▸ hr)
    exact ⟨mem_filter.2 ⟨hl, by simpa using hne hv⟩, fun h => absurd h hstill⟩
  | put hb hk =>
    obtain ⟨hstill, hne⟩ := ho.2.2 r (hb ▸ hk ▸ hr)
    exact ⟨Versions.mem_put.2 (.inr ⟨hl, hne⟩), fun h => absurd h hstill⟩
  | remove =>
    obtain ⟨hstill, hne⟩ := ho r hr
    exact ⟨(Versions.mem_remove_of_ne hne).2 hl, fun h => absurd h hstill⟩
  | clear => exact absurd hr (ho r)
  | update => exact ho.elim

theorem RowChange.inReach (h : RowChange b k o l l')
    (hput : ∀ v, o = .putObjectVersion v →
      v.versionID = nullVersion ∨ ∃ i, v.versionID = newVersionID c i)
    (hl : ∀ v ∈ l, InReach w₀ c b k v.versionID) :
    ∀ v ∈ l', InReach w₀ c b k v.versionID := by
  intro v hv
  rcases h.origin hv with ⟨v₀, hv₀, hstrip⟩ | ⟨ho, -, -⟩
  · have hid : (stripMetadata v₀).versionID = (stripMetadata v).versionID := by rw [hstrip]
    exact hid ▸ hl v₀ hv₀
  · exact (hput v ho).imp_right .inl

theorem Spares.putsOk (ho : Spares a c S still o) : PutsOk a o := by
  rintro v rfl
  exact ho.1

theorem Spares.buckets (ho : Spares a c S still o) (f : Fault) {name : Bytes} {b : Bucket}
    (hb : (step w f o).2.metadata.getBucket name = .ok b) : w.metadata.getBucket name = .ok b := by
  by_cases hdelete : ∃ bucket, o = .deleteBucket bucket
  · obtain ⟨bucket, rfl⟩ := hdelete
    rcases writing_cases w f (w.metadata.deleteBucket bucket) with h | h
    · rwa [step, h] at hb
    · rw [step, h] at hb
      exact w.metadata.getBucket_of_deleteBucket hb
  · rwa [getBucket, buckets_step] at hb
    cases o with
    | createBucket | updateBucketVersioning => exact ho.elim
    | deleteBucket bucket => exact absurd ⟨bucket, rfl⟩ hdelete
    | _ => trivial

variable {x : Run calls Fault World}

/-- **Such a call keeps the invariant.** -/
theorem Kept.advance {f : Fault} (hx : Kept a w₀ c S still x) (ho : Spares a c S still o)
    (hfresh : FreshPut x.world ⟨o, f, (step x.world f o).1⟩) :
    Kept a w₀ c S still (stores.advance x f o) where
  wellFormed := hx.wellFormed.step ho.putsOk hfresh
  buckets name b hb := hx.buckets name b (ho.buckets f hb)
  ids b k := (rowChange_step x.world f o b k).inReach (by rintro v rfl; exact ho.2.1) (hx.ids b k)
  rows b k r hr := by
    obtain ⟨hmem, hsame⟩ := hx.rows b k r hr
    obtain ⟨hmem', hsame'⟩ := ho.rows (rowChange_step x.world f o b k) hr hmem
    exact ⟨hmem', fun h => (hsame' h).trans (hsame h)⟩
  blobs b k r hr e he := by
    rcases mem_append.1 he with he | he
    · exact hx.blobs b k r hr e he
    · obtain rfl := mem_singleton.1 he
      exact ho.not_touches hr

/-- **The stores tell the truth** as long as the rows are kept. -/
theorem Kept.answers {f : Fault} (hx : Kept a w₀ c S still x)
    (hread : trusted → ∀ b k versionID, o = .getObjectVersion b k versionID → f = .ok) :
    Answers w₀ c S trusted still o (step x.world f o).1 := by
  cases o with
  | getBucket name =>
    intro b hb
    cases f with
    | ok => exact hx.buckets name b hb
    | refused | unsaved | broken => cases hb
  | listObjects b =>
    intro hstill objects hobjects obj hobj r hr
    obtain rfl := Except.ok.inj (eq_ok_of_reading hobjects)
    obtain ⟨key, hmarker, hlast⟩ := MemoryState.mem_listObjects.1 hobj
    obtain ⟨-, hkey⟩ := (hx.wellFormed b key).keyed obj (mem_of_getLast? hlast)
    obtain rfl := hkey
    exact ⟨obj, by rwa [← (hx.rows b obj.key r hr).2 hstill], hmarker⟩
  | getObjectVersion b k versionID =>
    intro htrusted r hr
    obtain rfl := hread htrusted b k versionID rfl
    obtain ⟨hmem, hsame⟩ := hx.rows b k r hr
    refine ⟨?_, ?_⟩
    · rintro rfl
      exact (hx.wellFormed b k).getObjectVersion hmem
    · rintro hstill rfl
      change x.world.metadata.getObjectVersion b k [] = _
      simp only [getObjectVersion, getLatestObjectVersion, hsame hstill]
  | deleteObjectVersion b k versionID =>
    intro removed hremoved
    obtain ⟨hmem, rfl⟩ := removed_of_deleteObjectVersion hremoved
    exact ⟨(hx.wellFormed b k).blobRef_eq hmem, hx.ids b k removed hmem⟩
  | deleteAllObjectVersions b k =>
    intro removed hremoved
    have hmem := removed_of_deleteAllObjectVersions hremoved
    obtain ⟨hb, hk⟩ := (hx.wellFormed b k).keyed removed hmem
    exact ⟨hb, hk, hx.ids b k removed hmem⟩
  | _ => trivial

/-! ## Handlers that spare versions -/

section Handlers

variable {c' : Ctx} {versionID : Bytes}

theorem Apart.spared (hapart : Apart a w₀ c S bucket key)
    (hS : ∀ b k r, S b k r → r.bucket = b ∧ r.key = k) (hreach : InReach w₀ c bucket key versionID)
    (hne : ∀ r, S bucket key r → r.versionID ≠ versionID) :
    ∀ b k r, S b k r → a.path (blobRef r) ≠ a.path ⟨bucket, key, versionID⟩ := by
  intro b k r hr hpath
  have href := hapart versionID hreach b k r hr hpath
  obtain ⟨hb, hk⟩ := hS b k r hr
  simp only [blobRef, ObjectRef.mk.injEq, hb, hk] at href
  obtain ⟨rfl, rfl, hid⟩ := href
  exact hne r hr hid

/-- Where the digest is one-to-one and bucket names have no NUL, no two references have one path. -/
theorem apart_of_injective (hw : WellFormed a w₀) (hsha : Function.Injective a.platform.sha256)
    (hS : ∀ b k r, S b k r → r ∈ w₀.metadata.versions b k)
    (hnul : ∀ b k r, S b k r → 0 ∉ b) (hbucket : 0 ∉ bucket) :
    Apart a w₀ c S bucket key := by
  intro versionID hreach b k r hr hpath
  have hnil : versionID ≠ [] := by
    rcases hreach with rfl | ⟨i, rfl⟩ | hmem
    · decide
    · exact newVersionID_ne_nil c i
    · obtain ⟨v, hv, rfl⟩ := mem_map.1 hmem
      exact ((hw bucket key).rows v hv).named
  obtain ⟨hb, hk⟩ := (hw b k).keyed r (hS b k r hr)
  obtain ⟨hkeys, hversion⟩ := objectPath_inj hsha hpath
  dsimp only [blobRef] at hkeys
  rw [hb] at hkeys
  obtain ⟨rfl, rfl⟩ := append_cons_inj (hnul b k r hr) hbucket hkeys
  rw [ObjectRef.version_eq ((hw b k).rows r (hS b k r hr)).named, ObjectRef.version_eq hnil]
    at hversion
  rw [blobRef, hb, hk, ← show r.versionID = versionID from hversion]

/-- Where a bucket's name is that of another one, a NUL and something more, what is more can just as
well begin a key. -/
theorem objectPath_regrouped (P : Platform) (s : Store) (b rest key : Bytes) :
    objectPath P s ⟨b ++ 0 :: rest, key, []⟩ = objectPath P s ⟨b, rest ++ 0 :: key, []⟩ := by
  simp [objectPath, pathElements]

/-- **When paths separate versions**: exactly if no bucket has the name of a bucket followed by a
NUL. -/
theorem objectPath_separates_iff (P : Platform) (s : Store)
    (hsha : Function.Injective P.sha256) (buckets : Set Bytes) :
    (∀ ref ref' : ObjectRef, ref.bucket ∈ buckets → ref'.bucket ∈ buckets → ref.key ≠ [] →
      ref'.key ≠ [] → objectPath P s ref = objectPath P s ref' →
        ref.bucket = ref'.bucket ∧ ref.key = ref'.key ∧ ref.version = ref'.version) ↔
      ∀ b ∈ buckets, ∀ b' ∈ buckets, ¬ b ++ [0] <+: b' := by
  constructor
  · rintro h b hb _ hb' ⟨rest, rfl⟩
    rw [append_assoc] at hb'
    have hsame := (h ⟨b ++ 0 :: rest, [1], []⟩ ⟨b, rest ++ [0, 1], []⟩ hb' hb
      (cons_ne_nil _ _) (by simp) (objectPath_regrouped P s b rest [1])).1
    simpa using congrArg length hsame
  · rintro h ⟨b, k, v⟩ ⟨b', k', v'⟩ hb hb' - - hpath
    obtain ⟨hkeys, hversion⟩ := objectPath_inj hsha hpath
    -- the longer of the two names begins with the other one and a NUL, unless they are equal
    rcases append_eq_append_iff.1 hkeys with ⟨_ | ⟨c, rest⟩, rfl, hrest⟩ | ⟨_ | ⟨c, rest⟩, hname, hrest⟩
    · exact ⟨(append_nil b).symm, (cons.inj hrest).2, hversion⟩
    · obtain rfl := (cons.inj hrest).1
      exact absurd ⟨rest, by simp⟩ (h b hb _ hb')
    · rw [append_nil] at hname
      exact ⟨hname, (cons.inj hrest).2.symm, hversion⟩
    · obtain rfl := (cons.inj hrest).1
      exact absurd ⟨rest, by simp [show b = _ from hname]⟩ (h b' hb' b hb)

/-- Objects of one key in two buckets without a NUL have two paths. -/
theorem objectPath_separates_plain :
    let P := { digestPlatform with
      sha256 := spread Sha256.hash [str "a" ++ 0 :: str "k", str "b" ++ 0 :: str "k", nullVersion] }
    objectPath P sampleAPI.blob ⟨str "a", str "k", nullVersion⟩ ≠
      objectPath P sampleAPI.blob ⟨str "b", str "k", nullVersion⟩ := by
  intro P h
  have hsha : Function.Injective P.sha256 := spread_sha256_injective (by decide +kernel)
  have hapart : ∀ b ∈ [str "a", str "b"], ∀ b' ∈ [str "a", str "b"], ¬ b ++ [0] <+: b' := by decide
  have hsame := (objectPath_separates_iff P _ hsha {b | b ∈ [str "a", str "b"]}).2 hapart
    _ _ (by decide) (by decide) (by decide) (by decide) h
  exact absurd hsame.1 (by decide)

/-- An object of a bucket `a` and one of a bucket whose name goes on with a NUL have one path, and the
routes let both through. -/
theorem objectPath_shared :
    bucketAndKey { objectRequest with url := { path := str "/a" ++ 0 :: str "b/c" } } [] =
      some (str "a" ++ 0 :: str "b", str "c") ∧
    bucketAndKey { objectRequest with url := { path := str "/a/b" ++ 0 :: str "c" } } [] =
      some (str "a", str "b" ++ 0 :: str "c") ∧
    sampleAPI.path ⟨str "a" ++ 0 :: str "b", str "c", nullVersion⟩ =
      sampleAPI.path ⟨str "a", str "b" ++ 0 :: str "c", nullVersion⟩ :=
  ⟨by decide +kernel, by decide +kernel, rfl⟩

variable (hapart : Apart a w₀ c S bucket key) (hS : ∀ b k r, S b k r → r.bucket = b ∧ r.key = k)

include hapart hS

theorem Apart.target_spared {ref : ObjectRef} {A : (o : Call) → o.Val → Prop}
    (hc : ∃ i, newVersionID c' 0 = newVersionID c i) (h : Target A c' bucket key ref)
    (hne : ∀ r, S bucket key r → r.versionID ≠ ref.versionID) :
    ∀ b k r, S b k r → a.path (blobRef r) ≠ a.path ref := by
  obtain ⟨b, -, hid⟩ := h.versionID_eq
  have href : ref = ⟨bucket, key, ref.versionID⟩ := by rw [← h.bucket_eq, ← h.key_eq]
  rw [href]
  refine hapart.spared hS ?_ hne
  rw [hid]
  obtain ⟨i, hc⟩ := hc
  exact (writtenVersionID_cases c' b).imp_right fun hnew => .inl ⟨i, hnew.trans hc⟩

omit hapart hS in
/-- **Writes spare the versions** that their target is not one of. -/
theorem writeGuard_spares (hc : ∃ i, newVersionID c' 0 = newVersionID c i)
    (hne : ∀ ref, Target (Answers w₀ c S trusted False) c' bucket key ref →
      ∀ r, S bucket key r → r.versionID ≠ ref.versionID)
    (hspared : ∀ ref, Target (Answers w₀ c S trusted False) c' bucket key ref →
      ∀ b k r, S b k r → a.path (blobRef r) ≠ a.path ref) :
    WriteGuard a (Answers w₀ c S trusted False) (Spares a c S False) c' bucket key := by
  refine ⟨fun ref h _ => hspared ref h, fun ref h _ _ => hspared ref h, fun row h => ?_⟩
  obtain ⟨b, -, hid⟩ := h.target.versionID_eq
  refine ⟨h.rowOk, ?_, fun r hr => ⟨id, fun hnull hnull' => ?_⟩⟩
  · obtain ⟨i, hc⟩ := hc
    exact (writtenVersionID_cases c' b).imp hid.trans fun hnew => ⟨i, hid.trans (hnew.trans hc)⟩
  · have hr' : S bucket key r := h.target.bucket_eq ▸ h.target.key_eq ▸ hr
    exact hne _ h.target r hr' (hnull'.trans hnull.symm)

/-- **Deletions of all versions of a key spare the versions** if the key has none of them. -/
theorem wipeGuard_spares (hnone : ∀ r, ¬ S bucket key r) :
    WipeGuard a (Answers w₀ c S trusted still) (Spares a c S still) bucket key where
  all := hnone
  blobs removed err hremoved v hv := by
    obtain ⟨hb, hk, hreach⟩ := hremoved v hv
    have href : blobRef v = ⟨bucket, key, v.versionID⟩ := by rw [blobRef, hb, hk]
    rw [href]
    exact hapart.spared hS hreach fun r hr => absurd hr (hnone r)

/-- …also if the check fails where the key has one of them. -/
theorem deleteAllGuard_spares {strict : Prop}
    (hnone : Unlocked (Answers w₀ c S trusted still) c bucket key versionID → ∀ r, ¬ S bucket key r) :
    DeleteAllGuard a (Answers w₀ c S trusted still) (Spares a c S still) c bucket strict key
      versionID where
  all h := hnone h
  blobs h removed err hremoved _ := by
    have hwipe : WipeGuard a (Answers w₀ c S trusted still) (Spares a c S still) bucket key :=
      wipeGuard_spares hapart hS (hnone h)
    exact hwipe.blobs removed err hremoved

/-- **Deletions of one version spare the versions** if the check fails for each of them. -/
theorem deleteGuard_spares (hstill : versionID ≠ [] → ¬ still)
    (hne : Unlocked (Answers w₀ c S trusted still) c bucket key versionID →
      ∀ r, S bucket key r → r.versionID ≠ versionID) :
    DeleteGuard a (Answers w₀ c S trusted still) (Spares a c S still) c bucket key versionID where
  version hnil h r hr := ⟨hstill hnil, hne h r hr⟩
  versionBlob _ h removed hremoved _ := by
    obtain ⟨href, hreach⟩ := hremoved removed rfl
    rw [href]
    exact hapart.spared hS hreach (hne h)

omit hapart hS in
theorem deleteMarker_spares {i : ℕ} (hstill : ¬ still) :
    Spares a c S still (.putObjectVersion (deleteMarker bucket key (newVersionID c i) c.now)) :=
  ⟨deleteMarker_rowOk bucket key c i, .inr ⟨i, rfl⟩, fun _ _ =>
    ⟨hstill, fun h => absurd h (newVersionID_ne_null c i)⟩⟩

end Handlers

/-! ## Requests that spare versions -/

theorem kept_start (hw : WellFormed a w) (hS : ∀ b k r, S b k r → r ∈ w.metadata.versions b k) :
    Kept a w c S still ⟨w, []⟩ :=
  ⟨hw, fun _ _ h => h, fun _ _ _ hv => .inr (.inr (mem_map_of_mem hv)),
    fun b k r hr => ⟨hS b k r hr, fun _ => rfl⟩, nofun⟩

/-- **A request that spares versions**: their rows are there afterwards, and no call has touched their
blobs. -/
theorem kept_of_spares (hw : WellFormed a w)
    (honce : stores.Allowed FreshPut w (respond a w s).2.events)
    (hreads : trusted → ∀ e ∈ (respond a w s).2.events, ∀ b k versionID,
      e.op = .getObjectVersion b k versionID → e.fault = .ok)
    (hS : ∀ b k r, S b k r → r ∈ w.metadata.versions b k)
    (h : (handle a s.ctx s.request).Only (Answers w s.ctx S trusted still)
      (Spares a s.ctx S still) fun _ => True) :
    Kept a w s.ctx S still (respond a w s).2 := by
  refine (respond_of_only
    (fun w e => FreshPut w e ∧ (trusted → ∀ b k versionID,
      e.op = .getObjectVersion b k versionID → e.fault = .ok))
    (Kept a w s.ctx S still)
    (fun x f o hx ho hB => ⟨hx.answers hB.2, hx.advance ho hB.1⟩) h (kept_start hw hS) ?_).2
  exact honce.and fun e he htrusted => hreads htrusted e he

/-! ## Worlds with one key -/

/-- Every row of a world is a version of the sample key, with one of the ids. -/
def OneKey (ids : List Bytes) (w : World) : Prop :=
  ∀ e ∈ w.metadata.objects.entries, e.1 = (str "b", str "k") ∧
    ∀ v ∈ e.2, v.bucket = str "b" ∧ v.key = str "k" ∧ v.versionID ∈ ids

instance (ids : List Bytes) (w : World) : Decidable (OneKey ids w) := by
  unfold OneKey
  infer_instance

section OneKey

variable {ids : List Bytes}

theorem OneKey.row (hw : OneKey ids w) (hr : r ∈ w.metadata.versions b k) :
    b = str "b" ∧ k = str "k" ∧ r.versionID ∈ ids ∧ blobRef r = ⟨str "b", str "k", r.versionID⟩ := by
  obtain ⟨e, he, hkey, hr⟩ := mem_entries_of_mem_versions hr
  obtain ⟨hbk, hrow⟩ := hw e he
  obtain ⟨hb, hk, hid⟩ := hrow r hr
  have hbk := Prod.ext_iff.1 (hkey.symm.trans hbk)
  exact ⟨hbk.1, hbk.2, hid, by rw [blobRef, hb, hk]⟩

theorem OneKey.unused (hw : OneKey ids w) {n : Time} (hnew : newVersionID (sampleCtx n) 0 ∉ ids) :
    ∀ b k i, newVersionID (sampleCtx n) i ∉ (w.metadata.versions b k).map ObjectVersion.versionID := by
  intro b k i hmem
  obtain ⟨r, hr, hid⟩ := mem_map.1 hmem
  exact hnew (hid ▸ (hw.row hr).2.2.1)

theorem OneKey.freshIDs (hw : OneKey ids w) {request : S3Request} {n : Time} {faults : List Fault}
    (hnew : newVersionID (sampleCtx n) 0 ∉ ids)
    (honce : stores.Allowed FreshPut w (respond a w ⟨request, sampleCtx n, faults⟩).2.events) :
    FreshIDs a w ⟨request, sampleCtx n, faults⟩ :=
  ⟨fun k i => hw.unused hnew _ k i, honce⟩

theorem OneKey.apart (hw : OneKey ids w) {n : Time}
    (hS : ∀ b k r, S b k r → r ∈ w.metadata.versions b k)
    (hpaths : ∀ x ∈ ids, ∀ y ∈ nullVersion :: newVersionID (sampleCtx n) 0 :: ids,
      a.path ⟨str "b", str "k", x⟩ = a.path ⟨str "b", str "k", y⟩ → x = y) :
    Apart a w (sampleCtx n) S (str "b") (str "k") := by
  intro versionID hreach b k r hr hpath
  obtain ⟨-, -, hid, href⟩ := hw.row (hS b k r hr)
  rw [href] at hpath ⊢
  rw [hpaths r.versionID hid versionID ?_ hpath]
  rcases hreach with rfl | ⟨i, rfl⟩ | hmem
  · exact mem_cons_self
  · exact mem_cons_of_mem _ mem_cons_self
  · obtain ⟨r', hr', rfl⟩ := mem_map.1 hmem
    exact mem_cons_of_mem _ (mem_cons_of_mem _ (hw.row hr').2.2.1)

end OneKey

end S000
