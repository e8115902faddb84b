import S000.Metadata.Rollback

/-!
# Metadata/Restart — loading the snapshot that was saved

A snapshot keeps the maps of the store as they are, except two: the objects and the taggings have
composite keys, so they are written as lists of records and put back under keys that are computed from
the records.  The objects carry their key beside their versions.  For the taggings the computed key is
the one they were put under (`Keyed`), which every operation keeps; and then the order in which they are
written does not matter, for no two of them have the same key.

So **a store that is loaded answers every query as the one that was saved**, and as the one that was
running if the last save succeeded (`restart_alike`).
-/

namespace S000

open List AList

/-! ## Maps from lists -/

section Rebuild

variable {ι α β : Type} [DecidableEq α]

/-- `for _, x := range l { m[key(x)] = val(x) }`, from the empty map. -/
def rebuild (key : ι → α) (val : ι → β) (l : List ι) : AList fun _ : α => β :=
  l.foldl (fun m x => m.insert (key x) (val x)) ∅

/-- Records with new keys are put in front, the last one first. -/
theorem entries_foldl_insert {key : ι → α} {val : ι → β} : ∀ {l : List ι} {m : AList fun _ : α => β},
    (l.map key).Nodup → (∀ x ∈ l, key x ∉ m) →
      (l.foldl (fun m x => m.insert (key x) (val x)) m).entries =
        (l.map fun x => (⟨key x, val x⟩)).reverse ++ m.entries
  | [], _, _, _ => rfl
  | x :: l, m, hnodup, hnew => by
    rw [map_cons, nodup_cons] at hnodup
    have hx : key x ∉ m := hnew x mem_cons_self
    have hl : ∀ y ∈ l, key y ∉ m.insert (key x) (val x) := by
      intro y hy hmem
      rcases (mem_insert m).1 hmem with h | h
      · exact hnodup.1 (mem_map.2 ⟨y, hy, h⟩)
      · exact hnew y (mem_cons_of_mem x hy) h
    rw [foldl_cons, entries_foldl_insert hnodup.2 hl, entries_insert_of_notMem hx,
      map_cons, reverse_cons, append_assoc]
    rfl

/-- **A map is rebuilt from its records**, in whatever order they come. -/
theorem entries_rebuild_perm {key : ι → α} {val : ι → β} {l : List ι} {m : AList fun _ : α => β}
    (h : (l.map fun x => (⟨key x, val x⟩)).Perm m.entries) :
    (rebuild key val l).entries.Perm m.entries := by
  have hkeys : (l.map key).Perm m.keys := by
    have hmap := h.map Sigma.fst
    rw [map_map] at hmap
    exact hmap
  rw [rebuild, entries_foldl_insert (hkeys.nodup_iff.2 m.keys_nodup) fun _ _ => notMem_empty _]
  rw [show (∅ : AList fun _ : α => β).entries = [] from rfl, append_nil]
  exact (reverse_perm _).trans h

end Rebuild

namespace Metadata

/-! ## Snapshots -/

/-- `persistedObject`. -/
structure PersistedObject where
  bucket : Bytes
  key : Bytes
  versions : List ObjectVersion

/-- `persistedState`; a map that the text does not have is nil. -/
structure PersistedState where
  buckets : Option (AList fun _ : Bytes => Bucket)
  objects : List PersistedObject
  multipart : Option (AList fun _ : Bytes => MultipartUpload)
  parts : Option (AList fun _ : Bytes => (AList fun _ : ℤ => MultipartPart))
  credentials : Option (AList fun _ : Bytes => CredentialRecord)
  /-- `Websites`, `CORS`, `Policies`, `PublicAccess`, `Lifecycles`, `Notifications` and
  `Replications`. -/
  configs : (kind : ConfigKind) → Option (AList fun _ : Bytes => kind.Record)
  taggings : List ObjectTagging

/-- `snapshotState`.  The taggings come in the order of an iteration over the map. -/
def snapshotState (st : StoreState) : PersistedState where
  buckets := some st.buckets
  objects := (st.objects.entries.map fun e => (⟨e.1.1, e.1.2, e.2⟩)).insertionSort
    fun o o' => o.bucket < o'.bucket ∨ o.bucket = o'.bucket ∧ o.key ≤ o'.key
  multipart := some st.multipart
  parts := some st.parts
  credentials := some st.credentials
  configs kind := some (st.configs kind)
  taggings := st.taggings.entries.map Sigma.snd

/-- `applyPersistedState`. -/
def applyPersistedState (ps : PersistedState) : StoreState where
  buckets := ps.buckets.getD ∅
  objects := rebuild (fun po => (po.bucket, po.key)) PersistedObject.versions ps.objects
  multipart := ps.multipart.getD ∅
  parts := ps.parts.getD ∅
  credentials := ps.credentials.getD ∅
  configs kind := (ps.configs kind).getD ∅
  taggings := rebuild (fun t => StoreState.taggingKey t.bucket t.key t.versionID) id ps.taggings

/-! ## States that answer alike -/

namespace StoreState

/-- Two states with the same maps, up to the order in which two of them are iterated. -/
structure SameMaps (st st' : StoreState) : Prop where
  buckets : st.buckets = st'.buckets
  objects : st.objects.entries.Perm st'.objects.entries
  multipart : st.multipart = st'.multipart
  parts : st.parts = st'.parts
  credentials : st.credentials = st'.credentials
  configs : st.configs = st'.configs
  taggings : st.taggings.entries.Perm st'.taggings.entries

variable {st st' : StoreState}

theorem SameMaps.versions_eq (h : st.SameMaps st') (bucket key : Bytes) :
    st.versions bucket key = st'.versions bucket key := by
  unfold MemoryState.versions
  rw [perm_lookup h.objects]

/-- **States with the same maps answer alike.** -/
theorem SameMaps.alike (h : st.SameMaps st') : st.Alike st' := by
  have hversions := h.versions_eq
  obtain ⟨hbuckets, hobjects, hmultipart, hparts, hcredentials, hconfigs, htaggings⟩ := h
  obtain ⟨⟨buckets, objects, multipart, parts⟩, credentials, configs, taggings⟩ := st
  obtain ⟨⟨_, objects', _, _⟩, _, _, taggings'⟩ := st'
  subst hbuckets hmultipart hparts hcredentials hconfigs
  intro q
  cases q with
  | getObjectTagging bucket key versionID =>
    have hlookup : taggings.lookup (taggingKey bucket key versionID) =
      taggings'.lookup (taggingKey bucket key versionID) := perm_lookup htaggings
    dsimp only [StoreState.answer, StoreState.getObjectTagging]
    rw [hlookup]
  | listObjects bucket => exact congrArg Except.ok (Multiset.coe_eq_coe.2 (hobjects.filterMap _))
  | listObjectVersions bucket =>
    have hrows := (hobjects.filter fun e => decide (e.1.1 = bucket)).flatMap_right fun e => e.2
    have hsorted := ((perm_insertionSort (fun v v' : ObjectVersion =>
      v.key < v'.key ∨ v.key = v'.key ∧ v'.createdAt ≤ v.createdAt) _).trans hrows).trans
        (perm_insertionSort (fun v v' : ObjectVersion =>
          v.key < v'.key ∨ v.key = v'.key ∧ v'.createdAt ≤ v.createdAt) _).symm
    change Except.map _ (MemoryState.listObjectVersions ⟨buckets, objects, multipart, parts⟩ bucket) =
      .map _ (MemoryState.listObjectVersions ⟨buckets, objects', multipart, parts⟩ bucket)
    unfold MemoryState.listObjectVersions
    split_ifs
    · exact congrArg Except.ok (Multiset.coe_eq_coe.2 hsorted)
    · rfl
  | getLatestObjectVersion bucket key =>
    change MemoryState.getLatestObjectVersion ⟨buckets, objects, multipart, parts⟩ bucket key =
      MemoryState.getLatestObjectVersion ⟨buckets, objects', multipart, parts⟩ bucket key
    rw [MemoryState.getLatestObjectVersion, hversions bucket key]
    rfl
  | getObjectVersion bucket key versionID =>
    change MemoryState.getObjectVersion ⟨buckets, objects, multipart, parts⟩ bucket key versionID =
      MemoryState.getObjectVersion ⟨buckets, objects', multipart, parts⟩ bucket key versionID
    rw [MemoryState.getObjectVersion, MemoryState.getLatestObjectVersion, hversions bucket key]
    rfl
  | _ => rfl

/-! ## Taggings under their keys -/

/-- Every tagging stands under the key that is computed from it. -/
def Keyed (st : StoreState) : Prop :=
  ∀ e ∈ st.taggings.entries, e.1 = taggingKey e.2.bucket e.2.key e.2.versionID

theorem Keyed.putObjectTagging (h : st.Keyed) (cfg : ObjectTagging) :
    (st.putObjectTagging cfg).Keyed := by
  intro e he
  have hlookup := mem_lookup_iff.2 he
  unfold StoreState.putObjectTagging at hlookup
  by_cases hkey : e.1 = taggingKey cfg.bucket cfg.key cfg.versionID
  · rw [hkey, lookup_insert] at hlookup
    rw [hkey, ← Option.some.inj hlookup]
  · rw [lookup_insert_ne hkey] at hlookup
    exact h e (mem_lookup_iff.1 hlookup)

theorem Keyed.deleteObjectTagging (h : st.Keyed) (bucket key versionID : Bytes) :
    (st.deleteObjectTagging bucket key versionID).2.Keyed := by
  unfold StoreState.deleteObjectTagging
  split_ifs
  · exact fun e he => h e (kerase_sublist _ _ |>.subset he)
  · exact h

theorem Keyed.dropBucket (h : st.Keyed) (kinds : List ConfigKind) (bucket : Bytes) :
    (st.dropBucket kinds bucket).2.Keyed :=
  dropBucket_induct (fun _ _ h => h) (fun _ _ _ h => h) kinds bucket h

/-- **Every operation keeps the taggings under their keys.** -/
theorem Keyed.mutate (h : st.Keyed) (op : StoreOp) : (st.mutate op).2.Keyed := by
  cases op with
  | deleteBucket bucket => exact h.dropBucket _ bucket
  | putConfig kind cfg =>
    unfold StoreState.mutate putConfig
    dsimp only
    split_ifs <;> exact h
  | deleteConfig kind bucket =>
    unfold StoreState.mutate deleteConfig
    dsimp only
    split_ifs <;> exact h
  | putObjectTagging cfg => exact h.putObjectTagging cfg
  | deleteObjectTagging bucket key versionID => exact h.deleteObjectTagging bucket key versionID
  | runInTx fn =>
    refine runInTx_induct (p := Keyed) (fun st c h => ?_) h fn
    cases c with
    | deleteBucket bucket => exact h.dropBucket _ bucket
    | _ => exact h
  | repairConsistency =>
    rw [mutate_repairConsistency]
    dsimp only
    exact repairState_induct (fun _ _ _ h => h) (fun _ _ h => h) (fun _ _ _ h => h) h
  | _ => exact h

end StoreState

/-! ## The restart -/

/-- A state whose taggings stand under their keys is loaded as it was saved. -/
theorem sameMaps_load {st : StoreState} (h : st.Keyed) {taggings : List ObjectTagging}
    (horder : taggings.Perm (snapshotState st).taggings) :
    (applyPersistedState { snapshotState st with taggings }).SameMaps st where
  buckets := rfl
  objects := by
    refine entries_rebuild_perm ?_
    refine ((perm_insertionSort _ _).map _).trans (.of_eq ?_)
    rw [map_map]
    exact map_id _
  multipart := rfl
  parts := rfl
  credentials := rfl
  configs := rfl
  taggings := by
    refine entries_rebuild_perm ((horder.map _).trans (.of_eq ?_))
    rw [show (snapshotState st).taggings = st.taggings.entries.map Sigma.snd from rfl, map_map]
    refine (map_congr_left fun e he => ?_).trans (map_id _)
    exact Sigma.ext (h e he).symm .rfl

/-- Whether the last save of a history succeeded; `saved` says so of what was before it. -/
def MemoryBackedStore.lastSaved (s : MemoryBackedStore) (saved : Bool) :
    List (StoreOp × Bool) → Bool
  | [] => saved
  | (op, ok) :: history => (s.call op ok).2.lastSaved (match (s.st.mutate op).1 with
    | .ok v => if op.saves v then ok else saved
    | .error _ => saved) history

/-- **Memory and snapshot are one state after a save.** -/
theorem MemoryBackedStore.persisted_eq : ∀ {history : List (StoreOp × Bool)}
    {s : MemoryBackedStore} {saved : Bool}, (saved = true → s.persisted = s.st) →
      s.lastSaved saved history = true → (s.after history).persisted = (s.after history).st
  | [], _, _, h, hlast => h hlast
  | (op, ok) :: history, s, saved, h, hlast => by
    refine persisted_eq (s := (s.call op ok).2) (fun hsaved => ?_) hlast
    obtain ⟨e, hr, hcall⟩ | ⟨v, hr, hsaves, hcall⟩ | ⟨v, hr, hsaves, hcall⟩ := s.call_cases op ok
    · rw [hr] at hsaved
      rw [hcall]
      exact h hsaved
    · simp only [hr, hsaves] at hsaved
      rw [hcall]
      exact h hsaved
    · simp only [hr, hsaves] at hsaved
      obtain rfl : ok = true := hsaved
      rw [hcall]
      rfl

/-- **A restart changes no answer, if the last save succeeded.**  After every history of operations, with
saves that succeed or fail, the state that was saved last is loaded from its snapshot as it was: every
query is answered alike, and the versions of every key stand in the same order.  If no save failed after
it, that is the state in memory. -/
theorem restart_alike (history : List (StoreOp × Bool)) (taggings : List ObjectTagging)
    (horder : taggings.Perm (snapshotState (({} : MemoryBackedStore).after history).persisted).taggings) :
    let s := ({} : MemoryBackedStore).after history
    let loaded := applyPersistedState { snapshotState s.persisted with taggings }
    (loaded.Alike s.persisted ∧
      ∀ bucket key, loaded.versions bucket key = s.persisted.versions bucket key) ∧
    (({} : MemoryBackedStore).lastSaved true history = true → loaded.Alike s.st ∧
      ∀ bucket key, loaded.versions bucket key = s.st.versions bucket key) := by
  have hempty : StoreState.Keyed {} := nofun
  obtain ⟨-, hpersisted⟩ := MemoryBackedStore.after_induct (s := {})
    (fun st op h => h.mutate op) hempty hempty history
  have hload := sameMaps_load hpersisted horder
  refine ⟨⟨hload.alike, hload.versions_eq⟩, fun hlast => ?_⟩
  have hsame := MemoryBackedStore.persisted_eq (s := {}) (fun _ => rfl) hlast
  rw [← hsame]
  exact ⟨hload.alike, hload.versions_eq⟩

/-- Two taggings whose keys and version ids run into each other share one entry before the restart and
after it, although the first one was not saved. -/
theorem restart_alike_taggings :
    let s := ({} : MemoryBackedStore).after
      [(.putObjectTagging ⟨str "b", [0x61, 0, 0x62], [0x63], str "one"⟩, false),
        (.putObjectTagging ⟨str "b", [0x61], [0x62, 0, 0x63], str "two"⟩, true)]
    (applyPersistedState (snapshotState s.persisted)).answer
        (.getObjectTagging (str "b") [0x61, 0, 0x62] [0x63]) =
      .ok ⟨str "b", [0x61], [0x62, 0, 0x63], str "two"⟩ :=
  ((restart_alike [(.putObjectTagging ⟨str "b", [0x61, 0, 0x62], [0x63], str "one"⟩, false),
    (.putObjectTagging ⟨str "b", [0x61], [0x62, 0, 0x63], str "two"⟩, true)] _ (.refl _)).2 rfl).1
      (.getObjectTagging (str "b") [0x61, 0, 0x62] [0x63])

/-- **A bucket that a restart loses**: its creation was not saved, and yet it was there. -/
theorem unsavedBucket_lost : let b : Bucket := ⟨str "b", str "us-east-1", str "Suspended", 0⟩
    let s := ({} : MemoryBackedStore).after [(.createBucket b, false)]
    s.st.answer (.getBucket b.name) = .ok b ∧
      (applyPersistedState (snapshotState s.persisted)).answer (.getBucket b.name) = .error .notFound :=
  ⟨rfl, rfl⟩

end Metadata

end S000
