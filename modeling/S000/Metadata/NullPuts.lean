import S000.Metadata.Database

/-!
# Metadata/NullPuts — replacing a `null` version on the SQL store

`sqlitePutObjectVersion` replaces the `null` row of a key by a `DELETE` and an `INSERT`.  The two are
statements of their own, outside of any transaction, and the unique index leaves `null` rows out: what
keeps them single is that no other `INSERT` falls between the two, and what keeps the old row from
getting lost is that the second does not fail after the first.
-/

namespace S000.Metadata

open List Machine Statement Database

/-- An `INSERT` of a `null` row of the key. -/
def Statement.insertsNull (bucket key : Bytes) : Statement → Bool
  | .insertVersion v => v.bucket = bucket && v.key = key && v.versionID = nullVersion
  | _ => false

/-- A `DELETE` of the `null` rows of the key. -/
def Statement.deletesNull (bucket key : Bytes) : Statement → Bool
  | .deleteVersion b k versionID => b = bucket && k = key && versionID = nullVersion
  | _ => false

/-- The number of `null` rows of a key. -/
def Database.nullRows (db : Database) (bucket key : Bytes) : ℕ :=
  db.objectVersions.countP (Row.hasID bucket key nullVersion)

/-- Calls that take turns, statement by statement. -/
abbrev PutPool := Pool statements Bool Database (Except Error Unit)

/-- Calls of `PutObjectVersion`, before their first statements. -/
def putPool (db : Database) (vs : List ObjectVersion) : PutPool where
  threads := vs.map fun v => (Sqlite.putObjectVersion v).run
  world := db

/-- A `DELETE` of a thread that has taken out the `null` rows of the key. -/
def cleared (bucket key : Bytes) (i : ℕ) (t : ℕ × Event statements Bool) : Bool :=
  t.1 = i && t.2.op.deletesNull bucket key && t.2.val.isOk

/-- What has happened since a thread has taken out the `null` rows of the key. -/
def sinceCleared (bucket key : Bytes) (i : ℕ) (events : List (ℕ × Event statements Bool)) :
    List (ℕ × Event statements Bool) :=
  events.reverse.takeWhile fun t => !cleared bucket key i t

/-- **A replacement that is not disturbed**: the `INSERT` does not fail, and no other `null` row was
inserted since the `DELETE`. -/
def Undisturbed (bucket key : Bytes) (x : PutPool) (i : ℕ) (e : Event statements Bool) : Prop :=
  e.op.insertsNull bucket key = true → e.fault = false ∧
    ∀ t ∈ sinceCleared bucket key i x.events, t.2.op.insertsNull bucket key = false

instance (bucket key : Bytes) (x : PutPool) (i : ℕ) (e : Event statements Bool) :
    Decidable (Undisturbed bucket key x i e) := by
  unfold Undisturbed
  infer_instance

variable {db : Database} {dialect : Dialect} {bucket key : Bytes} {v : ObjectVersion}

/-! ## Statements -/

theorem nullRows_deleteRows : (db.deleteRows (Row.hasID bucket key nullVersion)).nullRows bucket key =
    0 := by
  rw [nullRows, countP_eq_zero]
  intro r hr
  simpa using (mem_filter.1 hr).2

theorem nullRows_insertRow : (db.insertRow v).nullRows bucket key =
    db.nullRows bucket key + if (insertVersion v).insertsNull bucket key then 1 else 0 := by
  rw [nullRows, insertRow, countP_append, countP_singleton]
  rfl

theorem execute_insertNull (h : (insertVersion v).insertsNull bucket key = true) :
    db.execute dialect (.insertVersion v) = (.ok (1 : ℕ), db.insertRow v) := by
  have hnull : v.versionID = nullVersion := by
    simp only [insertsNull, Bool.and_eq_true, decide_eq_true_eq] at h
    exact h.2
  refine if_neg ?_
  simp [breaksIdentity, hnull]

/-- **A statement that is answered with an error has changed nothing.** -/
theorem step_of_error {fails : Bool} {s : Statement}
    (h : ((database dialect).step db fails s).1.isOk = false) :
    ((database dialect).step db fails s).2 = db := by
  cases fails with
  | true => rfl
  | false =>
    change (db.execute dialect s).1.isOk = false at h
    change (db.execute dialect s).2 = db
    cases s with
    | insertBucket | insertVersion | insertUpload =>
      unfold execute at h ⊢
      dsimp only at h ⊢
      split_ifs at h ⊢
      · rfl
      · cases h
    | _ => first | rfl | cases h

/-! ## Turns -/

/-- What a call may do next: its `INSERT` of a `null` row comes after its `DELETE`. -/
def putGuard (bucket key : Bytes) (es : List (Event statements Bool)) (s : Statement) : Prop :=
  s = .deleteVersion bucket key nullVersion ∨
    ∃ v, s = .insertVersion v ∧ (s.insertsNull bucket key = true →
      ∃ d ∈ es, d.op.deletesNull bucket key = true ∧ d.val.isOk = true)

/-- The `INSERT` of a `null` row succeeds. -/
def putAnswers (bucket key : Bytes) (s : Statement) (answer : Except Error s.Val) : Prop :=
  s.insertsNull bucket key = true → answer.isOk = true

/-- The statements of a call that returns an error were all answered with one. -/
def putResult (es : List (Event statements Bool)) (result : Except Error Unit) : Prop :=
  ∀ e, result = .error e → ∀ d ∈ es, d.val.isOk = false

theorem putObjectVersion_guarded (hb : v.bucket = bucket) (hk : v.key = key) :
    (Sqlite.putObjectVersion v).run.Guarded (putAnswers bucket key) (putGuard bucket key)
      putResult [] := by
  unfold Sqlite.putObjectVersion
  by_cases hnull : v.versionID = nullVersion
  · rw [if_pos hnull]
    refine ⟨.inl (by rw [hb, hk, hnull]), fun f a ha => ?_⟩
    cases a with
    | error e =>
      intro e' he' d hd
      rw [mem_singleton.1 hd]
      rfl
    | ok n =>
      refine ⟨.inr ⟨v, rfl, fun _ => ⟨_, mem_append_right _ (mem_singleton_self _), ?_, rfl⟩⟩,
        fun f' a' ha' => ?_⟩
      · simp [deletesNull, hb, hk, hnull]
      cases a' with
      | error e => cases ha' (by simp [insertsNull, hb, hk, hnull])
      | ok n' => exact nofun
  · rw [if_neg hnull]
    refine ⟨.inr ⟨v, rfl, fun h => ?_⟩, fun f a _ => ?_⟩
    · simp [insertsNull, hnull] at h
    cases a with
    | error e =>
      intro e' he' d hd
      rw [mem_singleton.1 hd]
      rfl
    | ok n => exact nofun

/-- **One `null` row at most**, and none where a thread has taken it out and nothing was inserted
since. -/
def SingleNull (bucket key : Bytes) (db : Database) (events : List (ℕ × Event statements Bool)) :
    Prop :=
  db.nullRows bucket key ≤ 1 ∧ ∀ i, (∃ t ∈ events, cleared bucket key i t = true) →
    (∀ t ∈ sinceCleared bucket key i events, t.2.op.insertsNull bucket key = false) →
      db.nullRows bucket key = 0

variable {events : List (ℕ × Event statements Bool)} {t : ℕ × Event statements Bool}

theorem sinceCleared_concat {i : ℕ} (ht : cleared bucket key i t = false) :
    sinceCleared bucket key i (events ++ [t]) = t :: sinceCleared bucket key i events := by
  simp [sinceCleared, ht]

theorem SingleNull.of_same {db' : Database} (h : SingleNull bucket key db events)
    (hrows : db'.nullRows bucket key = db.nullRows bucket key)
    (ht : ∀ i, cleared bucket key i t = false) : SingleNull bucket key db' (events ++ [t]) := by
  rw [SingleNull, hrows]
  refine ⟨h.1, fun i ⟨t', ht', hcleared⟩ hsince => h.2 i ⟨t', ?_, hcleared⟩ fun t'' ht'' => ?_⟩
  · rcases mem_append.1 ht' with ht' | ht'
    · exact ht'
    · rw [mem_singleton.1 ht', ht i] at hcleared
      cases hcleared
  · exact hsince t'' (by rw [sinceCleared_concat (ht i)]; exact mem_cons_of_mem _ ht'')

/-- **A turn keeps the `null` row single.** -/
theorem SingleNull.turn {x : PutPool} {i : ℕ} {f : Bool} {s : Statement}
    (hx : SingleNull bucket key x.world x.events)
    (hs : putGuard bucket key (eventsOf x i) s)
    (hB : Undisturbed bucket key x i ⟨s, f, ((database dialect).step x.world f s).1⟩) :
    SingleNull bucket key ((database dialect).step x.world f s).2
      (x.events ++ [(i, ⟨s, f, ((database dialect).step x.world f s).1⟩)]) := by
  rcases hs with rfl | ⟨v, rfl, hown⟩
  · cases f with
    | true => exact hx.of_same rfl fun j => by simp [cleared, database, Except.toBool]
    | false => exact ⟨nullRows_deleteRows.trans_le (Nat.zero_le 1), fun _ _ _ => nullRows_deleteRows⟩
  have hinsert (a : Except Error ℕ) (j : ℕ) : cleared bucket key j (i, ⟨.insertVersion v, f, a⟩) =
      false := by
    simp [cleared, deletesNull]
  cases hnull : (insertVersion v).insertsNull bucket key with
  | false =>
    refine hx.of_same ?_ (hinsert _)
    cases f with
    | true => rfl
    | false =>
      change (x.world.execute dialect (.insertVersion v)).2.nullRows bucket key = _
      unfold execute
      dsimp only
      split_ifs
      · rfl
      · rw [nullRows_insertRow, hnull]
        rfl
  | true =>
    obtain ⟨rfl, hsince⟩ := hB hnull
    obtain ⟨d, hd, hdelete, hok⟩ := hown hnull
    have hzero : x.world.nullRows bucket key = 0 :=
      hx.2 i ⟨(i, d), mem_eventsOf.1 hd, by simp [cleared, hdelete, hok]⟩ hsince
    have hrows : ((database dialect).step x.world false (.insertVersion v)).2.nullRows bucket key =
        1 := by
      change (x.world.execute dialect (.insertVersion v)).2.nullRows bucket key = 1
      rw [execute_insertNull hnull, nullRows_insertRow, hzero, if_pos hnull]
    refine ⟨hrows.le, fun j _ hnone => ?_⟩
    -- the row that was inserted is one that was inserted since
    have hlast := hnone (i, ⟨.insertVersion v, false, _⟩)
      (by rw [sinceCleared_concat (hinsert _ j)]; exact mem_cons_self)
    rw [hnull] at hlast
    cases hlast

/-- **Replacing a `null` version is atomic where nothing disturbs it.**  However calls of
`PutObjectVersion` on a key take turns, as long as no `INSERT` of a `null` row fails or falls between
the two statements of another call, the key has one `null` row at most, and a call that returns an error
has left the tables as they were. -/
theorem nullPuts_atomic {vs : List ObjectVersion} {schedule : List (ℕ × Bool)}
    (hvs : ∀ v ∈ vs, v.bucket = bucket ∧ v.key = key) (hdb : db.nullRows bucket key ≤ 1)
    (hschedule : (database dialect).Meets (Undisturbed bucket key) (putPool db vs) schedule) :
    ((database dialect).runPool (putPool db vs) schedule).world.nullRows bucket key ≤ 1 ∧
      ∀ i e, ((database dialect).runPool (putPool db vs) schedule).threads[i]? =
          some (.ret (.error e)) →
        ∀ before f behind, schedule = before ++ (i, f) :: behind →
          ((database dialect).runPool (putPool db vs) (before ++ [(i, f)])).world =
            ((database dialect).runPool (putPool db vs) before).world := by
  have hrun := runPool_of_guarded
    (A := fun _ => putAnswers bucket key)
    (Q := fun _ => putResult) (K := SingleNull bucket key)
    (fun x i f s hx hs hB => ⟨fun hnull => ?_, hx.turn hs hB⟩) (fun i p hp => ?_)
    ⟨hdb, fun i ⟨t, ht, _⟩ => by cases ht⟩ hschedule
  · refine ⟨hrun.2.1, fun i e hi before f behind hsplit => ?_⟩
    have hresult : putResult (eventsOf ((database dialect).runPool (putPool db vs) schedule) i)
        (.error e) := hrun.1 i _ hi
    rw [runPool_append]
    change ((database dialect).turn ((database dialect).runPool (putPool db vs) before) i f).world = _
    unfold turn
    split
    next s k hk =>
      refine step_of_error (hresult e rfl ⟨s, f, _⟩ (mem_eventsOf.2 ?_))
      rw [hsplit, runPool_append]
      refine mem_events_runPool (x := (database dialect).turn _ i f) ?_
      unfold turn
      rw [hk]
      exact mem_append_right _ (mem_singleton_self _)
    next => rfl
  · obtain ⟨hfault, -⟩ := hB hnull
    subst hfault
    obtain ⟨v, rfl⟩ : ∃ v, s = .insertVersion v := by
      cases s with
      | insertVersion v => exact ⟨v, rfl⟩
      | _ => cases hnull
    change (x.world.execute dialect (.insertVersion v)).1.isOk = true
    rw [execute_insertNull hnull]
    rfl
  · have hmem := mem_of_getElem? hp
    obtain ⟨v, hv, rfl⟩ := mem_map.1 hmem
    exact putObjectVersion_guarded (hvs v hv).1 (hvs v hv).2

/-! ## Two calls -/

/-- A `null` version of `k` in `b`. -/
def nullVersionOf (eTag : String) : ObjectVersion :=
  { bucket := str "b", key := str "k", versionID := nullVersion, eTag := str eTag, createdAt := 0 }

/-- The tables with a `null` row. -/
def oneNullRow : Database := empty.insertRow (nullVersionOf "old")

def twoPuts : PutPool := putPool oneNullRow [nullVersionOf "one", nullVersionOf "two"]

/-- One call replaces the row; the `DELETE` of the other fails, and leaves the row of the first. -/
theorem nullPuts_atomic_inTurn :
    ((database .sqlite).runPool twoPuts [(0, false), (0, false), (1, true)]).world.nullRows (str "b")
        (str "k") ≤ 1 ∧
      ((database .sqlite).runPool twoPuts [(0, false), (0, false), (1, true)]).world =
        ((database .sqlite).runPool twoPuts [(0, false), (0, false)]).world := by
  have hvs : ∀ v ∈ [nullVersionOf "one", nullVersionOf "two"],
      v.bucket = str "b" ∧ v.key = str "k" := by decide
  have hdb : oneNullRow.nullRows (str "b") (str "k") ≤ 1 := by decide
  have hschedule : (database .sqlite).Meets (Undisturbed (str "b") (str "k")) twoPuts
      [(0, false), (0, false), (1, true)] := by decide +kernel
  obtain ⟨hone, hkept⟩ := nullPuts_atomic hvs hdb hschedule
  exact ⟨hone, hkept 1 .failed rfl [(0, false), (0, false)] true [] rfl⟩

/-- **Two `null` rows, and none**: where both calls delete before they insert, both succeed and leave a
row; where the `INSERT` of a call fails after its `DELETE`, the call returns an error and the row is
gone. -/
theorem nullPuts_disturbed : (oneNullRow.nullRows (str "b") (str "k") = 1) ∧
    (((database .sqlite).runPool twoPuts [(0, false), (1, false), (0, false), (1, false)]).threads.map
        fun p => match p with
          | .ret (.ok _) => true
          | _ => false) = [true, true] ∧
    ((database .sqlite).runPool twoPuts
      [(0, false), (1, false), (0, false), (1, false)]).world.nullRows (str "b") (str "k") = 2 ∧
    (oneNullRow.run .sqlite (Sqlite.putObjectVersion (nullVersionOf "one")) [false, true]).1.isOk =
      false ∧
    (oneNullRow.run .sqlite (Sqlite.putObjectVersion (nullVersionOf "one"))
      [false, true]).2.nullRows (str "b") (str "k") = 0 := by
  refine ⟨?_, ?_, ?_, ?_, ?_⟩ <;> decide +kernel

end S000.Metadata
