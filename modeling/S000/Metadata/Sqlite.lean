import S000.Metadata.Listing

/-!
# Metadata/Sqlite — the object table of the SQL store

The table `object_versions`, its rows numbered by `ordinal`, which the schema makes a primary key.
The listing queries join it with the largest ordinal of every key: `latest` is that join, for the
keys of a range.  Text is compared bytewise.
-/

namespace S000.Metadata

open Strings List

/-- A row of `object_versions`. -/
structure Row where
  ordinal : ℕ
  version : ObjectVersion
deriving DecidableEq

/-- `sqliteStore`, the tables the listings read. -/
structure SqliteStore where
  buckets : List Bucket
  objectVersions : List Row
  /-- `ordinal` is the primary key. -/
  ordinals_nodup : (objectVersions.map Row.ordinal).Nodup

namespace SqliteStore

/-- `GetBucket`. -/
def getBucket (s : SqliteStore) (name : Bytes) : Except Error Bucket :=
  match s.buckets.find? (·.name = name) with
  | some b => .ok b
  | none => .error .notFound

/-- `SELECT … FROM object_versions ov JOIN (SELECT bucket, object_key, MAX(ordinal) … WHERE bucket = ?
AND <range> GROUP BY bucket, object_key) … WHERE ov.delete_marker = 0 ORDER BY ov.object_key`. -/
def latest (s : SqliteStore) (bucket : Bytes) (range : Bytes → Bool) : List ObjectVersion :=
  let rows := s.objectVersions.filter fun r => r.version.bucket = bucket && range r.version.key
  let latest := rows.filter fun r =>
    rows.all fun r' => decide (r'.version.key = r.version.key → r'.ordinal ≤ r.ordinal)
  ((latest.filter (!·.version.deleteMarker)).map Row.version).insertionSort (·.key ≤ ·.key)

/-- `ListObjects`. -/
def listObjects (s : SqliteStore) (bucket : Bytes) : Except Error (List ObjectVersion) := do
  let _ ← s.getBucket bucket
  return s.latest bucket fun _ => true

/-- An object a listing shows: the version of the latest row of its key, not a delete marker. -/
def Visible (s : SqliteStore) (bucket : Bytes) (obj : ObjectVersion) : Prop :=
  ∃ r ∈ s.objectVersions, r.version = obj ∧ obj.bucket = bucket ∧ obj.deleteMarker = false ∧
    ∀ r' ∈ s.objectVersions, r'.version.bucket = bucket → r'.version.key = obj.key →
      r'.ordinal ≤ r.ordinal

variable {s : SqliteStore} {bucket : Bytes} {range : Bytes → Bool} {obj : ObjectVersion}

/-- **The join gives the visible objects of the range**: a range of keys holds all rows of a key or
none of them. -/
theorem mem_latest : obj ∈ s.latest bucket range ↔ range obj.key = true ∧ s.Visible bucket obj := by
  simp only [latest, mem_insertionSort, mem_map, mem_filter, Bool.and_eq_true,
    decide_eq_true_eq, all_eq_true, Bool.not_eq_true']
  constructor
  · rintro ⟨r, ⟨⟨⟨hr, hb, hrange⟩, hmax⟩, hmarker⟩, rfl⟩
    refine ⟨hrange, r, hr, rfl, hb, hmarker, fun r' hr' hb' hkey => ?_⟩
    exact hmax r' ⟨hr', hb', by rwa [hkey]⟩ hkey
  · rintro ⟨hrange, r, hr, rfl, hb, hmarker, hmax⟩
    exact ⟨r, ⟨⟨⟨hr, hb, hrange⟩, fun r' hr' hkey => hmax r' hr'.1 hr'.2.1 hkey⟩, hmarker⟩, rfl⟩

theorem eq_of_ordinal_eq {r r' : Row} (hr : r ∈ s.objectVersions) (hr' : r' ∈ s.objectVersions)
    (h : r.ordinal = r'.ordinal) : r = r' :=
  inj_on_of_nodup_map s.ordinals_nodup hr hr' h

/-- **The join is strictly sorted by key.** -/
theorem pairwise_latest : (s.latest bucket range).Pairwise fun o o' => o.key < o'.key := by
  have hle := pairwise_insertionSort (fun o o' : ObjectVersion => o.key ≤ o'.key)
  have hne : (s.latest bucket range).Pairwise fun o o' => o.key ≠ o'.key := by
    refine (Perm.pairwise_iff (fun h => h.symm) (perm_insertionSort _ _)).2 ?_
    rw [pairwise_map]
    refine (((s.ordinals_nodup.of_map _).filter _).filter _ |>.filter _).pairwise_of_forall_ne ?_
    intro r hr r' hr' hne hkey
    simp only [mem_filter, decide_eq_true_eq, all_eq_true] at hr hr'
    refine hne (eq_of_ordinal_eq hr.1.1.1 hr'.1.1.1 (le_antisymm ?_ ?_))
    · exact hr'.1.2 r hr.1.1 hkey
    · exact hr.1.2 r' hr'.1.1 hkey.symm
  exact (hle _).imp₂ (fun _ _ => lt_of_le_of_ne) hne

end SqliteStore

/-- `ListObjectsV2Options`. -/
structure ListObjectsV2Options where
  pre : Bytes := []
  delimiter : Bytes := []
  startAfter : Bytes := []
  maxKeys : ℤ

/-- `stringPrefixUpperBound`: the last byte that is not `0xff` is raised by one, and what follows it
cut off. -/
def stringPrefixUpperBound : Bytes → Option Bytes
  | [] => none
  | b :: t => match stringPrefixUpperBound t with
    | some upper => some (b :: upper)
    | none => if b = 0xff then none else some [b + 1]

def ListObjectsV2Options.inRange (opts : ListObjectsV2Options) (key : Bytes) : Bool :=
  opts.pre ≤ key && opts.startAfter < key &&
    match stringPrefixUpperBound opts.pre with
    | some upper => decide (key < upper)
    | none => true

/-- The rows the listing loop passes over: those below a common prefix it starts after. -/
def ListObjectsV2Options.skips (opts : ListObjectsV2Options) (key : Bytes) : Bool :=
  opts.delimiter ≠ [] && opts.startAfter ≠ [] && hasSuffix opts.startAfter opts.delimiter &&
    hasPrefix key opts.startAfter

/-- The listing loop, with the common prefixes seen and the entries made so far. -/
def collectPage (opts : ListObjectsV2Options) (maxKeys : ℕ) (seen : List Bytes)
    (entries : List ListEntry) : List ObjectVersion → ListObjectsV2Result
  | [] => { entries }
  | obj :: rows =>
    if opts.skips obj.key then collectPage opts maxKeys seen entries rows
    else match nextEntry opts.pre opts.delimiter seen obj with
      | none => collectPage opts maxKeys seen entries rows
      | some (entry, seen) =>
        if entries.length = maxKeys then
          { entries
            isTruncated := true
            nextAfter := (entries.getLast?.map ListEntry.value).getD [] }
        else collectPage opts maxKeys seen (entries ++ [entry]) rows

/-- `sqliteStore.ListObjectsV2`. -/
def SqliteStore.listObjectsV2 (s : SqliteStore) (bucket : Bytes) (opts : ListObjectsV2Options) :
    Except Error ListObjectsV2Result := do
  let _ ← s.getBucket bucket
  let maxKeys := if opts.maxKeys < 0 then 0 else opts.maxKeys
  let maxKeys := if 1000 < maxKeys then 1000 else maxKeys
  return if maxKeys = 0 then {}
    else collectPage opts maxKeys.toNat [] [] (s.latest bucket opts.inRange)

/-! ## The range and the loop -/

/-- **The keys from a prefix up to its upper bound are those that have the prefix.** -/
theorem isPrefix_iff_range : ∀ {pre key : Bytes},
    pre <+: key ↔ pre ≤ key ∧ ∀ upper, stringPrefixUpperBound pre = some upper → key < upper
  | [], key => by simpa [stringPrefixUpperBound] using Lex.le_of_isPrefix ( nil_prefix (l := key))
  | b :: t, [] => by simp
  | b :: t, c :: k => by
    rw [cons_prefix_cons, isPrefix_iff_range, Lex.cons_le_cons_iff, stringPrefixUpperBound]
    cases hupper : stringPrefixUpperBound t with
    | some upper =>
      simp only [Option.some.injEq, forall_eq', cons_lt_cons_iff]
      constructor
      · rintro ⟨rfl, hle, hlt⟩
        exact ⟨.inr ⟨rfl, hle⟩, .inr ⟨rfl, hlt⟩⟩
      rintro ⟨hbc | ⟨rfl, hle⟩, hcb | ⟨hcb, hlt⟩⟩
      · exact absurd hbc (lt_asymm hcb)
      · exact absurd hcb hbc.ne'
      · exact absurd hcb (lt_irrefl _)
      · exact ⟨rfl, hle, hlt⟩
    | none =>
      split_ifs with hff
      · have hmax : ¬ b < c := by
          rw [hff, UInt8.lt_iff_toNat_lt]
          have := c.toNat_lt
          simp
          omega
        simp [hmax]
      · have hsucc : (c :: k < [b + 1]) ↔ c ≤ b := by
          have hb : (b + 1).toNat = b.toNat + 1 := by
            have hlt : b.toNat ≠ 255 := fun h => hff (UInt8.toNat.inj h)
            have := b.toNat_lt
            simp
            omega
          rw [cons_lt_cons_iff, UInt8.lt_iff_toNat_lt, UInt8.le_iff_toNat_le, hb, Nat.lt_add_one_iff]
          simp
        simp only [Option.some.injEq, forall_eq', hsucc, false_implies, implies_true, and_true]
        constructor
        · rintro ⟨rfl, hle⟩
          exact ⟨.inr ⟨rfl, hle⟩, le_refl _⟩
        · rintro ⟨hbc | ⟨rfl, hle⟩, hcb⟩
          · exact absurd hbc (not_lt.2 hcb)
          · exact ⟨rfl, hle⟩

variable {opts : ListObjectsV2Options}

theorem inRange_iff {key : Bytes} :
    opts.inRange key = true ↔ opts.pre <+: key ∧ opts.startAfter < key := by
  rw [isPrefix_iff_range, ListObjectsV2Options.inRange]
  cases stringPrefixUpperBound opts.pre <;> simp [and_assoc, and_comm, and_left_comm]

/-- **The query selects the keys that have the prefix.** -/
theorem query_selects_iff (pre key : Bytes) :
    (pre <+: key ↔ pre ≤ key ∧ (stringPrefixUpperBound pre = none ∨
      ∃ upper, stringPrefixUpperBound pre = some upper ∧ key < upper)) ∧
    ∀ opts : ListObjectsV2Options, opts.inRange key = true ↔
      opts.pre <+: key ∧ opts.startAfter < key := by
  refine ⟨?_, fun _ => inRange_iff⟩
  rw [isPrefix_iff_range]
  cases stringPrefixUpperBound pre <;> simp

/-- **The loop gives a page of the listing without a limit.** -/
theorem collectPage_eq {n : ℕ} (hn : n ≠ 0) : ∀ {rows : List ObjectVersion} {seen : List Bytes}
    {entries : List ListEntry}, entries.length ≤ n → collectPage opts n seen entries rows =
      page n (entries ++ foldEntries opts.pre opts.delimiter opts.skips seen rows)
  | [], seen, entries, hlen => by
    rw [collectPage, foldEntries, append_nil, page, if_pos (.inr hlen), take_of_length_le hlen]
  | obj :: rows, seen, entries, hlen => by
    rw [collectPage, foldEntries]
    by_cases hskip : opts.skips obj.key = true
    · rw [if_pos hskip, if_pos hskip]
      exact collectPage_eq hn hlen
    rw [if_neg hskip, if_neg hskip]
    cases nextEntry opts.pre opts.delimiter seen obj with
    | none => exact collectPage_eq hn hlen
    | some x =>
      obtain ⟨entry, seen'⟩ := x
      dsimp only
      split_ifs with hfull
      · have hmore : ¬ (n = 0 ∨ (entries ++ entry :: foldEntries opts.pre opts.delimiter opts.skips
            seen' rows).length ≤ n) := by
          simp only [length_append, length_cons]
          omega
        rw [page, if_neg hmore, ← hfull, take_left]
      · rw [collectPage_eq hn (by simp; omega), append_assoc, singleton_append]

/-- **A page of the SQL store**, for a bucket it has and a limit in bounds. -/
theorem SqliteStore.listObjectsV2_eq {s : SqliteStore} {bucket : Bytes} {b : Bucket}
    (hb : s.getBucket bucket = .ok b) (hmin : 0 ≤ opts.maxKeys) (hmax : opts.maxKeys ≤ 1000) :
    s.listObjectsV2 bucket opts = .ok (page opts.maxKeys.toNat
      (foldEntries opts.pre opts.delimiter opts.skips [] (s.latest bucket opts.inRange))) := by
  have hclamp : (if 1000 < (if opts.maxKeys < 0 then 0 else opts.maxKeys) then 1000 else
      (if opts.maxKeys < 0 then 0 else opts.maxKeys)) = opts.maxKeys := by
    rw [if_neg (not_lt.2 hmin), if_neg (not_lt.2 hmax)]
  simp only [listObjectsV2, hb, hclamp]
  by_cases hzero : opts.maxKeys = 0
  · simp [hzero, page, bind, Except.bind, pure, Except.pure]
  · rw [if_neg hzero, collectPage_eq (by omega) (Nat.zero_le _)]
    rfl

end S000.Metadata
