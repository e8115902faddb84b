import S000.Foundations.Guards
import S000.Metadata.Sqlite

/-!
# Server/Listing — the two ways a page of a bucket is made

`handleListObjectsV2` asks a store that can seek for a page, and otherwise makes the page from all
visible objects: it folds them, sorts the entries, and goes on after the value a continuation token
carries.  The SQL store seeks by key, and passes over the rows below a value that ends with the
delimiter.  The pages agree except in two situations (`listObjectsV2_eq_generic_iff`).
-/

namespace S000

open Strings Metadata List

/-- The keys the loop of `listV2EntriesFromObjects` passes over. -/
def outside (pre key : Bytes) : Bool := pre ≠ [] && !hasPrefix key pre

theorem outside_eq_false_iff {pre key : Bytes} : outside pre key = false ↔ pre <+: key := by
  by_cases h : pre = []
  · simp [outside, h]
  · simp [outside, h]

/-- `listV2EntriesFromObjects`. -/
def listV2EntriesFromObjects (objects : List ObjectVersion) (pre delimiter : Bytes) :
    List ListEntry :=
  (foldEntries pre delimiter (outside pre) [] objects).insertionSort (·.value ≤ ·.value)

/-- The entries from the first one greater than `startAfter` on. -/
def entriesAfter (startAfter : Bytes) (entries : List ListEntry) : List ListEntry :=
  if startAfter = [] then entries else entries.dropWhile fun e => !decide (startAfter < e.value)

/-- The loop that fills the page; `keyCount` entries have been written. -/
def collectEntries (maxKeys keyCount : ℕ) : List ListEntry → ListObjectsV2Result
  | [] => {}
  | entry :: entries =>
    if keyCount < maxKeys then
      let rest := collectEntries maxKeys (keyCount + 1) entries
      if keyCount + 1 = maxKeys ∧ entries ≠ [] then
        { entries := entry :: rest.entries, isTruncated := true, nextAfter := entry.value }
      else { rest with entries := entry :: rest.entries }
    else {}

/-- The page `handleListObjectsV2` makes itself, from what `ListObjects` returned. -/
def genericPage (objects : List ObjectVersion) (opts : ListObjectsV2Options) : ListObjectsV2Result :=
  let objects := objects.insertionSort (·.key ≤ ·.key)
  let entries := listV2EntriesFromObjects objects opts.pre opts.delimiter
  collectEntries opts.maxKeys.toNat 0 (entriesAfter opts.startAfter entries)

/-! ## The generic page as a page -/

theorem page_cons {n : ℕ} (hn : n ≠ 0) (entry : ListEntry) (entries : List ListEntry) :
    page (n + 1) (entry :: entries) =
      { page n entries with entries := entry :: (page n entries).entries } := by
  by_cases h : entries.length ≤ n
  · rw [page, page, if_pos (.inr (by simpa using h)), if_pos (.inr h), take_succ_cons]
  have hne : entries.take n ≠ [] := by
    intro hnil
    rcases take_eq_nil_iff.1 hnil with h0 | h0
    · exact hn h0
    · simp [h0] at h
  have hn' : ¬ (n = 0 ∨ entries.length ≤ n) := not_or.2 ⟨hn, h⟩
  have hn'' : ¬ (n + 1 = 0 ∨ (entry :: entries).length ≤ n + 1) := by
    rw [length_cons]
    omega
  rw [page, page, if_neg hn', if_neg hn'', take_succ_cons, getLast?_cons_of_ne_nil hne]

theorem collectEntries_eq {n : ℕ} : ∀ {entries : List ListEntry} {k : ℕ}, k ≤ n →
    collectEntries n k entries = page (n - k) entries
  | [], k, _ => by rw [collectEntries, page, if_pos (.inr (Nat.zero_le _)), take_nil]
  | entry :: entries, k, hk => by
    rw [collectEntries]
    rcases hk.lt_or_eq with hlt | rfl
    · rw [if_pos hlt]
      rw [collectEntries_eq hlt, show n - k = n - (k + 1) + 1 by omega]
      by_cases hlast : k + 1 = n
      · rw [show n - (k + 1) = 0 by omega]
        by_cases hmore : entries = []
        · simp [hmore, page]
        have hlen : ¬ (0 + 1 = 0 ∨ (entry :: entries).length ≤ 0 + 1) := by
          have := length_pos_iff.2 hmore
          rw [length_cons]
          omega
        rw [if_pos ⟨hlast, hmore⟩, entries_page, page, if_neg hlen]
        rfl
      · rw [if_neg fun h => hlast h.1, page_cons (by omega)]
    · rw [if_neg (lt_irrefl _), Nat.sub_self, page, if_pos (.inl rfl), take_zero]

theorem mem_dropWhile_iff {s : Bytes} {entry : ListEntry} : ∀ {entries : List ListEntry},
    (entries.Pairwise fun e e' => e.value < e'.value) →
    (entry ∈ entries.dropWhile (fun e => !decide (s < e.value)) ↔ entry ∈ entries ∧ s < entry.value)
  | [], _ => by simp
  | e :: entries, h => by
    rw [pairwise_cons] at h
    by_cases hs : s < e.value
    · rw [dropWhile_cons_of_neg (by simpa using hs)]
      refine ⟨fun hmem => ⟨hmem, ?_⟩, And.left⟩
      rcases mem_cons.1 hmem with rfl | hmem
      · exact hs
      · exact hs.trans (h.1 entry hmem)
    · rw [dropWhile_cons_of_pos (by simpa using hs), mem_dropWhile_iff h.2, mem_cons]
      refine and_congr_left fun hlt => ⟨.inr, ?_⟩
      rintro (rfl | hmem)
      · exact absurd hlt hs
      · exact hmem

theorem exists_head_le {entry : ListEntry} : ∀ {entries : List ListEntry},
    (entries.Pairwise fun e e' => e.value < e'.value) → entry ∈ entries →
    ∃ e rest, entries = e :: rest ∧ e.value ≤ entry.value
  | e :: entries, h, hmem => by
    refine ⟨e, entries, rfl, ?_⟩
    rcases mem_cons.1 hmem with rfl | hmem
    · exact le_refl _
    · exact ((pairwise_cons.1 h).1 entry hmem).le

/-! ## The two listings

Over a table, both listings are strictly sorted and hold the entries of visible objects; they differ
in which objects. -/

section Table

variable (t : SqliteStore) (bucket : Bytes) (opts : ListObjectsV2Options)

def fullListing : List ListEntry :=
  listV2EntriesFromObjects (t.latest bucket fun _ => true) opts.pre opts.delimiter

/-- The listing the SQL store takes its page from. -/
def seekListing : List ListEntry :=
  foldEntries opts.pre opts.delimiter opts.skips [] (t.latest bucket opts.inRange)

variable {t bucket opts} {entry : ListEntry}

theorem fullListing_eq : fullListing t bucket opts =
    foldEntries opts.pre opts.delimiter (outside opts.pre) [] (t.latest bucket fun _ => true) := by
  refine Pairwise.insertionSort_eq ?_
  refine (pairwise_foldEntries t.pairwise_latest fun o _ ho => ?_).imp le_of_lt
  exact outside_eq_false_iff.1 ho

theorem pairwise_fullListing : (fullListing t bucket opts).Pairwise fun e e' => e.value < e'.value := by
  rw [fullListing_eq]
  exact pairwise_foldEntries t.pairwise_latest fun o _ ho => outside_eq_false_iff.1 ho

theorem mem_fullListing : entry ∈ fullListing t bucket opts ↔ ∃ obj, t.Visible bucket obj ∧
    opts.pre <+: obj.key ∧ entryOf opts.pre opts.delimiter obj = entry := by
  simp [fullListing_eq, mem_foldEntries, SqliteStore.mem_latest, outside_eq_false_iff]

theorem pairwise_seekListing : (seekListing t bucket opts).Pairwise fun e e' => e.value < e'.value :=
  pairwise_foldEntries t.pairwise_latest fun _ ho _ => (inRange_iff.1 (SqliteStore.mem_latest.1 ho).1).1

theorem mem_seekListing : entry ∈ seekListing t bucket opts ↔ ∃ obj, t.Visible bucket obj ∧
    opts.pre <+: obj.key ∧ opts.startAfter < obj.key ∧ opts.skips obj.key = false ∧
    entryOf opts.pre opts.delimiter obj = entry := by
  simp only [seekListing, mem_foldEntries, SqliteStore.mem_latest, inRange_iff]
  constructor
  · rintro ⟨obj, ⟨⟨hpre, hlt⟩, hvis⟩, hskip, he, -⟩
    exact ⟨obj, hvis, hpre, hlt, hskip, he⟩
  · rintro ⟨obj, hvis, hpre, hlt, hskip, he⟩
    exact ⟨obj, ⟨⟨hpre, hlt⟩, hvis⟩, hskip, he, fun _ h => absurd h not_mem_nil⟩

/-- After a value, the full listing goes on with the entries greater than it. -/
theorem mem_entriesAfter : entry ∈ entriesAfter opts.startAfter (fullListing t bucket opts) ↔
    entry ∈ fullListing t bucket opts ∧ (opts.startAfter = [] ∨ opts.startAfter < entry.value) := by
  rw [entriesAfter]
  split_ifs with h
  · simp [h]
  · rw [mem_dropWhile_iff pairwise_fullListing]
    simp [h]

theorem pairwise_entriesAfter : (entriesAfter opts.startAfter (fullListing t bucket opts)).Pairwise
    fun e e' => e.value < e'.value := by
  rw [entriesAfter]
  split_ifs
  · exact pairwise_fullListing
  · exact pairwise_fullListing.sublist (dropWhile_sublist _)

/-! ### Where the seek passes over too much -/

/-- The value the page starts after is an object whose key ends with the delimiter, and there are
objects below that key; or the page starts at the beginning, and there is an object with the empty
key. -/
def SeekLosesEntries (t : SqliteStore) (bucket : Bytes) (opts : ListObjectsV2Options) : Prop :=
  (opts.delimiter ≠ [] ∧ opts.startAfter ≠ [] ∧ opts.delimiter <:+ opts.startAfter ∧
    (∃ obj, (⟨opts.startAfter, some obj⟩) ∈ fullListing t bucket opts) ∧
    ∃ obj, t.Visible bucket obj ∧ opts.startAfter <+: obj.key ∧ obj.key ≠ opts.startAfter) ∨
  (opts.startAfter = [] ∧ ∃ entry ∈ fullListing t bucket opts, entry.value = [])

variable {key pre delimiter : Bytes}

theorem skips_iff : opts.skips key = true ↔ opts.delimiter ≠ [] ∧
    opts.startAfter ≠ [] ∧ opts.delimiter <:+ opts.startAfter ∧ opts.startAfter <+: key := by
  simp [ListObjectsV2Options.skips, and_assoc]

theorem entryOf_of_none {obj : ObjectVersion} (h : commonPrefix pre delimiter obj.key = none) :
    entryOf pre delimiter obj = ⟨obj.key, some obj⟩ := by
  simp [entryOf, shown, h]

/-- **A row that is seeked and not passed over is shown after the start.** -/
theorem startAfter_lt_shown {obj₀ obj : ObjectVersion} (hne : opts.startAfter ≠ [])
    (hpre₀ : opts.pre <+: obj₀.key) (h₀ : shown opts.pre opts.delimiter obj₀.key = opts.startAfter)
    (hpre : opts.pre <+: obj.key) (hlt : opts.startAfter < obj.key)
    (hskip : opts.skips obj.key = false) :
    opts.startAfter < shown opts.pre opts.delimiter obj.key := by
  by_contra hle
  rw [not_lt] at hle
  have hbelow : shown opts.pre opts.delimiter obj.key <+: opts.startAfter :=
    Lex.isPrefix_of_between hle hlt.le (shown_isPrefix hpre)
  cases hcp : commonPrefix opts.pre opts.delimiter obj.key with
  | none =>
    rw [shown, hcp] at hle
    exact absurd hlt (not_lt.2 hle)
  | some cp =>
    -- both keys are below the common prefix, so the start is that prefix, and the row passed over
    have hshown : shown opts.pre opts.delimiter obj.key = cp := by simp [shown, hcp]
    rw [hshown, ← h₀] at hbelow
    have hcp₀ := commonPrefix_of_isPrefix hpre hcp (hbelow.trans (shown_isPrefix hpre₀))
    have hstart : opts.startAfter = cp := by
      rw [← h₀]
      simp [shown, hcp₀]
    obtain ⟨hdel, hsuffix⟩ := isSuffix_of_commonPrefix hpre hcp
    have hskips := skips_iff.2 ⟨hdel, hne, hstart ▸ hsuffix,
      hstart ▸ (isPrefix_of_commonPrefix hpre hcp).2⟩
    rw [hskip] at hskips
    cases hskips

/-- **Outside these situations the seek finds the entries after the start**, where the start is a
value of the full listing. -/
theorem seekListing_eq (hstart : opts.startAfter = [] ∨
      ∃ entry ∈ fullListing t bucket opts, entry.value = opts.startAfter)
    (hgood : ¬ SeekLosesEntries t bucket opts) :
    seekListing t bucket opts = entriesAfter opts.startAfter (fullListing t bucket opts) := by
  rw [SeekLosesEntries, not_or] at hgood
  refine eq_of_mem_iff pairwise_seekListing pairwise_entriesAfter fun entry => ?_
  rw [mem_seekListing, mem_entriesAfter, mem_fullListing]
  constructor
  · rintro ⟨obj, hvis, hpre, hlt, hskip, rfl⟩
    refine ⟨⟨obj, hvis, hpre, rfl⟩, ?_⟩
    by_cases hempty : opts.startAfter = []
    · exact .inl hempty
    obtain ⟨entry₀, hmem₀, hvalue₀⟩ := hstart.resolve_left hempty
    obtain ⟨obj₀, -, hpre₀, rfl⟩ := mem_fullListing.1 hmem₀
    exact .inr (startAfter_lt_shown hempty hpre₀ hvalue₀ hpre hlt hskip)
  · rintro ⟨⟨obj, hvis, hpre, rfl⟩, hafter⟩
    have hshown : shown opts.pre opts.delimiter obj.key ≤ obj.key :=
      Lex.le_of_isPrefix (shown_isPrefix hpre)
    by_cases hempty : opts.startAfter = []
    · have hkey : obj.key ≠ [] := by
        intro hkey
        refine hgood.2 ⟨hempty, _, mem_fullListing.2 ⟨obj, hvis, hpre, rfl⟩, ?_⟩
        exact prefix_nil.1 (hkey ▸ shown_isPrefix hpre)
      refine ⟨obj, hvis, hpre, ?_, by simp [ListObjectsV2Options.skips, hempty], rfl⟩
      rw [hempty]
      exact Lex.lt_of_isPrefix_of_ne nil_prefix hkey.symm
    have hlt : opts.startAfter < shown opts.pre opts.delimiter obj.key := hafter.resolve_left hempty
    refine ⟨obj, hvis, hpre, hlt.trans_le hshown, ?_, rfl⟩
    rw [Bool.eq_false_iff]
    intro hskip
    obtain ⟨hdel, -, hsuffix, hbelow⟩ := skips_iff.1 hskip
    obtain ⟨entry₀, hmem₀, hvalue₀⟩ := hstart.resolve_left hempty
    obtain ⟨obj₀, hvis₀, hpre₀, rfl⟩ := mem_fullListing.1 hmem₀
    cases hcp₀ : commonPrefix opts.pre opts.delimiter obj₀.key with
    | none =>
      rw [entryOf_of_none hcp₀] at hmem₀ hvalue₀
      refine hgood.1 ⟨hdel, hempty, hsuffix, ⟨obj₀, hvalue₀ ▸ hmem₀⟩, obj, hvis, hbelow, ?_⟩
      exact (hlt.trans_le hshown).ne'
    | some cp =>
      have hcp : cp = opts.startAfter := by
        rw [← hvalue₀]
        simp [entryOf, shown, hcp₀]
      have := commonPrefix_of_isPrefix hpre₀ hcp₀ (hcp ▸ hbelow)
      rw [shown, this, hcp] at hlt
      exact absurd hlt (lt_irrefl _)

theorem lt_shown_of_none {key' : Bytes} (hpre : pre <+: key')
    (hnone : commonPrefix pre delimiter key = none) (hbelow : key <+: key') (hne : key' ≠ key) :
    key < shown pre delimiter key' := by
  cases hcp : commonPrefix pre delimiter key' with
  | none =>
    rw [shown, hcp]
    exact Lex.lt_of_isPrefix_of_ne hbelow hne.symm
  | some cp =>
    have hnot : ¬ cp <+: key := fun h => by
      rw [commonPrefix_of_isPrefix hpre hcp h] at hnone
      cases hnone
    rw [shown, hcp]
    refine Lex.lt_of_isPrefix_of_ne ?_ fun h => hnot (h ▸ prefix_rfl)
    exact (Lex.isPrefix_or_isPrefix hbelow (isPrefix_of_commonPrefix hpre hcp).2).resolve_right hnot

/-- **In these situations the first entry of the page is lost.** -/
theorem exists_lost_entry (h : SeekLosesEntries t bucket opts) : ∃ entry rest,
    entriesAfter opts.startAfter (fullListing t bucket opts) = entry :: rest ∧
      entry ∉ seekListing t bucket opts := by
  rcases h with ⟨hdel, hne, hsuffix, ⟨obj₀, hobj₀⟩, obj, hvis, hbelow, hkey⟩ | ⟨hempty, e, he, hnil⟩
  · obtain ⟨obj₁, -, hpre₁, heq⟩ := mem_fullListing.1 hobj₀
    have hnone : commonPrefix opts.pre opts.delimiter opts.startAfter = none := by
      cases hcp : commonPrefix opts.pre opts.delimiter obj₁.key with
      | some cp => simp [entryOf, hcp] at heq
      | none =>
        rw [entryOf_of_none hcp] at heq
        rwa [← (ListEntry.mk.inj heq).1]
    have hpre : opts.pre <+: obj.key := by
      have hshown : shown opts.pre opts.delimiter obj₁.key = opts.startAfter :=
        congrArg ListEntry.value heq
      exact (hshown ▸ isPrefix_shown hpre₁).trans hbelow
    have hafter : entryOf opts.pre opts.delimiter obj ∈
        entriesAfter opts.startAfter (fullListing t bucket opts) :=
      mem_entriesAfter.2 ⟨mem_fullListing.2 ⟨obj, hvis, hpre, rfl⟩,
        .inr (lt_shown_of_none hpre hnone hbelow hkey)⟩
    obtain ⟨entry, rest, hlist, hle⟩ := exists_head_le pairwise_entriesAfter hafter
    refine ⟨entry, rest, hlist, fun hmem => ?_⟩
    have hentry := mem_entriesAfter.1 (hlist ▸ mem_cons_self)
    -- the first entry lies between the start and an extension of it, so it extends it
    have hext : opts.startAfter <+: entry.value :=
      Lex.isPrefix_of_between (hentry.2.resolve_left hne).le
        (hle.trans (Lex.le_of_isPrefix (shown_isPrefix hpre))) hbelow
    obtain ⟨obj', -, hpre', -, hskip, rfl⟩ := mem_seekListing.1 hmem
    rw [skips_iff.2 ⟨hdel, hne, hsuffix, hext.trans (shown_isPrefix hpre')⟩] at hskip
    cases hskip
  · have hafter : e ∈ entriesAfter opts.startAfter (fullListing t bucket opts) :=
      mem_entriesAfter.2 ⟨he, .inl hempty⟩
    obtain ⟨entry, rest, hlist, hle⟩ := exists_head_le pairwise_entriesAfter hafter
    refine ⟨entry, rest, hlist, fun hmem => ?_⟩
    obtain ⟨obj, -, hpre, hlt, -, rfl⟩ := mem_seekListing.1 hmem
    have hshown : shown opts.pre opts.delimiter obj.key = [] := by
      by_contra hne
      exact absurd (Lex.lt_of_isPrefix_of_ne nil_prefix (symm hne)) (not_lt.2 (hnil ▸ hle))
    cases hcp : commonPrefix opts.pre opts.delimiter obj.key with
    | none =>
      rw [shown, hcp, Option.getD_none] at hshown
      rw [hshown, hempty] at hlt
      exact absurd hlt (lt_irrefl _)
    | some cp =>
      obtain ⟨hdel, hsuffix⟩ := isSuffix_of_commonPrefix hpre hcp
      rw [shown, hcp] at hshown
      exact hdel (suffix_nil.1 (hshown ▸ hsuffix))

end Table

/-! ## The pages -/

theorem genericPage_eq {t : SqliteStore} {bucket : Bytes} {opts : ListObjectsV2Options} :
    genericPage (t.latest bucket fun _ => true) opts =
      page opts.maxKeys.toNat (entriesAfter opts.startAfter (fullListing t bucket opts)) := by
  have hsorted : (t.latest bucket fun _ => true).insertionSort (·.key ≤ ·.key) =
      t.latest bucket fun _ => true :=
    (t.pairwise_latest.imp le_of_lt).insertionSort_eq
  rw [genericPage, hsorted, collectEntries_eq (Nat.zero_le _), Nat.sub_zero, fullListing]

/-- **When the two pages agree.**  For every table, bucket, prefix, delimiter and limit, and every
start that is empty or a value of the full listing, the SQL store returns the page the handler would
make itself, except when at least one entry is asked for and the seek loses entries. -/
theorem listObjectsV2_eq_generic_iff {t : SqliteStore} {bucket : Bytes} {opts : ListObjectsV2Options}
    {b : Bucket} {objects : List ObjectVersion} (hb : t.getBucket bucket = .ok b)
    (hobjects : t.listObjects bucket = .ok objects) (hmin : 0 ≤ opts.maxKeys)
    (hmax : opts.maxKeys ≤ 1000)
    (hstart : opts.startAfter = [] ∨ ∃ entry ∈ listV2EntriesFromObjects objects opts.pre opts.delimiter,
      entry.value = opts.startAfter) :
    t.listObjectsV2 bucket opts = .ok (genericPage objects opts) ↔
      ¬ (1 ≤ opts.maxKeys ∧ SeekLosesEntries t bucket opts) := by
  obtain rfl : t.latest bucket (fun _ => true) = objects := by
    simpa [SqliteStore.listObjects, hb] using hobjects
  rw [SqliteStore.listObjectsV2_eq hb hmin hmax, genericPage_eq]
  change Except.ok (page _ (seekListing t bucket opts)) = _ ↔ _
  rw [Except.ok.injEq]
  constructor
  · rintro hpage ⟨hone, hlost⟩
    obtain ⟨entry, rest, hlist, hnot⟩ := exists_lost_entry hlost
    have hentries := congrArg ListObjectsV2Result.entries hpage
    rw [entries_page, entries_page, hlist] at hentries
    obtain ⟨n, hn⟩ : ∃ n, opts.maxKeys.toNat = n + 1 := ⟨opts.maxKeys.toNat - 1, by omega⟩
    rw [hn, take_succ_cons] at hentries
    exact hnot (mem_of_mem_take (hentries ▸ mem_cons_self))
  · intro h
    by_cases hzero : opts.maxKeys = 0
    · simp [hzero, page]
    · rw [seekListing_eq hstart fun hlost => h ⟨by omega, hlost⟩]

/-- A bucket with an object for the folder `dir/`, one in it, and one beside it. -/
def folderTable : SqliteStore where
  buckets := [⟨str "b", [], [], 0⟩]
  objectVersions :=
    [⟨1, { bucket := str "b", key := str "dir/", versionID := str "null", createdAt := 0 }⟩,
      ⟨2, { bucket := str "b", key := str "dir/x", versionID := str "null", createdAt := 0 }⟩,
      ⟨3, { bucket := str "b", key := str "z", versionID := str "null", createdAt := 0 }⟩]
  ordinals_nodup := by decide

/-- The theorem at a listing of the whole bucket that goes on after the common prefix `dir/`: the two
pages are the same, and show `z`. -/
theorem folderTable_page : ∃ objects, folderTable.listObjects (str "b") = .ok objects ∧
    folderTable.listObjectsV2 (str "b") ⟨[], str "/", str "dir/", 10⟩ =
      .ok (genericPage objects ⟨[], str "/", str "dir/", 10⟩) ∧
    (genericPage objects ⟨[], str "/", str "dir/", 10⟩).entries.map (·.value) = [str "z"] := by
  have hstart : ∃ entry ∈ listV2EntriesFromObjects (folderTable.latest (str "b") fun _ => true) []
      (str "/"), entry.value = str "dir/" := by
    decide
  have hfolder : ∀ entry ∈ fullListing folderTable (str "b") ⟨[], str "/", str "dir/", 10⟩,
      entry.value = str "dir/" → entry.object = none := by
    decide
  refine ⟨_, rfl, (listObjectsV2_eq_generic_iff rfl rfl (by decide) (by decide) (.inr hstart)).2 ?_,
    by decide⟩
  rintro ⟨-, ⟨-, -, -, ⟨obj, hobj⟩, -⟩ | ⟨hnil, -⟩⟩
  · cases hfolder _ hobj rfl
  · cases hnil

/-- **The folder's own object hides what is in the folder**: listing `dir/` one entry at a time, the
first page is the object `dir/`; after it the handler would show `dir/x`, and the SQL store shows
nothing more. -/
theorem folder_entries_lost : ∃ objects, folderTable.listObjects (str "b") = .ok objects ∧
    (genericPage objects ⟨str "dir/", str "/", [], 1⟩).nextAfter = str "dir/" ∧
    (genericPage objects ⟨str "dir/", str "/", str "dir/", 1⟩).entries.map (·.value) = [str "dir/x"] ∧
    folderTable.listObjectsV2 (str "b") ⟨str "dir/", str "/", str "dir/", 1⟩ = .ok {} :=
  ⟨_, rfl, by decide, by decide, rfl⟩

end S000
