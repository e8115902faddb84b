import S000.Auth.Binding

/-!
# Auth/CanonicalQuery — the canonical query string and the one of the signature scheme

`canonicalQuery` sorts the parameters and encodes them afterwards; the scheme sorts the encoded ones
(`sigV4Query`).  Byte by byte the encodings are the same (`awsEncode_eq`), but an escape starts with
`%`, which comes before every letter and digit, so the two orders differ as soon as a reserved byte
stands where another parameter has a smaller unreserved one.
-/

namespace S000.SigV4

open Strings Url List

/-- A pair, encoded: only letters, digits and `-._~` stand for themselves. -/
def encodePair (p : Bytes × Bytes) : Bytes × Bytes := (p.1.flatMap encodeByte, p.2.flatMap encodeByte)

/-- The parameters that are signed: all of them, of a presigned URL all but the signature. -/
def sigV4Pairs (q : Values) (presigned : Bool) : Values :=
  q.filter fun p => !(presigned && decide (p.1 = str "X-Amz-Signature"))

/-- **The canonical query string of the signature scheme**: the encoded pairs in byte order. -/
def sigV4Query (q : Values) (presigned : Bool) : Bytes :=
  join ((((sigV4Pairs q presigned).map encodePair).insertionSort pairLE).map fun p =>
    p.1 ++ str "=" ++ p.2) (str "&")

theorem pairText_eq (p : Bytes × Bytes) :
    pairText p = (encodePair p).1 ++ str "=" ++ (encodePair p).2 := by
  rw [pairText, awsEncode_eq, awsEncode_eq, encodePair]

variable {q : Values} {presigned : Bool}

/-- The scheme sorts the pairs by what they are encoded as. -/
theorem sigV4Query_eq : sigV4Query q presigned =
    join (((sigV4Pairs q presigned).insertionSort fun p p' =>
      pairLE (encodePair p) (encodePair p')).map pairText) [0x26] := by
  rw [sigV4Query, ← map_insertionSort (fun p p' => pairLE (encodePair p) (encodePair p')) pairLE
    encodePair _ fun _ _ _ _ => .rfl, map_map]
  exact congrArg (join · [0x26]) (map_congr_left fun p _ => (pairText_eq p).symm)

theorem signedPairs_sublist : (signedPairs q presigned).Sublist (sigV4Pairs q presigned) := by
  refine monotone_filter_right q fun p hp => ?_
  simp only [Bool.not_eq_true', Bool.and_eq_false_iff, decide_eq_false_iff_not] at hp ⊢
  refine hp.imp_right fun hfold heq => ?_
  rw [heq] at hfold
  exact absurd hfold (by decide)

/-- Where only the signature itself is taken for it, the code signs the parameters of the scheme. -/
theorem signedPairs_eq_iff : signedPairs q presigned = sigV4Pairs q presigned ↔
    (presigned = true → ∀ p ∈ q, equalFold p.1 (str "X-Amz-Signature") = true →
      p.1 = str "X-Amz-Signature") := by
  constructor
  · rintro heq rfl p hp hfold
    by_contra hne
    have hmem : p ∈ sigV4Pairs q true := mem_filter.2 ⟨hp, by simp [hne]⟩
    rw [← heq] at hmem
    simp [signedPairs, hfold] at hmem
  · intro h
    refine filter_congr fun p hp => ?_
    cases presigned with
    | false => rfl
    | true =>
      by_cases heq : p.1 = str "X-Amz-Signature"
      · rw [heq]
        decide
      · simp [heq, mt (h rfl p hp) heq]

/-- Two pairs are in one order, encoded or not. -/
def SameOrder (p p' : Bytes × Bytes) : Prop :=
  (pairLE p p' → pairLE (encodePair p) (encodePair p')) ∧
    (pairLE p' p → pairLE (encodePair p') (encodePair p))

instance : Std.Symm SameOrder := ⟨fun _ _ h => ⟨h.2, h.1⟩⟩

/-- **When the canonical query is the one of the scheme**: of a presigned URL no parameter but the
signature is taken for it, and the encodings of the parameters are in the order of the parameters. -/
theorem canonicalQuery_eq_sigV4Query_iff (q : Values) (presigned : Bool) :
    canonicalQuery q presigned = sigV4Query q presigned ↔
      (presigned = true → ∀ p ∈ q, equalFold p.1 (str "X-Amz-Signature") = true →
        p.1 = str "X-Amz-Signature") ∧
      ∀ p ∈ sigV4Pairs q presigned, ∀ p' ∈ sigV4Pairs q presigned,
        pairLE p p' → pairLE (encodePair p) (encodePair p') := by
  rw [← signedPairs_eq_iff]
  constructor
  · intro h
    rw [sigV4Query_eq] at h
    have hsorted := join_pairText_inj h
    have heq : signedPairs q presigned = sigV4Pairs q presigned :=
      signedPairs_sublist.eq_of_length ((perm_insertionSort pairLE _).symm.trans
        ((Perm.of_eq hsorted).trans (perm_insertionSort _ _))).length_eq
    refine ⟨heq, ?_⟩
    -- the one list is in both orders
    have hraw := pairwise_insertionSort pairLE (signedPairs q presigned)
    have hencoded := pairwise_insertionSort pairLE ((sigV4Pairs q presigned).map encodePair)
    rw [← map_insertionSort (fun p p' => pairLE (encodePair p) (encodePair p')) pairLE
      encodePair _ fun _ _ _ _ => .rfl, pairwise_map, ← hsorted] at hencoded
    have hboth := (hraw.and hencoded).imp (S := SameOrder) fun {p p'} hp =>
      ⟨fun _ => hp.2, fun hp' => by
        obtain rfl := antisymm hp.1 hp'
        exact hp.2⟩
    intro p hp p' hp'
    refine (hboth.forall_of_forall (fun _ _ => ⟨fun _ => refl _, fun _ => refl _⟩) ?_ ?_).1
    · exact (mem_insertionSort pairLE).2 (heq ▸ hp)
    · exact (mem_insertionSort pairLE).2 (heq ▸ hp')
  · rintro ⟨heq, horder⟩
    have hsorted : ((sigV4Pairs q presigned).insertionSort pairLE).map encodePair =
        ((sigV4Pairs q presigned).map encodePair).insertionSort pairLE := by
      refine (((perm_insertionSort pairLE _).map encodePair).trans
        (perm_insertionSort pairLE _).symm).eq_of_pairwise' ?_
        (pairwise_insertionSort pairLE _)
      refine pairwise_map.2 (.imp_of_mem (fun hp hp' => horder _ ?_ _ ?_)
        (pairwise_insertionSort pairLE _))
      · exact (mem_insertionSort pairLE).1 hp
      · exact (mem_insertionSort pairLE).1 hp'
    rw [canonicalQuery_eq, heq, sigV4Query, ← hsorted, map_map]
    exact congrArg (join · [0x26]) (map_congr_left fun p _ => pairText_eq p)

/-- **A bracket comes after the letters, its escape before them.** -/
theorem bracket_out_of_order :
    canonicalQuery [(str "A", str "1"), (str "[", str "2")] false = str "A=1&%5B=2" ∧
    sigV4Query [(str "A", str "1"), (str "[", str "2")] false = str "%5B=2&A=1" := by
  decide +kernel

end S000.SigV4
