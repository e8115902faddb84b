import S000.Auth.Presign
import S000.Auth.Principal

/-!
# Auth/Binding — what a signature binds

A signature is one of a canonical request.  The canonical request is a text, and this module reads it
backwards: **two requests with the same canonical request** agree on the method, on the path and the
query, on the list of signed headers and their values, and on the hash of the payload
(`canonicalRequest_binds`).

Every layer has to come apart in one way only.  The lines of a canonical request hold no line break,
the signed names no semicolon, and percent-encoding (`awsEncode_injective`) leaves neither `&` nor `=` in
the names and values of a query.  Two things are lost on the way: an empty path is written as `/`, and a
presigned query is read without any parameter whose name is `X-Amz-Signature` up to case.
-/

namespace S000.SigV4

open Strings Url List

/-! ## Percent-encoding -/

def encodeByte (b : UInt8) : Bytes := if isUnreserved b then [b] else percent b

/-- The digits of a percent-encoding are none of the bytes that are replaced. -/
theorem upperDigit_spec : ∀ n < 16, isUnreserved (Hex.upperDigit n) = true ∧
    Hex.upperDigit n ≠ 0x2B ∧ Hex.upperDigit n ≠ 0x2A ∧ Hex.upperDigit n ≠ 0x25 := by decide

theorem unreserved_ne {b : UInt8} (h : isUnreserved b = true) : b ≠ 0x2B ∧ b ≠ 0x2A ∧ b ≠ 0x25 := by
  refine ⟨?_, ?_, ?_⟩ <;> rintro rfl <;> exact absurd h (by decide)

theorem replaceAll_singleton (c : UInt8) (new : Bytes) : ∀ s,
    replaceAll s [c] new = s.flatMap fun b => if b = c then new else [b]
  | [] => rfl
  | b :: s => by
    have ih : replaceFrom [c] new 0 s = s.flatMap fun b => if b = c then new else [b] :=
      replaceAll_singleton c new s
    have hstart : hasPrefix (b :: s) [c] = decide (b = c) := by
      rw [hasPrefix, isPrefixOf, isPrefixOf, Bool.and_true]
      exact decide_eq_decide.2 eq_comm
    rw [replaceAll, replaceFrom]
    split_ifs <;> simp_all

/-- No tilde is written as an escape, so there is none to undo. -/
theorem replaceAll_tilde : ∀ s : Bytes,
    replaceAll (s.flatMap encodeByte) (str "%7E") (str "~") = s.flatMap encodeByte
  | [] => rfl
  | b :: s => by
    have ih : replaceFrom (str "%7E") (str "~") 0 (s.flatMap encodeByte) = s.flatMap encodeByte :=
      replaceAll_tilde s
    have hskip {c : UInt8} (hc : c ≠ 0x25) (t : Bytes) :
        replaceFrom (str "%7E") (str "~") 0 (c :: t) = c :: replaceFrom (str "%7E") (str "~") 0 t := by
      have hstart : hasPrefix (c :: t) (str "%7E") = false := by
        have hne : (0x25 == c) = false := by simpa using hc.symm
        rw [show str "%7E" = [0x25, 0x37, 0x45] by decide, hasPrefix, isPrefixOf, hne, Bool.false_and]
      rw [replaceFrom, hstart, if_neg (by decide)]
    rw [flatMap_cons, replaceAll]
    by_cases hfree : isUnreserved b = true
    · rw [encodeByte, if_pos hfree, singleton_append, hskip (unreserved_ne hfree).2.2, ih]
    have hlt := b.toNat_lt
    have hhigh := (upperDigit_spec (b.toNat / 16) (by omega)).2.2.2
    have hlow := (upperDigit_spec (b.toNat % 16) (by omega)).2.2.2
    have hstart : hasPrefix (percent b ++ s.flatMap encodeByte) (str "%7E") = false := by
      by_contra hstart
      obtain ⟨t, ht⟩ := hasPrefix_iff.1 (Bool.eq_true_of_not_eq_false hstart)
      have hdigits : str "%7E" = percent b := (append_inj ht rfl).1
      have htilde := unescape_percent true b []
      rw [← hdigits] at htilde
      have hb : [0x7E] = [b] := Option.some.inj htilde
      rw [← (cons.inj hb).1] at hfree
      exact hfree (by decide)
    rw [encodeByte, if_neg hfree, percent, cons_append, replaceFrom]
    rw [percent, cons_append] at hstart
    rw [hstart, if_neg (by decide), cons_append, cons_append, nil_append, hskip hhigh, hskip hlow, ih]

/-- **`awsEncode` writes one byte after the other.** -/
theorem awsEncode_eq (s : Bytes) : awsEncode s = s.flatMap encodeByte := by
  have hplus : replaceAll (queryEscape s) (str "+") (str "%20") = s.flatMap encodeByte := by
    rw [show str "+" = [0x2B] by decide, replaceAll_singleton, queryEscape, flatMap_assoc]
    refine flatMap_congr fun b _ => ?_
    unfold encodeByte
    split_ifs with hfree hspace
    · simp [(unreserved_ne hfree).1]
    · rw [hspace]
      decide
    · have hlt := b.toNat_lt
      simp [percent, (upperDigit_spec (b.toNat / 16) (by omega)).2.1,
        (upperDigit_spec (b.toNat % 16) (by omega)).2.1]
  have hstar : replaceAll (s.flatMap encodeByte) (str "*") (str "%2A") = s.flatMap encodeByte := by
    rw [show str "*" = [0x2A] by decide, replaceAll_singleton, flatMap_assoc]
    refine flatMap_congr fun b _ => ?_
    unfold encodeByte
    split_ifs with hfree
    · simp [(unreserved_ne hfree).2.1]
    have hlt := b.toNat_lt
    simp [percent, (upperDigit_spec (b.toNat / 16) (by omega)).2.2.1,
      (upperDigit_spec (b.toNat % 16) (by omega)).2.2.1]
  rw [awsEncode, hplus, hstar, replaceAll_tilde]

theorem queryUnescape_awsEncode : ∀ s, queryUnescape (awsEncode s) = some s
  | [] => rfl
  | b :: s => by
    have hs : unescape true (s.flatMap encodeByte) = some s := by
      rw [← awsEncode_eq]
      exact queryUnescape_awsEncode s
    rw [awsEncode_eq, queryUnescape, flatMap_cons]
    unfold encodeByte
    split_ifs with hfree
    · obtain ⟨hplus, -, hpercent⟩ := unreserved_ne hfree
      rw [singleton_append, unescape_cons hpercent, if_neg fun h => hplus h.2]
      exact (congrArg (Option.map (b :: ·)) hs)
    · rw [unescape_percent]
      exact (congrArg (Option.map (b :: ·)) hs)

theorem awsEncode_injective : Function.Injective awsEncode := fun s s' h => by
  have hs := queryUnescape_awsEncode s
  rw [h, queryUnescape_awsEncode] at hs
  exact (Option.some.inj hs).symm

theorem not_mem_awsEncode {c : UInt8} (hc : isUnreserved c = false) (hpercent : c ≠ 0x25) (s : Bytes) :
    c ∉ awsEncode s := by
  rw [awsEncode_eq]
  intro h
  obtain ⟨b, -, hb⟩ := mem_flatMap.1 h
  have hlt := b.toNat_lt
  unfold encodeByte at hb
  split_ifs at hb with hfree
  · rw [mem_singleton.1 hb, hfree] at hc
    cases hc
  rcases mem_cons.1 hb with hb | hb
  · exact hpercent hb
  have hdigit : isUnreserved c = true := by
    rcases mem_cons.1 hb with hb | hb
    · exact hb ▸ (upperDigit_spec _ (by omega)).1
    · exact mem_singleton.1 hb ▸ (upperDigit_spec _ (by omega)).1
  rw [hc] at hdigit
  cases hdigit

/-! ## The query -/

def signedPairs (q : Values) (presigned : Bool) : Values :=
  q.filter fun p => !(presigned && equalFold p.1 (str "X-Amz-Signature"))

def pairText (p : Bytes × Bytes) : Bytes := awsEncode p.1 ++ str "=" ++ awsEncode p.2

theorem canonicalQuery_eq (q : Values) (presigned : Bool) : canonicalQuery q presigned =
    join (((signedPairs q presigned).insertionSort pairLE).map pairText) [0x26] := rfl

theorem pairText_injective : Function.Injective pairText := fun p p' h => by
  have heq : 0x3D ∉ awsEncode p.1 ∧ 0x3D ∉ awsEncode p'.1 :=
    ⟨not_mem_awsEncode (by decide) (by decide) _, not_mem_awsEncode (by decide) (by decide) _⟩
  have hcut : awsEncode p.1 ++ 0x3D :: awsEncode p.2 = awsEncode p'.1 ++ 0x3D :: awsEncode p'.2 := by
    simpa [pairText, show str "=" = [0x3D] by decide] using h
  obtain ⟨hname, hvalue⟩ := append_cons_inj heq.1 heq.2 hcut
  exact Prod.ext (awsEncode_injective hname) (awsEncode_injective hvalue)

theorem not_mem_pairText {c : UInt8} (hc : isUnreserved c = false) (hpercent : c ≠ 0x25)
    (hequals : c ≠ 0x3D) (p : Bytes × Bytes) : c ∉ pairText p := by
  simp only [pairText, show str "=" = [0x3D] by decide, mem_append, mem_singleton, not_or]
  exact ⟨⟨not_mem_awsEncode hc hpercent _, hequals⟩, not_mem_awsEncode hc hpercent _⟩

variable {presigned : Bool}

theorem join_pairText_inj {l l' : Values}
    (h : join (l.map pairText) [0x26] = join (l'.map pairText) [0x26]) : l = l' := by
  refine map_injective_iff.2 pairText_injective ?_
  have hamp (l : Values) : ∀ x ∈ l.map pairText, 0x26 ∉ x := fun x hx => by
    obtain ⟨p, -, rfl⟩ := mem_map.1 hx
    exact not_mem_pairText (by decide) (by decide) (by decide) p
  -- a list of pairs that is not empty is not written as the empty text
  have hnil (p : Bytes × Bytes) (l : Values) : join ((p :: l).map pairText) [0x26] ≠ [] := by
    intro hjoin
    have hequals : 0x3D ∈ pairText p := by simp [pairText, show str "=" = [0x3D] by decide]
    cases l with
    | nil => simp_all [join]
    | cons p' l =>
      rw [map_cons, map_cons, join_cons_cons] at hjoin
      simp at hjoin
  cases l with
  | nil =>
    cases l' with
    | nil => rfl
    | cons p' l' => exact absurd h.symm (hnil p' l')
  | cons p l =>
    cases l' with
    | nil => exact absurd h (hnil p l)
    | cons p' l' => exact join_inj (hamp _) (hamp _) (by simp) (by simp) h

/-- **The canonical query determines the signed pairs**, each as often as it stands there. -/
theorem signedPairs_perm {q q' : Values} {presigned' : Bool}
    (h : canonicalQuery q presigned = canonicalQuery q' presigned') :
    (signedPairs q presigned).Perm (signedPairs q' presigned') := by
  have hsorted := join_pairText_inj h
  exact (perm_insertionSort pairLE _).symm.trans
    ((Perm.of_eq hsorted).trans (perm_insertionSort pairLE _))

theorem newline_not_mem_canonicalQuery (q : Values) (presigned : Bool) :
    0x0A ∉ canonicalQuery q presigned := by
  intro h
  rcases mem_join h with ⟨x, hx, hb⟩ | hb
  · obtain ⟨p, -, rfl⟩ := mem_map.1 hx
    exact not_mem_pairText (by decide) (by decide) (by decide) p hb
  · exact absurd hb (by decide)

/-! ## The path -/

theorem newline_not_mem_escapedPath (u : URL) : 0x0A ∉ u.escapedPath := by
  unfold URL.escapedPath
  split_ifs with hraw hstar
  · intro h
    have hvalid := all_eq_true.1 hraw.2.1 _ h
    exact absurd hvalid (by decide)
  · decide
  intro h
  obtain ⟨b, -, hb⟩ := mem_flatMap.1 h
  have hlt := b.toNat_lt
  split_ifs at hb with hescape
  · rcases mem_cons.1 hb with hb | hb
    · exact absurd hb (by decide)
    have hdigit : isUnreserved 0x0A = true := by
      rcases mem_cons.1 hb with hb | hb
      · exact hb ▸ (upperDigit_spec _ (by omega)).1
      · exact mem_singleton.1 hb ▸ (upperDigit_spec _ (by omega)).1
    exact absurd hdigit (by decide)
  · rw [← mem_singleton.1 hb] at hescape
    exact hescape (by decide)

theorem newline_not_mem_canonicalURI (u : URL) : 0x0A ∉ canonicalURI u := by
  unfold canonicalURI
  split_ifs
  · decide
  · exact newline_not_mem_escapedPath u

/-! ## The headers -/

/-- No value of a header, that of `Host` included, has a line break in it. -/
structure Unbroken (r : Request) : Prop where
  values : ∀ name, ∀ value ∈ r.header.values name, 0x0A ∉ value
  host : 0x0A ∉ r.host
  urlHost : 0x0A ∉ r.url.host

/-- **A request as `net/http` delivers it**: the method and the names of headers are tokens, and values
have no line breaks. -/
structure Delivered (r : Request) : Prop extends Unbroken r where
  method : r.method.all isTokenByte = true
  names : ∀ name ∈ r.header, name.all isTokenByte = true

def signedValue (r : Request) (name : Bytes) : Bytes :=
  if name = str "host" then signedHost r
  else join ((r.header.values name).map normalizeValue) (str ",")

def payloadHash (r : Request) : Bytes :=
  let hash := r.header.get (str "X-Amz-Content-Sha256")
  if hash = [] then str "UNSIGNED-PAYLOAD" else hash

variable {P : Platform} {r r' : Request} {name : Bytes} {names lines : List Bytes}

theorem newline_not_mem_normalizeValue {v : Bytes} (h : 0x0A ∉ v) :
    0x0A ∉ normalizeValue v := by
  intro hmem
  rcases mem_join hmem with ⟨word, hword, hb⟩ | hb
  · exact (mem_of_mem_fieldsFrom hb hword).elim nofun h
  · exact absurd hb (by decide)

theorem Unbroken.normalizeHeader (h : Unbroken r) (name : Bytes) :
    Unbroken (normalizeHeader r name) where
  values n v hv := by
    rw [values_normalizeHeader] at hv
    split_ifs at hv
    · obtain ⟨v', hv', rfl⟩ := mem_map.1 hv
      exact newline_not_mem_normalizeValue (h.values n v' hv')
    · exact h.values n v hv
  host := h.host
  urlHost := h.urlHost

theorem Unbroken.newline_not_mem_signedValue (h : Unbroken r) (name : Bytes) :
    0x0A ∉ signedValue r name := by
  intro hmem
  unfold signedValue at hmem
  split_ifs at hmem
  · have hhost := (trimSpace_isInfix _).subset hmem
    split_ifs at hhost
    · exact h.urlHost hhost
    · exact h.host hhost
  · rcases mem_join hmem with ⟨x, hx, hb⟩ | hb
    · obtain ⟨v, hv, rfl⟩ := mem_map.1 hx
      exact newline_not_mem_normalizeValue (h.values name v hv) hb
    · exact absurd hb (by decide)

/-- **One header after the other**: the line of the first one, and what the others are read from. -/
theorem canonicalHeaders_cons (h : (canonicalHeaders r (name :: names)).1 = .ok lines) :
    ∃ rest, lines = (name ++ 0x3A :: signedValue r name) :: rest ∧
      (canonicalHeaders (if name = str "host" then r else normalizeHeader r name) names).1 =
        .ok rest := by
  rw [canonicalHeaders] at h
  split_ifs at h with hname
  cases hv : canonicalHeaderValue r name with
  | none => simp [hv] at h
  | some x =>
    obtain ⟨value, r₁⟩ := x
    obtain ⟨hvalue, hr₁⟩ : value = signedValue r name ∧
        r₁ = if name = str "host" then r else normalizeHeader r name := by
      unfold canonicalHeaderValue at hv
      unfold signedValue
      split_ifs at hv ⊢
      · exact (Prod.mk.inj (Option.some.inj hv)).imp symm symm
      · exact (Prod.mk.inj (Option.some.inj hv)).imp symm symm
    simp only [hv] at h
    cases hrest : (canonicalHeaders r₁ names).1 with
    | error e => simp [hrest, Except.map] at h
    | ok rest =>
      refine ⟨rest, ?_, hr₁ ▸ hrest⟩
      rw [hrest] at h
      have hlines := Except.ok.inj h
      rw [← hlines, hvalue]
      simp [show str ":" = [0x3A] by decide]

theorem newline_not_mem_lines : ∀ {names : List Bytes} {r : Request} {lines : List Bytes},
    Unbroken r → (∀ n ∈ names, 0x0A ∉ n) → (canonicalHeaders r names).1 = .ok lines →
      lines.length = names.length ∧ ∀ line ∈ lines, line ≠ [] ∧ 0x0A ∉ line
  | [], _, _, _, _, h => by
    cases h
    simp
  | name :: names, r, lines, hr, hnames, h => by
    obtain ⟨rest, rfl, hrest⟩ := canonicalHeaders_cons h
    have hr₁ : Unbroken (if name = str "host" then r else normalizeHeader r name) := by
      split_ifs
      · exact hr
      · exact hr.normalizeHeader name
    obtain ⟨hlength, hlines⟩ := newline_not_mem_lines hr₁
      (fun n hn => hnames n (mem_cons_of_mem name hn)) hrest
    refine ⟨by simp [hlength], forall_mem_cons.2 ⟨⟨by simp, ?_⟩, hlines⟩⟩
    simp [hnames name mem_cons_self, hr.newline_not_mem_signedValue name]

/-- **The lines determine the values.**  A header that is listed twice is read the second time as the
first reading has left it. -/
theorem signedValue_eq_of_lines : ∀ {names : List Bytes} {r r' : Request} {lines : List Bytes},
    (canonicalHeaders r names).1 = .ok lines → (canonicalHeaders r' names).1 = .ok lines →
      ∀ n ∈ names, signedValue r n = signedValue r' n
  | [], _, _, _, _, _ => by simp
  | name :: names, r, r', lines, h, h' => by
    obtain ⟨rest, rfl, hrest⟩ := canonicalHeaders_cons h
    obtain ⟨rest', hlines, hrest'⟩ := canonicalHeaders_cons h'
    obtain ⟨hline, rfl⟩ := cons.inj hlines
    have hfirst : signedValue r name = signedValue r' name := (cons.inj (append_cancel_left hline)).2
    refine forall_mem_cons.2 ⟨hfirst, fun n hn => ?_⟩
    have ih := signedValue_eq_of_lines hrest hrest' n hn
    by_cases hname : name = str "host"
    · simpa only [if_pos hname] using ih
    simp only [if_neg hname] at ih
    by_cases hhost : n = str "host"
    · unfold signedValue at ih ⊢
      simp only [if_pos hhost] at ih ⊢
      exact ih
    by_cases hkey : canonicalMIMEHeaderKey n = canonicalMIMEHeaderKey name
    · -- the same header under the same name, or under one that is spelt differently
      have hsame (r : Request) : signedValue r n = signedValue r name := by
        rw [signedValue, signedValue, if_neg hhost, if_neg hname, Header.values, Header.values, hkey]
      rw [hsame, hsame, hfirst]
    · unfold signedValue at ih ⊢
      simpa only [if_neg hhost, values_normalizeHeader, if_neg hkey] using ih

theorem Delivered.token (h : Delivered r) (hpresent : HeaderPresent r name) :
    name.all isTokenByte = true := by
  unfold HeaderPresent at hpresent
  split_ifs at hpresent with hhost
  · rw [hhost]
    decide
  have hmem : canonicalMIMEHeaderKey name ∈ r.header := by
    rw [← AList.lookup_isSome]
    by_contra hnone
    rw [Bool.not_eq_true, Option.isSome_eq_false_iff, Option.isNone_iff_eq_none] at hnone
    exact hpresent (by rw [Header.values, hnone]; rfl)
  have hkey := h.names _ hmem
  unfold canonicalMIMEHeaderKey at hkey
  split_ifs at hkey with htoken
  · exact htoken
  · exact hkey

theorem not_mem_of_token {b : UInt8} (h : name.all isTokenByte = true) (hb : isTokenByte b = false) :
    b ∉ name := fun hmem => by
  have htoken := all_eq_true.1 h b hmem
  rw [hb] at htoken
  cases htoken

/-! ## The canonical request -/

theorem join_canonical {m u q n p : Bytes} :
    join [m, u, q, join lines (str "\n") ++ str "\n", n, p] (str "\n") =
      join ([m, u, q] ++ (if lines = [] then [[]] else lines) ++ [[], n, p]) [0x0A] := by
  have hjoin : join lines (str "\n") = join (if lines = [] then [[]] else lines) [0x0A] := by
    split_ifs with hlines
    · rw [hlines]
      rfl
    · rfl
  have hne : (if lines = [] then [[]] else lines) ≠ [] := by
    split_ifs with hlines
    · simp
    · exact hlines
  rw [hjoin]
  rw [append_assoc, join_append (by simp) (by simp), join_append hne (by simp)]
  simp [join, show str "\n" = [0x0A] by decide]

variable {canonical : Bytes} {signedHeaders : List Bytes}

/-- **What is built**: the lines of the listed headers and the other parts. -/
theorem buildCanonicalRequest_ok
    (h : buildCanonicalRequest P r signedHeaders presigned = (.ok canonical, r')) : ∃ lines,
    (canonicalHeaders r (normalizedHeaders P signedHeaders)).1 = .ok lines ∧
      canonical = join ([r.method, canonicalURI r.url, canonicalQuery r.query presigned] ++
        (if lines = [] then [[]] else lines) ++
          [[], join (normalizedHeaders P signedHeaders) (str ";"), payloadHash r']) [0x0A] := by
  have hrequest : (canonicalHeaders r (normalizedHeaders P signedHeaders)).2 = r' := congrArg Prod.snd h
  have hsame : r'.method = r.method ∧ r'.url = r.url := by
    rw [← hrequest]
    exact canonicalHeaders_preserves (p := fun x => x.method = r.method ∧ x.url = r.url)
      (fun _ _ hx => hx) ⟨rfl, rfl⟩
  have hbuilt := congrArg Prod.fst h
  cases hlines : (canonicalHeaders r (normalizedHeaders P signedHeaders)).1 with
  | error e => simp [buildCanonicalRequest, hlines, Except.map] at hbuilt
  | ok lines =>
    refine ⟨lines, rfl, ?_⟩
    have hquery : r'.query = r.query := congrArg URL.query hsame.2
    rw [← join_canonical, ← hquery, ← hsame.1, ← hsame.2]
    simp only [buildCanonicalRequest, hlines, hrequest] at hbuilt
    exact (Except.ok.inj hbuilt).symm

/-- The parts of a canonical request have no line breaks in them. -/
theorem Delivered.newline_not_mem (hr : Delivered r)
    (h : buildCanonicalRequest P r signedHeaders presigned = (.ok canonical, r'))
    (hlines : (canonicalHeaders r (normalizedHeaders P signedHeaders)).1 = .ok lines) :
    ∀ part ∈ [r.method, canonicalURI r.url, canonicalQuery r.query presigned] ++
        (if lines = [] then [[]] else lines) ++
          [[], join (normalizedHeaders P signedHeaders) (str ";"), payloadHash r'],
      0x0A ∉ part := by
  have hnames : ∀ n ∈ normalizedHeaders P signedHeaders, 0x0A ∉ n := fun n hn =>
    not_mem_of_token (hr.token (present_of_canonicalHeaders hlines n hn).2) (by decide)
  have hrequest : Unbroken r' := by
    obtain rfl : (canonicalHeaders r (normalizedHeaders P signedHeaders)).2 = r' := congrArg Prod.snd h
    exact canonicalHeaders_preserves (fun _ name hx => hx.normalizeHeader name)
      hr.toUnbroken
  have hpayload : 0x0A ∉ payloadHash r' := by
    unfold payloadHash
    dsimp only
    split_ifs with hnil
    · decide
    intro hmem
    unfold Header.get at hmem
    cases hvalues : r'.header.values (str "X-Amz-Content-Sha256") with
    | nil => simp [hvalues] at hmem
    | cons v vs =>
      rw [hvalues] at hmem
      exact hrequest.values _ v (hvalues ▸ mem_cons_self) hmem
  intro part hpart
  rcases mem_append.1 hpart with hpart | hpart
  · rcases mem_append.1 hpart with hpart | hpart
    · simp only [mem_cons, not_mem_nil, or_false] at hpart
      rcases hpart with rfl | rfl | rfl
      · exact not_mem_of_token hr.method (by decide)
      · exact newline_not_mem_canonicalURI _
      · exact newline_not_mem_canonicalQuery _ _
    · split_ifs at hpart with hnil
      · rw [mem_singleton.1 hpart]
        decide
      · exact ((newline_not_mem_lines hr.toUnbroken hnames hlines).2 part hpart).2
  · simp only [mem_cons, not_mem_nil, or_false] at hpart
    rcases hpart with rfl | rfl | rfl
    · decide
    · intro hmem
      rcases mem_join hmem with ⟨n, hn, hb⟩ | hb
      · exact hnames n hn hb
      · exact absurd hb (by decide)
    · exact hpayload

theorem names_eq_of_join {names' : List Bytes} (h : ∀ n ∈ names, n ≠ [] ∧ 0x3B ∉ n)
    (h' : ∀ n ∈ names', n ≠ [] ∧ 0x3B ∉ n)
    (heq : join names (str ";") = join names' (str ";")) : names = names' := by
  have hnil {n : Bytes} {names : List Bytes} (hn : n ≠ []) : join (n :: names) (str ";") ≠ [] := by
    cases names with
    | nil => simpa [join] using hn
    | cons n' names =>
      rw [join_cons_cons]
      simp [hn]
  cases names with
  | nil =>
    cases names' with
    | nil => rfl
    | cons n' names' => exact absurd heq.symm (hnil (h' n' mem_cons_self).1)
  | cons n names =>
    cases names' with
    | nil => exact absurd heq (hnil (h n mem_cons_self).1)
    | cons n' names' =>
      exact join_inj (fun x hx => (h x hx).2) (fun x hx => (h' x hx).2) (by simp) (by simp) heq

/-- **What a canonical request binds.**  Two requests with the same one agree on the method, on the
canonical path, on the signed pairs of the query, on the list of signed headers, on the value of each of
them, and on the hash of the payload. -/
theorem canonicalRequest_binds {signedHeaders signedHeaders' : List Bytes} {presigned presigned' : Bool}
    {r₁ r₁' : Request} {canonical : Bytes} (hr : Delivered r) (hr' : Delivered r')
    (h : buildCanonicalRequest P r signedHeaders presigned = (.ok canonical, r₁))
    (h' : buildCanonicalRequest P r' signedHeaders' presigned' = (.ok canonical, r₁')) :
    r.method = r'.method ∧ canonicalURI r.url = canonicalURI r'.url ∧
      (signedPairs r.query presigned).Perm (signedPairs r'.query presigned') ∧
      normalizedHeaders P signedHeaders = normalizedHeaders P signedHeaders' ∧
      (∀ n ∈ normalizedHeaders P signedHeaders, signedValue r n = signedValue r' n) ∧
      payloadHash r₁ = payloadHash r₁' := by
  obtain ⟨lines, hlines, hcanonical⟩ := buildCanonicalRequest_ok h
  obtain ⟨lines', hlines', hcanonical'⟩ := buildCanonicalRequest_ok h'
  have hparts := join_inj (hr.newline_not_mem h hlines) (hr'.newline_not_mem h' hlines') (by simp)
    (by simp) (hcanonical.symm.trans hcanonical')
  -- three parts in front and three behind, and the lines between them
  obtain ⟨hfront, hbehind⟩ := append_inj' hparts rfl
  obtain ⟨hfirst, hmiddle⟩ := append_inj hfront rfl
  simp only [cons.injEq, and_true, true_and] at hfirst hbehind
  obtain ⟨hmethod, hpath, hquery⟩ := hfirst
  obtain ⟨hnames, hpayload⟩ := hbehind
  have hlisted {r : Request} {l lines : List Bytes} (hr : Delivered r)
      (hlines : (canonicalHeaders r l).1 = .ok lines) : ∀ n ∈ l, n ≠ [] ∧ 0x3B ∉ n := by
    intro n hn
    have hpresent := present_of_canonicalHeaders hlines n hn
    exact ⟨hpresent.1, not_mem_of_token (hr.token hpresent.2) (by decide)⟩
  have hsame := names_eq_of_join (hlisted hr hlines) (hlisted hr' hlines') hnames
  rw [← hsame] at hlines'
  -- no line is empty, so that the lines are the same where there are none, too
  have hnonempty {r : Request} {lines : List Bytes} (hr : Delivered r)
      (hlines : (canonicalHeaders r (normalizedHeaders P signedHeaders)).1 = .ok lines) :=
    newline_not_mem_lines hr.toUnbroken (fun n hn => not_mem_of_token
      (hr.token (present_of_canonicalHeaders hlines n hn).2) (by decide)) hlines
  have heq : lines = lines' := by
    have hlength := (hnonempty hr hlines).1.trans (hnonempty hr' hlines').1.symm
    by_cases hnil : lines = []
    · rw [hnil, eq_comm, ← length_eq_zero_iff, ← hlength, hnil, length_nil]
    · have hnil' : lines' ≠ [] := by rwa [ne_eq, ← length_eq_zero_iff, ← hlength, length_eq_zero_iff]
      rwa [if_neg hnil, if_neg hnil'] at hmiddle
  subst heq
  exact ⟨hmethod, hpath, signedPairs_perm hquery, hsame, signedValue_eq_of_lines hlines hlines',
    hpayload⟩

/-! ## Two requests, one signature -/

/-- A read that signs `host` only. -/
def plainGet (path rawQuery : String) : Request where
  method := str "GET"
  host := str "s3.local"
  url := { path := str path, rawQuery := str rawQuery }

theorem delivered_plainGet (path rawQuery : String) : Delivered (plainGet path rawQuery) where
  values name value h := by simp [plainGet, Header.values] at h
  host := (by decide : 0x0A ∉ str "s3.local")
  urlHost := not_mem_nil
  method := (by decide : (str "GET").all isTokenByte = true)
  names name h := by cases h

def plainCanonical (path rawQuery : String) (presigned : Bool) : Except AuthError Bytes :=
  (buildCanonicalRequest Sha256.platform (plainGet path rawQuery) [str "host"] presigned).1

theorem buildCanonicalRequest_plainGet {path rawQuery : String}
    (h : plainCanonical path rawQuery presigned = .ok canonical) :
    buildCanonicalRequest Sha256.platform (plainGet path rawQuery) [str "host"] presigned =
      (.ok canonical, plainGet path rawQuery) :=
  Prod.ext h rfl

/-- The theorem at two requests that differ in the order of their query. -/
theorem canonicalRequest_binds_reordered :
    (signedPairs (plainGet "/b/k" "a=1&b=2").query false).Perm
        (signedPairs (plainGet "/b/k" "b=2&a=1").query false) ∧
      signedValue (plainGet "/b/k" "a=1&b=2") (str "host") =
        signedValue (plainGet "/b/k" "b=2&a=1") (str "host") := by
  obtain ⟨canonical, h⟩ : ∃ canonical, plainCanonical "/b/k" "a=1&b=2" false = .ok canonical := ⟨_, rfl⟩
  have hsame : plainCanonical "/b/k" "b=2&a=1" false = plainCanonical "/b/k" "a=1&b=2" false := by
    decide
  obtain ⟨-, -, hquery, -, hvalues, -⟩ := canonicalRequest_binds (delivered_plainGet _ _)
    (delivered_plainGet _ _) (buildCanonicalRequest_plainGet h)
    (buildCanonicalRequest_plainGet (hsame.trans h))
  exact ⟨hquery, hvalues _ (by decide)⟩

/-- **What is lost**: an empty path and `/` are signed alike, and so are presigned queries with and
without a parameter that is called `x-amz-signature` in another case. -/
theorem canonicalRequest_loses :
    ((plainCanonical "" "" false).isOk = true ∧
      plainCanonical "" "" false = plainCanonical "/" "" false ∧
      (plainGet "" "").url.escapedPath ≠ (plainGet "/" "").url.escapedPath) ∧
    (plainCanonical "/" "X-Amz-Signature=1" true).isOk = true ∧
    plainCanonical "/" "X-Amz-Signature=1" true =
      plainCanonical "/" "X-Amz-Signature=1&x-amz-signature=2" true ∧
    ¬ ((plainGet "/" "X-Amz-Signature=1").query.filter fun p => p.1 ≠ str "X-Amz-Signature").Perm
      ((plainGet "/" "X-Amz-Signature=1&x-amz-signature=2").query.filter
        fun p => p.1 ≠ str "X-Amz-Signature") := by
  refine ⟨⟨by decide, by decide, by decide⟩, by decide, by decide, by decide⟩

end S000.SigV4
