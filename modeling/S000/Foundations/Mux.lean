import S000.Foundations.Encoding

/-!
# Foundations/Mux — pattern routing of an HTTP request multiplexer

The routing of `http.ServeMux`: a pattern is an optional method, an optional host and a list of
segments; a request is matched segment by segment on its *escaped* path, each segment being
decoded on its own, so an escaped slash never separates segments.  Literals are tried before single
wildcards, and a trailing multi-segment wildcard (what a pattern ending in a slash means) last.

Two theorems say what the search amounts to, for any set of patterns:

* `matchPath_isSome_iff` — the search succeeds exactly when a pattern covers the path, so trying
  literals first loses nothing;
* `find_eq_root_iff` — the catch-all pattern `/` is selected exactly when no other pattern applies.
-/

namespace S000.Mux

open Strings Url List

/-! ## Patterns -/

inductive Segment
  /-- The segment itself, decoded. -/
  | lit (s : Bytes)
  /-- `{name}`: any one segment. -/
  | wild
  /-- `{name...}` or a trailing slash: whatever is left. -/
  | multi
deriving DecidableEq

/-- A parsed pattern; no method or host means any. -/
structure Pattern where
  method : Bytes
  host : Bytes
  segments : List Segment
deriving DecidableEq

/-- A path segment is decoded where it can be, and kept where its escapes are bad. -/
def decodeSegment (s : Bytes) : Bytes := (pathUnescape s).getD s

/-- The name of a wildcard: a Go identifier, non-ASCII bytes being taken for letters. -/
def isWildcardName (name : Bytes) : Bool :=
  match name with
  | [] => false
  | b :: _ => !(0x30 ≤ b && b ≤ 0x39) && name.all fun c => isAlnum c || c = 0x5F || 0x80 ≤ c

/-- One segment of a pattern's path, with the name of its wildcard; `last` says that it ends the
pattern. -/
def parseSegment (last : Bool) (s : Bytes) : Option (Segment × Option Bytes) :=
  if !s.contains 0x7B then some (.lit (decodeSegment s), none)
  else if s.head? ≠ some 0x7B ∨ s.getLast? ≠ some 0x7D then none
  else
    let name := (s.drop 1).dropLast
    if name = str "$" then if last then some (.lit (str "/"), none) else none
    else if hasSuffix name (str "...") then
      let name := trimSuffix name (str "...")
      if last ∧ isWildcardName name then some (.multi, some name) else none
    else if isWildcardName name then some (.wild, some name) else none

/-- The segments of a pattern's path, which has lost its first slash. -/
def parseSegments (names : List Bytes) : List Bytes → Option (List Segment)
  | [] => some []
  | [s] =>
    if s = [] then some [.multi]
    else do
      let (seg, name) ← parseSegment true s
      if name.any names.contains then none else return [seg]
  | s :: t => do
    let (seg, name) ← parseSegment false s
    if name.any names.contains then none
    else return seg :: (← parseSegments (name.toList ++ names) t)

/-- The method and the rest of a pattern, split at the first blank. -/
def splitMethod (s : Bytes) : Bytes × Bytes :=
  let isBlank := fun b : UInt8 => b = 0x20 || b = 0x09
  if s.any isBlank then
    (s.takeWhile (!isBlank ·), ((s.dropWhile (!isBlank ·)).drop 1).dropWhile isBlank)
  else ([], s)

/-- `http.parsePattern`; `none` where registering the pattern panics. -/
def parsePattern (s : Bytes) : Option Pattern :=
  let (method, rest) := splitMethod s
  let host := rest.takeWhile (· ≠ 0x2F)
  let path := rest.dropWhile (· ≠ 0x2F)
  if !method.all isTokenByte ∨ path = [] ∨ host.contains 0x7B then none
  else if method ≠ [] ∧ method ≠ str "CONNECT" ∧ path ≠ cleanPath path then none
  else (parseSegments [] (split (path.drop 1) 0x2F)).map fun segments => ⟨method, host, segments⟩

/-! ## Conflicts

Two patterns may be registered together when one of them is more specific than the other or when
they match no common request. -/

/-- How the sets of requests two patterns match are related. -/
inductive Relation
  | equivalent | moreGeneral | moreSpecific | disjoint | overlaps
deriving DecidableEq

/-- `http.combineRelationships`. -/
def Relation.combine : Relation → Relation → Relation
  | .equivalent, r => r
  | .disjoint, _ => .disjoint
  | .overlaps, .disjoint => .disjoint
  | .overlaps, _ => .overlaps
  | .moreGeneral, .equivalent => .moreGeneral
  | .moreGeneral, .moreSpecific => .overlaps
  | .moreGeneral, r => r
  | .moreSpecific, .equivalent => .moreSpecific
  | .moreSpecific, .moreGeneral => .overlaps
  | .moreSpecific, r => r

/-- `http.compareSegments`. -/
def compareSegments : Segment → Segment → Relation
  | .multi, .multi => .equivalent
  | .multi, _ => .moreGeneral
  | _, .multi => .moreSpecific
  | .wild, .wild => .equivalent
  | .wild, .lit s => if s = str "/" then .disjoint else .moreGeneral
  | .lit s, .wild => if s = str "/" then .disjoint else .moreSpecific
  | .lit s, .lit t => if s = t then .equivalent else .disjoint

/-- `http.comparePaths`, `rel` being the relation of the segments already passed; only a pattern
that ends in a multi-segment wildcard can match a longer path. -/
def comparePaths (multi₁ multi₂ : Bool) (rel : Relation) : List Segment → List Segment → Relation
  | [], [] => rel
  | [], _ :: _ => if multi₁ then rel.combine .moreGeneral else .disjoint
  | _ :: _, [] => if multi₂ then rel.combine .moreSpecific else .disjoint
  | s :: ss, t :: ts => comparePaths multi₁ multi₂ (rel.combine (compareSegments s t)) ss ts

/-- `http.compareMethods`. -/
def compareMethods (m₁ m₂ : Bytes) : Relation :=
  if m₁ = m₂ then .equivalent
  else if m₁ = [] then .moreGeneral
  else if m₂ = [] then .moreSpecific
  else if m₁ = str "GET" ∧ m₂ = str "HEAD" then .moreGeneral
  else if m₂ = str "GET" ∧ m₁ = str "HEAD" then .moreSpecific
  else .disjoint

/-- `(*pattern).conflictsWith`. -/
def Pattern.conflictsWith (p q : Pattern) : Bool :=
  p.host = q.host &&
    let rel := (compareMethods p.method q.method).combine
      (comparePaths (p.segments.getLast? = some .multi) (q.segments.getLast? = some .multi)
        .equivalent p.segments q.segments)
    rel = .equivalent || rel = .overlaps

variable {α : Type}

/-- Register patterns one after another; `none` where a call panics. -/
def register (reg : List (Pattern × α)) : List (Bytes × α) → Option (List (Pattern × α))
  | [] => some reg
  | (s, a) :: t => do
    let p ← parsePattern s
    if reg.any fun e => p.conflictsWith e.1 then none else register (reg ++ [(p, a)]) t

def parseEntry (e : Bytes × α) : Option (Pattern × α) := (parsePattern e.1).map (·, e.2)

/-- **What registering gives**: the patterns, parsed and in order, no later one in conflict with an
earlier one. -/
theorem register_spec : ∀ {l : List (Bytes × α)} {reg reg' : List (Pattern × α)},
    register reg l = some reg' → reg.Pairwise (fun e e' => e'.1.conflictsWith e.1 = false) →
    ∃ new, reg' = reg ++ new ∧ l.mapM parseEntry = some new ∧
      reg'.Pairwise fun e e' => e'.1.conflictsWith e.1 = false
  | [], reg, reg', h, hreg => by
    cases h
    exact ⟨[], by simp, rfl, hreg⟩
  | (s, a) :: t, reg, reg', h, hreg => by
    simp only [register, Option.bind_eq_bind, Option.bind_eq_some_iff] at h
    obtain ⟨p, hp, h⟩ := h
    split at h
    · cases h
    rename_i hconf
    have hnew : (reg ++ [(p, a)]).Pairwise fun e e' => e'.1.conflictsWith e.1 = false := by
      refine pairwise_append.2 ⟨hreg, pairwise_singleton _ _, fun e he e' he' => ?_⟩
      obtain rfl := mem_singleton.1 he'
      simp only [any_eq_true, not_exists, not_and, Bool.not_eq_true] at hconf
      exact hconf e he
    obtain ⟨new, rfl, hmap, hpw⟩ := register_spec h hnew
    exact ⟨(p, a) :: new, by simp, by simp [parseEntry, hp, hmap], hpw⟩

variable {s host method path : Bytes}

theorem parseSegment_ne_multi {seg : Segment} {name : Option Bytes}
    (h : parseSegment false s = some (seg, name)) : seg ≠ .multi := by
  rintro rfl
  simp only [parseSegment, Bool.false_eq_true, false_and, if_false] at h
  split_ifs at h <;> simp at h

theorem parseSegments_head_multi {names l : List Bytes} {segs : List Segment}
    (h : parseSegments names l = some segs) (hm : segs.head? = some .multi) : segs = [.multi] := by
  match l with
  | [] =>
    cases h
    cases hm
  | [s] =>
    rw [parseSegments] at h
    split at h
    · cases h
      rfl
    simp only [Option.bind_eq_bind, Option.bind_eq_some_iff] at h
    obtain ⟨⟨seg, name⟩, -, h⟩ := h
    split at h <;> cases h
    simpa using hm
  | s :: s' :: t =>
    rw [parseSegments] at h
    · simp only [Option.bind_eq_bind, Option.bind_eq_some_iff] at h
      obtain ⟨⟨seg, name⟩, hseg, h⟩ := h
      split at h
      · cases h
      simp only [Option.bind_eq_some_iff] at h
      obtain ⟨rest, -, h⟩ := h
      cases h
      exact absurd (by simpa using hm) (parseSegment_ne_multi hseg)
    · simp

theorem parsePattern_head_multi {p : Pattern} (h : parsePattern s = some p)
    (hm : p.segments.head? = some .multi) : p.segments = [.multi] := by
  simp only [parsePattern] at h
  split_ifs at h
  obtain ⟨segs, hsegs, rfl⟩ := Option.map_eq_some_iff.1 h
  exact parseSegments_head_multi hsegs hm

/-! ## Matching a path -/

/-- The decoded segments of an escaped path; a trailing slash is the segment `/`. -/
def pathSegments (path : Bytes) : List Bytes :=
  match path with
  | [] => []
  | _ :: rest =>
    let pieces := split rest 0x2F
    let last := pieces.getLastD []
    pieces.dropLast.map decodeSegment ++ [if last = [] then str "/" else decodeSegment last]

/-- The rest of a pattern whose first segment is the literal `s`. -/
def afterLit (s : Bytes) (e : List Segment × α) : Option (List Segment × α) :=
  match e.1 with
  | .lit t :: rest => if t = s ∧ t ≠ [] then some (rest, e.2) else none
  | _ => none

/-- The rest of a pattern whose first segment is a single wildcard; the empty literal is stored as
one. -/
def afterWild (e : List Segment × α) : Option (List Segment × α) :=
  match e.1 with
  | .wild :: rest => some (rest, e.2)
  | .lit [] :: rest => some (rest, e.2)
  | _ => none

/-- The pattern that takes whatever is left. -/
def atMulti (e : List Segment × α) : Option α :=
  match e.1 with
  | .multi :: _ => some e.2
  | _ => none

variable {e e' : List Segment × α}

theorem snd_afterLit (h : afterLit s e = some e') : e'.2 = e.2 := by
  unfold afterLit at h
  split at h
  · split at h <;> cases h
    rfl
  · cases h

theorem snd_afterWild (h : afterWild e = some e') : e'.2 = e.2 := by
  unfold afterWild at h
  split at h <;> cases h <;> rfl

variable {a : α}

theorem snd_atMulti (h : atMulti e = some a) : a = e.2 := by
  unfold atMulti at h
  split at h <;> cases h
  rfl

theorem head_of_atMulti (h : atMulti e = some a) : e.1.head? = some .multi := by
  unfold atMulti at h
  split at h
  · rename_i heq
    rw [heq]
    rfl
  · cases h

/-- `(*routingNode).matchPath`: the node of the tree is the list of the patterns below it, with
the segments each still has to match. -/
def matchPath (node : List (List Segment × α)) : List Bytes → Option α
  | [] => (node.find? fun e => e.1 = []).map Prod.snd
  | s :: rest =>
    (matchPath (node.filterMap (afterLit s)) rest).or <|
      (if s = str "/" then none else matchPath (node.filterMap afterWild) rest).or <|
        node.findSome? atMulti

/-- **What a pattern means**: the paths its segments cover. -/
def covers : List Segment → List Bytes → Bool
  | [], [] => true
  | .multi :: _, _ :: _ => true
  | .wild :: ps, s :: rest => s ≠ str "/" && covers ps rest
  | .lit t :: ps, s :: rest =>
    (if t = [] then s ≠ str "/" else t = s) && covers ps rest
  | _, _ => false

theorem covers_cons_iff (ps : List Segment) (a : α) (s : Bytes) (rest : List Bytes) :
    covers ps (s :: rest) = true ↔ (∃ e, afterLit s (ps, a) = some e ∧ covers e.1 rest = true) ∨
      (s ≠ str "/" ∧ ∃ e, afterWild (ps, a) = some e ∧ covers e.1 rest = true) ∨
      ∃ b, atMulti (ps, a) = some b := by
  rcases ps with - | ⟨seg, ps⟩
  · simp [covers, afterLit, afterWild, atMulti]
  cases seg with
  | multi => simp [covers, atMulti]
  | wild => simp [covers, afterLit, afterWild, atMulti]
  | lit t =>
    cases t with
    | nil => simp [covers, afterLit, afterWild, atMulti]
    | cons b t =>
      by_cases h : b :: t = s <;> simp [covers, afterLit, afterWild, atMulti, h]
      simp [← h]

/-- **The search succeeds exactly when some pattern covers the path**: trying literals first loses
nothing. -/
theorem matchPath_isSome_iff : ∀ (segs : List Bytes) (node : List (List Segment × α)),
    (matchPath node segs).isSome = true ↔ ∃ e ∈ node, covers e.1 segs = true
  | [], node => by
    have hnil : ∀ e : List Segment × α, covers e.1 [] = true ↔ e.1 = [] := by
      rintro ⟨_ | ⟨_ | _ | _, ps⟩, a⟩ <;> simp [covers]
    simp [matchPath, hnil]
  | s :: rest, node => by
    -- the three places the tree looks are the three ways a pattern can cover a nonempty path
    have hsplit : (matchPath node (s :: rest)).isSome = true ↔
        (matchPath (node.filterMap (afterLit s)) rest).isSome = true ∨
        (s ≠ str "/" ∧ (matchPath (node.filterMap afterWild) rest).isSome = true) ∨
        (node.findSome? atMulti).isSome = true := by
      by_cases h : s = str "/" <;> simp [matchPath, h]
    rw [hsplit, matchPath_isSome_iff rest, matchPath_isSome_iff rest, findSome?_isSome_iff]
    constructor
    · rintro (⟨e', hm, hc⟩ | ⟨hs, e', hm, hc⟩ | ⟨e, he, hb⟩)
      · obtain ⟨e, he, h⟩ := mem_filterMap.1 hm
        exact ⟨e, he, (covers_cons_iff e.1 e.2 s rest).2 (.inl ⟨e', h, hc⟩)⟩
      · obtain ⟨e, he, h⟩ := mem_filterMap.1 hm
        exact ⟨e, he, (covers_cons_iff e.1 e.2 s rest).2 (.inr (.inl ⟨hs, e', h, hc⟩))⟩
      · exact ⟨e, he, (covers_cons_iff e.1 e.2 s rest).2 (.inr (.inr (Option.isSome_iff_exists.1 hb)))⟩
    · rintro ⟨e, he, hc⟩
      rcases (covers_cons_iff e.1 e.2 s rest).1 hc with ⟨e', h, hc'⟩ | ⟨hs, e', h, hc'⟩ | hb
      · exact .inl ⟨e', mem_filterMap.2 ⟨e, he, h⟩, hc'⟩
      · exact .inr (.inl ⟨hs, e', mem_filterMap.2 ⟨e, he, h⟩, hc'⟩)
      · exact .inr (.inr ⟨e, he, Option.isSome_iff_exists.2 hb⟩)

/-- …and what it returns is a pattern that covers the path. -/
theorem covers_of_matchPath : ∀ {segs : List Bytes} {node : List (List Segment × α)} {a : α},
    matchPath node segs = some a → ∃ e ∈ node, e.2 = a ∧ covers e.1 segs = true
  | [], node, a, h => by
    obtain ⟨e, he, rfl⟩ := Option.map_eq_some_iff.1 h
    have hnil : e.1 = [] := by simpa using find?_some he
    exact ⟨e, mem_of_find?_eq_some he, rfl, by simp [hnil, covers]⟩
  | s :: rest, node, a, h => by
    simp only [matchPath, Option.or_eq_some_iff] at h
    rcases h with h | ⟨-, h | ⟨-, h⟩⟩
    · obtain ⟨e', hm, rfl, hc⟩ := covers_of_matchPath h
      obtain ⟨e, he, h'⟩ := mem_filterMap.1 hm
      exact ⟨e, he, (snd_afterLit h').symm, (covers_cons_iff e.1 e.2 s rest).2 (.inl ⟨e', h', hc⟩)⟩
    · split at h
      · cases h
      rename_i hs
      obtain ⟨e', hm, rfl, hc⟩ := covers_of_matchPath h
      obtain ⟨e, he, h'⟩ := mem_filterMap.1 hm
      exact ⟨e, he, (snd_afterWild h').symm,
        (covers_cons_iff e.1 e.2 s rest).2 (.inr (.inl ⟨hs, e', h', hc⟩))⟩
    · obtain ⟨e, he, h'⟩ := exists_of_findSome?_eq_some h
      exact ⟨e, he, (snd_atMulti h').symm, (covers_cons_iff e.1 e.2 s rest).2 (.inr (.inr ⟨a, h'⟩))⟩

/-- A path that only the catch-all of a node takes is covered by no other pattern of the node. -/
theorem not_covers_of_matchPath_multi {segs : List Bytes} {node : List (List Segment × α)}
    (h : matchPath node segs = some a) (ha : ∀ e ∈ node, e.2 = a → e.1 = [.multi]) (he : e ∈ node)
    (hne : e.1.head? ≠ some .multi) :
    covers e.1 segs = false := by
  by_contra hc
  rw [Bool.not_eq_false] at hc
  cases segs with
  | nil =>
    obtain ⟨e₀, h₀, h₀a, h₀c⟩ := covers_of_matchPath h
    rw [ha e₀ h₀ h₀a] at h₀c
    cases h₀c
  | cons s rest =>
    -- a search below `e` succeeds, so what the node returns has lost a literal or a wildcard
    have hbelow : ∀ f,
        (∀ {x y}, f x = some y → y.2 = x.2) → (∀ x, x.1 = [.multi] → f x = none) →
        matchPath (node.filterMap f) rest ≠ some a := by
      intro f hsnd hnone hf
      obtain ⟨y, hy, hya, -⟩ := covers_of_matchPath hf
      obtain ⟨x, hx, hxy⟩ := mem_filterMap.1 hy
      rw [hnone x (ha x hx ((hsnd hxy).symm.trans hya))] at hxy
      cases hxy
    have hlit := hbelow (afterLit s) snd_afterLit fun x hx => by simp [afterLit, hx]
    have hwild := hbelow afterWild snd_afterWild fun x hx => by simp [afterWild, hx]
    simp only [matchPath, Option.or_eq_some_iff, hlit, false_or] at h
    obtain ⟨hl, h⟩ := h
    have hw : s ≠ str "/" → matchPath (node.filterMap afterWild) rest = none := by
      intro hs
      rw [if_neg hs] at h
      exact (h.resolve_left hwild).1
    rcases (covers_cons_iff e.1 e.2 s rest).1 hc with ⟨e', h', hc'⟩ | ⟨hs, e', h', hc'⟩ | ⟨b, hb⟩
    · have := (matchPath_isSome_iff rest _).2 ⟨e', mem_filterMap.2 ⟨e, he, h'⟩, hc'⟩
      simp [hl] at this
    · have := (matchPath_isSome_iff rest _).2 ⟨e', mem_filterMap.2 ⟨e, he, h'⟩, hc'⟩
      simp [hw hs] at this
    · exact hne (head_of_atMulti hb)

/-! ## Matching a request -/

/-- The methods whose patterns are tried, in order: the request's own, `GET` for `HEAD`, then the
patterns for any method. -/
def methodsTried (method : Bytes) : List Bytes :=
  (if method = [] then [] else [method]) ++ (if method = str "HEAD" then [str "GET"] else [])

/-- The hosts and methods whose patterns are tried before the ones for any host and method. -/
def groupsBefore (host method : Bytes) : List (Bytes × Bytes) :=
  (if host = [] then [] else (methodsTried method ++ [[]]).map (host, ·)) ++
    (methodsTried method).map ([], ·)

/-- The registered patterns of one host and method, as a node of the tree. -/
def node (reg : List (Pattern × α)) (g : Bytes × Bytes) : List (List Segment × (Pattern × α)) :=
  (reg.filter fun e => (e.1.host, e.1.method) = g).map fun e => (e.1.segments, e)

/-- `(*routingNode).match`: the entry that serves a path. -/
def find (reg : List (Pattern × α)) (host method path : Bytes) : Option (Pattern × α) :=
  (groupsBefore host method ++ [([], [])]).findSome? fun g =>
    matchPath (node reg g) (pathSegments path)

/-- **A pattern applies to a request**: its host and method, where it has them, are the request's
(`GET` serves `HEAD` too), and its segments cover the path. -/
def Pattern.applies (p : Pattern) (host method path : Bytes) : Bool :=
  ((p.host, p.method) ∈ groupsBefore host method ++ [([], [])]) && covers p.segments (pathSegments path)

variable {reg : List (Pattern × α)}

theorem mem_node {g : Bytes × Bytes} {x : List Segment × (Pattern × α)} :
    x ∈ node reg g ↔ x.2 ∈ reg ∧ (x.2.1.host, x.2.1.method) = g ∧ x.1 = x.2.1.segments := by
  simp only [node, mem_map, mem_filter, decide_eq_true_eq]
  constructor
  · rintro ⟨e, ⟨he, hg⟩, rfl⟩
    exact ⟨he, hg, rfl⟩
  · rintro ⟨he, hg, hx⟩
    exact ⟨x.2, ⟨he, hg⟩, Prod.ext hx.symm rfl⟩

theorem groupsBefore_ne_any {g : Bytes × Bytes} (h : g ∈ groupsBefore host method) : g ≠ ([], []) := by
  have hm : ∀ m ∈ methodsTried method, m ≠ [] := by
    intro m hm
    simp only [methodsTried, mem_append] at hm
    rcases hm with hm | hm <;> split at hm <;> simp at hm <;> subst hm
    · assumption
    · decide
  simp only [groupsBefore, mem_append, mem_map] at h
  rcases h with h | ⟨m, h, rfl⟩
  · split at h
    · simp at h
    rename_i hh
    obtain ⟨m, -, rfl⟩ := mem_map.1 h
    simp [hh]
  · simpa using hm m h

theorem applies_of_find {e : Pattern × α} (h : find reg host method path = some e) :
    e ∈ reg ∧ e.1.applies host method path = true := by
  obtain ⟨g, hg, hm⟩ := exists_of_findSome?_eq_some h
  obtain ⟨x, hx, rfl, hc⟩ := covers_of_matchPath hm
  obtain ⟨hreg, rfl, hseg⟩ := mem_node.1 hx
  exact ⟨hreg, by simp only [Pattern.applies, hg, decide_true, ← hseg, hc, Bool.and_self]⟩

theorem find_isSome_of_applies {e : Pattern × α} (he : e ∈ reg)
    (h : e.1.applies host method path = true) :
    (find reg host method path).isSome = true := by
  simp only [Pattern.applies, Bool.and_eq_true, decide_eq_true_eq] at h
  exact findSome?_isSome_iff.2 ⟨_, h.1, (matchPath_isSome_iff _ _).2
    ⟨(e.1.segments, e), mem_node.2 ⟨he, rfl, rfl⟩, h.2⟩⟩

/-- The catch-all pattern `/`: any host, any method, any path. -/
def catchAll : Pattern := ⟨[], [], [.multi]⟩

theorem catchAll_applies : catchAll.applies host method path = true ↔ path ≠ [] := by
  cases path with
  | nil => simp [Pattern.applies, catchAll, covers, pathSegments]
  | cons b rest =>
    obtain ⟨s, t, hs⟩ : ∃ s t, pathSegments (b :: rest) = s :: t :=
      exists_cons_of_ne_nil (by simp [pathSegments])
    simp [Pattern.applies, catchAll, covers, hs]

/-- **The catch-all pattern is selected exactly when no other pattern applies.** -/
theorem find_eq_root_iff (hroot : (catchAll, a) ∈ reg)
    (hother : ∀ e ∈ reg, e ≠ (catchAll, a) → e.1.host = [] → e.1.method = [] →
      e.1.segments.head? ≠ some .multi) :
    find reg host method path = some (catchAll, a) ↔
      path ≠ [] ∧ ∀ e ∈ reg, e ≠ (catchAll, a) → e.1.applies host method path = false := by
  constructor
  · intro h
    refine ⟨catchAll_applies.1 (applies_of_find h).2, fun e he hne => ?_⟩
    -- nothing is found before the group of the catch-all, since only that group contains it
    simp only [find, findSome?_append, findSome?_singleton, Option.or_eq_some_iff] at h
    have hbefore : (groupsBefore host method).findSome?
        (fun g => matchPath (node reg g) (pathSegments path)) ≠ some (catchAll, a) := by
      intro hb
      obtain ⟨g, hg, hm⟩ := exists_of_findSome?_eq_some hb
      obtain ⟨x, hx, hxa, -⟩ := covers_of_matchPath hm
      refine groupsBefore_ne_any hg ?_
      rw [← (mem_node.1 hx).2.1, hxa]
      rfl
    obtain ⟨hnone, hany⟩ := h.resolve_left hbefore
    rw [findSome?_eq_none_iff] at hnone
    by_contra hap
    simp only [Bool.not_eq_false, Pattern.applies, Bool.and_eq_true, decide_eq_true_eq,
      mem_append, mem_singleton] at hap
    obtain ⟨hg | hg, hc⟩ := hap
    · have hsome := (matchPath_isSome_iff (pathSegments path) (node reg (e.1.host, e.1.method))).2
        ⟨(e.1.segments, e), mem_node.2 ⟨he, rfl, rfl⟩, hc⟩
      simp [hnone _ hg] at hsome
    obtain ⟨hh, hm⟩ := Prod.mk.inj hg
    refine Bool.noConfusion (hc.symm.trans
      (not_covers_of_matchPath_multi hany (fun x hx hxa => ?_)
        (mem_node.2 ⟨he, hg, rfl⟩ : (e.1.segments, e) ∈ node reg ([], []))
        (hother e he hne hh hm)))
    rw [(mem_node.1 hx).2.2, hxa]
    rfl
  · rintro ⟨hpath, hno⟩
    obtain ⟨e, he⟩ := Option.isSome_iff_exists.1
      (find_isSome_of_applies hroot ((@catchAll_applies host method path).2 hpath))
    obtain ⟨hreg, hap⟩ := applies_of_find he
    rcases eq_or_ne e (catchAll, a) with rfl | hne
    · exact he
    · rw [hno e hreg hne] at hap
      cases hap

/-! ## Routing, with the redirects to a cleaned path -/

/-- `http.exactMatch`: the entry matches with nothing, or only the trailing slash, left over. -/
def exactMatch (found : Option (Pattern × α)) (path : Bytes) : Bool :=
  match found with
  | none => false
  | some e =>
    if e.1.segments.getLast? ≠ some .multi then true
    else if path ≠ [] ∧ !hasSuffix path (str "/") then false
    else e.1.segments.length = path.count 0x2F

/-- The path is only registered with a slash after it. -/
def slashRedirect (reg : List (Pattern × α)) (host method path : Bytes) : Bool :=
  !exactMatch (find reg host method path) path && !hasSuffix path (str "/") &&
    exactMatch (find reg host method (path ++ str "/")) (path ++ str "/")

/-- `http.stripHostPort`. -/
def stripHostPort (h : Bytes) : Bytes := if h.contains 0x3A then (splitHost h).getD h else h

/-- What the multiplexer does with a request. -/
inductive Routed (α : Type)
  /-- The handler registered for the request is called. -/
  | handler (a : α)
  /-- The client is sent to another path, with the same query. -/
  | redirect (path rawQuery : Bytes)
  /-- No pattern applies: not found, or not with this method. -/
  | unmatched
  /-- The request target `*`. -/
  | badRequest
deriving DecidableEq

def ofFound : Option (Pattern × α) → Routed α
  | some e => .handler e.2
  | none => .unmatched

/-- The host and the path a request is matched by: the path of a `CONNECT` is taken as it is, any
other is cleaned, and the port is taken from the host. -/
def matched (method host : Bytes) (u : URL) : Bytes × Bytes :=
  if method = str "CONNECT" then (host, u.escapedPath)
  else (stripHostPort host, cleanPath u.escapedPath)

/-- The request is answered by a redirect: to the path with a slash after it, or to the cleaned
path.  For a `CONNECT` the first is decided with the host of the request target. -/
def redirected (reg : List (Pattern × α)) (method host : Bytes) (u : URL) : Option Bytes :=
  let (h, path) := matched method host u
  if slashRedirect reg (if method = str "CONNECT" then u.host else h) method path then
    some (cleanPath u.path ++ str "/")
  else if path ≠ u.escapedPath then some path
  else none

/-- `(*ServeMux).ServeHTTP`. -/
def route (reg : List (Pattern × α)) (method host requestURI : Bytes) (u : URL) : Routed α :=
  if requestURI = str "*" then .badRequest
  else match redirected reg method host u with
    | some path => .redirect path u.rawQuery
    | none =>
      let (h, path) := matched method host u
      ofFound (find reg h method path)

end S000.Mux
