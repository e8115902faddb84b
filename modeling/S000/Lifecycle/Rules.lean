import S000.Foundations.Time

/-!
# Lifecycle/Rules — expiration rules

`internal/lifecycle/rules.go`: a rule expires the objects under a prefix from an age on.  A bucket has
the rules of the server and those of its own lifecycle document; what the XML decoder makes of the
document is a parameter.
-/

namespace S000.Lifecycle

open List Strings

/-- A `time.Duration`: arithmetic in 64 bits wraps around. -/
def wrap (d : ℤ) : ℤ := d.bmod (2 ^ 64)

/-- `Rule`. -/
structure Rule where
  pre : Bytes
  expireAfter : ℤ
deriving DecidableEq

/-- `matchesAnyRule`. -/
def matchesAnyRule (rules : List Rule) (key : Bytes) (age : ℤ) : Bool :=
  rules.any fun rule => !(age < rule.expireAfter) && hasPrefix key rule.pre

theorem matchesAnyRule_iff {rules : List Rule} {key : Bytes} {age : ℤ} :
    matchesAnyRule rules key age = true ↔
      ∃ rule ∈ rules, rule.pre <+: key ∧ rule.expireAfter ≤ age := by
  unfold matchesAnyRule hasPrefix
  rw [any_eq_true]
  refine exists_congr fun rule => and_congr_right fun _ => ?_
  rw [Bool.and_eq_true, isPrefixOf_iff_prefix, Bool.not_eq_true', decide_eq_false_iff_not, not_lt,
    and_comm]

/-- A `Rule` element, as the decoder delivers it. -/
structure RuleElement where
  status : Bytes
  pre : Bytes
  filterPrefix : Bytes
  days : ℤ
deriving DecidableEq

/-- The rules of the enabled elements, with a prefix from `Filter` before one from the rule itself;
none where an enabled element does not expire anything. -/
def rulesOf : List RuleElement → Option (List Rule)
  | [] => some []
  | e :: es =>
    if !equalFold (trimSpace e.status) (str "Enabled") then rulesOf es
    else if e.days ≤ 0 then none
    else
      let filter := trimSpace e.filterPrefix
      let pre := if filter = [] then trimSpace e.pre else filter
      (rulesOf es).map fun rules => ⟨pre, wrap (wrap (e.days * 24) * 3600000000000)⟩ :: rules

/-- What `xml.Decoder` makes of a document: the elements, or an error. -/
abbrev Decoder := Bytes → Option (List RuleElement)

/-- `ParseLifecycleXMLRules`; a document that ends before its first element has no rules, which is for
the decoder to say. -/
def parseLifecycleXMLRules (decode : Decoder) (raw : Bytes) : Option (List Rule) :=
  let raw := trimSpace raw
  if raw = [] then some []
  else match decode raw with
    | none => none
    | some elements => rulesOf elements

/-! ## What a document says -/

def RuleElement.enabled (e : RuleElement) : Bool :=
  equalFold (trimSpace e.status) (str "Enabled")

def RuleElement.rulePrefix (e : RuleElement) : Bytes :=
  if trimSpace e.filterPrefix = [] then trimSpace e.pre
  else trimSpace e.filterPrefix

/-- The rule of an enabled element. -/
def RuleElement.rule (e : RuleElement) : Rule :=
  ⟨e.rulePrefix, wrap (wrap (e.days * 24) * 3600000000000)⟩

theorem rulesOf_cons (e : RuleElement) (es : List RuleElement) : rulesOf (e :: es) =
    if !e.enabled then rulesOf es
    else if e.days ≤ 0 then none else (rulesOf es).map (e.rule :: ·) := rfl

/-- **The rules of a document** are those of its enabled elements, and all of these expire something. -/
theorem mem_rulesOf (rule : Rule) : ∀ {es : List RuleElement} {rules : List Rule},
    rulesOf es = some rules → (∀ e ∈ es, e.enabled = true → 0 < e.days) ∧
      (rule ∈ rules ↔ ∃ e ∈ es, e.enabled = true ∧ rule = e.rule)
  | [], _, h => by
    cases h
    exact ⟨nofun, by simp⟩
  | e :: es, rules, h => by
    rw [rulesOf_cons] at h
    cases he : e.enabled with
    | true =>
      rw [he, Bool.not_true, if_neg Bool.false_ne_true] at h
      split_ifs at h with hdays
      obtain ⟨rest, hrest, rfl⟩ := Option.map_eq_some_iff.1 h
      obtain ⟨hpos, hmem⟩ := mem_rulesOf rule hrest
      refine ⟨forall_mem_cons.2 ⟨fun _ => not_le.1 hdays, hpos⟩, ?_⟩
      rw [mem_cons, hmem, exists_mem_cons_iff, and_iff_right he]
    | false =>
      rw [he] at h
      obtain ⟨hpos, hmem⟩ := mem_rulesOf rule h
      refine ⟨forall_mem_cons.2 ⟨fun h => absurd (he.symm.trans h) (by decide), hpos⟩, ?_⟩
      rw [hmem, exists_mem_cons_iff, or_iff_right fun h => absurd (he.symm.trans h.1) (by decide)]

theorem wrap_eq_self {d : ℤ} (h : -(2 ^ 63) ≤ d) (h' : d < 2 ^ 63) : wrap d = d := by
  unfold wrap
  rw [Int.bmod_eq_of_le] <;> omega

theorem wrap_lt (d : ℤ) : wrap d < 2 ^ 63 := by
  have := Int.bmod_lt (x := d) (m := 2 ^ 64) (by decide)
  unfold wrap
  omega

variable {elements : List RuleElement} {rules : List Rule}

theorem rulesOf_of_parse {decode : Decoder} {raw : Bytes}
    (hdecode : decode (trimSpace raw) = some elements)
    (hraw : trimSpace raw ≠ []) (h : parseLifecycleXMLRules decode raw = some rules) :
    rulesOf elements = some rules := by
  simpa only [parseLifecycleXMLRules, if_neg hraw, hdecode] using h

theorem matches_rule {e : RuleElement} {key : Bytes} {age : ℤ} :
    matchesAnyRule [e.rule] key age = true ↔ e.rulePrefix <+: key ∧ e.rule.expireAfter ≤ age := by
  rw [matchesAnyRule_iff]
  simp [RuleElement.rule]

/-- **No object expires before its days are over, exactly if the days fit**: the nanoseconds of 106751
days are the last ones that 64 bits can hold. -/
theorem expires_in_time_iff (decode : Decoder) (raw : Bytes)
    (hdecode : decode (trimSpace raw) = some elements)
    (hraw : trimSpace raw ≠ []) (h : parseLifecycleXMLRules decode raw = some rules)
    {e : RuleElement} (he : e ∈ elements) (henabled : e.enabled = true) :
    e.rule ∈ rules ∧ ((∀ key age, matchesAnyRule [e.rule] key age = true →
      e.days * 86400000000000 ≤ age) ↔ e.days ≤ 106751) := by
  have hrules := rulesOf_of_parse hdecode hraw h
  obtain ⟨hpos, hmem⟩ := mem_rulesOf e.rule hrules
  have hdays := hpos e he henabled
  refine ⟨hmem.2 ⟨e, he, henabled, rfl⟩, fun hlate => ?_, fun hle key age hmatch => ?_⟩
  · have hage := hlate e.rulePrefix e.rule.expireAfter (matches_rule.2 ⟨prefix_rfl, le_rfl⟩)
    have hlt : e.rule.expireAfter < 2 ^ 63 := wrap_lt _
    omega
  · have hexact : e.rule.expireAfter = e.days * 24 * 3600000000000 := by
      dsimp only [RuleElement.rule]
      rw [wrap_eq_self (d := e.days * 24) (by omega) (by omega), wrap_eq_self (by omega) (by omega)]
    have hage := (matches_rule.1 hmatch).2
    omega

/-- A decoder that knows one document. -/
def decoderOf (document : Bytes) (elements : List RuleElement) : Decoder := fun raw =>
  if raw = document then some elements else none

def ruleDocument (rules : String) : Bytes :=
  str ("<LifecycleConfiguration>" ++ rules ++ "</LifecycleConfiguration>")

/-- A rule that expires what is under `logs/`, as text and as the decoder delivers it. -/
def daysText (days : String) : String :=
  "<Rule><Status>Enabled</Status><Filter><Prefix>logs/</Prefix></Filter>" ++
    "<Expiration><Days>" ++ days ++ "</Days></Expiration></Rule>"

def daysElement (days : ℤ) : RuleElement := ⟨str "Enabled", [], str "logs/", days⟩

/-- A rule of thirty days expires nothing that is twenty-nine days old. -/
theorem expires_in_time_month : matchesAnyRule [(daysElement 30).rule] (str "logs/x")
    (29 * 86400000000000) = false := by
  have hparse : parseLifecycleXMLRules (decoderOf (ruleDocument (daysText "30")) [daysElement 30])
    (ruleDocument (daysText "30")) = some [(daysElement 30).rule] := by decide +kernel
  have hlate := (expires_in_time_iff _ _ (show _ = some [daysElement 30] by decide +kernel)
    (by decide +kernel) hparse (mem_singleton.2 rfl) (by decide)).2.2 (by decide) (str "logs/x")
    (29 * 86400000000000)
  exact Bool.eq_false_iff.2 fun h => absurd (hlate h) (by decide)

/-- A rule of 106752 days, some 292 years, expires what was just written. -/
theorem long_retention_expires : ∃ rules,
    parseLifecycleXMLRules (decoderOf (ruleDocument (daysText "106752")) [daysElement 106752])
      (ruleDocument (daysText "106752")) = some rules ∧
      matchesAnyRule rules (str "logs/x") 0 = true :=
  ⟨[(daysElement 106752).rule], by decide +kernel, by decide⟩

/-! ## What a filter says -/

/-- An object, as far as filters are about it. -/
structure Subject where
  key : Bytes
  tags : List (Bytes × Bytes) := []
  size : ℕ := 0

inductive Restriction
  | pre (p : Bytes)
  | tag (key value : Bytes)
  | largerThan (n : ℕ)
  | smallerThan (n : ℕ)

def Restriction.admits (o : Subject) : Restriction → Prop
  | pre p => p <+: o.key
  | tag key value => (key, value) ∈ o.tags
  | largerThan n => n < o.size
  | smallerThan n => o.size < n

/-- A `Rule` element with all that stands in it; `others` are the restrictions under `Filter` that the
decoder does not know, such as tags, sizes and all those under `And`. -/
structure StatedRule where
  statuses : List Bytes := [str "Enabled"]
  prefixes : List Bytes := []
  filterPrefixes : List Bytes := []
  others : List Restriction := []
  /-- `Expiration/Days`. -/
  days : List ℤ

/-- What the decoder delivers of it: of elements of one name the last. -/
def StatedRule.element (r : StatedRule) : RuleElement :=
  ⟨r.statuses.getLastD [], r.prefixes.getLastD [], r.filterPrefixes.getLastD [], r.days.getLastD 0⟩

def StatedRule.restrictions (r : StatedRule) : List Restriction :=
  r.prefixes.map .pre ++ r.filterPrefixes.map .pre ++ r.others

/-- The last prefix under `Filter` without the spaces around it, or else that of the rule. -/
def StatedRule.lastPrefix (r : StatedRule) : Bytes :=
  if trimSpace (r.filterPrefixes.getLastD []) = [] then
    trimSpace (r.prefixes.getLastD [])
  else trimSpace (r.filterPrefixes.getLastD [])

/-- **A rule applies to what its filter admits only, exactly if the filter has nothing but prefixes that
the last one begins with**; and each rule comes from an enabled element with days. -/
theorem applies_within_filter_iff (decode : Decoder) (raw : Bytes) (stated : List StatedRule)
    (hdecode : decode (trimSpace raw) = some (stated.map StatedRule.element))
    (hraw : trimSpace raw ≠ []) (h : parseLifecycleXMLRules decode raw = some rules) :
    (∀ rule ∈ rules, ∃ r ∈ stated, r.element.enabled = true ∧ rule = r.element.rule ∧
      ∃ n ∈ r.days, 0 < n) ∧
      ∀ r ∈ stated, r.element.enabled = true → r.element.rule ∈ rules ∧
        ((∀ o age, matchesAnyRule [r.element.rule] o.key age = true →
          ∀ x ∈ r.restrictions, x.admits o) ↔
            ∀ x ∈ r.restrictions, ∃ p, x = .pre p ∧ p <+: r.lastPrefix) := by
  have hrules := rulesOf_of_parse hdecode hraw h
  refine ⟨fun rule hrule => ?_, fun r hr henabled => ⟨?_, fun hfilter x hx => ?_,
    fun hplain o age hmatch x hx => ?_⟩⟩
  · obtain ⟨hpos, hmem⟩ := mem_rulesOf rule hrules
    obtain ⟨_, he, henabled, rfl⟩ := hmem.1 hrule
    have hdays := hpos _ he henabled
    obtain ⟨r, hr, rfl⟩ := mem_map.1 he
    have hne : r.days ≠ [] := by
      intro hnil
      simp [StatedRule.element, hnil] at hdays
    have hlast : r.element.days = r.days.getLast hne := by
      simp [StatedRule.element, getLast?_eq_some_getLast hne]
    exact ⟨r, hr, henabled, rfl, _, getLast_mem hne, hlast ▸ hdays⟩
  · exact (mem_rulesOf _ hrules).2.2 ⟨_, mem_map_of_mem hr, henabled, rfl⟩
  · have hmatch (size : ℕ) := hfilter ⟨r.lastPrefix, [], size⟩ r.element.rule.expireAfter
      (matches_rule.2 ⟨prefix_rfl, le_rfl⟩) x hx
    cases x with
    | pre p => exact ⟨p, rfl, hmatch 0⟩
    | tag => exact absurd (hmatch 0) not_mem_nil
    | largerThan n => exact absurd (hmatch 0) (Nat.not_lt_zero n)
    | smallerThan n => exact absurd (hmatch n) (lt_irrefl n)
  · obtain ⟨p, rfl, hp⟩ := hplain x hx
    exact hp.trans (matches_rule.1 hmatch).1

/-- A rule for a prefix under `Filter` does not apply to other keys. -/
theorem applies_within_filter_logs :
    matchesAnyRule [(daysElement 1).rule] (str "data/x") 86400000000000 = false := by
  have hplain : ∀ x ∈ [Restriction.pre (str "logs/")], ∃ p, x = .pre p ∧ p <+: str "logs/" := by
    intro x hx
    obtain rfl := mem_singleton.1 hx
    exact ⟨_, rfl, by decide⟩
  have hparse : parseLifecycleXMLRules (decoderOf (ruleDocument (daysText "1")) [daysElement 1])
    (ruleDocument (daysText "1")) = some [(daysElement 1).rule] := by decide +kernel
  have hwithin := ((applies_within_filter_iff _ _ [⟨[str "Enabled"], [], [str "logs/"], [], [1]⟩]
    (by decide +kernel) (by decide +kernel) hparse).2 _ (mem_singleton.2 rfl) (by decide)).2.2
    hplain ⟨str "data/x", [], 0⟩ 86400000000000
  have hother : ¬ str "logs/" <+: str "data/x" := by decide
  exact Bool.eq_false_iff.2 fun h => hother (hwithin h (.pre (str "logs/")) (mem_singleton.2 rfl))

/-- Rules for a tag, for a prefix under `And` and for a prefix with a space in front expire an object that
none of them is about. -/
theorem unknown_filter_expires :
    let rule (filter : String) := "<Rule><Status>Enabled</Status><Filter>" ++ filter ++
      "</Filter><Expiration><Days>1</Days></Expiration></Rule>"
    let document := ruleDocument (rule "<Tag><Key>k</Key><Value>v</Value></Tag>" ++
      rule "<And><Prefix>a/</Prefix></And>" ++ rule "<Prefix> logs/</Prefix>")
    let stated : List StatedRule := [{ others := [.tag (str "k") (str "v")], days := [1] },
      { others := [.pre (str "a/")], days := [1] }, { filterPrefixes := [str " logs/"], days := [1] }]
    ∃ rules, parseLifecycleXMLRules (decoderOf document (stated.map StatedRule.element)) document =
      some rules ∧ rules.length = 3 ∧
      ∀ rule ∈ rules, matchesAnyRule [rule] (str "logs/x") 86400000000000 = true :=
  ⟨[⟨[], 86400000000000⟩, ⟨[], 86400000000000⟩, ⟨str "logs/", 86400000000000⟩],
    by decide +kernel, by decide, by decide⟩

end S000.Lifecycle
