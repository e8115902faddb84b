import S000.Foundations.Encoding

/-!
# Foundations/Paths — the paths that cleaning leaves alone

A multiplexer cleans the path of a request before it looks for a handler, and answers with a redirect
where that changes the path.  `cleanPath_eq_self_iff` says when it does not: every element of the path
is **proper**, that is, neither empty nor a dot nor two, but for an empty last one.  Hence a proper
element in front of a path does not matter (`cleanPath_cons_iff`).
-/

namespace S000.Url

open Strings List

/-! ## Elements -/

def Proper (e : Bytes) : Prop := e ≠ [] ∧ e ≠ str "." ∧ e ≠ str ".."

/-- The elements of a clean path. -/
def Tidy (es : List Bytes) : Prop := ∃ kept last, es = kept ++ [last] ∧ (∀ e ∈ kept, Proper e) ∧
  (last = [] ∨ Proper last)

variable {stack es : List Bytes} {e b : Bytes}

theorem Tidy.of_proper (h : ∀ e ∈ es, Proper e) (hne : es ≠ []) : Tidy es :=
  ⟨es.dropLast, es.getLast hne, (dropLast_append_getLast hne).symm,
    fun e he => h e (mem_of_mem_dropLast he), .inr (h _ (getLast_mem hne))⟩

theorem tidy_cons_iff (hb : Proper b) (hne : es ≠ []) : Tidy (b :: es) ↔ Tidy es := by
  constructor
  · rintro ⟨kept, last, heq, hkept, hlast⟩
    cases kept with
    | nil => exact absurd (cons.inj heq).2 hne
    | cons c kept =>
      exact ⟨kept, last, (cons.inj heq).2, fun e he => hkept e (mem_cons_of_mem c he), hlast⟩
  · rintro ⟨kept, last, rfl, hkept, hlast⟩
    refine ⟨b :: kept, last, rfl, fun e he => ?_, hlast⟩
    rcases mem_cons.1 he with rfl | he
    · exact hb
    · exact hkept e he

/-- Proper elements are kept, -/
theorem cleanElements_append_of_proper {kept : List Bytes} (h : ∀ e ∈ kept, Proper e) :
    cleanElements stack (kept ++ es) = cleanElements (kept.reverse ++ stack) es := by
  induction kept generalizing stack with
  | nil => rfl
  | cons e kept ih =>
    obtain ⟨⟨hnil, hdot, hdots⟩, hkept⟩ := forall_mem_cons.1 h
    rw [cons_append, cleanElements, if_neg (not_or.2 ⟨hnil, hdot⟩), if_neg hdots, ih hkept]
    simp

theorem cleanElements_of_proper (h : ∀ e ∈ es, Proper e) : cleanElements [] es = es := by
  have happend : cleanElements [] (es ++ []) = cleanElements (es.reverse ++ []) [] :=
    cleanElements_append_of_proper h
  simpa [cleanElements] using happend

/-- …and no others. -/
theorem proper_of_cleanElements (hstack : ∀ e ∈ stack, Proper e ∧ 0x2F ∉ e)
    (hes : ∀ e ∈ es, 0x2F ∉ e) : ∀ e ∈ cleanElements stack es, Proper e ∧ 0x2F ∉ e := by
  induction es generalizing stack with
  | nil => exact fun e he => hstack e (mem_reverse.1 he)
  | cons x es ih =>
    obtain ⟨hx, hes⟩ := forall_mem_cons.1 hes
    rw [cleanElements]
    split_ifs with hskip hdots
    · exact ih hstack hes
    · exact ih (fun e he => hstack e (mem_of_mem_tail he)) hes
    refine ih (fun e he => ?_) hes
    rcases mem_cons.1 he with rfl | he
    · exact ⟨⟨fun h => hskip (.inl h), fun h => hskip (.inr h), hdots⟩, hx⟩
    · exact hstack e he

/-! ## Paths -/

theorem split_append_cons {sep : UInt8} (hb : sep ∉ b) (s : Bytes) :
    split (b ++ sep :: s) sep = b :: split s sep :=
  splitOn_append_cons_self_of_not_mem hb s

theorem split_cons_sep (sep : UInt8) (s : Bytes) : split (sep :: s) sep = [] :: split s sep :=
  split_append_cons not_mem_nil s

theorem split_ne_nil (s : Bytes) (sep : UInt8) : split s sep ≠ [] := splitOn_ne_nil sep s

theorem join_split (s : Bytes) (sep : UInt8) : join (split s sep) [sep] = s := intercalate_splitOn sep

theorem split_join {sep : UInt8} (hes : ∀ e ∈ es, sep ∉ e) (hne : es ≠ []) :
    split (join es [sep]) sep = es :=
  splitOn_intercalate sep hes hne

theorem split_concat_sep (s : Bytes) (sep : UInt8) : split (s ++ [sep]) sep = split s sep ++ [[]] := by
  have hjoin : join (split s sep ++ [[]]) [sep] = s ++ [sep] := by
    rw [join_append (split_ne_nil s sep) (cons_ne_nil _ _), join_split]
    simp [join]
  rw [← hjoin, split_join (fun e he => ?_) (by simp)]
  rcases mem_append.1 he with he | he
  · exact (mem_split he).1
  · simp [mem_singleton.1 he]

theorem join_ne_nil {sep : Bytes} (h : ∀ e ∈ es, Proper e) (hne : es ≠ []) : join es sep ≠ [] := by
  match es, hne with
  | [e], _ => simpa [join] using (h e mem_cons_self).1
  | e :: x :: es, _ =>
    rw [join_cons_cons]
    have he := (h e mem_cons_self).1
    simp [he]

theorem cleanPath_cons (s : Bytes) : cleanPath (0x2F :: s) =
    if hasSuffix (0x2F :: s) (str "/") ∧ join (cleanElements [] (split s 0x2F)) (str "/") ≠ [] then
      0x2F :: (join (cleanElements [] (split s 0x2F)) (str "/") ++ str "/")
    else 0x2F :: join (cleanElements [] (split s 0x2F)) (str "/") := by
  have hrooted : hasPrefix (0x2F :: s) (str "/") = true := hasPrefix_iff.2 ⟨s, rfl⟩
  have hne : (0x2F :: join (cleanElements [] (split s 0x2F)) (str "/") ≠ str "/") ↔
      join (cleanElements [] (split s 0x2F)) (str "/") ≠ [] :=
    not_congr ⟨fun h => (cons.inj h).2, fun h => by rw [h]; rfl⟩
  simp only [cleanPath, hrooted, if_true, split_cons_sep, cleanElements, true_or, hne,
    cons_ne_nil, if_false, cons_append]

/-- **Which paths are clean.** -/
theorem cleanPath_eq_self_iff (s : Bytes) :
    cleanPath (0x2F :: s) = 0x2F :: s ↔ Tidy (split s 0x2F) := by
  have hkept : ∀ e ∈ cleanElements [] (split s 0x2F), Proper e ∧ 0x2F ∉ e :=
    proper_of_cleanElements nofun fun e he => (mem_split he).1
  constructor
  · -- the elements that are left make up the path, so that they are all of it
    intro h
    rw [cleanPath_cons] at h
    generalize cleanElements [] (split s 0x2F) = kept at h hkept
    split_ifs at h with hslash
    · obtain rfl := (cons.inj h).2
      have hne : kept ≠ [] := fun hnil => hslash.2 (by rw [hnil]; rfl)
      change Tidy (split (join kept [0x2F] ++ [0x2F]) 0x2F)
      rw [split_concat_sep, split_join (fun e he => (hkept e he).2) hne]
      exact ⟨kept, [], rfl, fun e he => (hkept e he).1, .inl rfl⟩
    · obtain rfl := (cons.inj h).2
      rcases eq_or_ne kept [] with rfl | hne
      · exact ⟨[], [], rfl, fun e he => (by cases he), .inl rfl⟩
      change Tidy (split (join kept [0x2F]) 0x2F)
      rw [split_join (fun e he => (hkept e he).2) hne]
      exact .of_proper (fun e he => (hkept e he).1) hne
  · rintro ⟨kept, last, heq, hproper, hlast⟩
    have hs : join (kept ++ [last]) (str "/") = s := by
      rw [← heq]
      exact join_split s 0x2F
    rw [cleanPath_cons, heq]
    rcases hlast with rfl | hlast
    · have helements : cleanElements [] (kept ++ [[]]) = kept := by
        rw [cleanElements_append_of_proper hproper]
        simp [cleanElements]
      rw [helements]
      rcases eq_or_ne kept [] with rfl | hne
      · rw [← hs]
        rfl
      have hslash : join kept (str "/") ++ str "/" = s := by
        rw [← hs, join_append hne (cons_ne_nil _ _)]
        simp [join]
      have hsuffix : hasSuffix (0x2F :: s) (str "/") = true :=
        hasSuffix_iff.2 ⟨0x2F :: join kept (str "/"), by rw [← hslash, cons_append]⟩
      rw [hslash, if_pos ⟨hsuffix, join_ne_nil hproper hne⟩]
    · have hall : ∀ e ∈ kept ++ [last], Proper e := by
        intro e he
        rcases mem_append.1 he with he | he
        · exact hproper e he
        · rwa [mem_singleton.1 he]
      rw [cleanElements_of_proper hall, hs, if_neg]
      -- a path that ends in a slash has an empty last element
      rintro ⟨hslash, hne⟩
      obtain ⟨q, rfl⟩ : ∃ q, s = q ++ [0x2F] := by
        obtain ⟨q, hq⟩ := hasSuffix_iff.1 hslash
        cases q with
        | nil => exact absurd (cons.inj hq).2.symm hne
        | cons c q => exact ⟨q, (cons.inj hq).2.symm⟩
      rw [split_concat_sep] at heq
      exact hlast.1 (cons.inj (append_inj' heq rfl).2).1.symm

/-- **An element in front of a path** is clean, and so the path is as clean as it was. -/
theorem cleanPath_cons_iff (hb : Proper b) (hslash : 0x2F ∉ b) (s : Bytes) :
    cleanPath (0x2F :: (b ++ 0x2F :: s)) = 0x2F :: (b ++ 0x2F :: s) ↔
      cleanPath (0x2F :: s) = 0x2F :: s := by
  rw [cleanPath_eq_self_iff, cleanPath_eq_self_iff, split_append_cons hslash,
    tidy_cons_iff hb (split_ne_nil s 0x2F)]

/-! ## Escapes -/

theorem mem_of_unescape {c : UInt8} (hc : Hex.value c = none) (hpercent : c ≠ 0x25) :
    ∀ {s t : Bytes}, unescape false s = some t → c ∈ s → c ∈ t := by
  intro s
  induction s using unescape.induct with
  | case1 => intro t _ hmem; cases hmem
  | case2 => intro t h; cases h
  | case3 => intro t h; cases h
  | case4 a b s ih =>
    intro t h hmem
    simp only [unescape, Option.bind_eq_bind, Option.bind_eq_some_iff] at h
    obtain ⟨x, hx, y, hy, t', ht', ht⟩ := h
    cases ht
    have hcases : c = 0x25 ∨ c = a ∨ c = b ∨ c ∈ s := by simpa using hmem
    rcases hcases with rfl | rfl | rfl | hmem
    · exact absurd rfl hpercent
    · exact absurd (hc.symm.trans hx) (by simp)
    · exact absurd (hc.symm.trans hy) (by simp)
    · exact mem_cons_of_mem _ (ih ht' hmem)
  | case5 b s hne₁ hne₂ hne₃ ih =>
    intro t h hmem
    rw [unescape.eq_5 _ _ _ hne₁ hne₂ hne₃] at h
    simp only [Option.bind_eq_bind,
      Option.bind_eq_some_iff] at h
    obtain ⟨t', ht', ht⟩ := h
    cases ht
    rcases mem_cons.1 hmem with rfl | hmem
    · exact mem_cons_self
    · exact mem_cons_of_mem _ (ih ht' hmem)

/-- **An escaped element is proper** where the element has no dot and no slash. -/
theorem proper_of_pathUnescape (h : pathUnescape e = some b) (hne : b ≠ []) (hdot : 0x2E ∉ b)
    (hslash : 0x2F ∉ b) : Proper e ∧ 0x2F ∉ e := by
  have hkeep {c : UInt8} (hc : Hex.value c = none) (hpercent : c ≠ 0x25) (hb : c ∉ b) : c ∉ e :=
    fun hmem => hb (mem_of_unescape hc hpercent h hmem)
  have hdot' : 0x2E ∉ e := hkeep (by decide) (by decide) hdot
  refine ⟨⟨?_, ?_, ?_⟩, hkeep (by decide) (by decide) hslash⟩
  · rintro rfl
    exact hne (Option.some.inj h).symm
  · rintro rfl
    exact hdot' (by decide)
  · rintro rfl
    exact hdot' (by decide)

end S000.Url
