import Morphotactics.Proofs.SplitForms

/-!
# Forms that lack a boundary

A boundary that a form lacks is put at its outer end, so the segment beyond it should be
empty and the stem should have all the text on its side.  At the start this is so: the
boundary is found first, whatever comes after it.  At the end it is not quite so.  A form
that ends in a single `>` runs into the `>>` put behind it; from the left the boundary is
found one character early, and the last bracket is left over behind it.
`repair_keeps_text_iff` says that this is the only case.
-/

namespace Morphotactics

/-! ## First occurrences -/

namespace Boundary

/-- The texts before and behind the first place where a boundary occurs. -/
def apart? (b : Boundary) : List Char → Option (List Char × List Char)
  | [] => none
  | c :: cs =>
    if b.chars <+: c :: cs then some ([], cs.tail)
    else (b.apart? cs).map fun p => (c :: p.1, p.2)

/-- The text of a form before the first place where a boundary occurs, or all of it. -/
def textBefore (b : Boundary) (form : String) : String :=
  ((b.apart? form.toList).map fun p => String.ofList p.1).getD form

/-- The text of a form behind the first place where a boundary occurs, or all of it. -/
def textAfter (b : Boundary) (form : String) : String :=
  ((b.apart? form.toList).map fun p => String.ofList p.2).getD form

variable {b : Boundary} {cs pre rest : List Char}

/-- A text is cut at a boundary unless the boundary does not occur in it. -/
theorem apart?_eq_none_iff : b.apart? cs = none ↔ ¬ b.chars <:+: cs := by
  induction cs with
  | nil => simpa [apart?] using b.not_chars_infix_nil
  | cons c cs ih =>
      rw [apart?, List.infix_cons_iff, not_or, ← ih]
      by_cases hstart : b.chars <+: c :: cs
      · simp [hstart]
      · simp [hstart]

/-- A text is taken apart where the boundary occurs first. -/
theorem apart?_spec (h : b.apart? cs = some (pre, rest)) :
    cs = pre ++ (b.chars ++ rest) ∧ ¬ b.chars <:+: pre ++ [b.bracket] := by
  induction cs generalizing pre with
  | nil => cases h
  | cons c cs ih =>
      rw [apart?] at h
      by_cases hstart : b.chars <+: c :: cs
      · rw [if_pos hstart] at h
        obtain ⟨rfl, rfl⟩ := Prod.mk.inj (Option.some.inj h)
        obtain ⟨rest, hrest⟩ := hstart
        rw [b.chars_eq] at hrest
        obtain ⟨rfl, rfl⟩ := List.cons.inj hrest
        exact ⟨by rw [b.chars_eq]; rfl, NoBoundary.singleton b.bracket b⟩
      · rw [if_neg hstart] at h
        obtain ⟨⟨pre', rest'⟩, hlater, heq⟩ := Option.map_eq_some_iff.mp h
        obtain ⟨rfl, rfl⟩ := Prod.mk.inj heq
        obtain ⟨hcs, hfirst⟩ := ih hlater
        refine ⟨by rw [hcs]; rfl, fun hin => ?_⟩
        rcases List.infix_cons_iff.mp hin with hbegins | hlater'
        · refine hstart (hbegins.trans ⟨b.bracket :: rest', ?_⟩)
          rw [hcs, b.chars_eq]
          simp
        · exact hfirst hlater'

/-- In a text without the other boundary, the one that is found is the first of all. -/
theorem noBoundary_of_apart? {b' : Boundary} (hne : b' ≠ b) (hlacks : ¬ b'.chars <:+: cs)
    (h : b.apart? cs = some (pre, rest)) : NoBoundary (pre ++ [b.bracket]) := by
  obtain ⟨rfl, hfirst⟩ := apart?_spec h
  rw [infix_append_chars_iff hne, not_or] at hlacks
  have hkinds : ∀ d : Boundary, d = b ∨ d = b' := by
    intro d
    cases b <;> cases b' <;> cases d <;> simp at hne ⊢
  intro d
  rcases hkinds d with rfl | rfl
  · exact hfirst
  · rw [infix_concat_bracket_iff]
    exact fun hin => hin.elim hlacks.1 fun hsame => hne hsame.1

variable {form : String}

/-- Without the boundary all of a form stands before it. -/
theorem textBefore_of_lacks (h : ¬ b.chars <:+: form.toList) : b.textBefore form = form := by
  rw [textBefore, apart?_eq_none_iff.mpr h]
  rfl

/-- Without the boundary all of a form stands behind it. -/
theorem textAfter_of_lacks (h : ¬ b.chars <:+: form.toList) : b.textAfter form = form := by
  rw [textAfter, apart?_eq_none_iff.mpr h]
  rfl

end Boundary

namespace Segmentation

variable {form : String} {s : Segmentation}

/-! ## At the end -/

/-- What is found first in a form with its opening boundary: that boundary, with the
right text behind it, if the form has no closing one. -/
theorem opened_eq_append (hclosing : ¬ Boundary.closing.chars <:+: form.toList) :
    ∃ pre rest, opened form.toList = pre ++ (Boundary.opening.chars ++ rest) ∧
      NoBoundary (pre ++ [Boundary.opening.bracket]) ∧
      Boundary.opening.textAfter form = String.ofList rest ∧
      (¬ Boundary.opening.chars <:+: form.toList → pre = []) ∧
      ¬ Boundary.closing.chars <:+: rest ∧
      (rest.getLast? = some '>' ↔ form.toList.getLast? = some '>') := by
  cases hapart : Boundary.opening.apart? form.toList with
  | none =>
      have hlacks := Boundary.apart?_eq_none_iff.mp hapart
      refine ⟨[], form.toList, if_neg hlacks, .singleton _, ?_, fun _ => rfl, hclosing, Iff.rfl⟩
      rw [Boundary.textAfter_of_lacks hlacks, String.ofList_toList]
  | some p =>
      obtain ⟨pre, rest⟩ := p
      have hfirst := Boundary.noBoundary_of_apart? (by decide) hclosing hapart
      obtain ⟨hform, -⟩ := Boundary.apart?_spec hapart
      have hin : Boundary.opening.chars <:+: form.toList := by
        rw [hform]
        exact ⟨pre, rest, List.append_assoc _ _ _⟩
      rw [hform, Boundary.infix_append_chars_iff (by decide), not_or] at hclosing
      refine ⟨pre, rest, (if_pos hin).trans hform, hfirst, ?_, absurd hin, hclosing.2, ?_⟩
      · rw [Boundary.textAfter, hapart]
        rfl
      · rw [hform, List.getLast?_append, List.getLast?_append]
        cases rest.getLast? <;> simp [Boundary.chars]

/-- A boundary put behind a text that has none like it is found where it was put, or one
character before if the text ends in a bracket like it. -/
theorem eq_or_bracket_of_append_chars {b : Boundary} {l m r : List Char}
    (hl : ¬ b.chars <:+: l) (h : l ++ b.chars = m ++ (b.chars ++ r)) :
    l = m ∧ r = [] ∨ l = m ++ [b.bracket] ∧ r = [b.bracket] := by
  rw [b.chars_eq] at hl h
  rcases List.append_eq_append_iff.mp h with ⟨as, rfl, has⟩ | ⟨as, rfl, has⟩
  · have hlength := congrArg List.length has
    simp only [List.length_append, List.length_cons, List.length_nil] at hlength
    have has' : as = [] := List.eq_nil_of_length_eq_zero (by omega)
    have hr : r = [] := List.eq_nil_of_length_eq_zero (by omega)
    exact Or.inl ⟨by rw [has', List.append_nil], hr⟩
  · match as with
    | [] => exact Or.inl ⟨List.append_nil m, by simpa using has⟩
    | [c] =>
        obtain ⟨rfl, hr⟩ := List.cons.inj has
        exact Or.inr ⟨rfl, (List.cons.inj hr).2⟩
    | c :: d :: as =>
        obtain ⟨rfl, hrest⟩ := List.cons.inj has
        obtain ⟨rfl, -⟩ := List.cons.inj hrest
        exact absurd ⟨m, as, by simp⟩ hl

/-- **A form without a closing boundary.**  The text behind its opening boundary is its
stem, and the segment behind is empty; but if the form ends in `>`, this last bracket is
the segment behind, and the stem lacks it. -/
theorem split_of_no_closing (h : split form = .ok s)
    (hclosing : ¬ Boundary.closing.chars <:+: form.toList) :
    (¬ Boundary.opening.chars <:+: form.toList → s.pre = "") ∧
      (form.toList.getLast? ≠ some '>' ∧ s.post = "" ∧
          s.stem = escape (Boundary.opening.textAfter form) ∨
        form.toList.getLast? = some '>' ∧ s.post = "%>" ∧
          ∃ stem, Boundary.opening.textAfter form = stem ++ ">" ∧ s.stem = escape stem) := by
  obtain ⟨x, y, a, b, c, hscan, rfl⟩ := split_eq_ok_iff.mp h
  have hne : x ≠ y := ne_of_scan hscan
  obtain ⟨pre, rest, hopened, hfirst, hafter, hpre, hrest, hlast⟩ := opened_eq_append hclosing
  have hopened' : ¬ Boundary.closing.chars <:+: opened form.toList := by
    rw [hopened, Boundary.infix_append_chars_iff (by decide), not_or]
    exact ⟨hfirst.of_infix (List.prefix_append _ _).isInfix .closing, hrest⟩
  rw [repaired_eq, if_neg hopened', hopened, List.append_assoc, List.append_assoc] at hscan
  obtain ⟨rfl, rfl, hscan'⟩ := hscan.of_append_chars hfirst
  have hy : y = .closing := by
    cases y with
    | opening => exact absurd rfl hne
    | closing => rfl
  obtain ⟨r, hr, hbetween, hscan''⟩ := (hy ▸ hscan').next_inv
  obtain ⟨rfl, -⟩ := hscan''.last_inv
  refine ⟨fun hopening => by rw [hpre hopening]; rfl, ?_⟩
  rcases eq_or_bracket_of_append_chars hrest hr with ⟨rfl, rfl⟩ | ⟨rfl, rfl⟩
  · have hend := (NoBoundary.concat_iff.mp hbetween).2
    exact Or.inl ⟨fun hform => hend (hlast.mpr hform), rfl, by rw [hafter]⟩
  · have hpost : escape (String.ofList ['>']) = "%>" := by decide
    refine Or.inr ⟨hlast.mp List.getLast?_concat, hpost, String.ofList b, ?_, rfl⟩
    rw [hafter, String.ofList_append]
    rfl

/-! ## At the start -/

/-- **A form without an opening boundary.**  The text before its closing boundary is its
stem, and the segment before is empty. -/
theorem split_of_no_opening (h : split form = .ok s)
    (hopening : ¬ Boundary.opening.chars <:+: form.toList)
    (hclosing : Boundary.closing.chars <:+: form.toList) :
    s.pre = "" ∧ s.stem = escape (Boundary.closing.textBefore form) := by
  obtain ⟨x, y, a, b, c, hscan, rfl⟩ := split_eq_ok_iff.mp h
  have hopened : opened form.toList = [] ++ (Boundary.opening.chars ++ form.toList) :=
    if_neg hopening
  have hin : Boundary.closing.chars <:+: [] ++ (Boundary.opening.chars ++ form.toList) :=
    hclosing.trans (List.suffix_append _ _).isInfix
  rw [repaired_eq, hopened, if_pos hin] at hscan
  obtain ⟨rfl, -, hscan'⟩ := hscan.of_append_chars (.singleton _)
  cases hapart : Boundary.closing.apart? form.toList with
  | none => exact absurd hclosing (Boundary.apart?_eq_none_iff.mp hapart)
  | some p =>
      obtain ⟨before, behind⟩ := p
      have hbefore := Boundary.noBoundary_of_apart? (by decide) hopening hapart
      obtain ⟨hform, -⟩ := Boundary.apart?_spec hapart
      rw [hform] at hscan'
      obtain ⟨rfl, -⟩ := hscan'.of_append_chars hbefore
      refine ⟨rfl, ?_⟩
      rw [Boundary.textBefore, hapart]
      rfl

end Segmentation

/-- **Repairing moves no text**, with one exception.  Take a form that splits.  If it has
no `<<`, the segment before the stem is empty.  If it has no `>>`, the segment behind is
empty and the stem is all that stands behind `<<`; if it has no `<<`, the stem is all that
stands before `>>`; and all of the form is meant where the other boundary is missing as
well.  This holds unless the form has no `>>` and ends in `>`.  Then that last bracket is
taken from the stem and makes up the segment behind it. -/
theorem repair_keeps_text_iff {form : String} {s : Segmentation}
    (h : Segmentation.split form = .ok s) :
    let lacks (b : Boundary) := ¬ b.chars <:+: form.toList
    (((lacks .closing → s.post = "" ∧ s.stem = escape (Boundary.opening.textAfter form)) ∧
        (lacks .opening → s.pre = "" ∧ s.stem = escape (Boundary.closing.textBefore form))) ↔
      ¬ (lacks .closing ∧ form.toList.getLast? = some '>')) ∧
    (lacks .opening → s.pre = "") ∧
    (lacks .closing → form.toList.getLast? = some '>' →
      s.post = "%>" ∧
        ∃ stem, Boundary.opening.textAfter form = stem ++ ">" ∧ s.stem = escape stem) := by
  intro lacks
  have hpre : lacks .opening → s.pre = "" := by
    intro hopening
    by_cases hclosing : lacks .closing
    · exact (Segmentation.split_of_no_closing h hclosing).1 hopening
    · exact (Segmentation.split_of_no_opening h hopening (not_not.mp hclosing)).1
  have hcut : lacks .closing → form.toList.getLast? = some '>' → s.post = "%>" ∧
      ∃ stem, Boundary.opening.textAfter form = stem ++ ">" ∧ s.stem = escape stem := by
    intro hclosing hlast
    rcases (Segmentation.split_of_no_closing h hclosing).2 with ⟨hother, -⟩ | ⟨-, hcut⟩
    · exact absurd hlast hother
    · exact hcut
  refine ⟨⟨?_, fun hkept => ⟨?_, ?_⟩⟩, hpre, hcut⟩
  · rintro ⟨hend, -⟩ ⟨hclosing, hlast⟩
    have hpost := (hcut hclosing hlast).1.symm.trans (hend hclosing).1
    exact absurd hpost (by decide)
  · intro hclosing
    rcases (Segmentation.split_of_no_closing h hclosing).2 with ⟨-, hwhole⟩ | ⟨hlast, -⟩
    · exact hwhole
    · exact absurd ⟨hclosing, hlast⟩ hkept
  · intro hopening
    by_cases hclosing : lacks .closing
    · -- without either boundary the whole form is the stem
      rcases (Segmentation.split_of_no_closing h hclosing).2 with ⟨-, -, hstem⟩ | ⟨hlast, -⟩
      · rw [Boundary.textAfter_of_lacks hopening] at hstem
        rw [Boundary.textBefore_of_lacks hclosing]
        exact ⟨hpre hopening, hstem⟩
      · exact absurd ⟨hclosing, hlast⟩ hkept
    · exact Segmentation.split_of_no_opening h hopening (not_not.mp hclosing)

/-- A form with stray brackets at both ends of its stem and no `>>`, and one with a stray
bracket at its start and no `<<`. -/
theorem repair_keeps_text_of_stray_brackets :
    let form := "ni<<>waab<am"
    let form' := "<waab>>am"
    Segmentation.split form = .ok ⟨"ni", "%>waab%<am", ""⟩ ∧
      ¬ Boundary.closing.chars <:+: form.toList ∧ form.toList.getLast? ≠ some '>' ∧
      Boundary.opening.textAfter form = ">waab<am" ∧
      "%>waab%<am" = escape (Boundary.opening.textAfter form) ∧
      Segmentation.split form' = .ok ⟨"", "%<waab", "am"⟩ ∧
      ¬ Boundary.opening.chars <:+: form'.toList ∧
      "%<waab" = escape (Boundary.closing.textBefore form') := by
  intro form form'
  have hsplit : Segmentation.split form = .ok ⟨"ni", "%>waab%<am", ""⟩ := by decide +kernel
  have hclosing : ¬ Boundary.closing.chars <:+: form.toList := by decide +kernel
  have hlast : form.toList.getLast? ≠ some '>' := by decide +kernel
  have hsplit' : Segmentation.split form' = .ok ⟨"", "%<waab", "am"⟩ := by decide +kernel
  have hopening' : ¬ Boundary.opening.chars <:+: form'.toList := by decide +kernel
  have hlast' : form'.toList.getLast? ≠ some '>' := by decide +kernel
  have hkept := (repair_keeps_text_iff hsplit).1.mpr fun hbad => hlast hbad.2
  have hkept' := (repair_keeps_text_iff hsplit').1.mpr fun hbad => hlast' hbad.2
  exact ⟨hsplit, hclosing, hlast, by decide +kernel, (hkept.1 hclosing).2, hsplit', hopening',
    (hkept'.2 hopening').2⟩

/-- The bracket at the end of the stem is cut off when `>>` is put behind it, and becomes
the segment behind.  A bracket at the start stays with the stem when `<<` is put in front
of it. -/
theorem last_bracket_is_cut_off :
    Segmentation.split "a<<b>" = .ok ⟨"a", "b", "%>"⟩ ∧
      ¬ Boundary.closing.chars <:+: "a<<b>".toList ∧
      Boundary.opening.textAfter "a<<b>" = "b>" ∧
      ("%>" ≠ "" ∧ "b" ≠ escape (Boundary.opening.textAfter "a<<b>")) ∧
      Segmentation.split "<a>>b" = .ok ⟨"", "%<a", "b"⟩ := by
  decide +kernel

end Morphotactics
