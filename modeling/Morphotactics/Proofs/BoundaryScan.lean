import Mathlib.Data.List.Infix
import Morphotactics.Segmentation

/-!
# Boundaries found from the left

A form is cut at boundaries that are found from the left and do not overlap.  `Scan`
says what this means without saying how it is done: a boundary is found where one
occurs first, and the search goes on behind it.  `scan_iff` says that `cut` does this.

Which boundaries a form lacks is found out in another way, by looking for them
anywhere.  `Scan.mem_found_iff` brings the two together: a boundary that occurs anywhere
in a text is found at least once.
-/

namespace Morphotactics

/-! ## Occurrences -/

/-- A text lies on one side of a character that it does not have. -/
theorem infix_append_cons_iff {c : Char} {l cs ds : List Char} (hc : c ∉ l) :
    l <:+: cs ++ c :: ds ↔ l <:+: cs ∨ l <:+: ds := by
  have hhead : ∀ {m : List Char}, m <+: c :: ds → c ∉ m → m = [] := by
    intro m hm hout
    cases m with
    | nil => rfl
    | cons d m =>
        obtain ⟨rfl, -⟩ := List.cons_prefix_cons.mp hm
        exact absurd List.mem_cons_self hout
  constructor
  · intro h
    rcases List.infix_append_iff.mp h with hleft | hright | ⟨l₁, l₂, rfl, hl₁, hl₂⟩
    · exact Or.inl hleft
    · rcases List.infix_cons_iff.mp hright with hstart | hlater
      · exact Or.inr (hhead hstart hc ▸ List.nil_infix)
      · exact Or.inr hlater
    · have hnil : l₂ = [] := hhead hl₂ fun hin => hc (List.mem_append_right l₁ hin)
      rw [hnil, List.append_nil]
      exact Or.inl hl₁.isInfix
  · rintro (hleft | hright)
    · exact hleft.trans (List.prefix_append cs (c :: ds)).isInfix
    · exact hright.trans ((List.suffix_cons c ds).trans (List.suffix_append cs _)).isInfix

namespace Boundary

variable {b b' : Boundary} {cs ds : List Char}

/-- The character that makes up a boundary, written twice. -/
def bracket : Boundary → Char
  | opening => '<'
  | closing => '>'

/-- A boundary is its bracket twice. -/
theorem chars_eq (b : Boundary) : b.chars = [b.bracket, b.bracket] := by
  cases b <;> rfl

/-- The two boundaries have different brackets. -/
theorem bracket_inj : b.bracket = b'.bracket ↔ b = b' := by
  cases b <;> cases b' <;> decide

/-- No boundary occurs in the empty text. -/
theorem not_chars_infix_nil (b : Boundary) : ¬ b.chars <:+: [] := by
  rw [List.infix_nil, chars_eq]
  exact List.cons_ne_nil _ _

/-- What is checked of a text is whether the boundary occurs in it. -/
theorem occursIn_iff : b.occursIn cs = true ↔ b.chars <:+: cs := by
  induction cs with
  | nil => simpa [occursIn] using b.not_chars_infix_nil
  | cons c cs ih =>
      rw [occursIn, Bool.or_eq_true, List.isPrefixOf_iff_prefix, ih, List.infix_cons_iff]

/-- One boundary occurs on either side of the other, never across it. -/
theorem infix_append_chars_iff (hne : b ≠ b') :
    b.chars <:+: cs ++ (b'.chars ++ ds) ↔ b.chars <:+: cs ∨ b.chars <:+: ds := by
  have hout : b'.bracket ∉ b.chars := by
    rw [chars_eq]
    simpa [bracket_inj] using hne.symm
  have hsecond : b.chars <:+: b'.bracket :: ds ↔ b.chars <:+: [] ∨ b.chars <:+: ds :=
    @infix_append_cons_iff b'.bracket b.chars [] ds hout
  rw [b'.chars_eq, List.cons_append, List.singleton_append, infix_append_cons_iff hout, hsecond,
    or_iff_right b.not_chars_infix_nil]

/-- One more bracket completes a boundary only after its like. -/
theorem infix_concat_bracket_iff :
    b.chars <:+: cs ++ [b'.bracket] ↔
      b.chars <:+: cs ∨ b = b' ∧ cs.getLast? = some b'.bracket := by
  rw [List.infix_concat_iff, or_comm, ← List.singleton_suffix_iff_getLast?_eq_some, chars_eq]
  refine or_congr_right ⟨fun h => ?_, ?_⟩
  · obtain hnil | ⟨t, ht, hsuffix⟩ := List.suffix_concat_iff.mp h
    · cases hnil
    · have htwo : [b.bracket] ++ [b.bracket] = t ++ [b'.bracket] := ht
      obtain ⟨hfirst, hlast⟩ := List.append_inj' htwo rfl
      have hb : b = b' := bracket_inj.mp (List.singleton_inj.mp hlast)
      exact ⟨hb, hb ▸ hfirst ▸ hsuffix⟩
  · rintro ⟨rfl, hsuffix⟩
    exact List.suffix_concat_iff.mpr (Or.inr ⟨[b.bracket], rfl, hsuffix⟩)

end Boundary

/-- A text in which no boundary occurs. -/
def NoBoundary (cs : List Char) : Prop := ∀ b : Boundary, ¬ b.chars <:+: cs

namespace NoBoundary

variable {c : Char} {cs ds : List Char} {b : Boundary}

/-- The empty text has no boundary. -/
theorem nil : NoBoundary [] := Boundary.not_chars_infix_nil

/-- A piece of a text without boundaries has none. -/
theorem of_infix (h : NoBoundary ds) (hcs : cs <:+: ds) : NoBoundary cs :=
  fun b hb => h b (hb.trans hcs)

/-- A text has no boundary when none begins with its first character and the rest has none. -/
theorem cons_iff :
    NoBoundary (c :: cs) ↔ (∀ b : Boundary, ¬ b.chars <+: c :: cs) ∧ NoBoundary cs := by
  simp only [NoBoundary, List.infix_cons_iff, not_or, forall_and]

/-- A single character is no boundary. -/
theorem singleton (c : Char) : NoBoundary [c] := by
  refine cons_iff.mpr ⟨fun b hb => ?_, nil⟩
  have hlength := hb.length_le
  rw [b.chars_eq] at hlength
  simp at hlength

/-- A bracket behind a text without boundaries makes one only where the text ends in it. -/
theorem concat_iff :
    NoBoundary (cs ++ [b.bracket]) ↔ NoBoundary cs ∧ cs.getLast? ≠ some b.bracket := by
  simp only [NoBoundary, Boundary.infix_concat_bracket_iff, not_or, forall_and, not_and,
    forall_eq, ne_eq]

end NoBoundary

/-! ## Finding boundaries -/

/-- What is found from the left: the text before the first boundary, and for every
boundary the text after it up to the next.  A boundary is found where none begins
before it, and the next one is looked for behind it. -/
inductive Scan : List Char → List Char → List (Boundary × List Char) → Prop
  | last {cs : List Char} (hcs : NoBoundary cs) : Scan cs cs []
  | next {pre cs stem : List Char} {b : Boundary} {parts : List (Boundary × List Char)}
      (hfirst : NoBoundary (pre ++ [b.bracket])) (hrest : Scan cs stem parts) :
      Scan (pre ++ (b.chars ++ cs)) pre ((b, stem) :: parts)

section Cutting

variable {b : Boundary} {c d : Char} {cs pre : List Char} {parts : List (Boundary × List Char)}

/-- A text begins with no boundary when its first two characters are not the same
bracket. -/
theorem forall_not_prefix_iff :
    (∀ b : Boundary, ¬ b.chars <+: c :: d :: cs) ↔
      ¬ (c = '<' ∧ d = '<') ∧ ¬ (c = '>' ∧ d = '>') := by
  have hbegins : ∀ b : Boundary, b.chars <+: c :: d :: cs ↔ c = b.bracket ∧ d = b.bracket := by
    intro b
    rw [b.chars_eq, List.cons_prefix_cons, List.cons_prefix_cons]
    simp [eq_comm]
  simp only [hbegins]
  exact ⟨fun h => ⟨h .opening, h .closing⟩, fun h b => b.casesOn h.1 h.2⟩

/-- At a boundary the text before it is empty, and the cut goes on behind it. -/
theorem cut_chars_append (b : Boundary) (cs : List Char) :
    cut (b.chars ++ cs) = ([], (b, (cut cs).1) :: (cut cs).2) := by
  cases b <;> simp [Boundary.chars, cut]

/-- A character that begins no boundary belongs to the text before the first one. -/
theorem cut_cons (h : ∀ b : Boundary, ¬ b.chars <+: c :: cs) :
    cut (c :: cs) = (c :: (cut cs).1, (cut cs).2) := by
  cases cs with
  | nil => rfl
  | cons d cs =>
      obtain ⟨hopening, hclosing⟩ := forall_not_prefix_iff.mp h
      rw [cut, if_neg hopening, if_neg hclosing]

/-- Before a boundary that is found first no other one begins. -/
theorem NoBoundary.begins_iff :
    (∀ b' : Boundary, ¬ b'.chars <+: c :: (pre ++ [b.bracket])) ↔
      ∀ b' : Boundary, ¬ b'.chars <+: c :: (pre ++ (b.chars ++ cs)) := by
  refine forall_congr' fun b' => not_congr ?_
  have hlonger : c :: (pre ++ [b.bracket]) <+: c :: (pre ++ (b.chars ++ cs)) :=
    ⟨b.bracket :: cs, by simp [b.chars_eq]⟩
  refine ⟨fun h => h.trans hlonger, fun h => List.prefix_of_prefix_length_le h hlonger ?_⟩
  simp [b'.chars_eq]

/-- A character that is passed over comes to the text before the first boundary. -/
theorem Scan.cons (h : Scan cs pre parts) (hc : ∀ b : Boundary, ¬ b.chars <+: c :: cs) :
    Scan (c :: cs) (c :: pre) parts := by
  cases h with
  | last hcs => exact .last (NoBoundary.cons_iff.mpr ⟨hc, hcs⟩)
  | next hfirst hrest =>
      rw [← List.cons_append]
      exact .next (NoBoundary.cons_iff.mpr ⟨NoBoundary.begins_iff.mpr hc, hfirst⟩) hrest

/-- Cutting finds boundaries from the left. -/
theorem scan_cut (cs : List Char) : Scan cs (cut cs).1 (cut cs).2 := by
  fun_induction cut cs with
  | case1 => exact .last .nil
  | case2 c => exact .last (.singleton c)
  | case3 c d rest h ih =>
      obtain ⟨rfl, rfl⟩ := h
      exact @Scan.next [] rest _ .opening _ (.singleton _) ih
  | case4 c d rest _ h ih =>
      obtain ⟨rfl, rfl⟩ := h
      exact @Scan.next [] rest _ .closing _ (.singleton _) ih
  | case5 c d rest hopening hclosing ih =>
      exact ih.cons (forall_not_prefix_iff.mpr ⟨hopening, hclosing⟩)

/-- A text without boundaries is not cut. -/
theorem NoBoundary.cut_eq (h : NoBoundary cs) : cut cs = (cs, []) := by
  induction cs with
  | nil => rfl
  | cons c cs ih =>
      obtain ⟨hc, hcs⟩ := cons_iff.mp h
      rw [cut_cons hc, ih hcs]

/-- A text is cut at the boundary that is found first. -/
theorem NoBoundary.cut_append_chars (h : NoBoundary (pre ++ [b.bracket])) (cs : List Char) :
    cut (pre ++ (b.chars ++ cs)) = (pre, (b, (cut cs).1) :: (cut cs).2) := by
  induction pre with
  | nil => exact cut_chars_append b cs
  | cons c pre ih =>
      obtain ⟨hc, hpre⟩ := cons_iff.mp h
      rw [List.cons_append, cut_cons (begins_iff.mp hc), ih hpre]

/-- **Cutting is finding from the left.** -/
theorem scan_iff : Scan cs pre parts ↔ cut cs = (pre, parts) := by
  constructor
  · intro h
    induction h with
    | last hcs => exact hcs.cut_eq
    | next hfirst _ ih => rw [hfirst.cut_append_chars, ih]
  · intro h
    have hscan := scan_cut cs
    rwa [h] at hscan

/-- The texts between the boundaries that are found have no boundary. -/
theorem Scan.noBoundary (h : Scan cs pre parts) :
    NoBoundary pre ∧ ∀ p ∈ parts, NoBoundary p.2 := by
  induction h with
  | last hcs => exact ⟨hcs, fun p hp => absurd hp List.not_mem_nil⟩
  | next hfirst _ ih =>
      refine ⟨hfirst.of_infix (List.prefix_append _ _).isInfix, fun p hp => ?_⟩
      rcases List.mem_cons.mp hp with rfl | hp
      · exact ih.1
      · exact ih.2 p hp

/-- Where nothing is found there is no boundary. -/
theorem Scan.last_inv (h : Scan cs pre []) : pre = cs ∧ NoBoundary cs := by
  cases h with
  | last hcs => exact ⟨rfl, hcs⟩

/-- What is found first comes behind a text without boundaries, and the search goes on
behind it. -/
theorem Scan.next_inv {stem : List Char} (h : Scan cs pre ((b, stem) :: parts)) :
    ∃ rest, cs = pre ++ (b.chars ++ rest) ∧ NoBoundary (pre ++ [b.bracket]) ∧
      Scan rest stem parts := by
  cases h with
  | next hfirst hrest => exact ⟨_, rfl, hfirst, hrest⟩

/-- The boundary that comes first is found first. -/
theorem Scan.of_append_chars {pre' stem : List Char} {b' : Boundary}
    (h : Scan (pre ++ (b.chars ++ cs)) pre' ((b', stem) :: parts))
    (hfirst : NoBoundary (pre ++ [b.bracket])) : pre' = pre ∧ b' = b ∧ Scan cs stem parts := by
  rw [scan_iff, hfirst.cut_append_chars] at h
  obtain ⟨rfl, hparts⟩ := Prod.mk.inj h
  obtain ⟨hfound, rfl⟩ := List.cons.inj hparts
  obtain ⟨rfl, rfl⟩ := Prod.mk.inj hfound
  exact ⟨rfl, rfl, scan_cut cs⟩

/-- The text, put together again. -/
theorem Scan.eq_append (h : Scan cs pre parts) :
    cs = pre ++ parts.flatMap fun p => p.1.chars ++ p.2 := by
  induction h with
  | last _ => simp
  | next _ _ ih => rw [ih, List.flatMap_cons, List.append_assoc]

/-- **Nothing is missed.**  A boundary is found in a text when it occurs in it. -/
theorem Scan.mem_found_iff (h : Scan cs pre parts) :
    b ∈ parts.map Prod.fst ↔ b.chars <:+: cs := by
  induction h with
  | last hcs => simpa using hcs b
  | @next pre cs stem b' parts hfirst _ ih =>
      rw [List.map_cons, List.mem_cons, ih]
      by_cases hb : b = b'
      · rw [hb]
        exact iff_of_true (Or.inl rfl) ⟨pre, cs, List.append_assoc _ _ _⟩
      · have hpre : ¬ b.chars <:+: pre :=
          hfirst.of_infix (List.prefix_append pre _).isInfix b
        rw [Boundary.infix_append_chars_iff hb, or_iff_right hb, or_iff_right hpre]

end Cutting

end Morphotactics
