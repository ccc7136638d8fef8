import Morphotactics.Proofs.BoundaryScan
import Morphotactics.Proofs.Escaped

/-!
# Which forms split

A form splits when one boundary of each kind is found in it, from the left and after
the missing ones were put in.  A repaired form has both boundaries, so two equal ones
can never be all that is found, and a form that is refused has at least three.

`split_join_iff` turns this round: three texts joined with boundaries between them come
back from the split, escaped, unless one of them has a boundary inside or runs into the
boundary after it.  That nothing else can come back escaped in the same way is seen from
the characters that are no escape marks: escaping keeps them all, in order.
-/

namespace Morphotactics

namespace Segmentation

variable {form pre : List Char} {parts : List (Boundary × List Char)}

/-- A form with `<<` put in front of it if it has none. -/
def opened (form : List Char) : List Char :=
  if Boundary.opening.chars <:+: form then form else Boundary.opening.chars ++ form

/-- A form is repaired by opening it and then closing it where it has no closing boundary. -/
theorem repaired_eq (form : List Char) :
    repaired form =
      if Boundary.closing.chars <:+: opened form then opened form
      else opened form ++ Boundary.closing.chars := by
  have hopened : (if Boundary.opening.occursIn form then form
      else Boundary.opening.chars ++ form) = opened form := if_congr Boundary.occursIn_iff rfl rfl
  simp only [repaired, hopened]
  exact if_congr Boundary.occursIn_iff rfl rfl

/-- Both boundaries occur in a repaired form. -/
theorem chars_infix_repaired (b : Boundary) (form : List Char) : b.chars <:+: repaired form := by
  have hopened : Boundary.opening.chars <:+: opened form := by
    rw [opened]
    split
    · assumption
    · exact (List.prefix_append _ _).isInfix
  rw [repaired_eq]
  split
  · cases b with
    | opening => exact hopened
    | closing => assumption
  · cases b with
    | opening => exact hopened.trans (List.prefix_append _ _).isInfix
    | closing => exact (List.suffix_append _ _).isInfix

/-- A form that has both boundaries needs no repair. -/
theorem repaired_of_both (hopening : Boundary.opening.chars <:+: form)
    (hclosing : Boundary.closing.chars <:+: form) : repaired form = form := by
  have hopened : opened form = form := if_pos hopening
  rw [repaired_eq, hopened, if_pos hclosing]

/-- Both boundaries are found in a repaired form. -/
theorem mem_found (h : Scan (repaired form) pre parts) (b : Boundary) :
    b ∈ parts.map Prod.fst :=
  h.mem_found_iff.mpr (chars_infix_repaired b form)

end Segmentation

/-- Boundaries are of two kinds. -/
theorem count_opening_add_count_closing (bs : List Boundary) :
    bs.count .opening + bs.count .closing = bs.length := by
  induction bs with
  | nil => rfl
  | cons b bs ih => cases b <;> simp <;> omega

namespace Segmentation

variable {form : String}

/-- **When a form splits.**  Two boundaries are found in it once it is repaired. -/
theorem split_eq_ok_iff {s : Segmentation} :
    split form = .ok s ↔
      ∃ x y a b c, Scan (repaired form.toList) a [(x, b), (y, c)] ∧
        s = ⟨escape (String.ofList a), escape (String.ofList b), escape (String.ofList c)⟩ := by
  simp only [scan_iff, split]
  constructor
  · intro h
    split at h
    · rename_i hcut
      exact ⟨_, _, _, _, _, hcut, (Except.ok.inj h).symm⟩
    · cases h
  · rintro ⟨x, y, a, b, c, hcut, rfl⟩
    rw [hcut]

/-- **When a form is refused.**  Fewer or more than two boundaries are found in it. -/
theorem split_eq_error_iff {e : Malformed} :
    split form = .error e ↔
      ∃ a parts, Scan (repaired form.toList) a parts ∧ parts.length ≠ 2 ∧
        e = ⟨form, parts.map Prod.fst⟩ := by
  simp only [scan_iff, split]
  constructor
  · intro h
    split at h
    · cases h
    · rename_i a parts htwo hcut
      refine ⟨a, parts, hcut, fun hlength => ?_, (Except.error.inj h).symm⟩
      obtain ⟨⟨x, b⟩, ⟨y, c⟩, rfl⟩ := List.length_eq_two.mp hlength
      exact htwo x b y c rfl
  · rintro ⟨a, parts, hcut, hlength, rfl⟩
    rw [hcut]
    split
    · rename_i heq
      obtain ⟨-, rfl⟩ := Prod.mk.inj heq
      exact absurd rfl hlength
    · rename_i heq
      obtain ⟨-, rfl⟩ := Prod.mk.inj heq
      rfl

/-- The two boundaries at which a form splits are not the same. -/
theorem ne_of_scan {form : List Char} {x y : Boundary} {a b c : List Char}
    (h : Scan (repaired form) a [(x, b), (y, c)]) : x ≠ y := by
  have hopening := mem_found h .opening
  have hclosing := mem_found h .closing
  rintro rfl
  cases x <;> simp at hopening hclosing

end Segmentation

/-- **Splitting a form.**  Put `<<` in front of a form that has none, and `>>` behind the
result if that has none.  The form splits exactly when one `<<` and one `>>` are then
found from the left, in either order.  The raw texts before, between and behind them
have no boundaries, make up the repaired form together with these two, and are given
escaped.  Otherwise the form is refused with all boundaries that were found in their
order; there are at least three, and of both kinds. -/
theorem split_of_scan (form : String) :
    let opened := if Boundary.opening.chars <:+: form.toList then form.toList
      else Boundary.opening.chars ++ form.toList
    let whole := if Boundary.closing.chars <:+: opened then opened
      else opened ++ Boundary.closing.chars
    ∃ a parts, (∀ a' parts', Scan whole a' parts' ↔ a' = a ∧ parts' = parts) ∧
      let found := parts.map Prod.fst
      match Segmentation.split form with
      | .ok s =>
        (found.count .opening = 1 ∧ found.count .closing = 1) ∧
          ∃ x y b c, parts = [(x, b), (y, c)] ∧ x ≠ y ∧
            whole = a ++ x.chars ++ b ++ y.chars ++ c ∧
            (NoBoundary a ∧ NoBoundary b ∧ NoBoundary c) ∧
            s = ⟨escape (String.ofList a), escape (String.ofList b), escape (String.ofList c)⟩
      | .error e =>
        ¬ (found.count .opening = 1 ∧ found.count .closing = 1) ∧
          e = ⟨form, found⟩ ∧ 3 ≤ found.length ∧ .opening ∈ found ∧ .closing ∈ found := by
  intro opened whole
  have hwhole : Segmentation.repaired form.toList = whole := Segmentation.repaired_eq form.toList
  have honly : ∀ {a parts}, Scan whole a parts →
      ∀ a' parts', Scan whole a' parts' ↔ a' = a ∧ parts' = parts := by
    intro a parts h a' parts'
    rw [scan_iff, scan_iff.mp h, Prod.mk.injEq, @eq_comm _ a, @eq_comm _ parts]
  cases hsplit : Segmentation.split form with
  | ok s =>
      obtain ⟨x, y, a, b, c, hscan, rfl⟩ := Segmentation.split_eq_ok_iff.mp hsplit
      have hne : x ≠ y := Segmentation.ne_of_scan hscan
      rw [hwhole] at hscan
      obtain ⟨ha, hparts⟩ := hscan.noBoundary
      refine ⟨a, _, honly hscan, ?_, x, y, b, c, rfl, hne, ?_,
        ⟨ha, hparts (x, b) (by simp), hparts (y, c) (by simp)⟩, rfl⟩
      · cases x <;> cases y <;> simp at hne ⊢
      · rw [hscan.eq_append]
        simp
  | error e =>
      obtain ⟨a, parts, hscan, hlength, rfl⟩ := Segmentation.split_eq_error_iff.mp hsplit
      have hopening := Segmentation.mem_found hscan .opening
      have hclosing := Segmentation.mem_found hscan .closing
      rw [hwhole] at hscan
      have htotal := count_opening_add_count_closing (parts.map Prod.fst)
      have hopening' := List.count_pos_iff.mpr hopening
      have hclosing' := List.count_pos_iff.mpr hclosing
      rw [List.length_map] at htotal
      refine ⟨a, parts, honly hscan, ?_, rfl, ?_, hopening, hclosing⟩
      · rintro ⟨hone, hone'⟩
        omega
      · rw [List.length_map]
        omega

/-- Of three brackets in a row the first two are a boundary, and the third stands behind
it. -/
example : Segmentation.split "<<<>>>" = .ok ⟨"", "%<", "%>"⟩ := by decide +kernel

/-! ## Joined texts -/

/-- Two cuts of a text are the same if the parts before them agree in what is kept, and
both are at a character that is kept. -/
theorem eq_of_append_cons_of_filter_eq {α : Type} {keep : α → Bool} {l l' r r' : List α} {c c' : α}
    (hc : keep c = true) (hc' : keep c' = true) (hkept : l.filter keep = l'.filter keep)
    (h : l ++ c :: r = l' ++ c' :: r') : l = l' ∧ c = c' ∧ r = r' := by
  induction l generalizing l' with
  | nil =>
      cases l' with
      | nil => exact ⟨rfl, List.cons.inj h⟩
      | cons d l' =>
          obtain ⟨rfl, -⟩ := List.cons.inj h
          rw [List.filter_cons_of_pos hc] at hkept
          cases hkept
  | cons d l ih =>
      cases l' with
      | nil =>
          obtain ⟨rfl, -⟩ := List.cons.inj h
          rw [List.filter_cons_of_pos hc'] at hkept
          cases hkept
      | cons d' l' =>
          obtain ⟨rfl, hrest⟩ := List.cons.inj h
          have hkept' : l.filter keep = l'.filter keep := by
            by_cases hd : keep d = true
            · rw [List.filter_cons_of_pos hd, List.filter_cons_of_pos hd] at hkept
              exact (List.cons.inj hkept).2
            · rwa [List.filter_cons_of_neg hd, List.filter_cons_of_neg hd] at hkept
          obtain ⟨rfl, hsame⟩ := ih hkept' hrest
          exact ⟨rfl, hsame⟩

/-- A bracket is no escape mark. -/
theorem Boundary.bracket_ne_escapeMark (b : Boundary) : b.bracket ≠ escapeMark := by
  cases b <;> decide

/-- A text that is escaped like the one before the first boundary, and has a boundary
behind it, is that text. -/
theorem eq_of_append_chars_of_escape_eq {b b' : Boundary} {s : String} {l r r' : List Char}
    (hescape : escape s = escape (String.ofList l))
    (h : s.toList ++ (b.chars ++ r) = l ++ (b'.chars ++ r')) : s.toList = l ∧ b = b' ∧ r = r' := by
  have hchars : escapeChars s.toList = escapeChars l := by
    rw [← toList_escape, hescape, toList_escape, String.toList_ofList]
  have hkept : s.toList.filter (· ≠ escapeMark) = l.filter (· ≠ escapeMark) := by
    rw [← filter_escapeChars s.toList, ← filter_escapeChars l, hchars]
  rw [b.chars_eq, b'.chars_eq] at h
  obtain ⟨hsame, hbracket, hrest⟩ := eq_of_append_cons_of_filter_eq
    (by simpa using b.bracket_ne_escapeMark) (by simpa using b'.bracket_ne_escapeMark) hkept h
  exact ⟨hsame, Boundary.bracket_inj.mp hbracket, (List.cons.inj hrest).2⟩

/-- **Splitting undoes joining**, exactly for texts without boundaries that do not run
into the boundary after them. -/
theorem split_join_iff (p s u : String) :
    Segmentation.split (p ++ "<<" ++ s ++ ">>" ++ u) = .ok ⟨escape p, escape s, escape u⟩ ↔
      (NoBoundary p.toList ∧ NoBoundary s.toList ∧ NoBoundary u.toList) ∧
        p.toList.getLast? ≠ some '<' ∧ s.toList.getLast? ≠ some '>' := by
  have hjoined : (p ++ "<<" ++ s ++ ">>" ++ u).toList =
      p.toList ++
        (Boundary.opening.chars ++ (s.toList ++ (Boundary.closing.chars ++ u.toList))) := by
    simp [Boundary.chars]
  have hrepaired : Segmentation.repaired (p ++ "<<" ++ s ++ ">>" ++ u).toList =
      p.toList ++
        (Boundary.opening.chars ++ (s.toList ++ (Boundary.closing.chars ++ u.toList))) := by
    rw [hjoined]
    refine Segmentation.repaired_of_both ⟨p.toList, _, List.append_assoc _ _ _⟩ ?_
    exact ⟨p.toList ++ Boundary.opening.chars ++ s.toList, u.toList, by simp⟩
  rw [Segmentation.split_eq_ok_iff, hrepaired]
  constructor
  · rintro ⟨x, y, a, b, c, hscan, hparts⟩
    obtain ⟨hp, hs, -⟩ := Segmentation.mk.inj hparts
    obtain ⟨rest, hfirst, hbefore, hscan'⟩ := hscan.next_inv
    obtain ⟨rest', hsecond, hbetween, hscan''⟩ := hscan'.next_inv
    obtain ⟨rfl, hbehind⟩ := hscan''.last_inv
    obtain ⟨rfl, rfl, rfl⟩ := eq_of_append_chars_of_escape_eq hp hfirst
    obtain ⟨rfl, rfl, rfl⟩ := eq_of_append_chars_of_escape_eq hs hsecond
    obtain ⟨hp', hpend⟩ := NoBoundary.concat_iff.mp hbefore
    obtain ⟨hs', hsend⟩ := NoBoundary.concat_iff.mp hbetween
    exact ⟨⟨hp', hs', hbehind⟩, hpend, hsend⟩
  · rintro ⟨⟨hp, hs, hu⟩, hpend, hsend⟩
    have hp' : NoBoundary (p.toList ++ [Boundary.opening.bracket]) :=
      NoBoundary.concat_iff.mpr ⟨hp, hpend⟩
    have hs' : NoBoundary (s.toList ++ [Boundary.closing.bracket]) :=
      NoBoundary.concat_iff.mpr ⟨hs, hsend⟩
    refine ⟨_, _, _, _, _, .next hp' (.next hs' (.last hu)), ?_⟩
    simp only [String.ofList_toList]

end Morphotactics
