import Morphotactics.Proofs.Escaped
import Morphotactics.Proofs.Filing

/-!
# The text that is denoted

A reader of lexc source takes an escape mark and the reserved character behind it for that
character, and everything else for itself.  What it makes of a text is the text that is
denoted.  Writing a text down is the other way round: every reserved character gets a mark
in front of it.

Escaping is reading and then writing (`escapeChars_eq_written`), and a text that was
written reads as it was meant (`denotedChars_written`).  From these two everything about
escaping follows: which texts come out of it, which it leaves as they are, and which two
texts it makes the same.
-/

namespace Morphotactics

/-! ## Reading and writing -/

/-- What a reader makes of a text, from the left. -/
def denotedChars : List Char → List Char
  | [] => []
  | [c] => [c]
  | c :: d :: rest =>
    if c = escapeMark ∧ isReserved d then d :: denotedChars rest
    else c :: denotedChars (d :: rest)

/-- The text that a text denotes. -/
def denoted (s : String) : String := String.ofList (denotedChars s.toList)

/-- A text without the first character of each pair that an escape mark begins. -/
def unmarkedChars : List Char → List Char
  | [] => []
  | [c] => [c]
  | c :: d :: rest =>
    if c = escapeMark then d :: unmarkedChars rest else c :: unmarkedChars (d :: rest)

/-- An escaped text without the marks of its pairs. -/
def unmarked (s : String) : String := String.ofList (unmarkedChars s.toList)

/-- A character written down, with a mark if it is reserved. -/
def writtenChar (c : Char) : List Char := if isReserved c then [escapeMark, c] else [c]

/-- A text written down, character by character. -/
def written (cs : List Char) : List Char := cs.flatMap writtenChar

/-- A text is written down by its first character and then the rest. -/
theorem written_cons (c : Char) (cs : List Char) :
    written (c :: cs) = writtenChar c ++ written cs :=
  List.flatMap_cons

/-- A reserved character is written with a mark. -/
theorem writtenChar_of_reserved {c : Char} (hc : isReserved c = true) :
    writtenChar c = [escapeMark, c] :=
  if_pos hc

/-- A character that is not reserved is written as it is. -/
theorem writtenChar_of_plain {c : Char} (hc : isReserved c = false) : writtenChar c = [c] := by
  rw [writtenChar, hc]
  rfl

/-- A character that is no escape mark is read for itself. -/
theorem denotedChars_cons {c : Char} (hc : c ≠ escapeMark) (cs : List Char) :
    denotedChars (c :: cs) = c :: denotedChars cs := by
  cases cs with
  | nil => rfl
  | cons d cs => rw [denotedChars, if_neg fun h => hc h.1]

/-- A character that is no escape mark stays where marks are taken out. -/
theorem unmarkedChars_cons {c : Char} (hc : c ≠ escapeMark) (cs : List Char) :
    unmarkedChars (c :: cs) = c :: unmarkedChars cs := by
  cases cs with
  | nil => rfl
  | cons d cs => rw [unmarkedChars, if_neg hc]

/-- A character that was written down is read back. -/
theorem denotedChars_writtenChar (c : Char) (cs : List Char) :
    denotedChars (writtenChar c ++ cs) = c :: denotedChars cs := by
  cases hc : isReserved c with
  | true =>
      rw [writtenChar_of_reserved hc, List.cons_append, List.singleton_append, denotedChars,
        if_pos ⟨rfl, hc⟩]
  | false =>
      rw [writtenChar_of_plain hc, List.singleton_append,
        denotedChars_cons (ne_escapeMark_of_plain hc)]

/-- A character that was written down comes back where marks are taken out. -/
theorem unmarkedChars_writtenChar (c : Char) (cs : List Char) :
    unmarkedChars (writtenChar c ++ cs) = c :: unmarkedChars cs := by
  cases hc : isReserved c with
  | true =>
      rw [writtenChar_of_reserved hc, List.cons_append, List.singleton_append, unmarkedChars,
        if_pos rfl]
  | false =>
      rw [writtenChar_of_plain hc, List.singleton_append,
        unmarkedChars_cons (ne_escapeMark_of_plain hc)]

/-- A text that was written down reads as it was meant. -/
theorem denotedChars_written (cs : List Char) : denotedChars (written cs) = cs := by
  induction cs with
  | nil => rfl
  | cons c cs ih => rw [written_cons, denotedChars_writtenChar, ih]

/-- To take the marks away is enough. -/
theorem unmarkedChars_written (cs : List Char) : unmarkedChars (written cs) = cs := by
  induction cs with
  | nil => rfl
  | cons c cs ih => rw [written_cons, unmarkedChars_writtenChar, ih]

/-- What was written down is well escaped, and nothing else is. -/
theorem wellEscaped_iff_written {cs : List Char} : WellEscaped cs ↔ ∃ ds, cs = written ds := by
  constructor
  · intro h
    induction h with
    | nil => exact ⟨[], rfl⟩
    | @plain c cs hc _ ih =>
        obtain ⟨ds, rfl⟩ := ih
        refine ⟨c :: ds, ?_⟩
        rw [written_cons, writtenChar_of_plain hc, List.singleton_append]
    | @pair c cs hc _ ih =>
        obtain ⟨ds, rfl⟩ := ih
        refine ⟨c :: ds, ?_⟩
        rw [written_cons, writtenChar_of_reserved hc]
        rfl
  · rintro ⟨ds, rfl⟩
    induction ds with
    | nil => exact .nil
    | cons d ds ih =>
        rw [written_cons]
        cases hd : isReserved d with
        | true =>
            rw [writtenChar_of_reserved hd]
            exact .pair hd ih
        | false =>
            rw [writtenChar_of_plain hd]
            exact .plain hd ih

/-! ## Escaping -/

/-- **Escaping** is writing down what is denoted. -/
theorem escapeChars_eq_written (cs : List Char) : escapeChars cs = written (denotedChars cs) := by
  fun_induction escapeChars cs with
  | case1 => rfl
  | case2 c hc =>
      rw [denotedChars, written_cons, writtenChar_of_reserved hc]
      rfl
  | case3 c hc =>
      rw [denotedChars, written_cons, writtenChar_of_plain (Bool.eq_false_iff.mpr hc)]
      rfl
  | case4 d rest hd ih =>
      -- an escape that is there already is read as one character
      rw [denotedChars, if_pos ⟨rfl, hd⟩, written_cons, writtenChar_of_reserved hd, ih]
      rfl
  | case5 d rest hd ih =>
      -- a mark before an ordinary character denotes itself, and is reserved
      rw [denotedChars, if_neg fun h => hd h.2, written_cons, writtenChar_of_reserved (by decide),
        ih]
      rfl
  | case6 c d rest hc hres ih =>
      rw [denotedChars_cons hc, written_cons, writtenChar_of_reserved hres, ih]
      rfl
  | case7 c d rest hc hres ih =>
      rw [denotedChars_cons hc, written_cons, writtenChar_of_plain (Bool.eq_false_iff.mpr hres),
        ih]
      rfl

/-- Escaping does not change what a text denotes. -/
theorem denotedChars_escapeChars (cs : List Char) :
    denotedChars (escapeChars cs) = denotedChars cs := by
  rw [escapeChars_eq_written, denotedChars_written]

/-- An escaped text without its marks is the text that was denoted. -/
theorem unmarked_escape (s : String) : unmarked (escape s) = denoted s := by
  rw [unmarked, toList_escape, escapeChars_eq_written, unmarkedChars_written, denoted]

/-- Escaping leaves a text as it is when it is well escaped, and only then. -/
theorem escape_eq_self_iff {s : String} : escape s = s ↔ WellEscaped s.toList := by
  constructor
  · intro h
    rw [← h]
    exact WellEscaped.escape s
  · intro h
    obtain ⟨cs, hcs⟩ := wellEscaped_iff_written.mp h
    rw [← String.toList_inj, toList_escape, escapeChars_eq_written, hcs, denotedChars_written]

/-- Texts are escaped alike when they denote the same, and only then. -/
theorem escape_inj_iff {s t : String} : escape s = escape t ↔ denoted s = denoted t := by
  constructor
  · intro h
    have hchars : escapeChars s.toList = escapeChars t.toList := by
      rw [← toList_escape, h, toList_escape]
    rw [denoted, denoted, ← denotedChars_escapeChars s.toList, hchars, denotedChars_escapeChars]
  · intro h
    have hchars : denotedChars s.toList = denotedChars t.toList := String.ofList_injective h
    rw [escape, escape, escapeChars_eq_written, escapeChars_eq_written, hchars]

/-- **What escaping does to texts.**  It gives a well-escaped text, whatever it is given;
it leaves alone the well-escaped texts and no others.  So to escape again changes nothing,
and the texts that come out are all well-escaped texts. -/
theorem escape_fixes_wellEscaped (s : String) :
    WellEscaped (escape s).toList ∧ (escape s = s ↔ WellEscaped s.toList) ∧
      escape (escape s) = escape s ∧ ((∃ t, escape t = s) ↔ WellEscaped s.toList) := by
  refine ⟨WellEscaped.escape s, escape_eq_self_iff, ?_, ?_, ?_⟩
  · exact escape_eq_self_iff.mpr (WellEscaped.escape s)
  · rintro ⟨t, rfl⟩
    exact WellEscaped.escape t
  · intro h
    exact ⟨s, escape_eq_self_iff.mpr h⟩

/-- Marks in any number, before any character and at the end. -/
example : escape "%%%a%0%" = "%%%%a%0%%" := by decide

/-! ## Cells -/

namespace Inflection

/-- The form with another text in the cell of its headword. -/
def withHeadword (r : Inflection) (cell : String) : Inflection := { r with headword := escape cell }

/-- The form with another text in the cell of its stem. -/
def withStem (r : Inflection) (cell : String) : Inflection := { r with stem := escape cell }

end Inflection

section Cells

variable {rootName : String} {l : Layout} {r : Inflection} {s t : String}

/-- A form that comes twice adds nothing the second time. -/
theorem Network.ofForms_twice (rootName : String) (l : Layout) (r : Inflection) :
    ofForms rootName [(l, r), (l, r)] = ofForms rootName [(l, r)] :=
  ofForms_pair_eq_iff.mpr fun v hv _ _ hfiles => ⟨v, hv, hfiles⟩

/-- Two headwords are merged when they denote the same text, and only then: they stand on
the same side of the same kind of entry. -/
theorem headwords_merge_iff (hr : r.variants ≠ []) :
    Network.ofForms rootName [(l, r.withHeadword s), (l, r.withHeadword t)] =
        Network.ofForms rootName [(l, r.withHeadword s)] ↔
      denoted s = denoted t := by
  rw [← escape_inj_iff]
  constructor
  · intro h
    obtain ⟨v, hv⟩ := List.exists_mem_of_ne_nil _ hr
    rw [Network.ofForms_pair_eq_iff] at h
    cases hmode : l.mode with
    | regular =>
        obtain ⟨v', -, -, -, hentry⟩ := h v hv (.stems r.paradigm) _ ⟨hmode, rfl, rfl⟩
        exact (congrArg Entry.upper hentry).symm
    | irregular =>
        obtain ⟨v', -, -, -, hentry⟩ := h v hv (.irregular r.paradigm) _ ⟨hmode, rfl, rfl⟩
        exact ((String.append_left_inj _).mp (congrArg Entry.upper hentry)).symm
  · intro h
    have hsame : r.withHeadword t = r.withHeadword s := by
      rw [Inflection.withHeadword, Inflection.withHeadword, h]
    rw [hsame]
    exact Network.ofForms_twice rootName l _

/-- Two stems are merged when they denote the same text, and only then.  The whole forms
of the irregular layout have no stem. -/
theorem stems_merge_iff (hr : r.variants ≠ []) (hmode : l.mode = .regular) :
    Network.ofForms rootName [(l, r.withStem s), (l, r.withStem t)] =
        Network.ofForms rootName [(l, r.withStem s)] ↔
      denoted s = denoted t := by
  rw [← escape_inj_iff]
  constructor
  · intro h
    obtain ⟨v, hv⟩ := List.exists_mem_of_ne_nil _ hr
    rw [Network.ofForms_pair_eq_iff] at h
    obtain ⟨v', -, -, -, hentry⟩ := h v hv (.stems r.paradigm) _ ⟨hmode, rfl, rfl⟩
    exact (congrArg Entry.lower hentry).symm
  · intro h
    have hsame : r.withStem t = r.withStem s := by
      rw [Inflection.withStem, Inflection.withStem, h]
    rw [hsame]
    exact Network.ofForms_twice rootName l _

end Cells

/-- **What escaping identifies.**  A text that was escaped is, without the marks of its
pairs, the text that was denoted, and two texts are escaped alike exactly when they denote
the same.  So it is with cells: where the headwords of two forms, or in the regular layout
their stems, are all that may tell them apart, the second form leaves the network as it is
exactly when both cells denote the same text. -/
theorem escape_identifies_denoted (s t : String) :
    unmarked (escape s) = denoted s ∧ (escape s = escape t ↔ denoted s = denoted t) ∧
      ∀ (rootName : String) (l : Layout) (r : Inflection), r.variants ≠ [] →
        (Network.ofForms rootName [(l, r.withHeadword s), (l, r.withHeadword t)] =
            Network.ofForms rootName [(l, r.withHeadword s)] ↔
          denoted s = denoted t) ∧
        (l.mode = .regular →
          (Network.ofForms rootName [(l, r.withStem s), (l, r.withStem t)] =
              Network.ofForms rootName [(l, r.withStem s)] ↔
            denoted s = denoted t)) :=
  ⟨unmarked_escape s, escape_inj_iff, fun _ _ _ hr =>
    ⟨headwords_merge_iff hr, fun hmode => stems_merge_iff hr hmode⟩⟩

/-- A zero that is escaped by hand is merged with a bare one, and a percent sign with a
zero behind it with neither. -/
theorem escape_identifies_denoted_zero :
    let l : Layout := ⟨.regular, none, .standard⟩
    let r : Inflection := ⟨"NA", "1", "makwa", "makw", ["+Sg"], [⟨"makwa", ⟨"", "makw", "a"⟩⟩]⟩
    (denoted "%0" = "0" ∧ denoted "0" = "0" ∧ denoted "%%0" = "%0") ∧ r.variants ≠ [] ∧
      Network.ofForms "Noun" [(l, r.withHeadword "%0"), (l, r.withHeadword "0")] =
        Network.ofForms "Noun" [(l, r.withHeadword "%0")] ∧
      Network.ofForms "Noun" [(l, r.withStem "%%0"), (l, r.withStem "0")] ≠
        Network.ofForms "Noun" [(l, r.withStem "%%0")] := by
  intro l r
  have hr : r.variants ≠ [] := List.cons_ne_nil _ _
  have hmerged := (escape_identifies_denoted "%0" "0").2.2 "Noun" l r hr
  have hapart := (escape_identifies_denoted "%%0" "0").2.2 "Noun" l r hr
  exact ⟨by decide, hr, hmerged.1.mpr (by decide),
    fun hsame => absurd ((hapart.2 rfl).mp hsame) (by decide)⟩

end Morphotactics
