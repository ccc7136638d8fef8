import Morphotactics.Proofs.Escaped
import Morphotactics.Proofs.Filing

/-!
# Reading entry lines

The line of an entry is read back as lexc source is: what stands before the
first bare blank are the two sides, with a bare colon between them or one text
for both.

The escape mark is not put before colons, and names of paradigms are put into
flags as they are.  So the reading can go wrong.  `Entry.WellWritten.readSides_line_iff`
says for which entries it does, and the main theorem for which cells: lines give
back their entries just when no colon stands in a headword, a tag or a prefix
and neither colon nor blank stands bare in a paradigm.
-/

namespace Morphotactics

/-- The two sides of an entry, read from its line.  Where nothing but the end of
the line follows the first bare blank, the line has only the way on, and both
sides are empty. -/
def readSides (line : String) : Option (String × String) :=
  (cutBare ' ' false line.toList).map fun field =>
    if field.2 = [';'] then (epsilon, epsilon)
    else
      match cutBare ':' false field.1 with
      | some (upper, lower) => (String.ofList upper, String.ofList lower)
      | none => (String.ofList field.1, String.ofList field.1)

namespace Entry

/-- The sides of an entry as they stand on its line. -/
def sides (e : Entry) : String := if e.upper = e.lower then e.upper else e.upper ++ ":" ++ e.lower

/-- What holds of the sides of all entries of forms, so that only the analysis
side can mislead a reader. -/
structure WellWritten (e : Entry) : Prop where
  upper_closed : markPending false e.upper.toList = false
  lower_closed : markPending false e.lower.toList = false
  lower_noBlank : NoBare ' ' e.upper → NoBare ' ' e.lower
  not_empty : ¬(e.upper = epsilon ∧ e.lower = epsilon)

/-- Escaped sides are well written. -/
theorem WellWritten.of_escaped {e : Entry} (hupper : WellEscaped e.upper.toList)
    (hlower : WellEscaped e.lower.toList) : e.WellWritten where
  upper_closed := hupper.markPending_eq_false
  lower_closed := hlower.markPending_eq_false
  lower_noBlank _ := (hlower.cutBare_eq_none_iff (by decide)).mpr (Or.inl (by decide))
  not_empty hempty := hupper.ne_epsilon hempty.1

/-- Something stands on the line of a well written entry before the way on. -/
theorem WellWritten.line_eq {e : Entry} (he : e.WellWritten) :
    e.line = e.sides ++ " " ++ e.next.text ++ " ;" := by
  unfold line sides
  split
  · rename_i hsame
    have hne : e.upper ≠ epsilon := fun heps => he.not_empty ⟨heps, hsame ▸ heps⟩
    rw [if_neg hne]
  · rfl

/-- The sides on a line begin with the analysis side. -/
theorem exists_toList_sides (e : Entry) : ∃ tail, e.sides.toList = e.upper.toList ++ tail := by
  unfold sides
  split
  · exact ⟨[], (List.append_nil _).symm⟩
  · exact ⟨":".toList ++ e.lower.toList,
      by rw [String.toList_append, String.toList_append, List.append_assoc]⟩

/-- The name of the way on stands before the end of a line. -/
theorem rest_ne_end (text : String) : (text ++ " ;").toList ≠ [';'] := by
  intro h
  have hlength := congrArg List.length h
  have hend : " ;".toList.length = 2 := by decide
  rw [String.toList_append, List.length_append, hend, List.length_singleton] at hlength
  omega

/-- The sides are found before the first bare blank when no blank is bare on the
analysis side. -/
theorem WellWritten.cutBare_line {e : Entry} (he : e.WellWritten) (hblank : NoBare ' ' e.upper) :
    cutBare ' ' false e.line.toList = some (e.sides.toList, (e.next.text ++ " ;").toList) := by
  have hsides : cutBare ' ' false e.sides.toList = none ∧
      markPending false e.sides.toList = false := by
    unfold sides
    split
    · exact ⟨hblank, he.upper_closed⟩
    · have hcolon : (":".toList : List Char) = [':'] := by decide
      rw [String.toList_append, String.toList_append, hcolon]
      constructor
      · rw [cutBare_append_eq_none, cutBare_append_eq_none, markPending_append, he.upper_closed]
        exact ⟨⟨hblank, by decide⟩, he.lower_noBlank hblank⟩
      · rw [markPending_append, markPending_append, he.upper_closed]
        exact he.lower_closed
  have hline : e.line.toList = e.sides.toList ++ ' ' :: (e.next.text ++ " ;").toList := by
    rw [he.line_eq, String.append_assoc, String.append_assoc, String.toList_append,
      String.toList_append]
    rfl
  rw [hline]
  exact cutBare_append_cons hsides.1 hsides.2 _

/-- With no bare blank on the analysis side, the sides are what is read first, cut
at their first bare colon. -/
theorem WellWritten.readSides_of_noBlank {e : Entry} (he : e.WellWritten)
    (hblank : NoBare ' ' e.upper) :
    readSides e.line =
      match cutBare ':' false e.sides.toList with
      | some (upper, lower) => some (String.ofList upper, String.ofList lower)
      | none => some (e.sides, e.sides) := by
  unfold readSides
  rw [he.cutBare_line hblank, Option.map_some, if_neg (rest_ne_end _)]
  cases cutBare ':' false e.sides.toList with
  | none => simp only [String.ofList_toList]
  | some _ => rfl

/-- Neither colon nor blank on the analysis side: the line gives back both
sides. -/
theorem WellWritten.readSides_line {e : Entry} (he : e.WellWritten)
    (hblank : NoBare ' ' e.upper) (hcolon : NoBare ':' e.upper) :
    readSides e.line = some (e.upper, e.lower) := by
  rw [he.readSides_of_noBlank hblank]
  by_cases hsame : e.upper = e.lower
  · have hsides : e.sides = e.upper := if_pos hsame
    have hcut : cutBare ':' false e.upper.toList = none := hcolon
    simp only [hsides, hcut]
    rw [← hsame]
  · have hsides : e.sides.toList = e.upper.toList ++ ':' :: e.lower.toList := by
      rw [sides, if_neg hsame, String.append_assoc, String.toList_append, String.toList_append]
      rfl
    have hcut : cutBare ':' false e.sides.toList = some (e.upper.toList, e.lower.toList) := by
      rw [hsides]
      exact cutBare_append_cons hcolon he.upper_closed _
    simp only [hcut, String.ofList_toList]

/-- A text is no proper beginning of itself. -/
theorem ne_of_eq_append_cons {cs l r : List Char} {c : Char} (h : cs = l ++ c :: r) : l ≠ cs := by
  intro hsame
  have hlen := congrArg List.length h
  rw [hsame, List.length_append, List.length_cons] at hlen
  omega

/-- A bare blank on the analysis side ends the reading too early. -/
theorem WellWritten.noBlank_of_readSides {e : Entry} (he : e.WellWritten)
    (hread : readSides e.line = some (e.upper, e.lower)) : NoBare ' ' e.upper := by
  cases hcut : cutBare ' ' false e.upper.toList with
  | none => exact hcut
  | some field =>
      obtain ⟨l, r⟩ := field
      obtain ⟨tail, hline⟩ : ∃ tail, e.line.toList = e.upper.toList ++ tail := by
        obtain ⟨tail, hsides⟩ := e.exists_toList_sides
        refine ⟨tail ++ (" " ++ e.next.text ++ " ;").toList, ?_⟩
        simp only [he.line_eq, String.toList_append, hsides, List.append_assoc]
      have hupper := eq_of_cutBare hcut
      unfold readSides at hread
      rw [hline, cutBare_append_of_some hcut, Option.map_some] at hread
      have hsides := Option.some.inj hread
      split at hsides
      · obtain ⟨hu, hl⟩ := Prod.mk.inj hsides
        exact absurd ⟨hu.symm, hl.symm⟩ he.not_empty
      · split at hsides
        · rename_i u w hcolon
          have hu : u = e.upper.toList := by
            rw [← (Prod.mk.inj hsides).1, String.toList_ofList]
          have hl := eq_of_cutBare hcolon
          simp only at hl
          rw [hl, List.append_assoc, List.cons_append] at hupper
          exact absurd hu (ne_of_eq_append_cons hupper)
        · have hl : l = e.upper.toList := by
            rw [← (Prod.mk.inj hsides).1, String.toList_ofList]
          exact absurd hl (ne_of_eq_append_cons hupper)

/-- **Which lines can be read.**  The line of a well written entry gives back
both sides exactly when neither colon nor blank is bare on the analysis side. -/
theorem WellWritten.readSides_line_iff {e : Entry} (he : e.WellWritten) :
    readSides e.line = some (e.upper, e.lower) ↔ NoBare ' ' e.upper ∧ NoBare ':' e.upper := by
  constructor
  · intro hread
    have hblank := he.noBlank_of_readSides hread
    refine ⟨hblank, ?_⟩
    cases hcut : cutBare ':' false e.upper.toList with
    | none => exact hcut
    | some cutting =>
        obtain ⟨l, r⟩ := cutting
        obtain ⟨tail, hsides⟩ := e.exists_toList_sides
        rw [he.readSides_of_noBlank hblank, hsides, cutBare_append_of_some hcut] at hread
        have hl : l = e.upper.toList := by
          rw [← (Prod.mk.inj (Option.some.inj hread)).1, String.toList_ofList]
        exact absurd hl (ne_of_eq_append_cons (eq_of_cutBare hcut))
  · intro hnone
    exact he.readSides_line hnone.1 hnone.2

end Entry

/-! ## Entries of forms -/

/-- A flag with an escaped text after it on the surface side is well written. -/
theorem Entry.WellWritten.of_flag {e : Entry} (f : Flag) {rest : List Char}
    (hrest : WellEscaped rest) (hupper : e.upper = f.symbol)
    (hlower : e.lower.toList = f.symbol.toList ++ rest) : e.WellWritten where
  upper_closed := by
    rw [hupper]
    exact f.markPending_symbol
  lower_closed := by
    rw [hlower, markPending_append, f.markPending_symbol]
    exact hrest.markPending_eq_false
  lower_noBlank hblank := by
    rw [hupper] at hblank
    rw [NoBare, hlower, cutBare_append_eq_none, f.markPending_symbol]
    exact ⟨hblank, (hrest.cutBare_eq_none_iff (by decide)).mpr (Or.inl (by decide))⟩
  not_empty := by
    intro hempty
    have hat : '@' ∈ epsilon.toList := by
      rw [← hempty.1, hupper, f.toList_symbol]
      simp
    exact absurd hat (by decide)

/-- An epsilon against the symbol of a boundary is well written. -/
theorem Entry.WellWritten.of_boundary {e : Entry} (b : Boundary) (hupper : e.upper = epsilon)
    (hlower : e.lower = b.symbol) : e.WellWritten where
  upper_closed := by
    rw [hupper]
    decide
  lower_closed := by
    rw [hlower]
    cases b <;> decide
  lower_noBlank _ := by
    rw [hlower]
    cases b <;> decide
  not_empty := by
    rw [hupper, hlower]
    cases b <;> decide

namespace Layout

variable {l l' : Layout} {rootName : String} {r r' : Inflection} {v v' : Variant}
  {n : Sublexicon} {e e' : Entry}

/-- Whatever an escaped form files is well written. -/
theorem Files.wellWritten (hr : r.Escaped) (hv : v ∈ r.variants) (h : l.Files rootName r v n e) :
    e.WellWritten := by
  cases n with
  | root name =>
      obtain ⟨-, rfl⟩ := h
      exact .of_flag (Flag.setParadigm r.paradigm) .nil rfl (List.append_nil _).symm
  | prefixes p =>
      obtain ⟨-, -, rfl⟩ := h
      exact .of_flag (Flag.setPrefix v.parts.pre) (hr.pre v hv) rfl String.toList_append
  | prefixBoundary p =>
      obtain ⟨-, -, rfl⟩ := h
      exact .of_boundary .opening rfl rfl
  | gate pos =>
      obtain ⟨-, -, rfl⟩ := h
      exact .of_flag (Flag.requireParadigm r.paradigm) .nil rfl (List.append_nil _).symm
  | stems p =>
      obtain ⟨-, -, rfl⟩ := h
      exact .of_escaped hr.headword hr.stem
  | stemBoundary p c =>
      obtain ⟨-, -, -, rfl⟩ := h
      exact .of_boundary .closing rfl rfl
  | prefixCheck p c =>
      obtain ⟨-, -, -, rfl⟩ := h
      exact .of_flag (Flag.requirePrefix v.parts.pre) .nil rfl (List.append_nil _).symm
  | orderCheck k =>
      obtain ⟨-, -, rfl⟩ := h
      exact .of_flag (Flag.unifyOrder k.order) .nil rfl (List.append_nil _).symm
  | endings k =>
      obtain ⟨-, -, rfl⟩ := h
      exact .of_escaped hr.analysisTags (hr.post v hv)
  | irregular p =>
      obtain ⟨-, -, rfl⟩ := h
      exact .of_escaped hr.analysis (WellEscaped.escape v.surface)
  | external name => exact h.elim
  | terminal => exact h.elim

/-- Prefixes and irregular forms of a paradigm are told apart by the ends of
their names. -/
theorem afterRoot_eq_of_text {p : String} (h : (l.afterRoot p).text = (l'.afterRoot p).text) :
    l.afterRoot p = l'.afterRoot p := by
  obtain ⟨mode, _, _⟩ := l
  obtain ⟨mode', _, _⟩ := l'
  cases mode <;> cases mode'
  · rfl
  · exact absurd ((String.append_right_inj p).mp h) (by decide)
  · exact absurd ((String.append_right_inj p).mp h) (by decide)
  · rfl

/-- Within a sublexicon, the analysis side and the written name of the way on
determine the way on. -/
theorem Files.next_eq (hslot : l.slot = l'.slot) (h : l.Files rootName r v n e)
    (h' : l'.Files rootName r' v' n e') (hupper : e.upper = e'.upper)
    (htext : e.next.text = e'.next.text) : e.next = e'.next := by
  cases n with
  | root name =>
      obtain ⟨-, rfl⟩ := h
      obtain ⟨-, rfl⟩ := h'
      have hp : r.paradigm = r'.paradigm := congrArg Flag.value (Flag.symbol_injective hupper)
      change (l.afterRoot r.paradigm).text = (l'.afterRoot r'.paradigm).text at htext
      change l.afterRoot r.paradigm = l'.afterRoot r'.paradigm
      rw [hp] at htext ⊢
      exact afterRoot_eq_of_text htext
  | prefixes p =>
      obtain ⟨-, hp, rfl⟩ := h
      obtain ⟨-, hp', rfl⟩ := h'
      rw [prefixEntry, prefixEntry, ← hp, ← hp']
  | prefixBoundary p =>
      obtain ⟨-, -, rfl⟩ := h
      obtain ⟨-, -, rfl⟩ := h'
      change l.afterPrefix p = l'.afterPrefix p
      rw [afterPrefix, afterPrefix, hslot]
  | gate pos =>
      obtain ⟨-, -, rfl⟩ := h
      obtain ⟨-, -, rfl⟩ := h'
      have hp : r.paradigm = r'.paradigm := congrArg Flag.value (Flag.symbol_injective hupper)
      exact congrArg Sublexicon.stems hp
  | stems p =>
      obtain ⟨-, hp, rfl⟩ := h
      obtain ⟨-, hp', rfl⟩ := h'
      have hsame : r.paradigm = r'.paradigm := hp.symm.trans hp'
      change r.paradigm ++ "_Class=" ++ r.inflClass ++ "_Boundary" =
        r'.paradigm ++ "_Class=" ++ r'.inflClass ++ "_Boundary" at htext
      rw [hsame] at htext
      have hc : r.inflClass = r'.inflClass :=
        (String.append_right_inj _).mp ((String.append_left_inj _).mp htext)
      change Sublexicon.stemBoundary r.paradigm r.inflClass =
        .stemBoundary r'.paradigm r'.inflClass
      rw [hsame, hc]
  | stemBoundary p c =>
      obtain ⟨-, -, -, rfl⟩ := h
      obtain ⟨-, -, -, rfl⟩ := h'
      rfl
  | prefixCheck p c =>
      obtain ⟨-, hp, hc, rfl⟩ := h
      obtain ⟨-, hp', hc', rfl⟩ := h'
      have hpre : Flag.prefixValue v.parts.pre = Flag.prefixValue v'.parts.pre :=
        congrArg Flag.value (Flag.symbol_injective hupper)
      change (l.endingKey r v).text = (l'.endingKey r' v').text at htext
      change Sublexicon.orderCheck (l.endingKey r v) = .orderCheck (l'.endingKey r' v')
      rw [endingKey, endingKey, ← hp, ← hp', ← hc, ← hc', hpre] at htext ⊢
      -- what is left of the keys is the clause order, the last part of the written name
      have horder : l.orderTags.orderOf r.tags = l'.orderTags.orderOf r'.tags :=
        ClauseOrder.text_inj ((String.append_right_inj _).mp htext)
      rw [horder]
  | orderCheck k =>
      obtain ⟨-, -, rfl⟩ := h
      obtain ⟨-, -, rfl⟩ := h'
      rfl
  | endings k =>
      obtain ⟨-, -, rfl⟩ := h
      obtain ⟨-, -, rfl⟩ := h'
      rfl
  | irregular p =>
      obtain ⟨-, -, rfl⟩ := h
      obtain ⟨-, -, rfl⟩ := h'
      rfl
  | external name => exact h.elim
  | terminal => exact h.elim

/-! ## Cells that can be read back -/

/-- The texts of a variant that stand on analysis sides, without colons, and
without a bare blank where they are not escaped. -/
structure Legible (l : Layout) (r : Inflection) (v : Variant) : Prop where
  paradigm_blank : NoBare ' ' r.paradigm
  paradigm_colon : NoBare ':' r.paradigm
  headword : ':' ∉ r.headword.toList
  tags : ':' ∉ r.analysisTags.toList
  pre : l.mode = .regular → ':' ∉ v.parts.pre.toList

/-- Blanks are never bare in an escaped text. -/
theorem noBlank_of_escaped {s : String} (hs : WellEscaped s.toList) : NoBare ' ' s :=
  (hs.cutBare_eq_none_iff (by decide)).mpr (Or.inl (by decide))

/-- A colon is bare in an escaped text wherever it occurs: it is not one of the
reserved characters. -/
theorem noColon_iff_of_escaped {s : String} (hs : WellEscaped s.toList) :
    NoBare ':' s ↔ ':' ∉ s.toList := by
  have hplain : isReserved ':' = false := by decide
  rw [NoBare, hs.cutBare_eq_none_iff (by decide), hplain]
  simp only [Bool.false_eq_true, false_or]

/-- The epsilon has neither a bare blank nor a bare colon. -/
theorem noBare_epsilon : NoBare ' ' epsilon ∧ NoBare ':' epsilon := by decide

/-- A flag for a prefix shows the colons of the prefix, and no bare blank. -/
theorem noBare_prefixFlag (hr : r.Escaped) (hv : v ∈ r.variants) (operator : Flag.Operator) :
    let f : Flag := ⟨operator, .prefixId, Flag.prefixValue v.parts.pre⟩
    NoBare ' ' f.symbol ∧ (NoBare ':' f.symbol ↔ ':' ∉ v.parts.pre.toList) := by
  intro f
  have hvalue : WellEscaped f.value.toList := (hr.pre v hv).prefixValue
  have hcolon : ':' ∈ f.value.toList ↔ ':' ∈ v.parts.pre.toList :=
    Flag.mem_prefixValue_of_lt (by decide)
  rw [f.noBare_symbol (Or.inl rfl), f.noBare_symbol (Or.inr rfl), noColon_iff_of_escaped hvalue,
    hcolon]
  exact ⟨noBlank_of_escaped hvalue, Iff.rfl⟩

/-- What a legible variant files has neither blank nor colon bare on its analysis
side. -/
theorem Files.noBare_upper (hr : r.Escaped) (hv : v ∈ r.variants) (hlegible : l.Legible r v)
    (h : l.Files rootName r v n e) : NoBare ' ' e.upper ∧ NoBare ':' e.upper := by
  have hparadigm : ∀ operator, NoBare ' ' (Flag.symbol ⟨operator, .paradigm, r.paradigm⟩) ∧
      NoBare ':' (Flag.symbol ⟨operator, .paradigm, r.paradigm⟩) := fun operator =>
    ⟨(Flag.noBare_symbol (Or.inl rfl) _).mpr hlegible.paradigm_blank,
      (Flag.noBare_symbol (Or.inr rfl) _).mpr hlegible.paradigm_colon⟩
  cases n with
  | root name =>
      obtain ⟨-, rfl⟩ := h
      exact hparadigm .set
  | prefixes p =>
      obtain ⟨hmode, -, rfl⟩ := h
      obtain ⟨hblank, hcolon⟩ := noBare_prefixFlag hr hv .set
      exact ⟨hblank, hcolon.mpr (hlegible.pre hmode)⟩
  | prefixBoundary p =>
      obtain ⟨-, -, rfl⟩ := h
      exact noBare_epsilon
  | gate pos =>
      obtain ⟨-, -, rfl⟩ := h
      exact hparadigm .require
  | stems p =>
      obtain ⟨-, -, rfl⟩ := h
      exact ⟨noBlank_of_escaped hr.headword,
        (noColon_iff_of_escaped hr.headword).mpr hlegible.headword⟩
  | stemBoundary p c =>
      obtain ⟨-, -, -, rfl⟩ := h
      exact noBare_epsilon
  | prefixCheck p c =>
      obtain ⟨hmode, -, -, rfl⟩ := h
      obtain ⟨hblank, hcolon⟩ := noBare_prefixFlag hr hv .require
      exact ⟨hblank, hcolon.mpr (hlegible.pre hmode)⟩
  | orderCheck k =>
      obtain ⟨-, -, rfl⟩ := h
      change NoBare ' ' (Flag.unifyOrder k.order).symbol ∧
        NoBare ':' (Flag.unifyOrder k.order).symbol
      cases k.order <;> decide
  | endings k =>
      obtain ⟨-, -, rfl⟩ := h
      exact ⟨noBlank_of_escaped hr.analysisTags,
        (noColon_iff_of_escaped hr.analysisTags).mpr hlegible.tags⟩
  | irregular p =>
      obtain ⟨-, -, rfl⟩ := h
      refine ⟨noBlank_of_escaped hr.analysis, (noColon_iff_of_escaped hr.analysis).mpr ?_⟩
      rw [String.toList_append, List.mem_append, not_or]
      exact ⟨hlegible.headword, hlegible.tags⟩
  | external name => exact h.elim
  | terminal => exact h.elim

/-- A variant is legible when all that it files has neither blank nor colon bare
on its analysis side. -/
theorem legible_of_files (rootName : String) (hr : r.Escaped) (hv : v ∈ r.variants)
    (h : ∀ n e, l.Files rootName r v n e → NoBare ' ' e.upper ∧ NoBare ':' e.upper) :
    l.Legible r v := by
  obtain ⟨hblank, hcolon⟩ := h (.root rootName) _ ⟨rfl, rfl⟩
  have hparadigm_blank := (Flag.noBare_symbol (Or.inl rfl) _).mp hblank
  have hparadigm_colon := (Flag.noBare_symbol (Or.inr rfl) _).mp hcolon
  cases hmode : l.mode with
  | regular =>
      have hstem := (h (.stems r.paradigm) _ ⟨hmode, rfl, rfl⟩).2
      have hending := (h (.endings (l.endingKey r v)) _ ⟨hmode, rfl, rfl⟩).2
      have hpre := (h (.prefixes r.paradigm) _ ⟨hmode, rfl, rfl⟩).2
      exact ⟨hparadigm_blank, hparadigm_colon, (noColon_iff_of_escaped hr.headword).mp hstem,
        (noColon_iff_of_escaped hr.analysisTags).mp hending,
        fun _ => (noBare_prefixFlag hr hv .set).2.mp hpre⟩
  | irregular =>
      have hform := (noColon_iff_of_escaped hr.analysis).mp
        (h (.irregular r.paradigm) _ ⟨hmode, rfl, rfl⟩).2
      rw [String.toList_append, List.mem_append, not_or] at hform
      exact ⟨hparadigm_blank, hparadigm_colon, hform.1, hform.2, fun hregular => by
        rw [hmode] at hregular
        exact absurd hregular nofun⟩

end Layout

/-- **Lines and entries.**  Forms are made from cells and laid out, regular or
irregular, into one network.  Then entries of one sublexicon are told apart by
their lines, and lines read back as the two sides of their entries, exactly when
every variant is legible: no colon in a headword, a tag or a prefix, and neither
colon nor blank bare in a paradigm. -/
theorem lines_determine_entries_iff (rootName : String) (slot : Option PreElementSlot)
    (tags : OrderTags) (fs : List (Mode × Inflection)) (hcells : ∀ f ∈ fs, f.2.FromCells) :
    let g := Network.ofForms rootName (fs.map fun f => (⟨f.1, slot, tags⟩, f.2))
    ((∀ e ∈ g.entries, ∀ e' ∈ g.entries, e.source = e'.source → e.line = e'.line → e = e') ∧
        ∀ e ∈ g.entries, readSides e.line = some (e.upper, e.lower)) ↔
      ∀ f ∈ fs, ∀ v ∈ f.2.variants, Layout.Legible ⟨f.1, slot, tags⟩ f.2 v := by
  intro g
  have hfiled : ∀ e, e ∈ g.entries ↔ ∃ f ∈ fs, ∃ v ∈ f.2.variants,
      Layout.Files ⟨f.1, slot, tags⟩ rootName f.2 v e.source e := by
    intro e
    rw [Network.mem_entries_iff_files]
    simp only [List.mem_map, exists_exists_and_eq_and]
  constructor
  · intro h f hf v hv
    have hr := (hcells f hf).escaped
    refine Layout.legible_of_files rootName hr hv fun n e hfiles => ?_
    have hsource := hfiles.source_eq
    have he : e ∈ g.entries := (hfiled e).mpr ⟨f, hf, v, hv, hsource ▸ hfiles⟩
    exact (hfiles.wellWritten hr hv).readSides_line_iff.mp (h.2 e he)
  · intro hlegible
    have hwritten : ∀ e ∈ g.entries, e.WellWritten ∧ NoBare ' ' e.upper ∧ NoBare ':' e.upper := by
      intro e he
      obtain ⟨f, hf, v, hv, hfiles⟩ := (hfiled e).mp he
      have hr := (hcells f hf).escaped
      exact ⟨hfiles.wellWritten hr hv, hfiles.noBare_upper hr hv (hlegible f hf v hv)⟩
    have hread : ∀ e ∈ g.entries, readSides e.line = some (e.upper, e.lower) := by
      intro e he
      exact (hwritten e he).1.readSides_line_iff.mpr (hwritten e he).2
    refine ⟨?_, hread⟩
    intro e he e' he' hsource hline
    -- equal lines read back as equal sides, and then end in equal names
    have hsides : (e.upper, e.lower) = (e'.upper, e'.lower) :=
      Option.some.inj ((hread e he).symm.trans ((congrArg readSides hline).trans (hread e' he')))
    obtain ⟨hupper, hlower⟩ := Prod.mk.inj hsides
    have htext : e.next.text = e'.next.text := by
      rw [(hwritten e he).1.line_eq, (hwritten e' he').1.line_eq, Entry.sides, Entry.sides, hupper,
        hlower] at hline
      exact (String.append_right_inj _).mp ((String.append_left_inj _).mp hline)
    obtain ⟨f, hf, v, hv, hfiles⟩ := (hfiled e).mp he
    obtain ⟨f', hf', v', hv', hfiles'⟩ := (hfiled e').mp he'
    rw [← hsource] at hfiles'
    have hnext : e.next = e'.next :=
      Layout.Files.next_eq (by rfl) hfiles hfiles' hupper htext
    cases e
    cases e'
    cases hsource
    cases hupper
    cases hlower
    cases hnext
    rfl

/-- The lines of a noun with plain cells determine their entries. -/
theorem lines_determine_entries_of_noun :
    let r : Inflection := ⟨"NA", "1", "makwa", "makw", ["+Sg"], [⟨"makwa", ⟨"", "makw", "a"⟩⟩]⟩
    let g := Network.ofForms "Noun" [(⟨.regular, none, .standard⟩, r)]
    r.FromCells ∧
      (∀ e ∈ g.entries, ∀ e' ∈ g.entries, e.source = e'.source → e.line = e'.line → e = e') ∧
      ∀ e ∈ g.entries, readSides e.line = some (e.upper, e.lower) := by
  intro r g
  have hcells : r.FromCells :=
    ⟨"NA", "1", "makwa", "makw", ["Sg"], [("makwa", "<<makw>>a")], by rfl⟩
  refine ⟨hcells, (lines_determine_entries_iff "Noun" none .standard [(.regular, r)] ?_).mpr ?_⟩
  · intro f hf
    obtain rfl := List.mem_singleton.mp hf
    exact hcells
  · intro f hf v hv
    obtain rfl := List.mem_singleton.mp hf
    obtain rfl := List.mem_singleton.mp hv
    exact ⟨by decide, by decide, by decide, by decide, fun _ => by decide⟩

/-- With colons in cells, two stems of one sublexicon are written on the same
line, and the line does not read back as the first of them. -/
theorem colons_hide_entries :
    let r : Inflection := ⟨"NA", "1", "a:b", "c", [], [⟨"c", ⟨"", "c", ""⟩⟩]⟩
    let r' : Inflection := ⟨"NA", "1", "a", "b:c", [], [⟨"b:c", ⟨"", "b:c", ""⟩⟩]⟩
    let g := Network.ofForms "Noun"
      [(⟨.regular, none, .standard⟩, r), (⟨.regular, none, .standard⟩, r')]
    r.FromCells ∧ r'.FromCells ∧
      ∃ e ∈ g.entries, ∃ e' ∈ g.entries, e.source = e'.source ∧ e ≠ e' ∧ e.line = e'.line ∧
        readSides e.line ≠ some (e.upper, e.lower) := by
  intro r r' g
  have hcells : r.FromCells := ⟨"NA", "1", "a:b", "c", [], [("c", "<<c>>")], by rfl⟩
  have hcells' : r'.FromCells := ⟨"NA", "1", "a", "b:c", [], [("b:c", "<<b:c>>")], by rfl⟩
  refine ⟨hcells, hcells', Layout.stemEntry r, ?_, Layout.stemEntry r', ?_, rfl, ?_, ?_, ?_⟩
  · refine Network.mem_entries_iff_files.mpr ⟨_, List.mem_cons_self, _, List.mem_cons_self, ?_⟩
    exact ⟨rfl, rfl, rfl⟩
  · refine Network.mem_entries_iff_files.mpr
      ⟨_, List.mem_cons_of_mem _ List.mem_cons_self, _, List.mem_cons_self, ?_⟩
    exact ⟨rfl, rfl, rfl⟩
  · decide
  · decide
  · decide

end Morphotactics
