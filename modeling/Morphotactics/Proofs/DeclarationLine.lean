import Morphotactics.Proofs.LineReading
import Morphotactics.Proofs.SourceLines

/-!
# Reading back the alphabet

All symbols of an alphabet are declared on one line, with blanks between them.  A
reader of lexc source cuts that line at its bare blanks, and a symbol comes back
when no blank is bare in it.  Symbols come to an alphabet on several ways, and
`Alphabet.History` has them all.  Declared symbols and tags are escaped, so are the
prefixes that flags name; but the name of a paradigm is put into its flags as it is.

Line feeds are not escaped either, and they cut the line itself.  The main theorem
says that nothing else is in the way: the second line of a declaration gives back
the alphabet exactly when its history is free of these two.
-/

namespace Morphotactics

/-! ## Cutting a line at bare blanks -/

/-- The words of a line: the texts between its bare blanks. -/
def bareWords (cs : List Char) : List (List Char) :=
  match _h : cutBare ' ' false cs with
  | none => [cs]
  | some (word, rest) => word :: bareWords rest
termination_by cs.length
decreasing_by
  rw [eq_of_cutBare _h, List.length_append, List.length_cons]
  omega

/-- A text without a bare blank is one word. -/
theorem bareWords_of_none {cs : List Char} (h : cutBare ' ' false cs = none) :
    bareWords cs = [cs] := by
  rw [bareWords]
  split
  · rfl
  · rename_i hcut
    rw [h] at hcut
    cases hcut

/-- The first word of a text ends at its first bare blank. -/
theorem bareWords_of_some {cs word rest : List Char}
    (h : cutBare ' ' false cs = some (word, rest)) : bareWords cs = word :: bareWords rest := by
  rw [bareWords]
  split
  · rename_i hcut
    rw [h] at hcut
    cases hcut
  · rename_i hcut
    rw [h] at hcut
    obtain ⟨rfl, rfl⟩ := Prod.mk.inj (Option.some.inj hcut)
    rfl

/-- What stands before the first bare occurrence of a character has no other one. -/
theorem cutBare_eq_none_of_cutBare {stop : Char} {cs l r : List Char}
    (h : cutBare stop false cs = some (l, r)) : cutBare stop false l = none := by
  cases hcut : cutBare stop false l with
  | none => rfl
  | some p =>
      -- an occurrence in the part before would have been found first in the whole
      have hwhole := cutBare_append_of_some hcut (stop :: r)
      rw [← eq_of_cutBare h, h] at hwhole
      have hfirst : l = p.1 := (Prod.mk.inj (Option.some.inj hwhole)).1
      exact absurd hfirst.symm (Entry.ne_of_eq_append_cons (eq_of_cutBare hcut))

/-- No blank is bare in a word. -/
theorem cutBare_of_mem_bareWords {cs word : List Char} (h : word ∈ bareWords cs) :
    cutBare ' ' false word = none := by
  fun_induction bareWords cs with
  | case1 cs hcut =>
      obtain rfl := List.mem_singleton.mp h
      exact hcut
  | case2 cs first rest hcut ih =>
      rcases List.mem_cons.mp h with rfl | hlater
      · exact cutBare_eq_none_of_cutBare hcut
      · exact ih hlater

/-- Words are parts of their line. -/
theorem mem_of_mem_bareWords {cs word : List Char} (h : word ∈ bareWords cs) {c : Char}
    (hc : c ∈ word) : c ∈ cs := by
  fun_induction bareWords cs with
  | case1 cs hcut =>
      obtain rfl := List.mem_singleton.mp h
      exact hc
  | case2 cs first rest hcut ih =>
      rw [eq_of_cutBare hcut]
      rcases List.mem_cons.mp h with rfl | hlater
      · exact List.mem_append_left _ hc
      · exact List.mem_append_right _ (List.mem_cons_of_mem _ (ih hlater))

/-- Words with blanks between them come back when no blank is bare in any of them,
and none ends with an escape mark that waits for the blank. -/
theorem bareWords_intercalate {words : List (List Char)} (hne : words ≠ [])
    (hwords : ∀ w ∈ words, cutBare ' ' false w = none ∧ markPending false w = false) :
    bareWords ([' '].intercalate words) = words := by
  induction words with
  | nil => exact absurd rfl hne
  | cons w words ih =>
      obtain ⟨hblank, hclosed⟩ := hwords w List.mem_cons_self
      cases words with
      | nil =>
          rw [List.intercalate_singleton]
          exact bareWords_of_none hblank
      | cons w' words =>
          have hrest := ih (List.cons_ne_nil _ _) fun u hu => hwords u (List.mem_cons_of_mem _ hu)
          rw [List.intercalate_cons_cons, List.append_assoc, List.singleton_append,
            bareWords_of_some (cutBare_append_cons hblank hclosed _), hrest]

/-! ## Reading a declaration -/

/-- The symbols that a line declares.  An empty line declares nothing. -/
def readSymbols (line : String) : List String :=
  if line = "" then [] else (bareWords line.toList).map String.ofList

/-- The symbols that the second line of a declaration declares. -/
def readDeclaration (source : String) : Option (List String) :=
  ((Text.pieces '\n' source)[1]?).map readSymbols

/-- Neither line feed nor bare blank is in a symbol that is read. -/
theorem legible_of_mem_readSymbols {line s : String} (hline : OneLine line)
    (hs : s ∈ readSymbols line) : OneLine s ∧ NoBare ' ' s := by
  unfold readSymbols at hs
  split at hs
  · exact absurd hs List.not_mem_nil
  · obtain ⟨word, hword, rfl⟩ := List.mem_map.mp hs
    rw [oneLine_ofList, NoBare, String.toList_ofList]
    exact ⟨fun hfeed => hline (mem_of_mem_bareWords hword hfeed), cutBare_of_mem_bareWords hword⟩

/-- Texts without line feeds have none with blanks between them. -/
theorem oneLine_intercalate {ss : List String} (hss : ∀ s ∈ ss, OneLine s) :
    OneLine (String.intercalate " " ss) := by
  have hblank : OneLine " " := by decide
  induction ss with
  | nil => decide
  | cons s ss ih =>
      have hs := hss s List.mem_cons_self
      have hrest := ih fun t ht => hss t (List.mem_cons_of_mem _ ht)
      cases ss with
      | nil =>
          rw [String.intercalate_singleton]
          exact hs
      | cons t ss =>
          rw [String.intercalate_cons_cons, oneLine_append, oneLine_append]
          exact ⟨⟨hs, hblank⟩, hrest⟩

namespace Alphabet

/-- The second line of a declaration holds the symbols when none has a line feed. -/
theorem second_line {a : Alphabet} (ha : OneLine (String.intercalate " " a.toList)) :
    (Text.pieces '\n' a.declaration)[1]? = some (String.intercalate " " a.toList) := by
  have hlines : ∀ line ∈ a.lines, OneLine line := by
    have hheading : OneLine "Multichar_Symbols" := by decide
    have hend : OneLine "" := by decide
    simp only [lines, List.forall_mem_cons]
    exact ⟨hheading, ha, hend, List.forall_mem_nil _⟩
  rw [declaration, pieces_ofLines hlines]
  rfl

/-- Whatever is read from a declaration has neither line feeds nor bare blanks. -/
theorem legible_of_readDeclaration {a : Alphabet}
    (hread : readDeclaration a.declaration = some a.toList) {s : String} (hs : s ∈ a) :
    OneLine s ∧ NoBare ' ' s := by
  obtain ⟨line, hsecond, hsymbols⟩ := Option.map_eq_some_iff.mp hread
  obtain ⟨piece, hpiece, rfl⟩ := List.mem_map.mp (List.mem_of_getElem? hsecond)
  have hline : OneLine (String.ofList piece) :=
    oneLine_ofList.mpr (Text.not_mem_of_mem_pieceChars hpiece)
  have hin : s ∈ readSymbols (String.ofList piece) := by
    rw [hsymbols]
    exact hs
  exact legible_of_mem_readSymbols hline hin

/-- Symbols that are neither all empty nor end with a waiting escape mark come back
from their line when no blank is bare in them. -/
theorem readSymbols_intercalate {ss : List String} (hempty : ss ≠ [] → ∃ s ∈ ss, s ≠ "")
    (hclosed : ∀ s ∈ ss, markPending false s.toList = false) (hblank : ∀ s ∈ ss, NoBare ' ' s) :
    readSymbols (String.intercalate " " ss) = ss := by
  by_cases hnone : ss = []
  · rw [hnone]
    rfl
  · have hwords : bareWords (String.intercalate " " ss).toList = ss.map String.toList := by
      rw [String.toList_intercalate]
      refine bareWords_intercalate (mt List.map_eq_nil_iff.mp hnone) fun w hw => ?_
      obtain ⟨s, hs, rfl⟩ := List.mem_map.mp hw
      exact ⟨hblank s hs, hclosed s hs⟩
    have hline : String.intercalate " " ss ≠ "" := by
      intro hline
      -- the only word of an empty line is empty, but one of the symbols is not
      obtain ⟨s, hs, hne⟩ := hempty hnone
      have hword : s.toList ∈ bareWords "".toList := by
        rw [← hline, hwords]
        exact List.mem_map_of_mem hs
      have hnil : s.toList = [] := List.eq_nil_iff_forall_not_mem.mpr fun c hc =>
        absurd (mem_of_mem_bareWords hword hc) List.not_mem_nil
      exact hne (String.toList_eq_nil_iff.mp hnil)
    rw [readSymbols, if_neg hline, hwords, List.map_map]
    simp

/-- **Which declarations can be read.**  The second line gives back the alphabet
exactly when no symbol has a line feed or a bare blank. -/
theorem readDeclaration_iff {a : Alphabet} (hempty : a.toList ≠ [] → ∃ s ∈ a, s ≠ "")
    (hclosed : ∀ s ∈ a, markPending false s.toList = false) :
    readDeclaration a.declaration = some a.toList ↔ ∀ s ∈ a, OneLine s ∧ NoBare ' ' s := by
  constructor
  · intro hread s hs
    exact legible_of_readDeclaration hread hs
  · intro hlegible
    have hline := second_line (oneLine_intercalate fun s hs => (hlegible s hs).1)
    rw [readDeclaration, hline, Option.map_some,
      readSymbols_intercalate hempty hclosed fun s hs => (hlegible s hs).2]

end Alphabet

/-! ## How symbols come to an alphabet -/

/-- What a form may not have so that its symbols can be read: a line feed in any of
their texts, or a bare blank in the name of its paradigm. -/
structure Layout.Declarable (l : Layout) (r : Inflection) : Prop where
  paradigm_line : OneLine r.paradigm
  paradigm_blank : NoBare ' ' r.paradigm
  tags : ∀ t ∈ r.tags, OneLine t
  pre : l.mode = .regular → ∀ v ∈ r.variants, OneLine v.parts.pre

namespace Layout

variable {l : Layout} {r : Inflection}

/-- The symbols of a form that is made from cells: escaped tags and flags. -/
theorem escaped_or_flag_of_mem_symbols (hr : r.FromCells) {s : String} (hs : s ∈ l.symbols r) :
    WellEscaped s.toList ∨ ∃ f : Flag, s = f.symbol := by
  rw [symbols_eq, List.mem_append] at hs
  rcases hs with htag | hflag
  · exact Or.inl (hr.escaped.tags s htag)
  · obtain ⟨f, -, rfl⟩ := List.mem_map.mp hflag
    exact Or.inr ⟨f, rfl⟩

/-- The flags for a clause order are the same for all forms. -/
theorem legible_orderFlag (o : ClauseOrder) :
    OneLine (Flag.unifyOrder o).symbol ∧ NoBare ' ' (Flag.unifyOrder o).symbol := by
  rw [oneLine_symbol, Flag.noBare_symbol (Or.inl rfl)]
  cases o <;> decide

/-- The flags of a variant can be read when its prefix is on one line. -/
theorem legible_of_mem_variantFlags (hr : r.Escaped) {v : Variant} (hv : v ∈ r.variants)
    (hpre : l.mode = .regular → OneLine v.parts.pre) {f : Flag} (hf : f ∈ l.variantFlags r v) :
    OneLine f.symbol ∧ NoBare ' ' f.symbol := by
  cases hmode : l.mode with
  | regular =>
      have hvalue : OneLine (Flag.prefixValue v.parts.pre) := oneLine_prefixValue.mpr (hpre hmode)
      simp only [variantFlags, hmode, List.mem_cons, List.not_mem_nil, or_false] at hf
      rcases hf with rfl | rfl | rfl
      · exact ⟨oneLine_symbol.mpr hvalue, (noBare_prefixFlag hr hv .set).1⟩
      · exact ⟨oneLine_symbol.mpr hvalue, (noBare_prefixFlag hr hv .require).1⟩
      · exact legible_orderFlag _
  | irregular =>
      simp only [variantFlags, hmode, List.not_mem_nil] at hf

/-- The symbols of a form can be read exactly when the form is declarable. -/
theorem legible_symbols_iff (hr : r.FromCells) :
    (∀ s ∈ l.symbols r, OneLine s ∧ NoBare ' ' s) ↔ l.Declarable r := by
  have hflags : ∀ f ∈ l.ownFlags r, f.symbol ∈ l.symbols r := by
    intro f hf
    rw [symbols_eq]
    exact List.mem_append_right _ (List.mem_map_of_mem hf)
  constructor
  · intro h
    obtain ⟨hline, hblank⟩ := h _ (hflags (Flag.setParadigm r.paradigm) List.mem_cons_self)
    rw [oneLine_symbol] at hline
    rw [Flag.noBare_symbol (Or.inl rfl)] at hblank
    refine ⟨hline, hblank, fun t ht => ?_, fun hmode v hv => ?_⟩
    · rw [symbols_eq] at h
      exact (h t (List.mem_append_left _ ht)).1
    · have hmem : Flag.setPrefix v.parts.pre ∈ l.variantFlags r v := by
        simp [variantFlags, hmode]
      have hline := (h _ (hflags _ (mem_ownFlags_of_variant hv hmem))).1
      rw [oneLine_symbol, Flag.setPrefix, oneLine_prefixValue] at hline
      exact hline
  · intro h s hs
    have hparadigm : ∀ operator, OneLine (Flag.symbol ⟨operator, .paradigm, r.paradigm⟩) ∧
        NoBare ' ' (Flag.symbol ⟨operator, .paradigm, r.paradigm⟩) := by
      intro operator
      rw [oneLine_symbol, Flag.noBare_symbol (Or.inl rfl)]
      exact ⟨h.paradigm_line, h.paradigm_blank⟩
    rw [symbols_eq, List.mem_append, List.mem_map] at hs
    rcases hs with htag | ⟨f, hf, rfl⟩
    · exact ⟨h.tags s htag, noBlank_of_escaped (hr.escaped.tags s htag)⟩
    · simp only [ownFlags, List.mem_append, List.mem_cons, List.not_mem_nil, or_false,
        List.mem_flatMap] at hf
      rcases hf with (rfl | rfl) | ⟨v, hv, hf⟩
      · exact hparadigm .set
      · exact hparadigm .require
      · exact legible_of_mem_variantFlags hr.escaped hv (fun hmode => h.pre hmode v hv) hf

end Layout

namespace Alphabet

variable {a : Alphabet} {P : String → Prop}

/-- What holds of all symbols after some are added holds of the old ones and of
those. -/
theorem forall_mem_insertAll {symbols : List String} :
    (∀ s ∈ SortedSet.insertAll a symbols, P s) ↔ (∀ s ∈ a, P s) ∧ ∀ s ∈ symbols, P s := by
  simp only [SortedSet.mem_insertAll, or_imp, forall_and]

/-- What holds of all symbols after a declaration holds of the old ones, of the
declared ones and of the boundaries. -/
theorem forall_mem_declare {declared : List String} :
    (∀ s ∈ a.declare declared, P s) ↔
      (∀ s ∈ a, P s) ∧ (∀ s ∈ declared, P (escape s)) ∧ ∀ b : Boundary, P b.symbol := by
  have hboundaries : (∀ s ∈ [Boundary.opening.symbol, Boundary.closing.symbol], P s) ↔
      ∀ b : Boundary, P b.symbol := by
    rw [List.forall_mem_cons, List.forall_mem_singleton]
    constructor
    · rintro ⟨hopening, hclosing⟩ b
      cases b with
      | opening => exact hopening
      | closing => exact hclosing
    · exact fun h => ⟨h .opening, h .closing⟩
  rw [declare, forall_mem_insertAll, forall_mem_insertAll, List.forall_mem_map, hboundaries,
    and_assoc]

/-- The history of an alphabet.  Texts are declared, forms that are made from cells
are added, and alphabets with histories of their own are united. -/
inductive History where
  | new
  | declare (h : History) (declared : List String)
  | addForm (h : History) (l : Layout) (r : Inflection) (hr : r.FromCells)
  | union (h h' : History)

namespace History

/-- The alphabet that a history leads to. -/
def alphabet : History → Alphabet
  | new => SortedSet.empty
  | declare h declared => h.alphabet.declare declared
  | addForm h l r _ => h.alphabet.addForm l r
  | union h h' => h.alphabet.union h'.alphabet

/-- All that was declared is on one line, and all forms are declarable. -/
def Declarable : History → Prop
  | new => True
  | declare h declared => h.Declarable ∧ ∀ s ∈ declared, OneLine s
  | addForm h l r _ => h.Declarable ∧ l.Declarable r
  | union h h' => h.Declarable ∧ h'.Declarable

/-- Every symbol is an escaped text or a flag. -/
theorem escaped_or_flag (h : History) :
    ∀ s ∈ h.alphabet, WellEscaped s.toList ∨ ∃ f : Flag, s = f.symbol := by
  induction h with
  | new => exact fun s hs => absurd hs SortedSet.not_mem_empty
  | declare h declared ih =>
      exact forall_mem_declare.mpr ⟨ih, fun s _ => Or.inl (WellEscaped.escape s),
        fun b => Or.inl (WellEscaped.escape b.text)⟩
  | addForm h l r hr ih =>
      exact forall_mem_insertAll.mpr ⟨ih, fun s hs => Layout.escaped_or_flag_of_mem_symbols hr hs⟩
  | union h h' ih ih' => exact forall_mem_insertAll.mpr ⟨ih, ih'⟩

/-- So no escape mark at its end waits for the blank after it. -/
theorem markPending_eq_false (h : History) :
    ∀ s ∈ h.alphabet, markPending false s.toList = false := by
  intro s hs
  rcases h.escaped_or_flag s hs with hescaped | ⟨f, rfl⟩
  · exact hescaped.markPending_eq_false
  · exact f.markPending_symbol

/-- An empty symbol is never alone: where one can come in, boundaries are declared
with it. -/
theorem exists_ne_empty (h : History) {s : String} (hs : s ∈ h.alphabet) :
    ∃ t ∈ h.alphabet, t ≠ "" := by
  induction h with
  | new => exact absurd hs SortedSet.not_mem_empty
  | declare h declared ih =>
      refine ⟨Boundary.opening.symbol, SortedSet.mem_insertAll.mpr (Or.inr ?_), by decide⟩
      exact List.mem_cons_self
  | addForm h l r hr ih =>
      refine ⟨(Flag.setParadigm r.paradigm).symbol, SortedSet.mem_insertAll.mpr (Or.inr ?_), ?_⟩
      · simp [Layout.symbols]
      · exact fun hempty => absurd (String.toList_eq_nil_iff.mpr hempty)
          (by simp [Flag.toList_symbol])
  | union h h' ih ih' =>
      rcases SortedSet.mem_union.mp hs with hleft | hright
      · obtain ⟨t, ht, hne⟩ := ih hleft
        exact ⟨t, SortedSet.mem_union.mpr (Or.inl ht), hne⟩
      · obtain ⟨t, ht, hne⟩ := ih' hright
        exact ⟨t, SortedSet.mem_union.mpr (Or.inr ht), hne⟩

/-- The symbols of an alphabet can be read exactly when all in its history is
declarable. -/
theorem legible_iff (h : History) :
    (∀ s ∈ h.alphabet, OneLine s ∧ NoBare ' ' s) ↔ h.Declarable := by
  induction h with
  | new => exact iff_of_true (fun s hs => absurd hs SortedSet.not_mem_empty) trivial
  | declare h declared ih =>
      have hescaped : ∀ s, OneLine (escape s) ∧ NoBare ' ' (escape s) ↔ OneLine s := fun s => by
        rw [oneLine_escape]
        exact and_iff_left (Layout.noBlank_of_escaped (WellEscaped.escape s))
      have hboundary : ∀ b : Boundary, OneLine b.symbol ∧ NoBare ' ' b.symbol := by
        intro b
        cases b <;> decide
      refine forall_mem_declare.trans ?_
      simp only [ih, hescaped, hboundary, implies_true, and_true, Declarable]
  | addForm h l r hr ih =>
      exact forall_mem_insertAll.trans (and_congr ih (Layout.legible_symbols_iff hr))
  | union h h' ih ih' => exact forall_mem_insertAll.trans (and_congr ih ih')

end History

end Alphabet

/-- **Reading back the alphabet.**  However an alphabet came about, its symbols are in
ascending order, each of them once, and the second line of its declaration gives
them back exactly when no declared text, tag, prefix of a regular form or paradigm
has a line feed and no paradigm has a bare blank. -/
theorem declaration_read_back_iff (h : Alphabet.History) :
    h.alphabet.toList.Pairwise (· < ·) ∧
      (readDeclaration h.alphabet.declaration = some h.alphabet.toList ↔ h.Declarable) := by
  constructor
  · exact h.alphabet.ascending.imp fun hlt => compareOfLessAndEq_eq_lt.mp hlt
  · refine Iff.trans (Alphabet.readDeclaration_iff (fun hne => ?_) h.markPending_eq_false)
      h.legible_iff
    obtain ⟨s, hs⟩ := List.exists_mem_of_ne_nil _ hne
    exact h.exists_ne_empty hs

/-- A paradigm with a blank in its name cuts its flags in two. -/
theorem blank_cuts_paradigm_flags :
    let r : Inflection := ⟨"N A", "1", "a", "a", [], [⟨"ax", ⟨"", "a", "x"⟩⟩]⟩
    ∃ hr : r.FromCells,
      let h : Alphabet.History := .addForm .new ⟨.irregular, none, .standard⟩ r hr
      h.alphabet.toList = ["@P.Paradigm.N A@", "@R.Paradigm.N A@"] ∧
        readDeclaration h.alphabet.declaration ≠ some h.alphabet.toList := by
  intro r
  have hr : r.FromCells := ⟨"N A", "1", "a", "a", [], [("ax", "<<a>>x")], by rfl⟩
  refine ⟨hr, ?_⟩
  intro h
  have hsymbols : h.alphabet.toList = ["@P.Paradigm.N A@", "@R.Paradigm.N A@"] := by
    change (Alphabet.addForm SortedSet.empty ⟨.irregular, none, .standard⟩
      ⟨"N A", "1", "a", "a", [], [⟨"ax", ⟨"", "a", "x"⟩⟩]⟩).toList = _
    decide
  refine ⟨hsymbols, fun hread => ?_⟩
  have hin : "@P.Paradigm.N A@" ∈ h.alphabet := by
    rw [← SortedSet.mem_toList, hsymbols]
    exact List.mem_cons_self
  have hblank : NoBare ' ' "@P.Paradigm.N A@" := (Alphabet.legible_of_readDeclaration hread hin).2
  exact absurd hblank (by decide)

end Morphotactics
