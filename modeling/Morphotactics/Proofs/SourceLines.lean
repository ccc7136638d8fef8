import Morphotactics.LexcSource
import Morphotactics.Proofs.Escaped
import Morphotactics.Proofs.Filing
import Morphotactics.Text.Pieces

/-!
# The lines of lexc source

The source of a network is a list of lines, each ended by a line feed.  When it
is cut at line feeds the same lines come back, unless one of them has a line
feed inside.  Nothing in the way from a cell to a line takes line feeds out:
escaping keeps them, and names and banners are not escaped at all.  So the main
theorem asks for texts without line feeds, and shows that there is no way around
this.

Whatever the texts are, the sublexicons are written in the order in which they
came up, each one once, with its own entries in ascending order.
-/

namespace Morphotactics

/-! ## Cutting at line feeds -/

namespace Text

variable {separator : Char}

/-- A separator ends the first piece. -/
theorem pieceChars_append_cons {cs : List Char} (h : separator ∉ cs) (rest : List Char) :
    pieceChars separator (cs ++ separator :: rest) = cs :: pieceChars separator rest := by
  induction cs with
  | nil => rw [List.nil_append, pieceChars, if_pos rfl]
  | cons c cs ih =>
      have hc : c ≠ separator := fun hsame => h (hsame ▸ List.mem_cons_self)
      have hcs : separator ∉ cs := fun hmem => h (List.mem_cons_of_mem _ hmem)
      rw [List.cons_append, pieceChars, if_neg hc, ih hcs]

/-- A text without the separator is one piece. -/
theorem pieceChars_of_not_mem {cs : List Char} (h : separator ∉ cs) :
    pieceChars separator cs = [cs] := by
  induction cs with
  | nil => rfl
  | cons c cs ih =>
      have hc : c ≠ separator := fun hsame => h (hsame ▸ List.mem_cons_self)
      have hcs : separator ∉ cs := fun hmem => h (List.mem_cons_of_mem _ hmem)
      rw [pieceChars, if_neg hc, ih hcs]

/-- No separator is left in a piece. -/
theorem not_mem_of_mem_pieceChars {cs piece : List Char}
    (hpiece : piece ∈ pieceChars separator cs) : separator ∉ piece := by
  induction cs generalizing piece with
  | nil =>
      rw [List.mem_singleton.mp hpiece]
      exact List.not_mem_nil
  | cons c cs ih =>
      rw [pieceChars] at hpiece
      split at hpiece
      · rcases List.mem_cons.mp hpiece with rfl | hlater
        · exact List.not_mem_nil
        · exact ih hlater
      · rename_i hc
        split at hpiece
        · rename_i hnone
          exact absurd hnone (pieceChars_ne_nil separator cs)
        · rename_i first more hpieces
          rw [hpieces] at ih
          rcases List.mem_cons.mp hpiece with rfl | hlater
          · intro hmem
            rcases List.mem_cons.mp hmem with hsame | hin
            · exact hc hsame.symm
            · exact ih List.mem_cons_self hin
          · exact ih (List.mem_cons_of_mem _ hlater)

end Text

/-- A text without a line feed. -/
def OneLine (s : String) : Prop := '\n' ∉ s.toList

instance (s : String) : Decidable (OneLine s) := inferInstanceAs (Decidable ('\n' ∉ s.toList))

/-- A text is on one line when no line feed is among its characters. -/
theorem oneLine_ofList {cs : List Char} : OneLine (String.ofList cs) ↔ '\n' ∉ cs := by
  rw [OneLine, String.toList_ofList]

/-- Two texts side by side are on one line when both are. -/
@[simp] theorem oneLine_append {s t : String} : OneLine (s ++ t) ↔ OneLine s ∧ OneLine t := by
  rw [OneLine, String.toList_append, List.mem_append, not_or]
  rfl

/-- Lines are written one after the other, each with a line feed behind it. -/
theorem toList_ofLines_cons (line : String) (lines : List String) :
    (ofLines (line :: lines)).toList = line.toList ++ '\n' :: (ofLines lines).toList := by
  rw [ofLines, List.map_cons, String.join_cons, String.toList_append, String.toList_append,
    List.append_assoc]
  rfl

/-- Lines without line feeds come back when their text is cut. -/
theorem pieces_ofLines {lines : List String} (hlines : ∀ line ∈ lines, OneLine line) :
    Text.pieces '\n' (ofLines lines) = lines ++ [""] := by
  induction lines with
  | nil => rfl
  | cons line lines ih =>
      have hline : '\n' ∉ line.toList := hlines line List.mem_cons_self
      have hrest := ih fun l hl => hlines l (List.mem_cons_of_mem _ hl)
      unfold Text.pieces at hrest ⊢
      rw [toList_ofLines_cons, Text.pieceChars_append_cons hline, List.map_cons, hrest,
        String.ofList_toList, List.cons_append]

/-- **Cutting at line feeds.**  A text of lines gives back its lines, with
nothing after the last line feed, exactly when no line has a line feed inside. -/
theorem pieces_ofLines_iff {lines : List String} :
    Text.pieces '\n' (ofLines lines) = lines ++ [""] ↔ ∀ line ∈ lines, OneLine line := by
  constructor
  · intro hpieces line hline
    -- a line that comes back is a piece, and cutting leaves no separator in a piece
    have hpiece : line ∈ Text.pieces '\n' (ofLines lines) := by
      rw [hpieces]
      exact List.mem_append_left _ hline
    obtain ⟨piece, hmem, rfl⟩ := List.mem_map.mp hpiece
    exact oneLine_ofList.mpr (Text.not_mem_of_mem_pieceChars hmem)
  · exact pieces_ofLines

/-! ## Line feeds in names, banners and entries -/

/-- Escaping neither brings nor takes line feeds. -/
theorem oneLine_escape {s : String} : OneLine (escape s) ↔ OneLine s := by
  rw [OneLine, OneLine, toList_escape, mem_escapeChars (by decide)]

/-- A flag is on one line when its value is. -/
theorem oneLine_symbol {f : Flag} : OneLine f.symbol ↔ OneLine f.value := by
  have hletter : OneLine f.operator.letter := by cases f.operator <;> decide
  have hfeature : OneLine f.feature.text := by cases f.feature <;> decide
  have hat : OneLine "@" := by decide
  have hdot : OneLine "." := by decide
  simp only [Flag.symbol, oneLine_append, hletter, hfeature, hat, hdot, true_and, and_true]

/-- The identity of a prefix is on one line when the prefix is. -/
theorem oneLine_prefixValue {pre : String} : OneLine (Flag.prefixValue pre) ↔ OneLine pre := by
  rw [OneLine, OneLine, Flag.mem_prefixValue_of_lt (by decide)]

/-- Clause orders are on one line. -/
theorem oneLine_order (o : ClauseOrder) : OneLine o.text := by
  cases o <;> decide

namespace Sublexicon

/-- The texts that a sublexicon is for have no line feeds. -/
def OneLine (n : Sublexicon) : Prop := ∀ t ∈ n.fields, Morphotactics.OneLine t

/-- A name has a line feed only from the texts it is made of. -/
theorem oneLine_text {n : Sublexicon} : Morphotactics.OneLine n.text ↔ n.OneLine := by
  have hconst : ∀ s ∈ ["_Prefix", "_PrefixBoundary", "Stems", "_Stems", "_Class=", "_Boundary",
      "_Flags", "_Prefix=", "_Order=", "_Endings", "_Irregular", "#"],
      Morphotactics.OneLine s := by
    simp only [List.forall_mem_cons]
    and_intros
    all_goals first | exact oneLine_ofList.mpr (by decide) | exact nofun
  simp only [List.forall_mem_cons] at hconst
  cases n <;>
    simp [OneLine, text, fields, EndingKey.text, hconst, oneLine_order, and_assoc]

end Sublexicon

namespace Banner

/-- The text of a banner line, with marks and blanks around it, has a line feed
only of its own. -/
theorem oneLine_framed {s : String} (hs : OneLine s) :
    OneLine (String.ofList (framed s.toList)) := by
  have hblank : '\n' ∉ blankLine := by decide
  rw [oneLine_ofList, framed, List.mem_append, List.mem_append]
  intro hmem
  rcases hmem with (htake | htext) | hdrop
  · exact hblank (List.mem_of_mem_take htake)
  · exact hs htext
  · exact hblank (List.mem_of_mem_drop hdrop)

/-- The words of a banner have a line feed only from the texts that the
sublexicon is for. -/
theorem oneLine_texts {n : Sublexicon} (hn : n.OneLine) {ts : List String}
    (hts : texts n = .ok ts) : ∀ t ∈ ts, OneLine t := by
  have hconst : ∀ s ∈ ["Paradigm: ", ", Class: ", ", Prefix: ", ", Order: ", "Prefixes",
      "Morpheme boundary between prefix and stem", "Part of speech: ", "Pre-verbs/nouns", "Stems",
      "Morpheme boundary between stem and suffix", "Flag diacritic governing combinations between",
      "prefix and ending", "Endings", "Irregular forms"], OneLine s := by
    simp only [List.forall_mem_cons]
    and_intros
    all_goals first | exact oneLine_ofList.mpr (by decide) | exact nofun
  simp only [List.forall_mem_cons] at hconst
  cases n
  case root | external | terminal => cases hts
  all_goals
    obtain rfl := Except.ok.inj hts
    simp_all [paradigmText, classText, keyText, Sublexicon.OneLine, Sublexicon.fields,
      oneLine_order]

end Banner

namespace Network

/-- A banner is a box of comment marks: each of its lines begins with one. -/
theorem eq_mark_append_of_mem_banner {n : Sublexicon} {box : List String}
    (hbox : Banner.lines n = .ok box) : ∀ line ∈ box, ∃ rest, line = "!" ++ rest := by
  have hmark : ∀ cs : List Char, String.ofList ('!' :: cs) = "!" ++ String.ofList cs := by
    intro cs
    rw [← String.toList_inj, String.toList_append]
    simp only [String.toList_ofList]
    rfl
  unfold Banner.lines at hbox
  cases hts : Banner.texts n with
  | error e =>
      rw [hts] at hbox
      cases hbox
  | ok ts =>
      rw [hts] at hbox
      obtain rfl := Except.ok.inj hbox
      intro line hline
      obtain ⟨cs, hcs, rfl⟩ := List.mem_map.mp hline
      obtain ⟨rest, rfl⟩ : ∃ rest, cs = '!' :: rest := by
        simp only [List.mem_append, List.mem_cons, List.not_mem_nil, or_false, List.mem_map] at hcs
        rcases hcs with ((rfl | rfl) | ⟨t, -, rfl⟩) | (rfl | rfl) <;> exact ⟨_, rfl⟩
      exact ⟨_, hmark rest⟩

/-- The lines of a banner are single lines where the name is on one line. -/
theorem oneLine_bannerLines {n : Sublexicon} (hn : n.OneLine) :
    ∀ line ∈ bannerLines n, OneLine line := by
  unfold bannerLines Banner.lines
  cases hts : Banner.texts n with
  | error e => exact fun line hline => absurd hline List.not_mem_nil
  | ok ts =>
      intro line hline
      have hborder : OneLine (String.ofList Banner.border) := oneLine_ofList.mpr (by decide)
      have hblank : OneLine (String.ofList Banner.blankLine) := oneLine_ofList.mpr (by decide)
      have hempty : OneLine "" := by decide
      simp only [Except.map, List.map_append, List.map_cons, List.map_nil, List.map_map,
        List.mem_append, List.mem_cons, List.not_mem_nil, or_false, List.mem_map,
        Function.comp_apply] at hline
      rcases hline with (((rfl | rfl) | ⟨t, ht, rfl⟩) | (rfl | rfl)) | rfl
      · exact hborder
      · exact hblank
      · exact Banner.oneLine_framed (Banner.oneLine_texts hn hts t ht)
      · exact hblank
      · exact hborder
      · exact hempty

end Network

namespace Entry

/-- Neither the sides of an entry nor the sublexicons it belongs and leads to
have line feeds. -/
structure OneLine (e : Entry) : Prop where
  source : e.source.OneLine
  upper : Morphotactics.OneLine e.upper
  lower : Morphotactics.OneLine e.lower
  next : e.next.OneLine

/-- The line of an entry is one line when its sides and its way on are. -/
theorem oneLine_line {e : Entry} : Morphotactics.OneLine e.line ↔
    Morphotactics.OneLine e.upper ∧ Morphotactics.OneLine e.lower ∧ e.next.OneLine := by
  have hblank : Morphotactics.OneLine " " := by decide
  have hcolon : Morphotactics.OneLine ":" := by decide
  have hend : Morphotactics.OneLine " ;" := by decide
  have hepsilon : Morphotactics.OneLine epsilon := by decide
  unfold line
  split
  · rename_i hsame
    rw [← hsame]
    split
    · rename_i heps
      simp only [heps, oneLine_append, Sublexicon.oneLine_text, hepsilon, hend, true_and, and_true]
    · simp only [oneLine_append, Sublexicon.oneLine_text, hblank, hend, and_true]
      tauto
  · simp only [oneLine_append, Sublexicon.oneLine_text, hblank, hcolon, hend, and_true, and_assoc]

end Entry

/-! ## The lines of networks of forms -/

namespace Network

/-- The lines of a well-formed network have line feeds inside only where the root
name or an entry brings them. -/
theorem oneLine_partLines_iff {g : Network} (hg : g.WellFormed) :
    (∀ line ∈ g.parts.flatMap partLines, OneLine line) ↔
      OneLine g.rootName ∧ ∀ e ∈ g.entries, e.OneLine := by
  have hheading : ∀ n : Sublexicon, OneLine ("LEXICON " ++ n.text) ↔ n.OneLine := by
    intro n
    have hword : OneLine "LEXICON " := oneLine_ofList.mpr (by decide)
    simp only [oneLine_append, Sublexicon.oneLine_text, hword, true_and]
  have hroot : OneLine g.rootName ↔ g.root.OneLine := by
    simp [root, Sublexicon.OneLine, Sublexicon.fields]
  constructor
  · intro hlines
    have hnames : ∀ p ∈ g.parts, p.1.OneLine := by
      intro p hp
      refine (hheading p.1).mp (hlines _ (List.mem_flatMap.mpr ⟨p, hp, ?_⟩))
      simp [partLines]
    have hentries : ∀ p ∈ g.parts, ∀ e ∈ p.2.toList, OneLine e.line := by
      intro p hp e he
      refine hlines _ (List.mem_flatMap.mpr ⟨p, hp, ?_⟩)
      exact List.mem_append_left _ (List.mem_append_right _ (List.mem_map_of_mem he))
    constructor
    · obtain ⟨es, hes⟩ := hg.exists_of_mem_names hg.root_mem_names
      exact hroot.mpr (hnames (g.root, es) (hg.entriesOf?_eq_some_iff.mp hes))
    · intro e he
      obtain ⟨p, hp, hep⟩ := List.mem_flatMap.mp (hg.mem_flatMap_parts.mpr he)
      obtain ⟨hupper, hlower, hnext⟩ := Entry.oneLine_line.mp (hentries p hp e hep)
      have hsource : e.source = p.1 := hg.filed p.1 p.2 (mem_parts.mp hp).2 e hep
      exact ⟨hsource ▸ hnames p hp, hupper, hlower, hnext⟩
  · intro h line hline
    obtain ⟨hname, hentries⟩ := h
    obtain ⟨p, hp, hin⟩ := List.mem_flatMap.mp hline
    have hes : g.entriesOf? p.1 = some p.2 := (mem_parts.mp hp).2
    have hp1 : p.1.OneLine := by
      by_cases hfirst : p.1 = g.root
      · rw [hfirst]
        exact hroot.mp hname
      · -- any other sublexicon came up with an entry, which names it
        obtain ⟨e, he⟩ := List.exists_mem_of_ne_nil _ (hg.inhabited p.1 p.2 hes hfirst)
        have hsource := (hentries e (mem_entries.mpr ⟨p.1, p.2, hes, he⟩)).source
        rw [hg.filed p.1 p.2 hes e he] at hsource
        exact hsource
    simp only [partLines, List.mem_append, List.mem_cons, List.not_mem_nil, or_false,
      List.mem_map] at hin
    rcases hin with ((hbanner | rfl) | ⟨e, he, rfl⟩) | rfl
    · exact oneLine_bannerLines hp1 line hbanner
    · exact (hheading p.1).mpr hp1
    · have hone := hentries e (mem_entries.mpr ⟨p.1, p.2, hes, he⟩)
      exact Entry.oneLine_line.mpr ⟨hone.upper, hone.lower, hone.next⟩
    · decide

end Network

namespace Layout

/-- The texts of a variant that are written somewhere in the source. -/
def written (l : Layout) (r : Inflection) (v : Variant) : List String :=
  match l.mode with
  | .regular =>
    [r.paradigm, r.inflClass, r.headword, r.stem, r.analysisTags, v.parts.pre, v.parts.post] ++
      (l.slot.map PreElementSlot.pos).toList ++ (l.slot.bind PreElementSlot.prefixRoot).toList
  | .irregular => [r.paradigm, r.headword, r.analysisTags, v.surface]

variable {l : Layout} {rootName : String} {r : Inflection} {v : Variant}

/-- The texts that are written of a variant in the regular layout, one by one. -/
theorem oneLine_written_regular (hmode : l.mode = .regular) :
    (∀ s ∈ l.written r v, OneLine s) ↔
      OneLine r.paradigm ∧ OneLine r.inflClass ∧ OneLine r.headword ∧ OneLine r.stem ∧
        OneLine r.analysisTags ∧ OneLine v.parts.pre ∧ OneLine v.parts.post ∧
        (∀ pos, l.slot.map PreElementSlot.pos = some pos → OneLine pos) ∧
        ∀ name, l.slot.bind PreElementSlot.prefixRoot = some name → OneLine name := by
  simp only [written, hmode, List.cons_append, List.nil_append, List.forall_mem_cons,
    List.forall_mem_append, Option.mem_toList]

/-- The texts that are written of a variant in the irregular layout, one by one. -/
theorem oneLine_written_irregular (hmode : l.mode = .irregular) :
    (∀ s ∈ l.written r v, OneLine s) ↔
      OneLine r.paradigm ∧ OneLine r.headword ∧ OneLine r.analysisTags ∧ OneLine v.surface := by
  simp only [written, hmode, List.forall_mem_cons, List.not_mem_nil, false_implies,
    implies_true, and_true]

/-- The root entry of a form has line feeds only from the name of the root and
from the paradigm. -/
theorem oneLine_rootEntry (l : Layout) (hroot : OneLine rootName) (hp : OneLine r.paradigm) :
    (Entry.identity (.root rootName) (Flag.setParadigm r.paradigm).symbol
      (l.afterRoot r.paradigm)).OneLine := by
  have hsymbol : OneLine (Flag.setParadigm r.paradigm).symbol := oneLine_symbol.mpr hp
  refine ⟨?_, hsymbol, hsymbol, ?_⟩
  · simpa [Entry.identity, Sublexicon.OneLine, Sublexicon.fields] using hroot
  · cases hmode : l.mode <;>
      simpa [Entry.identity, afterRoot, hmode, Sublexicon.OneLine, Sublexicon.fields] using hp

/-- What a variant files in the irregular layout is on one line where its texts are. -/
theorem Files.oneLine_irregular {n : Sublexicon} {e : Entry} (hmode : l.mode = .irregular)
    (hroot : OneLine rootName) (hwritten : ∀ s ∈ l.written r v, OneLine s)
    (h : l.Files rootName r v n e) : e.OneLine := by
  obtain ⟨hp, hh, ht, hs⟩ := (oneLine_written_irregular hmode).mp hwritten
  cases n with
  | root name =>
      obtain ⟨rfl, rfl⟩ := h
      exact oneLine_rootEntry l hroot hp
  | irregular p =>
      obtain ⟨-, rfl, rfl⟩ := h
      refine ⟨?_, oneLine_append.mpr ⟨hh, ht⟩, oneLine_escape.mpr hs, ?_⟩
      · simpa [irregularEntry, Sublexicon.OneLine, Sublexicon.fields] using hp
      · simp [irregularEntry, Sublexicon.OneLine, Sublexicon.fields]
  | _ => simp_all [Files]

/-- What a variant files in the regular layout is on one line where its texts are. -/
theorem Files.oneLine_regular {n : Sublexicon} {e : Entry} (hmode : l.mode = .regular)
    (hroot : OneLine rootName) (hwritten : ∀ s ∈ l.written r v, OneLine s)
    (h : l.Files rootName r v n e) : e.OneLine := by
  obtain ⟨hp, hc, hh, hs, ht, hpre, hpost, hpos, hname⟩ :=
    (oneLine_written_regular hmode).mp hwritten
  have hepsilon : OneLine epsilon := by decide
  have hboundary : ∀ b : Boundary, OneLine b.symbol := by
    intro b
    cases b <;> decide
  have hvalue := oneLine_prefixValue.mpr hpre
  -- every sublexicon on the way is for a paradigm, for a class of it, or for an ending key
  have hparadigm : (Sublexicon.stems r.paradigm).OneLine := by
    simpa [Sublexicon.OneLine, Sublexicon.fields] using hp
  have hclass : (Sublexicon.stemBoundary r.paradigm r.inflClass).OneLine := by
    simpa [Sublexicon.OneLine, Sublexicon.fields] using ⟨hp, hc⟩
  have hkey : (Sublexicon.endings (l.endingKey r v)).OneLine := by
    simpa [Sublexicon.OneLine, Sublexicon.fields, endingKey] using ⟨hp, hc, hvalue⟩
  cases n with
  | root name =>
      obtain ⟨rfl, rfl⟩ := h
      exact oneLine_rootEntry l hroot hp
  | prefixes p =>
      obtain ⟨-, rfl, rfl⟩ := h
      have hsymbol : OneLine (Flag.setPrefix v.parts.pre).symbol := oneLine_symbol.mpr hvalue
      exact ⟨hparadigm, hsymbol, oneLine_append.mpr ⟨hsymbol, hpre⟩, hparadigm⟩
  | prefixBoundary p =>
      obtain ⟨-, rfl, rfl⟩ := h
      refine ⟨hparadigm, hepsilon, hboundary .opening, ?_⟩
      rcases hslot : l.slot with _ | ⟨pos, _ | name⟩
      · simpa [afterPrefix, hslot] using hparadigm
      · simpa [afterPrefix, hslot, Sublexicon.OneLine, Sublexicon.fields] using
          hpos pos (by rw [hslot]; rfl)
      · simpa [afterPrefix, hslot, Sublexicon.OneLine, Sublexicon.fields] using
          hname name (by rw [hslot]; rfl)
  | gate pos =>
      obtain ⟨-, hslot, rfl⟩ := h
      have hsymbol : OneLine (Flag.requireParadigm r.paradigm).symbol := oneLine_symbol.mpr hp
      refine ⟨?_, hsymbol, hsymbol, hparadigm⟩
      simpa [Entry.identity, Sublexicon.OneLine, Sublexicon.fields] using hpos pos hslot
  | stems p =>
      obtain ⟨-, rfl, rfl⟩ := h
      exact ⟨hparadigm, hh, hs, hclass⟩
  | stemBoundary p c =>
      obtain ⟨-, rfl, rfl, rfl⟩ := h
      exact ⟨hclass, hepsilon, hboundary .closing, hclass⟩
  | prefixCheck p c =>
      obtain ⟨-, rfl, rfl, rfl⟩ := h
      have hsymbol : OneLine (Flag.requirePrefix v.parts.pre).symbol := oneLine_symbol.mpr hvalue
      exact ⟨hclass, hsymbol, hsymbol, hkey⟩
  | orderCheck k =>
      obtain ⟨-, rfl, rfl⟩ := h
      have hsymbol : OneLine (Flag.unifyOrder (l.endingKey r v).order).symbol :=
        oneLine_symbol.mpr (oneLine_order _)
      exact ⟨hkey, hsymbol, hsymbol, hkey⟩
  | endings k =>
      obtain ⟨-, rfl, rfl⟩ := h
      refine ⟨hkey, ht, hpost, ?_⟩
      simp [Sublexicon.OneLine, Sublexicon.fields]
  | irregular p =>
      obtain ⟨hirregular, -, -⟩ := h
      rw [hmode] at hirregular
      cases hirregular
  | external name => exact h.elim
  | terminal => exact h.elim

/-- What a variant files has line feeds only from the texts that are written of
it. -/
theorem Files.oneLine {n : Sublexicon} {e : Entry} (hroot : OneLine rootName)
    (hwritten : ∀ s ∈ l.written r v, OneLine s) (h : l.Files rootName r v n e) : e.OneLine := by
  cases hmode : l.mode with
  | regular => exact h.oneLine_regular hmode hroot hwritten
  | irregular => exact h.oneLine_irregular hmode hroot hwritten

/-- Every text that is written of a variant stands in one of the entries it
files. -/
theorem oneLine_of_files (rootName : String)
    (h : ∀ n e, l.Files rootName r v n e → e.OneLine) : ∀ s ∈ l.written r v, OneLine s := by
  cases hmode : l.mode with
  | irregular =>
      have hform := h (.irregular r.paradigm) _ ⟨hmode, rfl, rfl⟩
      obtain ⟨hh, ht⟩ := oneLine_append.mp hform.upper
      exact (oneLine_written_irregular hmode).mpr
        ⟨hform.source _ List.mem_cons_self, hh, ht, oneLine_escape.mp hform.lower⟩
  | regular =>
      have hpre := h (.prefixes r.paradigm) _ ⟨hmode, rfl, rfl⟩
      have hstem := h (.stems r.paradigm) _ ⟨hmode, rfl, rfl⟩
      have hending := h (.endings (l.endingKey r v)) _ ⟨hmode, rfl, rfl⟩
      have hafter := h (.prefixBoundary r.paradigm) _ ⟨hmode, rfl, rfl⟩
      refine (oneLine_written_regular hmode).mpr
        ⟨hpre.source _ List.mem_cons_self,
          hstem.next _ (List.mem_cons_of_mem _ List.mem_cons_self), hstem.upper, hstem.lower,
          hending.upper, (oneLine_append.mp hpre.lower).2, hending.lower, ?_, ?_⟩
      · intro pos hslot
        exact (h (.gate pos) _ ⟨hmode, hslot, rfl⟩).source _ List.mem_cons_self
      · intro name hname
        obtain ⟨slot, hslot, hroot⟩ := Option.bind_eq_some_iff.mp hname
        obtain ⟨pos, prefixRoot⟩ := slot
        subst hroot
        have hnext := hafter.next
        rw [afterPrefix, hslot] at hnext
        exact hnext _ List.mem_cons_self

end Layout

/-! ## The source of a network of forms -/

/-- The order of lines in a sublexicon: by surface side, then by analysis side,
then by the sublexicon that the entry leads to. -/
def Entry.Precedes (e e' : Entry) : Prop :=
  e.lower < e'.lower ∨
    e.lower = e'.lower ∧
      (e.upper < e'.upper ∨ e.upper = e'.upper ∧ compare e.next e'.next = .lt)

/-- Entries of one sublexicon are ordered by what is seen on their lines. -/
theorem Entry.precedes_of_lt {e e' : Entry} (hsource : e.source = e'.source)
    (h : compare e e' = .lt) : e.Precedes e' := by
  have htext : ∀ s t : String, compare s t = .lt → s < t := fun s t hst =>
    compareOfLessAndEq_eq_lt.mp hst
  rcases Ordering.then_eq_lt.mp h with hlower | ⟨hlower, h⟩
  · exact Or.inl (htext _ _ hlower)
  have hl : e.lower = e'.lower := Std.LawfulEqOrd.eq_of_compare hlower
  rcases Ordering.then_eq_lt.mp h with hupper | ⟨hupper, h⟩
  · exact Or.inr ⟨hl, Or.inl (htext _ _ hupper)⟩
  have hu : e.upper = e'.upper := Std.LawfulEqOrd.eq_of_compare hupper
  rcases Ordering.then_eq_lt.mp h with hnext | ⟨-, hlt⟩
  · exact Or.inr ⟨hl, Or.inr ⟨hu, hnext⟩⟩
  · have hself : compare e.source e'.source = .eq := by
      rw [hsource]
      exact Std.ReflCmp.compare_self
    exact absurd (hlt.symm.trans hself) nofun

/-- The entries of a sublexicon stand in the order of their lines. -/
theorem pairwise_precedes {es : SortedSet Entry} {n : Sublexicon}
    (hfiled : ∀ e ∈ es, e.source = n) : es.toList.Pairwise Entry.Precedes :=
  es.ascending.imp_of_mem fun {e e'} he he' hlt =>
    Entry.precedes_of_lt ((hfiled e he).trans (hfiled e' he').symm) hlt

/-- **Lines of the source.**  Forms are laid out into one network, each in its
own layout.  Every sublexicon is written once, the root first and the others in
the order in which they came up; its entries are those that were
inserted into it, in ascending order; a banner consists of comment lines.  And
the source, cut at line feeds, is just these lines, and nothing after the last
line feed, exactly when neither the name of the root nor a text that is written
of a variant has a line feed. -/
theorem source_lines_iff (rootName : String) (fs : List (Layout × Inflection)) :
    let g := Network.ofForms rootName fs
    let filed := Network.formEntries rootName fs
    (g.names.Nodup ∧ g.names = (.root rootName :: filed.map Entry.source).eraseDups ∧
      g.parts.map Prod.fst = g.names) ∧
    (∀ p ∈ g.parts, (∀ e, e ∈ p.2 ↔ e ∈ filed ∧ e.source = p.1) ∧
      p.2.toList.Pairwise Entry.Precedes ∧
      ∀ box, Banner.lines p.1 = .ok box → ∀ line ∈ box, ∃ rest, line = "!" ++ rest) ∧
    (Text.pieces '\n' g.source =
        (g.parts.flatMap fun p => Network.bannerLines p.1 ++ ["LEXICON " ++ p.1.text] ++
          p.2.toList.map Entry.line ++ [""]) ++ [""] ↔
      OneLine rootName ∧
        ∀ f ∈ fs, ∀ v ∈ f.2.variants, ∀ s ∈ f.1.written f.2 v, OneLine s) := by
  intro g filed
  have hg : g.WellFormed := Network.wellFormed_ofForms rootName fs
  have hroot : g.rootName = rootName := Sublexicon.root.inj (Network.root_ofForms rootName fs)
  refine ⟨⟨hg.nodup, Network.names_ofForms rootName fs, hg.map_fst_parts⟩, ?_, ?_⟩
  · intro p hp
    have hes : g.entriesOf? p.1 = some p.2 := (Network.mem_parts.mp hp).2
    refine ⟨?_, ?_, fun box hbox => Network.eq_mark_append_of_mem_banner hbox⟩
    · intro e
      rw [hg.mem_iff hes, Network.mem_entries_iff_formEntries]
    · exact pairwise_precedes (hg.filed p.1 p.2 hes)
  · refine pieces_ofLines_iff.trans ((Network.oneLine_partLines_iff hg).trans ?_)
    rw [hroot]
    refine and_congr_right fun hname => ?_
    constructor
    · intro hentries f hf v hv
      refine Layout.oneLine_of_files rootName fun n e hfiles => hentries e ?_
      exact Network.mem_entries_iff_files.mpr ⟨f, hf, v, hv, hfiles.source_eq ▸ hfiles⟩
    · intro hwritten e he
      obtain ⟨f, hf, v, hv, hfiles⟩ := Network.mem_entries_iff_files.mp he
      exact hfiles.oneLine hname (hwritten f hf v hv)

/-- A line feed in a surface text cuts the line of an irregular form in two. -/
theorem lineFeed_cuts_entry :
    let r : Inflection := ⟨"NA", "1", "a", "a", [], [⟨"x\ny", ⟨"", "x", ""⟩⟩]⟩
    let g := Network.ofForms "Noun" [(⟨.irregular, none, .standard⟩, r)]
    r.FromCells ∧ Text.pieces '\n' g.source ≠
      (g.parts.flatMap fun p => Network.bannerLines p.1 ++ ["LEXICON " ++ p.1.text] ++
        p.2.toList.map Entry.line ++ [""]) ++ [""] := by
  intro r g
  refine ⟨⟨"NA", "1", "a", "a", [], [("x\ny", "<<x>>")], by rfl⟩, ?_⟩
  intro hpieces
  have hg : g.WellFormed := Network.wellFormed_ofForms _ _
  obtain ⟨-, hentries⟩ := (Network.oneLine_partLines_iff hg).mp (pieces_ofLines_iff.mp hpieces)
  have hform : Layout.irregularEntry r ⟨"x\ny", ⟨"", "x", ""⟩⟩ ∈ g.entries :=
    Network.mem_entries_iff_files.mpr
      ⟨_, List.mem_cons_self, _, List.mem_cons_self, rfl, rfl, rfl⟩
  exact absurd (hentries _ hform).lower (by decide)

end Morphotactics
