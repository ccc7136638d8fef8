import Mathlib.Logic.Relation
import Morphotactics.Proofs.DictionaryStems
import Morphotactics.Proofs.RegularLanguage

/-!
# The shape of a compiled network

A network of forms, with the stems of a dictionary added, is closed, trim and
without cycles.  No entry leads to a sublexicon that is missing; every
sublexicon lies on the way of some word; and all words have the same number of
entries, which depends on the layout alone.

The last point is shown with `Layout.remaining`: how many entries are still to
be read from a sublexicon.  Every entry takes one of them off, also that of a
stem from a dictionary, so nothing ever comes back to where it was.
-/

namespace Morphotactics

/-! ## Ways through a network -/

namespace Network

/-- One step of a word: an entry leads from a sublexicon to where the word goes
on. -/
def Leads (g : Network) (resume : Sublexicon → Sublexicon) (n n' : Sublexicon) : Prop :=
  ∃ e ∈ g.entries, e.source = n ∧ resume e.next = n'

/-- Entries that follow each other from a sublexicon to the end of the word. -/
def Linked (resume : Sublexicon → Sublexicon) : Sublexicon → List Entry → Prop
  | n, [] => n = .terminal
  | n, e :: es => e.source = n ∧ Linked resume (resume e.next) es

variable {g : Network} {resume : Sublexicon → Sublexicon} {rank : Sublexicon → Nat}
  {n : Sublexicon} {es : List Entry}

/-- Entries of a network that follow each other are a run. -/
theorem run_of_linked (hlinked : Linked resume n es) (hmem : ∀ e ∈ es, e ∈ g.entries) :
    g.Run resume n es := by
  induction es generalizing n with
  | nil =>
      have hend : n = .terminal := hlinked
      rw [hend]
      exact .done
  | cons e es ih =>
      obtain ⟨hsource, hrest⟩ := hlinked
      exact .step (hmem e List.mem_cons_self) hsource
        (ih hrest fun e' he' => hmem e' (List.mem_cons_of_mem _ he'))

/-- Where every entry takes one off a rank, a run is as long as the rank it
starts from. -/
theorem Run.length_eq (hend : rank .terminal = 0)
    (hstep : ∀ e ∈ g.entries, rank e.source = rank (resume e.next) + 1)
    (h : g.Run resume n es) : es.length = rank n := by
  induction h with
  | done => exact hend.symm
  | @step n e es hmem hsource _ ih =>
      rw [← hsource, hstep e hmem, List.length_cons, ih]

/-- There nothing leads back to where it was. -/
theorem acyclic_of_rank (hstep : ∀ e ∈ g.entries, rank e.source = rank (resume e.next) + 1) :
    ¬ Relation.TransGen (g.Leads resume) n n := by
  have hdown : ∀ {n n'}, g.Leads resume n n' → rank n' < rank n := by
    rintro n n' ⟨e, he, rfl, rfl⟩
    rw [hstep e he]
    omega
  have hway : ∀ {n n'}, Relation.TransGen (g.Leads resume) n n' → rank n' < rank n := by
    intro n n' h
    induction h with
    | single hleads => exact hdown hleads
    | tail _ hleads ih => exact Nat.lt_trans (hdown hleads) ih
  exact fun hcycle => Nat.lt_irrefl _ (hway hcycle)

/-- A network dangles nowhere when all its entries lead to the end of the word, to
sublexicons that are defined elsewhere, or to sublexicons that it has. -/
theorem InStep.dangling_eq_nil (hg : g.InStep) (h : ∀ e ∈ g.entries,
    e.next = .terminal ∨ (∃ name, e.next = .external name) ∨ e.next ∈ g.names) :
    g.dangling.toList = [] := by
  refine List.eq_nil_iff_forall_not_mem.mpr fun n hn => ?_
  obtain ⟨⟨e, he, rfl⟩, ⟨hend, hexternal⟩, hlacks⟩ := hg.mem_dangling.mp hn
  rcases h e he with hterminal | ⟨name, hname⟩ | hdefined
  · exact hend hterminal
  · exact hexternal name hname
  · exact hlacks hdefined

end Network

/-! ## Entries on the way -/

namespace Layout

/-- The number of entries of a word. -/
def wordLength (l : Layout) : Nat :=
  match l.mode, l.slot with
  | .irregular, _ => 2
  | .regular, none => 8
  | .regular, some _ => 9

/-- The number of entries that are still to be read from a sublexicon. -/
def remaining (l : Layout) : Sublexicon → Nat
  | .terminal => 0
  | .endings _ | .irregular _ => 1
  | .orderCheck _ => 2
  | .prefixCheck _ _ => 3
  | .stemBoundary _ _ => 4
  | .stems _ => 5
  | .gate _ | .external _ => 6
  | .prefixBoundary _ => l.wordLength - 2
  | .prefixes _ => l.wordLength - 1
  | .root _ => l.wordLength

variable {l : Layout} {rootName : String} {r : Inflection} {v : Variant} {n : Sublexicon}
  {e : Entry}

/-- **One entry less.**  What a variant files takes one entry off those that are
still to be read. -/
theorem Files.remaining_eq (h : l.Files rootName r v n e) :
    l.remaining n = l.remaining (l.resume e.next) + 1 := by
  cases n with
  | root name =>
      obtain ⟨-, rfl⟩ := h
      rcases hmode : l.mode with _ | _ <;> rcases hslot : l.slot with _ | slot <;>
        simp [Entry.identity, afterRoot, resume, remaining, wordLength, hmode, hslot]
  | prefixes p =>
      obtain ⟨hmode, -, rfl⟩ := h
      rcases hslot : l.slot with _ | slot <;>
        simp [prefixEntry, resume, remaining, wordLength, hmode, hslot]
  | prefixBoundary p =>
      obtain ⟨hmode, -, rfl⟩ := h
      rcases hslot : l.slot with _ | ⟨pos, _ | name⟩ <;>
        simp [afterPrefix, resume, remaining, wordLength, hmode, hslot]
  | gate pos =>
      obtain ⟨-, -, rfl⟩ := h
      rfl
  | stems p =>
      obtain ⟨-, -, rfl⟩ := h
      rfl
  | stemBoundary p c =>
      obtain ⟨-, -, -, rfl⟩ := h
      rfl
  | prefixCheck p c =>
      obtain ⟨-, -, -, rfl⟩ := h
      rfl
  | orderCheck k =>
      obtain ⟨-, -, rfl⟩ := h
      rfl
  | endings k =>
      obtain ⟨-, -, rfl⟩ := h
      rfl
  | irregular p =>
      obtain ⟨-, -, rfl⟩ := h
      rfl
  | external name => exact h.elim
  | terminal => exact h.elim

/-- The entries of a chain follow each other from the root on. -/
theorem linked_chainEntries (l : Layout) (rootName : String) (r : Inflection) (v : Variant) :
    Network.Linked l.resume (.root rootName) (Network.chainEntries rootName (l.chain r v)) := by
  obtain ⟨mode, slot, tags⟩ := l
  cases mode with
  | irregular => exact ⟨rfl, rfl, rfl⟩
  | regular =>
      rcases slot with _ | ⟨pos, _ | name⟩
      · exact ⟨rfl, rfl, rfl, rfl, rfl, rfl, rfl, rfl, rfl⟩
      all_goals exact ⟨rfl, rfl, rfl, rfl, rfl, rfl, rfl, rfl, rfl, rfl⟩

end Layout

/-! ## Networks of forms with a dictionary -/

namespace Layout

variable {l : Layout} {rootName : String} {rows : List Inflection} {es : List Entry} {e : Entry}

/-- A network of forms in one layout is well-formed. -/
theorem wellFormed_network (l : Layout) (rootName : String) (rows : List Inflection) :
    (l.network rootName rows).WellFormed := by
  rw [network_eq_ofForms]
  exact Network.wellFormed_ofForms _ _

/-- An entry of a network of forms leads to the end of the word, elsewhere, or to
a sublexicon of the network. -/
theorem next_mem_network (he : e ∈ (l.network rootName rows).entries) :
    e.next = .terminal ∨ (∃ name, e.next = .external name) ∨
      e.next ∈ (l.network rootName rows).names := by
  obtain ⟨r, v, hrv, hfiles⟩ := mem_entries_network.mp he
  rcases hfiles.next_files with hend | helsewhere | ⟨e', hfiles'⟩
  · exact Or.inl hend
  · exact Or.inr (Or.inl helsewhere)
  · have hsource := hfiles'.source_eq
    have he' : e' ∈ (l.network rootName rows).entries :=
      mem_entries_network.mpr ⟨r, v, hrv, hsource ▸ hfiles'⟩
    rw [← hsource]
    exact Or.inr (Or.inr ((l.wellFormed_network rootName rows).source_mem_names he'))

/-- What stands on the chain of a variant is in the network. -/
theorem mem_entries_of_mem_chainEntries {r : Inflection} {v : Variant} (hrv : Attested rows r v)
    (he : e ∈ Network.chainEntries rootName (l.chain r v)) :
    e ∈ (l.network rootName rows).entries :=
  mem_entries_network.mpr ⟨r, v, hrv, files_of_mem_chainEntries he⟩

/-- Every entry of a network of forms lies on a run from the root. -/
theorem exists_run_through (he : e ∈ (l.network rootName rows).entries) :
    ∃ es, e ∈ es ∧ Network.Linked l.resume (.root rootName) es ∧
      ∀ e' ∈ es, e' ∈ (l.network rootName rows).entries := by
  obtain ⟨r, v, hrv, hfiles⟩ := mem_entries_network.mp he
  exact ⟨_, hfiles.mem_chainEntries, l.linked_chainEntries rootName r v,
    fun e' he' => mem_entries_of_mem_chainEntries hrv he'⟩

/-- Entries of forms and stems of a dictionary alike take one entry off those that
are still to be read. -/
theorem remaining_source_eq (hstems : ∀ e ∈ es, (l.network rootName rows).TakesStem e)
    (he : e ∈ ((l.network rootName rows).insertAll es).entries) :
    l.remaining e.source = l.remaining (l.resume e.next) + 1 := by
  rcases Network.mem_entries_insertAll.mp he with hform | hstem
  · obtain ⟨r, v, -, hfiles⟩ := mem_entries_network.mp hform
    exact hfiles.remaining_eq
  · obtain ⟨p, c, hsource, hnext, -⟩ := hstems e hstem
    rw [hsource, hnext]
    rfl

end Layout

/-- **The shape of a network.**  Forms of one layout are compiled into a network,
and a dictionary is added with any classifier.  Then nothing dangles; every
sublexicon but the root lies on a run from the root to the end of the word; all
these runs have the same number of entries, 2 for irregular forms, 8 for regular
ones, and 9 where there is a place for preverbs or prenouns; and no way through
the network leads back to where it was. -/
theorem network_shape (l : Layout) (rootName : String) (rows : List Inflection)
    (d : Dictionary) (classify : Classifier) :
    let g := (d.addTo classify (l.network rootName rows)).network
    g.dangling.toList = [] ∧
      (∀ n ∈ g.names, n ≠ g.root →
        ∃ es, g.Run l.resume g.root es ∧ ∃ e ∈ es, e.source = n) ∧
      (∀ es, g.Run l.resume g.root es →
        es.length = match l.mode, l.slot with
          | .irregular, _ => 2
          | .regular, none => 8
          | .regular, some _ => 9) ∧
      ∀ n, ¬ Relation.TransGen (g.Leads l.resume) n n := by
  intro g
  obtain ⟨es, hg, hstems⟩ : (l.network rootName rows).HasMoreStems g :=
    d.hasMoreStems_addTo classify (l.network rootName rows)
  have hroot : g.root = .root rootName := by
    rw [hg, Network.root_insertAll, Layout.network_eq_ofForms, Network.root_ofForms]
  have hnames : g.names = (l.network rootName rows).names := by
    rw [hg]
    exact (Network.insertAll_of_defines fun e he => (hstems e he).defines_source).1
  have hwell : (l.network rootName rows).WellFormed := l.wellFormed_network rootName rows
  have hstep : g.InStep := by
    rw [hg]
    exact (hwell.insertAll es).toInStep
  have hrank : ∀ e ∈ g.entries, l.remaining e.source = l.remaining (l.resume e.next) + 1 := by
    intro e he
    rw [hg] at he
    exact Layout.remaining_source_eq hstems he
  refine ⟨hstep.dangling_eq_nil fun e he => ?_, fun n hn hne => ?_, fun es' hrun => ?_,
    fun n => Network.acyclic_of_rank hrank⟩
  · rw [hnames]
    rw [hg] at he
    rcases Network.mem_entries_insertAll.mp he with hform | hstem
    · exact Layout.next_mem_network hform
    · obtain ⟨p, c, -, -, -, hnext⟩ := hstems e hstem
      exact Or.inr (Or.inr ((hwell.agree _).mpr hnext))
  · -- stems of a dictionary bring no sublexicon, so some form has brought this one
    rw [hnames] at hn
    rw [hg, Network.root_insertAll] at hne
    obtain ⟨e, he, rfl⟩ := hwell.exists_mem_of_mem_names hn hne
    obtain ⟨es', hon, hlinked, hmem⟩ := Layout.exists_run_through he
    rw [hroot]
    refine ⟨es', Network.run_of_linked hlinked fun e' he' => ?_, e, hon, rfl⟩
    rw [hg]
    exact Network.mem_entries_insertAll.mpr (Or.inl (hmem e' he'))
  · rw [hroot] at hrun
    exact hrun.length_eq rfl hrank

/-- A verb with a place for preverbs that are defined elsewhere, and a dictionary
with one more stem and a word of no class. -/
theorem network_shape_of_verb :
    let l : Layout := ⟨.regular, some ⟨"Verb", some "PreverbRoot"⟩, .standard⟩
    let v : Variant := ⟨"niaaba'waa", ⟨"ni", "aaba'w", "aa"⟩⟩
    let r : Inflection := ⟨"VTA", "VTA_C", "aaba'", "aaba'w", ["+VTA", "+Ind"], [v]⟩
    let d : Dictionary := ⟨"verbs.csv", [(2, ⟨"waabam", "waabam", some "VTA_C", none, none⟩),
      (3, ⟨"waabi", "waabi", none, none, none⟩)]⟩
    let a := d.addTo Classifier.none (l.network "VerbRoot" [r])
    let es := Network.chainEntries "VerbRoot" (l.chain r v)
    a.added = 1 ∧ .gate "Verb" ∈ a.network.names ∧
      (∃ es', a.network.Run l.resume a.network.root es' ∧ ∃ e ∈ es', e.source = .gate "Verb") ∧
      a.network.Run l.resume a.network.root es ∧ es.length = 9 := by
  intro l v r d a es
  have hshape := network_shape l "VerbRoot" [r] d Classifier.none
  have hgate : .gate "Verb" ∈ a.network.names := by decide +kernel
  have hroot : a.network.root = .root "VerbRoot" := by decide +kernel
  have hrun : a.network.Run l.resume a.network.root es := by
    rw [hroot]
    refine Network.run_of_linked (l.linked_chainEntries "VerbRoot" r v) ?_
    decide +kernel
  exact ⟨by decide +kernel, hgate, hshape.2.1 _ hgate nofun, hrun, hshape.2.2.1 es hrun⟩

end Morphotactics
