import Morphotactics.Alphabet
import Morphotactics.Proofs.Insertion

/-!
# Networks and alphabets of forms

A table of inflected forms is compiled by laying out one form after the other:
the chains of a form extend the network, and its symbols are added to the
alphabet.  `Network.addForms` and `Alphabet.addForms` are these two folds.
Every form comes with a layout of its own, so that regular and irregular forms,
and forms of several configurations, can follow each other.

`mem_entries_ofForms` describes every entry of such a network by the form and
the variant that brought it.
-/

namespace Morphotactics

/-- The network with the chains of more forms, each in its own layout. -/
def Network.addForms (g : Network) (fs : List (Layout × Inflection)) : Network :=
  fs.foldl (fun g f => g.extend (f.1.chains f.2)) g

/-- The network of forms: a root, and what the forms bring. -/
def Network.ofForms (rootName : String) (fs : List (Layout × Inflection)) : Network :=
  (Network.ofRoot rootName).addForms fs

/-- The alphabet with the symbols of more forms, each in its own layout. -/
def Alphabet.addForms (a : Alphabet) (fs : List (Layout × Inflection)) : Alphabet :=
  fs.foldl (fun a f => a.addForm f.1 f.2) a

/-- The chains of forms, one form after the other. -/
def formChains (fs : List (Layout × Inflection)) : List Chain :=
  fs.flatMap fun f => f.1.chains f.2

/-- A chain of forms is the chain of a variant of one of them. -/
theorem mem_formChains {fs : List (Layout × Inflection)} {c : Chain} :
    c ∈ formChains fs ↔ ∃ f ∈ fs, ∃ v ∈ f.2.variants, f.1.chain f.2 v = c := by
  simp [formChains, Layout.chains]

namespace Layout

/-- The flags that a form is laid out with. -/
def ownFlags (l : Layout) (r : Inflection) : List Flag :=
  [Flag.setParadigm r.paradigm, Flag.requireParadigm r.paradigm] ++
    r.variants.flatMap (l.variantFlags r)

/-- The symbols of a form are its tags and the flags that it is laid out with. -/
theorem symbols_eq (l : Layout) (r : Inflection) :
    l.symbols r = r.tags ++ (l.ownFlags r).map Flag.symbol := by
  simp [symbols, ownFlags]

/-- The flags of a variant are among those of its form. -/
theorem mem_ownFlags_of_variant {l : Layout} {r : Inflection} {v : Variant} {flag : Flag}
    (hv : v ∈ r.variants) (h : flag ∈ l.variantFlags r v) : flag ∈ l.ownFlags r :=
  List.mem_append_right _ (List.mem_flatMap.mpr ⟨v, hv, h⟩)

end Layout

/-- No entry of a chain belongs to a root: only networks have roots. -/
theorem Layout.source_ne_root {l : Layout} {r : Inflection} {v : Variant} {e : Entry}
    (he : e ∈ (l.chain r v).entries) (name : String) : e.source ≠ .root name := by
  cases hm : l.mode with
  | irregular =>
      have heq : e = irregularEntry r v := by simpa [Layout.chain, hm, Chain.entries] using he
      rw [heq]
      exact Sublexicon.noConfusion
  | regular =>
      cases hs : l.slot with
      | none =>
          simp only [Layout.chain, hm, hs, Chain.entries, Layout.boundaryEntries,
            Layout.endingEntries, List.cons_append, List.nil_append, List.mem_cons,
            List.not_mem_nil, or_false] at he
          rcases he with rfl | rfl | rfl | rfl | rfl | rfl | rfl <;> exact Sublexicon.noConfusion
      | some slot =>
          simp only [Layout.chain, hm, hs, Chain.entries, Layout.boundaryEntries,
            Layout.endingEntries, List.cons_append, List.nil_append, List.mem_cons,
            List.not_mem_nil, or_false] at he
          rcases he with rfl | rfl | rfl | rfl | rfl | rfl | rfl | rfl <;>
            exact Sublexicon.noConfusion

namespace Network

/-- Adding forms is extending the network by their chains. -/
theorem addForms_eq_extend (g : Network) (fs : List (Layout × Inflection)) :
    g.addForms fs = g.extend (formChains fs) :=
  List.foldl_flatMap.symm

/-- A new network has no entries. -/
@[simp] theorem entries_ofRoot (rootName : String) : (ofRoot rootName).entries = [] := rfl

/-- A network of forms has the root that it was given. -/
@[simp] theorem root_ofForms (rootName : String) (fs : List (Layout × Inflection)) :
    (ofForms rootName fs).root = .root rootName := by
  rw [ofForms, addForms_eq_extend, extend_eq_insertAll, root_insertAll, root, ofRoot]

/-- A network of forms is well-formed. -/
theorem wellFormed_ofForms (rootName : String) (fs : List (Layout × Inflection)) :
    (ofForms rootName fs).WellFormed := by
  rw [ofForms, addForms_eq_extend]
  exact (wellFormed_ofRoot rootName).extend _

/-- The entries of forms in the order in which they are inserted: for each
variant the root entry that leads into its chain, and the chain. -/
def formEntries (rootName : String) (fs : List (Layout × Inflection)) : List Entry :=
  (formChains fs).flatMap (chainEntries rootName)

/-- A network of forms is made by inserting the entries of the forms. -/
theorem ofForms_eq_insertAll (rootName : String) (fs : List (Layout × Inflection)) :
    ofForms rootName fs = (ofRoot rootName).insertAll (formEntries rootName fs) := by
  rw [ofForms, addForms_eq_extend, extend_eq_insertAll]
  rfl

/-- The sublexicons of a network of forms stand in the order in which they came
up, the root first. -/
theorem names_ofForms (rootName : String) (fs : List (Layout × Inflection)) :
    (ofForms rootName fs).names =
      (.root rootName :: (formEntries rootName fs).map Entry.source).eraseDups := by
  rw [ofForms_eq_insertAll, names_insertAll (inStep_ofRoot rootName)]
  rfl

/-- A network of forms has the entries that were inserted. -/
theorem mem_entries_iff_formEntries {rootName : String} {fs : List (Layout × Inflection)}
    {e : Entry} : e ∈ (ofForms rootName fs).entries ↔ e ∈ formEntries rootName fs := by
  rw [ofForms_eq_insertAll, mem_entries_insertAll, entries_ofRoot]
  constructor
  · intro h
    exact h.resolve_left List.not_mem_nil
  · exact Or.inr

/-- Forms that are added to a network bring the chains of their variants, and the root
entries that lead into these. -/
theorem mem_entries_addForms {g : Network} {fs : List (Layout × Inflection)} {e : Entry} :
    e ∈ (g.addForms fs).entries ↔
      e ∈ g.entries ∨
        ∃ f ∈ fs, ∃ v ∈ f.2.variants, e ∈ chainEntries g.rootName (f.1.chain f.2 v) := by
  rw [addForms_eq_extend, extend_eq_insertAll, mem_entries_insertAll, List.mem_flatMap]
  refine or_congr_right ⟨?_, ?_⟩
  · rintro ⟨c, hc, he⟩
    obtain ⟨f, hf, v, hv, rfl⟩ := mem_formChains.mp hc
    exact ⟨f, hf, v, hv, he⟩
  · rintro ⟨f, hf, v, hv, he⟩
    exact ⟨_, mem_formChains.mpr ⟨f, hf, v, hv, rfl⟩, he⟩

/-- **Entries of a network of forms.**  Each comes from the chain of a variant
of one of the forms, or is the root entry that leads into such a chain. -/
theorem mem_entries_ofForms {rootName : String} {fs : List (Layout × Inflection)} {e : Entry} :
    e ∈ (ofForms rootName fs).entries ↔
      ∃ f ∈ fs, ∃ v ∈ f.2.variants, e ∈ chainEntries rootName (f.1.chain f.2 v) := by
  rw [ofForms, mem_entries_addForms, entries_ofRoot]
  exact or_iff_right List.not_mem_nil

end Network

namespace Alphabet

/-- The symbols after forms are the old ones and those of the forms. -/
theorem mem_addForms {a : Alphabet} {fs : List (Layout × Inflection)} {x : String} :
    x ∈ a.addForms fs ↔ x ∈ a ∨ ∃ f ∈ fs, x ∈ f.1.symbols f.2 := by
  have hstep : ∀ (a : Alphabet) (f : Layout × Inflection),
      x ∈ a.addForm f.1 f.2 ↔ x ∈ a ∨ x ∈ f.1.symbols f.2 := fun _ _ => SortedSet.mem_insertAll
  exact foldl_iff_of_step_iff _ (x ∈ ·) hstep

end Alphabet

end Morphotactics
