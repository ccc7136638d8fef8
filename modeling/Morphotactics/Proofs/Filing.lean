import Morphotactics.Proofs.Forms

/-!
# What a form files where

The chain of a variant passes through each sublexicon at most once.
`Layout.Files` says which sublexicons these are and which entry the variant
files there, in the regular layout and in the irregular one.  A network of
forms holds just what its variants file, so that a statement about all its
entries can be checked one kind of sublexicon at a time.
-/

namespace Morphotactics

namespace Layout

/-- Where the prefix boundary of a paradigm leads. -/
def afterPrefix (l : Layout) (p : String) : Sublexicon :=
  match l.slot with
  | none => .stems p
  | some ⟨pos, none⟩ => .gate pos
  | some ⟨_, some name⟩ => .external name

/-- Where the root leads for a form. -/
def afterRoot (l : Layout) (p : String) : Sublexicon :=
  match l.mode with
  | .regular => .prefixes p
  | .irregular => .irregular p

/-- What a variant files in a sublexicon: one entry where the sublexicon is on
its way, and nothing elsewhere. -/
def Files (l : Layout) (rootName : String) (r : Inflection) (v : Variant) :
    Sublexicon → Entry → Prop
  | .root name, e =>
    name = rootName ∧
      e = .identity (.root name) (Flag.setParadigm r.paradigm).symbol (l.afterRoot r.paradigm)
  | .prefixes p, e => l.mode = .regular ∧ p = r.paradigm ∧ e = prefixEntry r v
  | .prefixBoundary p, e =>
    l.mode = .regular ∧ p = r.paradigm ∧
      e = ⟨.prefixBoundary p, epsilon, Boundary.opening.symbol, l.afterPrefix p⟩
  | .gate pos, e =>
    l.mode = .regular ∧ l.slot.map PreElementSlot.pos = some pos ∧
      e = .identity (.gate pos) (Flag.requireParadigm r.paradigm).symbol (.stems r.paradigm)
  | .stems p, e => l.mode = .regular ∧ p = r.paradigm ∧ e = stemEntry r
  | .stemBoundary p c, e =>
    l.mode = .regular ∧ p = r.paradigm ∧ c = r.inflClass ∧
      e = ⟨.stemBoundary p c, epsilon, Boundary.closing.symbol, .prefixCheck p c⟩
  | .prefixCheck p c, e =>
    l.mode = .regular ∧ p = r.paradigm ∧ c = r.inflClass ∧
      e = .identity (.prefixCheck p c) (Flag.requirePrefix v.parts.pre).symbol
        (.orderCheck (l.endingKey r v))
  | .orderCheck k, e =>
    l.mode = .regular ∧ k = l.endingKey r v ∧
      e = .identity (.orderCheck k) (Flag.unifyOrder k.order).symbol (.endings k)
  | .endings k, e =>
    l.mode = .regular ∧ k = l.endingKey r v ∧
      e = ⟨.endings k, r.analysisTags, v.parts.post, .terminal⟩
  | .irregular p, e => l.mode = .irregular ∧ p = r.paradigm ∧ e = irregularEntry r v
  | .external _, _ | .terminal, _ => False

variable {l : Layout} {rootName : String} {r : Inflection} {v : Variant} {e : Entry}

/-- What a variant files in a sublexicon belongs to it. -/
theorem Files.source_eq {n : Sublexicon} (h : l.Files rootName r v n e) : e.source = n := by
  cases n with
  | root name => obtain ⟨-, rfl⟩ := h; rfl
  | prefixes p => obtain ⟨-, rfl, rfl⟩ := h; rfl
  | prefixBoundary p => obtain ⟨-, -, rfl⟩ := h; rfl
  | gate pos => obtain ⟨-, -, rfl⟩ := h; rfl
  | stems p => obtain ⟨-, rfl, rfl⟩ := h; rfl
  | stemBoundary p c => obtain ⟨-, -, -, rfl⟩ := h; rfl
  | prefixCheck p c => obtain ⟨-, -, -, rfl⟩ := h; rfl
  | orderCheck k => obtain ⟨-, -, rfl⟩ := h; rfl
  | endings k => obtain ⟨-, -, rfl⟩ := h; rfl
  | irregular p => obtain ⟨-, rfl, rfl⟩ := h; rfl
  | external name => exact h.elim
  | terminal => exact h.elim

/-- What a variant files leads to the end of the word, to a sublexicon that is
defined elsewhere, or to one where the same variant files an entry. -/
theorem Files.next_files {n : Sublexicon} (h : l.Files rootName r v n e) :
    e.next = .terminal ∨ (∃ name, e.next = .external name) ∨
      ∃ e', l.Files rootName r v e.next e' := by
  cases n with
  | root name =>
      obtain ⟨-, rfl⟩ := h
      refine Or.inr (Or.inr ?_)
      cases hmode : l.mode with
      | regular => exact ⟨prefixEntry r v, by simp [Entry.identity, afterRoot, hmode, Files]⟩
      | irregular => exact ⟨irregularEntry r v, by simp [Entry.identity, afterRoot, hmode, Files]⟩
  | prefixes p =>
      obtain ⟨hmode, -, rfl⟩ := h
      exact Or.inr (Or.inr ⟨_, hmode, rfl, rfl⟩)
  | prefixBoundary p =>
      obtain ⟨hmode, rfl, rfl⟩ := h
      rcases hslot : l.slot with _ | ⟨pos, _ | name⟩
      · exact Or.inr (Or.inr ⟨stemEntry r, by simp [afterPrefix, hslot, Files, hmode]⟩)
      · refine Or.inr (Or.inr ⟨.identity (.gate pos) (Flag.requireParadigm r.paradigm).symbol
          (.stems r.paradigm), ?_⟩)
        simp [afterPrefix, hslot, Files, hmode]
      · exact Or.inr (Or.inl ⟨name, by simp [afterPrefix, hslot]⟩)
  | gate pos =>
      obtain ⟨hmode, -, rfl⟩ := h
      exact Or.inr (Or.inr ⟨_, hmode, rfl, rfl⟩)
  | stems p =>
      obtain ⟨hmode, -, rfl⟩ := h
      exact Or.inr (Or.inr ⟨_, hmode, rfl, rfl, rfl⟩)
  | stemBoundary p c =>
      obtain ⟨hmode, hp, hc, rfl⟩ := h
      exact Or.inr (Or.inr ⟨_, hmode, hp, hc, rfl⟩)
  | prefixCheck p c =>
      obtain ⟨hmode, -, -, rfl⟩ := h
      exact Or.inr (Or.inr ⟨_, hmode, rfl, rfl⟩)
  | orderCheck k =>
      obtain ⟨hmode, hk, rfl⟩ := h
      exact Or.inr (Or.inr ⟨_, hmode, hk, rfl⟩)
  | endings k =>
      obtain ⟨-, -, rfl⟩ := h
      exact Or.inl rfl
  | irregular p =>
      obtain ⟨-, -, rfl⟩ := h
      exact Or.inl rfl
  | external name => exact h.elim
  | terminal => exact h.elim

/-- The entries of a chain are filed where they belong. -/
theorem files_of_mem_chainEntries (he : e ∈ Network.chainEntries rootName (l.chain r v)) :
    l.Files rootName r v e.source e := by
  obtain ⟨mode, slot, tags⟩ := l
  cases mode with
  | irregular =>
      simp only [Network.chainEntries, chain, Chain.entries, List.mem_cons, List.not_mem_nil,
        or_false] at he
      rcases he with rfl | rfl <;> simp [Files, afterRoot, Entry.identity, irregularEntry]
  | regular =>
      rcases slot with _ | ⟨pos, _ | name⟩ <;>
        simp only [Network.chainEntries, chain, Chain.entries, boundaryEntries, endingEntries,
          List.cons_append, List.nil_append, List.mem_cons, List.not_mem_nil, or_false] at he
      · rcases he with rfl | rfl | rfl | rfl | rfl | rfl | rfl | rfl <;>
          simp [Files, afterRoot, afterPrefix, Entry.identity, prefixEntry, stemEntry]
      · rcases he with rfl | rfl | rfl | rfl | rfl | rfl | rfl | rfl | rfl <;>
          simp [Files, afterRoot, afterPrefix, Entry.identity, prefixEntry, stemEntry]
      · rcases he with rfl | rfl | rfl | rfl | rfl | rfl | rfl | rfl | rfl <;>
          simp [Files, afterRoot, afterPrefix, Entry.identity, prefixEntry, stemEntry]

/-- What a variant files is on its chain. -/
theorem Files.mem_chainEntries {n : Sublexicon} (h : l.Files rootName r v n e) :
    e ∈ Network.chainEntries rootName (l.chain r v) := by
  obtain ⟨mode, slot, tags⟩ := l
  cases n with
  | root name =>
      obtain ⟨rfl, rfl⟩ := h
      cases mode <;> exact List.mem_cons_self
  | prefixes p =>
      obtain ⟨rfl, -, rfl⟩ := h
      exact List.mem_cons_of_mem _ List.mem_cons_self
  | prefixBoundary p =>
      obtain ⟨rfl, rfl, rfl⟩ := h
      rcases slot with _ | ⟨pos, _ | name⟩ <;>
        simp [Network.chainEntries, chain, Chain.entries, boundaryEntries, afterPrefix]
  | gate pos =>
      obtain ⟨rfl, hslot, rfl⟩ := h
      rcases slot with _ | ⟨pos', next⟩
      · cases hslot
      · obtain rfl : pos' = pos := Option.some.inj hslot
        simp [Network.chainEntries, chain, Chain.entries, boundaryEntries]
  | stems p =>
      obtain ⟨rfl, -, rfl⟩ := h
      simp [Network.chainEntries, chain, Chain.entries]
  | stemBoundary p c =>
      obtain ⟨rfl, rfl, rfl, rfl⟩ := h
      simp [Network.chainEntries, chain, Chain.entries, endingEntries]
  | prefixCheck p c =>
      obtain ⟨rfl, rfl, rfl, rfl⟩ := h
      simp [Network.chainEntries, chain, Chain.entries, endingEntries]
  | orderCheck k =>
      obtain ⟨rfl, rfl, rfl⟩ := h
      simp [Network.chainEntries, chain, Chain.entries, endingEntries]
  | endings k =>
      obtain ⟨rfl, rfl, rfl⟩ := h
      simp [Network.chainEntries, chain, Chain.entries, endingEntries]
  | irregular p =>
      obtain ⟨rfl, -, rfl⟩ := h
      exact List.mem_cons_of_mem _ List.mem_cons_self
  | external name => exact h.elim
  | terminal => exact h.elim

end Layout

/-- **Entries of a network of forms, by sublexicon.**  A sublexicon holds what
the variants of the forms file there. -/
theorem Network.mem_entries_iff_files {rootName : String} {fs : List (Layout × Inflection)}
    {e : Entry} :
    e ∈ (ofForms rootName fs).entries ↔
      ∃ f ∈ fs, ∃ v ∈ f.2.variants, f.1.Files rootName f.2 v e.source e := by
  rw [mem_entries_ofForms]
  constructor
  · intro h
    obtain ⟨f, hf, v, hv, he⟩ := h
    exact ⟨f, hf, v, hv, Layout.files_of_mem_chainEntries he⟩
  · intro h
    obtain ⟨f, hf, v, hv, hfiles⟩ := h
    exact ⟨f, hf, v, hv, hfiles.mem_chainEntries⟩

/-- **A form that adds nothing.**  After another one of the same layout, a form leaves the
network as it is exactly when the other one files all that it files. -/
theorem Network.ofForms_pair_eq_iff {rootName : String} {l : Layout} {r r' : Inflection} :
    ofForms rootName [(l, r), (l, r')] = ofForms rootName [(l, r)] ↔
      ∀ v ∈ r'.variants, ∀ n e, l.Files rootName r' v n e →
        ∃ v' ∈ r.variants, l.Files rootName r v' n e := by
  have hstep : ofForms rootName [(l, r), (l, r')] =
      (ofForms rootName [(l, r)]).insertAll ((l.chains r').flatMap (chainEntries rootName)) := by
    have hrootName : (ofForms rootName [(l, r)]).rootName = rootName :=
      Sublexicon.root.inj (root_ofForms rootName [(l, r)])
    have hextend : ofForms rootName [(l, r), (l, r')] =
        (ofForms rootName [(l, r)]).extend (l.chains r') := rfl
    rw [hextend, extend_eq_insertAll, hrootName]
  have hfirst : ∀ e, e ∈ (ofForms rootName [(l, r)]).entries ↔
      ∃ v' ∈ r.variants, l.Files rootName r v' e.source e := by
    intro e
    rw [mem_entries_iff_files]
    simp only [List.mem_singleton, exists_eq_left]
  rw [hstep, (wellFormed_ofForms rootName [(l, r)]).insertAll_eq_self_iff]
  constructor
  · intro h v hv n e hfiles
    have he : e ∈ (l.chains r').flatMap (chainEntries rootName) :=
      List.mem_flatMap.mpr ⟨_, List.mem_map_of_mem hv, hfiles.mem_chainEntries⟩
    rw [← hfiles.source_eq]
    exact (hfirst e).mp (h e he)
  · intro h e he
    obtain ⟨c, hc, hmem⟩ := List.mem_flatMap.mp he
    obtain ⟨v, hv, rfl⟩ := List.mem_map.mp hc
    exact (hfirst e).mpr (h v hv _ e (Layout.files_of_mem_chainEntries hmem))

end Morphotactics
