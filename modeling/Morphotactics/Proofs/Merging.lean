import Morphotactics.Proofs.Growth
import Morphotactics.Proofs.Sharding

/-!
# Ways on after a merge

A merge files the entries of the other root under this root, but it leaves where
entries lead to as it is.  All other sublexicons keep their names, so a way on that
either network had is still there, with one exception: an entry of the other network
that leads back to the other root.  That root is not there any more, unless this
network happens to have a sublexicon of its name.

`Network.mem_dangling_merge` tells all ways that dangle after a merge, and
`nothing_stranded_iff` says when none of them is new.
-/

namespace Morphotactics

namespace Network

variable {g other : Network} {n : Sublexicon}

/-! ## Entries and sublexicons of a merge -/

/-- A merge has the entries of both networks, those of the other one under this root. -/
theorem mem_entries_merge (hother : other.InStep) {e : Entry} :
    e ∈ (g.merge other).entries ↔ e ∈ g.entries ∨ ∃ x ∈ other.entries, g.adopt other x = e := by
  rw [merge_eq_insertAll g hother, mem_entries_insertAll, List.mem_map]
  simp only [hother.mem_flatMap_parts]

/-- An entry leads to where it led. -/
theorem next_adopt (g other : Network) (e : Entry) : (g.adopt other e).next = e.next := by
  unfold adopt
  split <;> rfl

/-- Entries lead to the same sublexicons before and after. -/
theorem exists_next_merge_iff (hother : other.InStep) :
    (∃ e ∈ (g.merge other).entries, e.next = n) ↔
      (∃ e ∈ g.entries, e.next = n) ∨ ∃ e ∈ other.entries, e.next = n := by
  constructor
  · rintro ⟨e, he, rfl⟩
    rcases (mem_entries_merge hother).mp he with hown | ⟨x, hx, rfl⟩
    · exact Or.inl ⟨e, hown, rfl⟩
    · exact Or.inr ⟨x, hx, (next_adopt g other x).symm⟩
  · rintro (⟨e, he, rfl⟩ | ⟨x, hx, rfl⟩)
    · exact ⟨e, (mem_entries_merge hother).mpr (Or.inl he), rfl⟩
    · exact ⟨_, (mem_entries_merge hother).mpr (Or.inr ⟨x, hx, rfl⟩), next_adopt g other x⟩

/-- A merge has the sublexicons of both networks, apart from the other root. -/
theorem mem_names_merge (hg : g.WellFormed) (hother : other.WellFormed) :
    n ∈ (g.merge other).names ↔ n ∈ g.names ∨ (n ∈ other.names ∧ n ≠ other.root) := by
  have hmerge : (g.merge other).WellFormed := hg.merge other
  have hroot : (g.merge other).root = g.root := (GrowsTo.merge g other).root
  rw [hmerge.mem_names_iff, hroot]
  constructor
  · rintro (rfl | ⟨e, he, rfl⟩)
    · exact Or.inl hg.root_mem_names
    · rcases (mem_entries_merge hother.toInStep).mp he with hown | ⟨x, hx, rfl⟩
      · exact Or.inl (hg.source_mem_names hown)
      · rw [source_adopt, adoptName]
        split
        · exact Or.inl hg.root_mem_names
        · rename_i hne
          exact Or.inr ⟨hother.source_mem_names hx, hne⟩
  · rintro (hn | ⟨hn, hne⟩)
    · rcases hg.mem_names_iff.mp hn with rfl | ⟨e, he, rfl⟩
      · exact Or.inl rfl
      · exact Or.inr ⟨e, (mem_entries_merge hother.toInStep).mpr (Or.inl he), rfl⟩
    · obtain ⟨x, hx, rfl⟩ := hother.exists_mem_of_mem_names hn hne
      refine Or.inr ⟨_, (mem_entries_merge hother.toInStep).mpr (Or.inr ⟨x, hx, rfl⟩), ?_⟩
      rw [source_adopt, adoptName, if_neg hne]

/-- **What dangles after a merge**: a sublexicon that an entry of either network leads
to, and that this network lacks and the other one lacks too or has as its root. -/
theorem mem_dangling_merge (hg : g.WellFormed) (hother : other.WellFormed) :
    n ∈ (g.merge other).dangling ↔
      ((∃ e ∈ g.entries, e.next = n) ∨ ∃ e ∈ other.entries, e.next = n) ∧
        n.IsOwn ∧ n ∉ g.names ∧ (n ∈ other.names → n = other.root) := by
  rw [(hg.merge other).mem_dangling, exists_next_merge_iff hother.toInStep,
    mem_names_merge hg hother, not_or, not_and, not_not]

/-- Only the other root can be stranded by a merge. -/
theorem dangled_before_or_eq_root (hg : g.WellFormed) (hother : other.WellFormed)
    (hn : n ∈ (g.merge other).dangling) :
    n ∈ g.dangling ∨ n ∈ other.dangling ∨ n = other.root := by
  obtain ⟨hleads, hown, hlacks, hroot⟩ := (mem_dangling_merge hg hother).mp hn
  rcases hleads with hhere | hthere
  · exact Or.inl (hg.mem_dangling.mpr ⟨hhere, hown, hlacks⟩)
  · by_cases hdefined : n ∈ other.names
    · exact Or.inr (Or.inr (hroot hdefined))
    · exact Or.inr (Or.inl (hother.mem_dangling.mpr ⟨hthere, hown, hdefined⟩))

/-- The other root dangles after a merge when an entry leads to it, unless this network
has it. -/
theorem root_mem_dangling_merge (hg : g.WellFormed) (hother : other.WellFormed)
    (hleads : ∃ e ∈ other.entries, e.next = other.root) (hlacks : other.root ∉ g.names) :
    other.root ∈ (g.merge other).dangling :=
  (mem_dangling_merge hg hother).mpr ⟨Or.inr hleads, ⟨nofun, nofun⟩, hlacks, fun _ => rfl⟩

end Network

/-- **What a merge leaves dangling.**  Two networks came about by any operations, under
any roots.  After one is merged into the other, nothing dangles that dangled in neither
of them before, except perhaps the root of the network that was merged in.  That root is
stranded exactly when an entry of its network leads back to it, and the network into
which it was merged has no sublexicon of its name and did not lead there before. -/
theorem nothing_stranded_iff {g other : Network} (hg : g.Reachable) (hother : other.Reachable) :
    (∀ n ∈ (g.merge other).dangling, n ∈ g.dangling ∨ n ∈ other.dangling ∨ n = other.root) ∧
      ((∀ n ∈ (g.merge other).dangling, n ∈ g.dangling ∨ n ∈ other.dangling) ↔
        ((∃ e ∈ other.entries, e.next = other.root) →
          other.root ∈ g.names ∨ other.root ∈ g.dangling)) := by
  have hg' : g.WellFormed := hg.wellFormed
  have hother' : other.WellFormed := hother.wellFormed
  -- the other network has its root, so the root did not dangle there
  have hrooted : other.root ∉ other.dangling := fun hroot =>
    (hother'.mem_dangling.mp hroot).2.2 hother'.root_mem_names
  refine ⟨fun n hn => Network.dangled_before_or_eq_root hg' hother' hn, ⟨?_, ?_⟩⟩
  · intro hnone hleads
    by_cases hnames : other.root ∈ g.names
    · exact Or.inl hnames
    · have hstranded := Network.root_mem_dangling_merge hg' hother' hleads hnames
      exact Or.inr ((hnone _ hstranded).resolve_right hrooted)
  · intro hkept n hn
    rcases Network.dangled_before_or_eq_root hg' hother' hn with hhere | hthere | rfl
    · exact Or.inl hhere
    · exact Or.inr hthere
    · obtain ⟨hleads, hown, hlacks, -⟩ := (Network.mem_dangling_merge hg' hother').mp hn
      rcases hleads with hhere | hthere
      · exact Or.inl (hg'.mem_dangling.mpr ⟨hhere, hown, hlacks⟩)
      · exact Or.inl ((hkept hthere).resolve_left hlacks)

/-- A shard with a loop to its root is merged into a network of the same root, and leaves
only the stem boundary dangling that it lacked itself. -/
theorem nothing_stranded_of_same_root :
    let g := (Network.ofRoot "Noun").insert ⟨.root "Noun", "0", "0", .stems "NA"⟩
    let other := ((Network.ofRoot "Noun").insert ⟨.stems "NA", "a", "a", .root "Noun"⟩).insert
      ⟨.stems "NA", "makwa", "makw", .stemBoundary "NA" "NA_C"⟩
    g.Reachable ∧ other.Reachable ∧
      (∃ e ∈ other.entries, e.next = other.root) ∧ other.root ∈ g.names ∧
      (g.merge other).dangling.toList = [.stemBoundary "NA" "NA_C"] ∧
      ∀ n ∈ (g.merge other).dangling, n ∈ g.dangling ∨ n ∈ other.dangling := by
  intro g other
  have hg : g.Reachable := .insert (.ofRoot "Noun") _
  have hother : other.Reachable := .insert (.insert (.ofRoot "Noun") _) _
  have hnames : other.root ∈ g.names := by decide +kernel
  exact ⟨hg, hother, by decide +kernel, hnames, by decide +kernel,
    (nothing_stranded_iff hg hother).2.mpr fun _ => Or.inl hnames⟩

/-- A shard has an entry that leads back to its root.  Neither the shard nor the network
that takes it in has anything dangling, but afterwards the root of the shard is. -/
theorem shard_root_is_stranded :
    let g := Network.ofRoot "Noun"
    let other := (Network.ofRoot "Shard").insert ⟨.stems "NA", "a", "a", .root "Shard"⟩
    g.Reachable ∧ other.Reachable ∧ g.dangling.toList = [] ∧ other.dangling.toList = [] ∧
      (g.merge other).dangling.toList = [.root "Shard"] := by
  exact ⟨.ofRoot "Noun", .insert (.ofRoot "Shard") _, by decide +kernel, by decide +kernel,
    by decide +kernel⟩

end Morphotactics
