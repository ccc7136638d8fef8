import Morphotactics.Proofs.DictionaryStems
import Morphotactics.Proofs.SourceLines

/-!
# Networks grow

A network starts as a root and is changed by four operations: inserting an entry,
extending by chains, merging in another network, which came about in the same way
under a root of its own, and adding a dictionary.  Whatever the operations were and
however often networks were merged into each other, the network stays in order:
the root stands first, looking sublexicons up and going through them agree, and
every entry is found in the sublexicon that it belongs to, in its place.

Each operation is a run of insertions, so it is enough to know what one insertion
does.  `Network.entriesOf?_insert` says it for look-ups, and `Network.GrowsTo` is
what it keeps: no sublexicon changes its place, and no entry is taken away or moved.
-/

namespace Morphotactics

namespace Network

/-- A network that came about by operations from a root.  What is merged in came
about so as well. -/
inductive Reachable : Network → Prop
  | ofRoot (name : String) : Reachable (ofRoot name)
  | insert {g : Network} (hg : Reachable g) (e : Entry) : Reachable (g.insert e)
  | extend {g : Network} (hg : Reachable g) (cs : List Chain) : Reachable (g.extend cs)
  | merge {g other : Network} (hg : Reachable g) (hother : Reachable other) :
      Reachable (g.merge other)
  | addTo {g : Network} (hg : Reachable g) (d : Dictionary) (classify : Classifier) :
      Reachable (d.addTo classify g).network

/-- A later network: the root is the same, the sublexicons that were there stand
where they stood, and each has at least the entries that it had. -/
structure GrowsTo (g h : Network) : Prop where
  root : h.root = g.root
  names : g.names <+: h.names
  entries : ∀ n es, g.entriesOf? n = some es →
    ∃ es', h.entriesOf? n = some es' ∧ ∀ e ∈ es, e ∈ es'

/-! ## Growing -/

/-- Looking up after insertions: a sublexicon has the entries that belong to it besides
those that it had, and one to which none of them belongs is as it was. -/
theorem entriesOf?_insertAll (g : Network) (es : List Entry) (n : Sublexicon) :
    (g.insertAll es).entriesOf? n =
      if ∃ e ∈ es, e.source = n then
        some (((g.entriesOf? n).getD SortedSet.empty).insertAll (es.filter fun e => e.source = n))
      else g.entriesOf? n := by
  induction es generalizing g with
  | nil => simp
  | cons e es ih =>
      rw [insertAll_cons, ih, entriesOf?_insert]
      by_cases he : e.source = n
      · have hhas : ∃ e' ∈ e :: es, e'.source = n := ⟨e, List.mem_cons_self, he⟩
        have hfilter : ((e :: es).filter fun e => e.source = n) =
            e :: es.filter fun e => e.source = n := List.filter_cons_of_pos (decide_eq_true he)
        rw [if_pos he.symm, if_pos hhas, hfilter, Option.getD_some]
        split
        · rfl
        · rename_i hes
          have hnil : (es.filter fun e => e.source = n) = [] :=
            List.filter_eq_nil_iff.mpr fun e' he' hn => hes ⟨e', he', of_decide_eq_true hn⟩
          rw [hnil]
          rfl
      · have hfilter : ((e :: es).filter fun e => e.source = n) =
            es.filter fun e => e.source = n := List.filter_cons_of_neg (by simpa using he)
        rw [if_neg (Ne.symm he), hfilter]
        simp only [List.mem_cons, exists_eq_or_imp, he, false_or]

namespace GrowsTo

variable {g h k : Network}

/-- A network grows to itself. -/
theorem refl (g : Network) : g.GrowsTo g :=
  ⟨rfl, List.prefix_refl _, fun _ es hes => ⟨es, hes, fun _ he => he⟩⟩

/-- Growing goes on. -/
theorem trans (hgh : g.GrowsTo h) (hhk : h.GrowsTo k) : g.GrowsTo k where
  root := hhk.root.trans hgh.root
  names := hgh.names.trans hhk.names
  entries := by
    intro n es hes
    obtain ⟨es', hes', hsub⟩ := hgh.entries n es hes
    obtain ⟨es'', hes'', hsub'⟩ := hhk.entries n es' hes'
    exact ⟨es'', hes'', fun e he => hsub' e (hsub e he)⟩

/-- **Insertion step.** -/
theorem insert (g : Network) (e : Entry) : g.GrowsTo (g.insert e) where
  root := rfl
  names := by
    rw [Network.insert]
    split
    · exact List.prefix_refl _
    · exact List.prefix_append _ _
  entries := by
    intro n es hes
    rw [entriesOf?_insert, hes]
    by_cases hn : n = e.source
    · refine ⟨es.insert e, by simp [hn], fun e' he' => ?_⟩
      exact SortedSet.mem_insert.mpr (Or.inr he')
    · exact ⟨es, by simp [hn], fun e' he' => he'⟩

/-- **Insertion run.** -/
theorem insertAll (g : Network) (es : List Entry) : g.GrowsTo (g.insertAll es) := by
  induction es generalizing g with
  | nil => exact refl g
  | cons e es ih => exact (insert g e).trans (ih (g.insert e))

/-- Extending by chains makes a network grow. -/
theorem extend (g : Network) (cs : List Chain) : g.GrowsTo (g.extend cs) := by
  rw [extend_eq_insertAll]
  exact insertAll g _

/-- Merging makes a network grow, whatever the other one is. -/
theorem merge (g other : Network) : g.GrowsTo (g.merge other) := by
  obtain ⟨es, hes⟩ := exists_merge_eq_insertAll g other
  rw [hes]
  exact insertAll g es

/-- Adding a dictionary makes a network grow. -/
theorem addTo (g : Network) (d : Dictionary) (classify : Classifier) :
    g.GrowsTo (d.addTo classify g).network := by
  obtain ⟨es, hes, -⟩ := d.hasMoreStems_addTo classify g
  rw [hes]
  exact insertAll g es

end GrowsTo

/-! ## Networks in order -/

/-- **Reachable networks are well-formed.** -/
theorem Reachable.wellFormed {g : Network} (h : g.Reachable) : g.WellFormed := by
  induction h with
  | ofRoot name => exact wellFormed_ofRoot name
  | insert _ e ih => exact ih.insert e
  | extend _ cs ih => exact ih.extend cs
  | @merge _ other _ _ ih _ => exact ih.merge other
  | @addTo g _ d classify ih =>
      obtain ⟨es, hes, -⟩ := d.hasMoreStems_addTo classify g
      rw [hes]
      exact ih.insertAll es

/-- A later network has all entries of an earlier one. -/
theorem GrowsTo.mem_entries {g h : Network} (hgrows : g.GrowsTo h) {e : Entry}
    (he : e ∈ g.entries) : e ∈ h.entries := by
  obtain ⟨n, es, hes, hmem⟩ := Network.mem_entries.mp he
  obtain ⟨es', hes', hsub⟩ := hgrows.entries n es hes
  exact Network.mem_entries.mpr ⟨n, es', hes', hsub e hmem⟩

end Network

/-- **Networks stay in order.**  Take any network that came about by insertions,
extensions, merges and dictionaries.  Its root stands first, and no sublexicon
stands twice; the order names just the keys of the map, so that going through the
network comes by every sublexicon of the order and by all that the map has, each
once.  A sublexicon holds entries of its own only, strictly ascending by what is
seen on their lines, and is not empty unless it is the root.

Whichever operation comes next, the order of the sublexicons goes on from where it was
and all entries stay where they are.  For who goes through the network, insertions come
to insertions into one list of sublexicons with their entries, and a merge inserts all
that going through the other network finds. -/
theorem reachable_network {g : Network} (hg : g.Reachable) :
    (g.names.head? = some g.root ∧ g.names.Nodup) ∧
    ((∀ n, n ∈ g.names ↔ g.defines n = true) ∧
      g.parts.map Prod.fst = g.names ∧ g.parts.Perm g.lexicons.toList) ∧
    (∀ n es, g.entriesOf? n = some es →
      (∀ e ∈ es, e.source = n) ∧ es.toList.Pairwise Entry.Precedes ∧
        (n ≠ g.root → es.toList ≠ [])) ∧
    (∀ e, g.GrowsTo (g.insert e)) ∧ (∀ cs, g.GrowsTo (g.extend cs)) ∧
    (∀ other : Network, other.Reachable → g.GrowsTo (g.merge other)) ∧
    (∀ (d : Dictionary) (classify : Classifier), g.GrowsTo (d.addTo classify g).network) ∧
    (∀ es, (g.insertAll es).parts = insertAllInto es g.parts) ∧
    ∀ other : Network, other.Reachable → g.merge other =
      g.insertAll ((other.parts.flatMap fun p => p.2.toList).map (g.adopt other)) := by
  have hwell : g.WellFormed := hg.wellFormed
  refine ⟨⟨hwell.rooted, hwell.nodup⟩,
    ⟨hwell.agree, hwell.map_fst_parts, hwell.parts_perm_toList⟩, ?_,
    Network.GrowsTo.insert g, Network.GrowsTo.extend g,
    fun other _ => Network.GrowsTo.merge g other,
    Network.GrowsTo.addTo g, hwell.parts_insertAll, fun other hother =>
      Network.merge_eq_insertAll g hother.wellFormed.toInStep⟩
  intro n es hes
  have hfiled : ∀ e ∈ es, e.source = n := hwell.filed n es hes
  exact ⟨hfiled, pairwise_precedes hfiled, hwell.inhabited n es hes⟩

/-- A network with a stem of its own takes in another one that was built under
another root and brings the same paradigm. -/
theorem reachable_network_of_merge :
    let l : Layout := ⟨.regular, none, .standard⟩
    let r : Inflection := ⟨"VTA", "VTA_C", "aaba'", "aaba'w", ["+VTA", "+Ind"],
      [⟨"niaaba'waa", ⟨"ni", "aaba'w", "aa"⟩⟩]⟩
    let other := (Network.ofRoot "Shard").extend (l.chains r)
    let g := ((Network.ofRoot "VerbRoot").insert
      ⟨.stems "VTA", "waabam", "waabam", .stemBoundary "VTA" "VTA_C"⟩).merge other
    g.Reachable ∧ g.size = 8 ∧ g.names.head? = some (.root "VerbRoot") ∧ g.names.Nodup ∧
      g.parts.map Prod.fst = g.names ∧
      ∀ n es, g.entriesOf? n = some es → ∀ e ∈ es, e.source = n := by
  intro l r other g
  have hg : g.Reachable :=
    .merge (.insert (.ofRoot "VerbRoot") _) (.extend (.ofRoot "Shard") (l.chains r))
  have horder := reachable_network hg
  have hroot : g.root = .root "VerbRoot" := by decide +kernel
  exact ⟨hg, by decide +kernel, hroot ▸ horder.1.1, horder.1.2, horder.2.1.2.1,
    fun n es hes => (horder.2.2.1 n es hes).1⟩

end Morphotactics
