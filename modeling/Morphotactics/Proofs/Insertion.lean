import Morphotactics.Proofs.OrderAndMap

/-!
# Insertion

Whatever builds a network does so by inserting entries.  A chain is its own
entries after the root entry that leads into it, and a network that is merged
into another one is its entries under the root of the other.  This file says
what any list of insertions leaves behind.

`names_insertAll` gives the order of the sublexicons: each stands where its
first entry came up.  `mem_entries_insertAll` gives the entries, and
`InStep.parts_insertAll` the list that going through the network finds.
`WellFormed` is the invariant that every insertion keeps, and
`WellFormed.eq_of_entries` says that a well-formed network is known by its root,
the order of its sublexicons and the set of its entries.  `merge_eq_insertAll` says which entries
a merge inserts, and `mem_dangling` tells the ways on that a network lacks.
-/

namespace Morphotactics

/-! ## First occurrences -/

section FirstOccurrences

variable {α : Type} [DecidableEq α]

/-- A list without repetitions is its own list of first occurrences. -/
theorem eraseDups_of_nodup {l : List α} (h : l.Nodup) : l.eraseDups = l := by
  induction l with
  | nil => rfl
  | cons a l ih =>
      obtain ⟨ha, hl⟩ := List.nodup_cons.mp h
      have hkeep : (l.filter fun b => !b == a) = l := by
        apply List.filter_eq_self.mpr
        intro b hb
        have hne : b ≠ a := fun hba => ha (hba ▸ hb)
        simpa using hne
      rw [List.eraseDups_cons, hkeep, ih hl]

/-- Elements that came up before add nothing to the first occurrences. -/
theorem eraseDups_append_of_subset {l m : List α} (n : List α)
    (h : ∀ a ∈ m, a ∈ l) :
    (l ++ m ++ n).eraseDups = (l ++ n).eraseDups := by
  have hm : m.removeAll l = [] := by
    apply List.filter_eq_nil_iff.mpr
    intro a ha
    simpa using h a ha
  have hn : (m ++ n).removeAll l = n.removeAll l := by
    unfold List.removeAll at hm ⊢
    rw [List.filter_append, hm, List.nil_append]
  rw [List.append_assoc, List.eraseDups_append, hn, ← List.eraseDups_append]

/-- Only the first occurrences of a later list matter, also where the list is
renamed. -/
theorem eraseDups_append_map_eraseDups {β : Type} [DecidableEq β] (f : β → α)
    (l : List α) (m : List β) :
    (l ++ m.eraseDups.map f).eraseDups = (l ++ m.map f).eraseDups := by
  induction hn : m.length using Nat.strongRecOn generalizing l m with
  | ind n ih =>
      cases m with
      | nil => rfl
      | cons a m =>
          -- The recursion of `eraseDups` goes to a shorter list, not to the tail.
          have hshorter : (m.filter fun b => !b == a).length < n := by
            have hle := List.length_filter_le (fun b => !b == a) m
            rw [List.length_cons] at hn
            omega
          have hrepeat : (((m.filter fun b => !b == a).map f).removeAll (l ++ [f a])) =
              (m.map f).removeAll (l ++ [f a]) := by
            unfold List.removeAll
            rw [List.filter_map, List.filter_map, List.filter_filter]
            congr 2
            funext b
            by_cases hb : b = a
            · simp [hb]
            · simp [hb]
          calc (l ++ (a :: m).eraseDups.map f).eraseDups
              = (l ++ [f a] ++ (m.filter fun b => !b == a).eraseDups.map f).eraseDups := by
                rw [List.eraseDups_cons, List.map_cons, List.append_assoc, List.singleton_append]
            _ = (l ++ [f a] ++ (m.filter fun b => !b == a).map f).eraseDups :=
                ih _ hshorter _ _ rfl
            _ = (l ++ [f a] ++ m.map f).eraseDups := by
                rw [List.eraseDups_append, hrepeat, ← List.eraseDups_append]
            _ = (l ++ (a :: m).map f).eraseDups := by
                rw [List.append_assoc, List.singleton_append, List.map_cons]

end FirstOccurrences

namespace Network

/-- An insertion leaves the name of the root as it is. -/
@[simp] theorem rootName_insert (g : Network) (e : Entry) :
    (g.insert e).rootName = g.rootName := rfl

/-- An inserted entry opens its sublexicon at the end, unless it is there. -/
theorem InStep.names_insert {g : Network} (hg : g.InStep) (e : Entry) :
    (g.insert e).names = if e.source ∈ g.names then g.names else g.names ++ [e.source] :=
  if_congr (hg.agree e.source).symm rfl rfl

/-! ## Lists of insertions -/

/-- No insertions change nothing. -/
@[simp] theorem insertAll_nil (g : Network) : g.insertAll [] = g := rfl

/-- The first of several insertions comes first. -/
@[simp] theorem insertAll_cons (g : Network) (e : Entry) (es : List Entry) :
    g.insertAll (e :: es) = (g.insert e).insertAll es := rfl

/-- Insertions come one after the other. -/
theorem insertAll_append (g : Network) (es fs : List Entry) :
    g.insertAll (es ++ fs) = (g.insertAll es).insertAll fs :=
  List.foldl_append

/-- Insertions leave the name of the root as it is. -/
@[simp] theorem rootName_insertAll (g : Network) (es : List Entry) :
    (g.insertAll es).rootName = g.rootName := by
  induction es generalizing g with
  | nil => rfl
  | cons e es ih => rw [insertAll_cons, ih, rootName_insert]

/-- Insertions leave the root as it is. -/
@[simp] theorem root_insertAll (g : Network) (es : List Entry) :
    (g.insertAll es).root = g.root := by
  rw [root, rootName_insertAll, root]

/-- **Entries after insertions.**  They are the old ones and the inserted
ones; nothing is lost and nothing else comes up. -/
theorem mem_entries_insertAll {g : Network} {es : List Entry} {x : Entry} :
    x ∈ (g.insertAll es).entries ↔ x ∈ g.entries ∨ x ∈ es := by
  have hstep : ∀ (g : Network) (e : Entry), x ∈ (g.insert e).entries ↔ x ∈ g.entries ∨ x = e :=
    fun g e => mem_entries_insert.trans or_comm
  exact (foldl_iff_of_step_iff insert (x ∈ entries ·) hstep).trans (or_congr_right exists_eq_right')

/-- **Order of sublexicons.**  A sublexicon stands where the first entry came
up that belongs to it. -/
theorem names_insertAll {g : Network} (hg : g.InStep) (es : List Entry) :
    (g.insertAll es).names = (g.names ++ es.map Entry.source).eraseDups := by
  induction es generalizing g with
  | nil => simp [eraseDups_of_nodup hg.nodup]
  | cons e es ih =>
      rw [insertAll_cons, List.map_cons, ih (hg.insert e), hg.names_insert]
      by_cases he : e.source ∈ g.names
      · have hold : ∀ n ∈ [e.source], n ∈ g.names := by
          intro n hn
          rw [List.mem_singleton.mp hn]
          exact he
        rw [if_pos he, ← eraseDups_append_of_subset (es.map Entry.source) hold]
        simp
      · rw [if_neg he, List.append_assoc, List.singleton_append]

/-- **Simulation run.**  In step, insertions into a network are insertions into one list. -/
theorem InStep.parts_insertAll {g : Network} (hg : g.InStep) (es : List Entry) :
    (g.insertAll es).parts = insertAllInto es g.parts := by
  induction es generalizing g with
  | nil => rfl
  | cons e es ih =>
      rw [insertAll_cons, ih (hg.insert e), hg.parts_insert]
      rfl

/-- Insertions keep a network in step. -/
theorem InStep.insertAll {g : Network} (hg : g.InStep) (es : List Entry) :
    (g.insertAll es).InStep := by
  induction es generalizing g with
  | nil => exact hg
  | cons e es ih => exact ih (hg.insert e)

/-- The entries that a chain brings to a network whose root has a given name:
the root entry that leads into it, and its own. -/
def chainEntries (rootName : String) (c : Chain) : List Entry :=
  .identity (.root rootName) c.flag.symbol c.first.source :: c.entries

/-- Extending a network by chains is inserting their entries one after the
other. -/
theorem extend_eq_insertAll (g : Network) (cs : List Chain) :
    g.extend cs = g.insertAll (cs.flatMap (chainEntries g.rootName)) := by
  induction cs generalizing g with
  | nil => rfl
  | cons c cs ih =>
      have hstep : g.addChain c = g.insertAll (chainEntries g.rootName c) := rfl
      have hroot : (g.addChain c).rootName = g.rootName := by rw [hstep, rootName_insertAll]
      calc g.extend (c :: cs)
          = (g.addChain c).extend cs := rfl
        _ = (g.addChain c).insertAll (cs.flatMap (chainEntries g.rootName)) := by rw [ih, hroot]
        _ = g.insertAll ((c :: cs).flatMap (chainEntries g.rootName)) := by
            rw [hstep, List.flatMap_cons, insertAll_append]

/-! ## Well-formed networks -/

/-- What insertions keep: order and map are in step, the root stands first,
every entry stands in the sublexicon that it belongs to, and only the root may
be without entries. -/
structure WellFormed (g : Network) : Prop extends InStep g where
  rooted : g.names.head? = some g.root
  filed : ∀ n es, g.entriesOf? n = some es → ∀ e ∈ es, e.source = n
  inhabited : ∀ n es, g.entriesOf? n = some es → n ≠ g.root → es.toList ≠ []

/-- A new network is well-formed. -/
theorem wellFormed_ofRoot (name : String) : (ofRoot name).WellFormed where
  toInStep := inStep_ofRoot name
  rooted := rfl
  filed n es hes e he := by
    rw [entriesOf?_ofRoot] at hes
    split at hes
    · obtain rfl := Option.some.inj hes
      exact absurd he SortedSet.not_mem_empty
    · cases hes
  inhabited n es hes hne := by
    have hnone : (ofRoot name).entriesOf? n = none := (entriesOf?_ofRoot name n).trans (if_neg hne)
    rw [hnone] at hes
    cases hes

namespace WellFormed

variable {g : Network}

/-- The root is one of the sublexicons. -/
theorem root_mem_names (hg : g.WellFormed) : g.root ∈ g.names :=
  List.mem_of_head? hg.rooted

/-- **Insertion step.** -/
theorem insert (hg : g.WellFormed) (e : Entry) : (g.insert e).WellFormed where
  toInStep := hg.toInStep.insert e
  rooted := by
    have hroot : (g.insert e).root = g.root := rfl
    rw [hg.names_insert, hroot]
    split
    · exact hg.rooted
    · rw [List.head?_append, hg.rooted, Option.some_or]
  filed n es hes x hx := by
    rw [entriesOf?_insert] at hes
    split at hes
    · rename_i hn
      obtain rfl := Option.some.inj hes
      rcases SortedSet.mem_insert.mp hx with rfl | hold
      · exact hn.symm
      · cases hlookup : g.entriesOf? n with
        | none =>
            rw [hlookup] at hold
            exact absurd hold SortedSet.not_mem_empty
        | some old =>
            rw [hlookup] at hold
            exact hg.filed n old hlookup x hold
    · exact hg.filed n es hes x hx
  inhabited n es hes hne := by
    rw [entriesOf?_insert] at hes
    split at hes
    · obtain rfl := Option.some.inj hes
      exact List.ne_nil_of_mem (SortedSet.mem_insert.mpr (Or.inl rfl))
    · exact hg.inhabited n es hes hne

/-- **Insertion run.** -/
theorem insertAll (hg : g.WellFormed) (es : List Entry) : (g.insertAll es).WellFormed := by
  induction es generalizing g with
  | nil => exact hg
  | cons e es ih => exact ih (hg.insert e)

/-- Extending by chains keeps a network well-formed. -/
theorem extend (hg : g.WellFormed) (cs : List Chain) : (g.extend cs).WellFormed := by
  rw [extend_eq_insertAll]
  exact hg.insertAll _

/-- In a well-formed network the entries of a sublexicon are those that belong to it. -/
theorem mem_iff (hg : g.WellFormed) {n : Sublexicon} {es : SortedSet Entry}
    (hes : g.entriesOf? n = some es) {e : Entry} : e ∈ es ↔ e ∈ g.entries ∧ e.source = n := by
  constructor
  · intro he
    exact ⟨mem_entries.mpr ⟨n, es, hes, he⟩, hg.filed n es hes e he⟩
  · rintro ⟨he, hsource⟩
    obtain ⟨m, es', hes', hmem⟩ := mem_entries.mp he
    rw [← hg.filed m es' hes' e hmem, hsource, hes] at hes'
    exact Option.some.inj hes' ▸ hmem

/-- What an entry of a well-formed network belongs to is one of its sublexicons. -/
theorem source_mem_names (hg : g.WellFormed) {e : Entry} (he : e ∈ g.entries) :
    e.source ∈ g.names := by
  obtain ⟨n, es, hes, hmem⟩ := mem_entries.mp he
  rw [hg.filed n es hes e hmem]
  exact hg.mem_names_of_eq_some hes

/-- A sublexicon of a well-formed network, the root apart, has an entry. -/
theorem exists_mem_of_mem_names (hg : g.WellFormed) {n : Sublexicon} (hn : n ∈ g.names)
    (hroot : n ≠ g.root) : ∃ e ∈ g.entries, e.source = n := by
  obtain ⟨es, hes⟩ := hg.exists_of_mem_names hn
  obtain ⟨e, he⟩ := List.exists_mem_of_ne_nil _ (hg.inhabited n es hes hroot)
  exact ⟨e, mem_entries.mpr ⟨n, es, hes, he⟩, hg.filed n es hes e he⟩

/-- A sublexicon of a well-formed network is the root, or some entry belongs to
it. -/
theorem mem_names_iff (hg : g.WellFormed) {n : Sublexicon} :
    n ∈ g.names ↔ n = g.root ∨ ∃ e ∈ g.entries, e.source = n := by
  constructor
  · intro hn
    by_cases hroot : n = g.root
    · exact Or.inl hroot
    · exact Or.inr (hg.exists_mem_of_mem_names hn hroot)
  · rintro (rfl | ⟨e, he, rfl⟩)
    · exact hg.root_mem_names
    · exact hg.source_mem_names he

/-- A well-formed network is written down by the order of its sublexicons and
the set of its entries. -/
theorem parts_eq (hg : g.WellFormed) :
    g.parts = g.names.map fun n =>
      (n, SortedSet.ofList (g.entries.filter fun e => e.source = n)) := by
  rw [parts, ← List.filterMap_eq_map]
  refine List.filterMap_congr fun n hn => ?_
  obtain ⟨es, hes⟩ := hg.exists_of_mem_names hn
  have hset : es = SortedSet.ofList (g.entries.filter fun e => e.source = n) := by
    refine SortedSet.ext fun e => ?_
    rw [hg.mem_iff hes, SortedSet.mem_ofList, List.mem_filter, decide_eq_true_iff]
  rw [hes, Option.map_some, hset]
  rfl

/-- **Extensionality.**  Two well-formed networks are equal when they have the
same root, the same sublexicons in the same order, and the same entries. -/
theorem eq_of_entries {h : Network} (hg : g.WellFormed) (hh : h.WellFormed)
    (hroot : g.rootName = h.rootName) (hnames : g.names = h.names)
    (hentries : ∀ e, e ∈ g.entries ↔ e ∈ h.entries) : g = h := by
  refine hg.eq_of_parts hh.toInStep hroot ?_
  rw [hg.parts_eq, hh.parts_eq, hnames]
  refine List.map_congr_left fun n _ => Prod.ext rfl (SortedSet.ext fun e => ?_)
  rw [SortedSet.mem_ofList, SortedSet.mem_ofList, List.mem_filter, List.mem_filter, hentries]

/-- A well-formed network stays as it is when it has all that is inserted, and only
then. -/
theorem insertAll_eq_self_iff (hg : g.WellFormed) {es : List Entry} :
    g.insertAll es = g ↔ ∀ e ∈ es, e ∈ g.entries := by
  constructor
  · intro h e he
    rw [← h]
    exact mem_entries_insertAll.mpr (Or.inr he)
  · intro h
    refine (hg.insertAll es).eq_of_entries hg (rootName_insertAll g es) ?_ fun e => ?_
    · have hold : ∀ n ∈ es.map Entry.source, n ∈ g.names := by
        intro n hn
        obtain ⟨e, he, rfl⟩ := List.mem_map.mp hn
        exact hg.source_mem_names (h e he)
      have hnames := eraseDups_append_of_subset [] hold
      rw [List.append_nil, List.append_nil] at hnames
      rw [names_insertAll hg.toInStep, hnames, eraseDups_of_nodup hg.nodup]
    · rw [mem_entries_insertAll]
      exact ⟨fun hmem => hmem.elim id (h e), Or.inl⟩

end WellFormed

end Network

/-! ## Merging -/

namespace Network

variable {g other : Network}

/-- The entries that a merge finds when it goes through names and takes what they have out of a
map. -/
def takenEntries : List Sublexicon → SortedMap Sublexicon (SortedSet Entry) → List Entry
  | [], _ => []
  | n :: ns, lexicons =>
    match lexicons.get? n with
    | some es => es.toList ++ takenEntries ns (lexicons.erase n)
    | none => takenEntries ns lexicons

/-- Taking over sublexicons is inserting the entries that are found, under this root. -/
theorem takeOver_eq_insertAll (g other : Network) (ns : List Sublexicon)
    (lexicons : SortedMap Sublexicon (SortedSet Entry)) :
    takeOver other ns lexicons g =
      g.insertAll ((takenEntries ns lexicons).map (g.adopt other)) := by
  induction ns generalizing lexicons g with
  | nil => rfl
  | cons n ns ih =>
      rw [takeOver, takenEntries]
      cases lexicons.get? n with
      | none => exact ih g lexicons
      | some es =>
          have hadopt : (g.insertAll (es.toList.map (g.adopt other))).adopt other =
              g.adopt other := by
            funext e
            rw [adopt, adopt, root_insertAll]
          simp only [ih, hadopt, List.map_append, insertAll_append]

/-- Names that come up once each find what the map has for them: what was taken out belonged to
others. -/
theorem takenEntries_of_nodup {ns : List Sublexicon} (hns : ns.Nodup)
    (lexicons : SortedMap Sublexicon (SortedSet Entry)) :
    takenEntries ns lexicons =
      ns.flatMap fun n => ((lexicons.get? n).getD SortedSet.empty).toList := by
  induction ns generalizing lexicons with
  | nil => rfl
  | cons n ns ih =>
      obtain ⟨hn, hns'⟩ := List.nodup_cons.mp hns
      have hleft : (ns.flatMap fun m => (((lexicons.erase n).get? m).getD SortedSet.empty).toList) =
          ns.flatMap fun m => ((lexicons.get? m).getD SortedSet.empty).toList := by
        refine List.flatMap_congr fun m hm => ?_
        have hne : m ≠ n := fun heq => hn (heq ▸ hm)
        rw [SortedMap.get?_erase, if_neg hne]
      rw [takenEntries, List.flatMap_cons]
      split
      · rename_i es hes
        rw [hes, ih hns', hleft, Option.getD_some]
      · rename_i hnone
        rw [hnone, ih hns']
        rfl

/-- Going through a network part by part finds what its map has for the names of its order. -/
theorem flatMap_parts (g : Network) :
    (g.parts.flatMap fun p => p.2.toList) =
      g.names.flatMap fun n => ((g.entriesOf? n).getD SortedSet.empty).toList := by
  rw [parts]
  induction g.names with
  | nil => rfl
  | cons n ns ih =>
      cases hes : g.entriesOf? n <;> simp [hes, ih, SortedSet.empty]

/-- **Merging.**  A network in step is merged into another one by inserting its entries under the
other root, part by part in the order of its sublexicons.  None is passed over. -/
theorem merge_eq_insertAll (g : Network) (hother : other.InStep) :
    g.merge other =
      g.insertAll ((other.parts.flatMap fun p => p.2.toList).map (g.adopt other)) := by
  rw [merge, takeOver_eq_insertAll, takenEntries_of_nodup hother.nodup, flatMap_parts]
  rfl

/-- Every merge is insertions. -/
theorem exists_merge_eq_insertAll (g other : Network) : ∃ es, g.merge other = g.insertAll es :=
  ⟨_, takeOver_eq_insertAll g other _ _⟩

/-- Merging keeps a network well-formed. -/
theorem WellFormed.merge (hg : g.WellFormed) (other : Network) : (g.merge other).WellFormed := by
  obtain ⟨es, hes⟩ := exists_merge_eq_insertAll g other
  rw [hes]
  exact hg.insertAll es

/-- Going through a network in step finds its entries. -/
theorem InStep.mem_flatMap_parts (hg : g.InStep) {e : Entry} :
    e ∈ (g.parts.flatMap fun p => p.2.toList) ↔ e ∈ g.entries :=
  (hg.parts_perm_toList.flatMap_right _).mem_iff

end Network

/-! ## Ways on that are missing -/

/-- A sublexicon that a network has to define itself: not the end of the word, and
not one that is defined elsewhere. -/
def Sublexicon.IsOwn (n : Sublexicon) : Prop := n ≠ .terminal ∧ ∀ name, n ≠ .external name

namespace Network

variable {g : Network} {n : Sublexicon}

/-- A network in step lacks the sublexicons that it has to define and that are not in its order. -/
theorem InStep.lacks_eq_true_iff (hg : g.InStep) : g.lacks n = true ↔ n.IsOwn ∧ n ∉ g.names := by
  rw [hg.agree]
  cases n <;> simp [lacks, Sublexicon.IsOwn]

/-- What dangles: a sublexicon that some entry leads to, and that the network has to
define but does not. -/
theorem InStep.mem_dangling (hg : g.InStep) :
    n ∈ g.dangling ↔ (∃ e ∈ g.entries, e.next = n) ∧ n.IsOwn ∧ n ∉ g.names := by
  rw [dangling, SortedSet.mem_ofList, List.mem_filter, List.mem_map, hg.lacks_eq_true_iff]

end Network

end Morphotactics
