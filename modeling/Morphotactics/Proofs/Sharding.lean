import Morphotactics.LexcSource
import Morphotactics.Proofs.Forms

/-!
# Building in shards

Steps of a build may be split between shards.  Each shard builds a network and
an alphabet of its own, and these are merged afterwards.  The main theorem says
that nothing tells the result from that of one build which takes all steps in
order: the networks agree in their root, in the entries of every sublexicon and
in the order of the sublexicons, and so do the alphabets and the sources that
are written from them.

The order is the delicate part.  Merging goes through the other network one
sublexicon after the other, each in ascending order, while a build opens the
sublexicons as the entries of its chains come up.  `names_insertAll` reduces
both orders to first occurrences, and `eraseDups_append_parts` shows that the
entries of a well-formed network have the same first occurrences as the
history which built it.
-/

namespace Morphotactics

/-- A step of building a network. -/
inductive Network.Step where
  | insert (e : Entry)
  | extend (cs : List Chain)

namespace Network

/-- The network after a step. -/
def apply (g : Network) : Step → Network
  | .insert e => g.insert e
  | .extend cs => g.extend cs

/-- The network after steps, one after the other. -/
def steps (g : Network) (ss : List Step) : Network := ss.foldl apply g

/-- The entries that a step brings to a network whose root has a given name. -/
def Step.entries (rootName : String) : Step → List Entry
  | .insert e => [e]
  | .extend cs => cs.flatMap (chainEntries rootName)

/-- A step that extends a network by chains which were laid out from forms. -/
def Step.IsLaidOut : Step → Prop
  | .insert _ => False
  | .extend cs => ∀ c ∈ cs, ∃ (l : Layout) (r : Inflection), c ∈ l.chains r

/-- Steps are taken one after the other. -/
theorem steps_append (g : Network) (xs ys : List Step) :
    g.steps (xs ++ ys) = (g.steps xs).steps ys :=
  List.foldl_append

/-- A step inserts its entries. -/
theorem apply_eq_insertAll (g : Network) (s : Step) :
    g.apply s = g.insertAll (s.entries g.rootName) := by
  cases s with
  | insert e => rfl
  | extend cs => exact extend_eq_insertAll g cs

/-- Steps are insertions of their entries, one after the other. -/
theorem steps_eq_insertAll (g : Network) (ss : List Step) :
    g.steps ss = g.insertAll (ss.flatMap (Step.entries g.rootName)) := by
  induction ss generalizing g with
  | nil => rfl
  | cons s ss ih =>
      have hroot : (g.apply s).rootName = g.rootName := by
        rw [apply_eq_insertAll, rootName_insertAll]
      calc g.steps (s :: ss)
          = (g.apply s).steps ss := rfl
        _ = (g.apply s).insertAll (ss.flatMap (Step.entries g.rootName)) := by rw [ih, hroot]
        _ = g.insertAll ((s :: ss).flatMap (Step.entries g.rootName)) := by
            rw [apply_eq_insertAll, List.flatMap_cons, insertAll_append]

/-! ## Merging is replaying -/

/-- The sublexicon of another network as a sublexicon of this one. -/
def adoptName (g other : Network) (n : Sublexicon) : Sublexicon :=
  if n = other.root then g.root else n

/-- An entry that is taken over belongs to the sublexicon that is taken over. -/
theorem source_adopt (g other : Network) (e : Entry) :
    (g.adopt other e).source = g.adoptName other e.source := by
  unfold adopt adoptName
  split <;> rfl

/-- Going through parts sublexicon by sublexicon, the entries come up in the
order of the sublexicons.  Sublexicons without entries are missed, so they must
have come up before. -/
theorem eraseDups_append_flatMap (f : Sublexicon → Sublexicon) :
    ∀ (ps : List (Sublexicon × SortedSet Entry)) (l : List Sublexicon),
      (∀ p ∈ ps, ∀ e ∈ p.2, e.source = p.1) →
      (∀ p ∈ ps, p.2.toList = [] → f p.1 ∈ l) →
      (l ++ (ps.flatMap fun p => p.2.toList).map (fun e => f e.source)).eraseDups =
        (l ++ ps.map fun p => f p.1).eraseDups := by
  intro ps
  induction ps with
  | nil => intro l _ _; rfl
  | cons p ps ih =>
      intro l hfiled hempty
      have hfiled' : ∀ q ∈ ps, ∀ e ∈ q.2, e.source = q.1 :=
        fun q hq => hfiled q (List.mem_cons_of_mem _ hq)
      have hsources : ∀ n ∈ p.2.toList.map (fun e => f e.source), n = f p.1 := by
        intro n hn
        obtain ⟨e, he, rfl⟩ := List.mem_map.mp hn
        rw [hfiled p List.mem_cons_self e he]
      have hfirst : (l ++ (p.2.toList.map fun e => f e.source) ++
            (ps.flatMap fun p => p.2.toList).map (fun e => f e.source)).eraseDups =
          (l ++ [f p.1] ++
            (ps.flatMap fun p => p.2.toList).map (fun e => f e.source)).eraseDups := by
        cases hp : p.2.toList with
        | nil =>
            have hold : ∀ n ∈ [f p.1], n ∈ l := by
              intro n hn
              rw [List.mem_singleton.mp hn]
              exact hempty p List.mem_cons_self hp
            rw [List.map_nil, List.append_nil, eraseDups_append_of_subset _ hold]
        | cons e es =>
            rw [hp] at hsources
            have he : f e.source = f p.1 := hsources _ List.mem_cons_self
            have hold : ∀ n ∈ es.map (fun e => f e.source), n ∈ l ++ [f p.1] := by
              intro n hn
              rw [hsources n (List.mem_cons_of_mem _ hn)]
              exact List.mem_append_right _ (List.mem_singleton.mpr rfl)
            have hsplit : l ++ ((e :: es).map fun e => f e.source) =
                l ++ [f p.1] ++ es.map (fun e => f e.source) := by
              rw [List.map_cons, he, List.append_assoc, List.singleton_append]
            rw [hsplit, eraseDups_append_of_subset _ hold]
      rw [List.flatMap_cons, List.map_append, ← List.append_assoc, hfirst,
        ih _ hfiled' (fun q hq hq' =>
          List.mem_append_left _ (hempty q (List.mem_cons_of_mem _ hq) hq')),
        List.map_cons, List.append_assoc, List.singleton_append]

/-- Going through a well-formed network, the entries have its sublexicons as their first
occurrences, as far as these did not come up before. -/
theorem WellFormed.eraseDups_append_parts {h : Network} (hh : h.WellFormed)
    (f : Sublexicon → Sublexicon) {l : List Sublexicon} (hroot : f h.root ∈ l) :
    (l ++ (h.parts.flatMap fun p => p.2.toList).map fun e => f e.source).eraseDups =
      (l ++ h.names.map f).eraseDups := by
  have hfiled : ∀ p ∈ h.parts, ∀ e ∈ p.2, e.source = p.1 := fun p hp =>
    hh.filed p.1 p.2 (mem_parts.mp hp).2
  have hempty : ∀ p ∈ h.parts, p.2.toList = [] → f p.1 ∈ l := by
    intro p hp hnone
    have hp' : p.1 = h.root := Classical.byContradiction fun hne =>
      hh.inhabited p.1 p.2 (mem_parts.mp hp).2 hne hnone
    rw [hp']
    exact hroot
  rw [eraseDups_append_flatMap f h.parts l hfiled hempty, ← hh.map_fst_parts, List.map_map]
  rfl

/-- **Merging replays.**  Merging in a network that was built from a root by
insertions is doing these insertions, with the other root taken for this one. -/
theorem merge_insertAll {g : Network} (hg : g.WellFormed) (shardRoot : String)
    (es : List Entry) :
    g.merge ((ofRoot shardRoot).insertAll es) =
      g.insertAll (es.map (g.adopt (ofRoot shardRoot))) := by
  have hh : ((ofRoot shardRoot).insertAll es).WellFormed :=
    (wellFormed_ofRoot shardRoot).insertAll es
  generalize hdef : (ofRoot shardRoot).insertAll es = h at hh
  have hroot : h.root = (ofRoot shardRoot).root := by rw [← hdef, root_insertAll]
  have hadopt : g.adopt h = g.adopt (ofRoot shardRoot) := by
    funext e
    rw [adopt, adopt, hroot]
  have hmem : ∀ e, e ∈ (h.parts.flatMap fun p => p.2.toList) ↔ e ∈ es := by
    intro e
    rw [hh.mem_flatMap_parts, ← hdef, mem_entries_insertAll, entries_ofRoot]
    simp
  have hnames : h.names = (h.root :: es.map Entry.source).eraseDups := by
    rw [← hdef, names_insertAll (inStep_ofRoot shardRoot), root_insertAll]
    rfl
  have hfirst : g.adoptName h h.root ∈ g.names := by
    rw [adoptName, if_pos rfl]
    exact hg.root_mem_names
  rw [merge_eq_insertAll g hh.toInStep, hadopt]
  refine (hg.insertAll _).eq_of_entries (hg.insertAll _) ?_ ?_ ?_
  · rw [rootName_insertAll, rootName_insertAll]
  · have hold : ∀ n ∈ [g.adoptName h h.root], n ∈ g.names := by
      intro n hn
      rw [List.mem_singleton.mp hn]
      exact hfirst
    calc (g.insertAll ((h.parts.flatMap fun p => p.2.toList).map
            (g.adopt (ofRoot shardRoot)))).names
        = (g.names ++ (h.parts.flatMap fun p => p.2.toList).map
            fun e => g.adoptName h e.source).eraseDups := by
          rw [names_insertAll hg.toInStep, List.map_map, ← hadopt]
          congr 2
          exact List.map_congr_left fun e _ => source_adopt g h e
      _ = (g.names ++ h.names.map (g.adoptName h)).eraseDups :=
          hh.eraseDups_append_parts _ hfirst
      _ = (g.names ++ (h.root :: es.map Entry.source).map (g.adoptName h)).eraseDups := by
          rw [hnames, eraseDups_append_map_eraseDups]
      _ = (g.names ++ (es.map Entry.source).map (g.adoptName h)).eraseDups := by
          rw [List.map_cons, ← List.singleton_append, ← List.append_assoc,
            eraseDups_append_of_subset _ hold]
      _ = (g.insertAll (es.map (g.adopt (ofRoot shardRoot)))).names := by
          rw [names_insertAll hg.toInStep, List.map_map, List.map_map, ← hadopt]
          congr 2
          exact List.map_congr_left fun e _ => (source_adopt g h e).symm
  · intro e
    rw [mem_entries_insertAll, mem_entries_insertAll, List.mem_map, List.mem_map]
    simp only [hmem]

/-! ## Steps of a shard -/

/-- Where both networks have the same root, nothing changes hands. -/
theorem adopt_same_root {g other : Network} (h : other.root = g.root) (e : Entry) :
    g.adopt other e = e := by
  unfold adopt
  split
  · rename_i he
    rw [h] at he
    cases e
    cases he
    rfl
  · rfl

/-- A chain that was laid out for one root is taken over as if it had been laid
out for the other: only its root entry belongs to a root. -/
theorem map_adopt_chainEntries {g : Network} {l : Layout} {r : Inflection} {c : Chain}
    (hc : c ∈ l.chains r) (shardRoot : String) :
    (chainEntries shardRoot c).map (g.adopt (ofRoot shardRoot)) =
      chainEntries g.rootName c := by
  obtain ⟨v, -, rfl⟩ := List.mem_map.mp hc
  have hown : ∀ e ∈ (l.chain r v).entries, g.adopt (ofRoot shardRoot) e = e := by
    intro e he
    exact if_neg (Layout.source_ne_root he shardRoot)
  have hroot : g.adopt (ofRoot shardRoot)
        (.identity (.root shardRoot) (l.chain r v).flag.symbol (l.chain r v).first.source) =
      .identity (.root g.rootName) (l.chain r v).flag.symbol (l.chain r v).first.source :=
    if_pos rfl
  rw [chainEntries, chainEntries, List.map_cons, hroot, List.map_congr_left hown, List.map_id']

/-- Steps that are laid out bring the same entries to every network, whatever
root the shard had. -/
theorem map_adopt_entries {g : Network} {ys : List Step} (hys : ∀ s ∈ ys, s.IsLaidOut)
    (shardRoot : String) :
    (ys.flatMap (Step.entries shardRoot)).map (g.adopt (ofRoot shardRoot)) =
      ys.flatMap (Step.entries g.rootName) := by
  have hstep : ∀ s ∈ ys, (s.entries shardRoot).map (g.adopt (ofRoot shardRoot)) =
      s.entries g.rootName := by
    intro s hs
    have hlaid := hys s hs
    cases s with
    | insert e => exact absurd hlaid id
    | extend cs =>
        have hchain : ∀ c ∈ cs, (chainEntries shardRoot c).map (g.adopt (ofRoot shardRoot)) =
            chainEntries g.rootName c := by
          intro c hc
          obtain ⟨l, r, hlr⟩ := hlaid c hc
          exact map_adopt_chainEntries hlr shardRoot
        rw [Step.entries, Step.entries, List.map_flatMap]
        exact List.flatMap_congr hchain
  rw [List.map_flatMap]
  exact List.flatMap_congr hstep

/-- A shard that is built under the same root can take any steps. -/
theorem merge_steps (root : String) (xs ys : List Step) :
    ((ofRoot root).steps xs).merge ((ofRoot root).steps ys) =
      (ofRoot root).steps (xs ++ ys) := by
  have hg : ((ofRoot root).steps xs).WellFormed := by
    rw [steps_eq_insertAll]
    exact (wellFormed_ofRoot root).insertAll _
  have hroot : ((ofRoot root).steps xs).rootName = root := by
    rw [steps_eq_insertAll, rootName_insertAll, ofRoot]
  have hsame : ∀ e, ((ofRoot root).steps xs).adopt (ofRoot root) e = e :=
    adopt_same_root (congrArg Sublexicon.root hroot.symm)
  have hshard : (ofRoot root).rootName = root := rfl
  rw [steps_append, steps_eq_insertAll (ofRoot root) ys, merge_insertAll hg,
    List.map_congr_left fun e _ => hsame e, List.map_id',
    steps_eq_insertAll ((ofRoot root).steps xs) ys, hroot, hshard]

/-- A shard that is built under another root can take steps that are laid out
from forms. -/
theorem merge_steps_of_laidOut (root shardRoot : String) (xs : List Step) {ys : List Step}
    (hys : ∀ s ∈ ys, s.IsLaidOut) :
    ((ofRoot root).steps xs).merge ((ofRoot shardRoot).steps ys) =
      (ofRoot root).steps (xs ++ ys) := by
  have hg : ((ofRoot root).steps xs).WellFormed := by
    rw [steps_eq_insertAll]
    exact (wellFormed_ofRoot root).insertAll _
  have hshard : (ofRoot shardRoot).rootName = shardRoot := rfl
  rw [steps_append, steps_eq_insertAll (ofRoot shardRoot) ys, merge_insertAll hg, hshard,
    map_adopt_entries hys, steps_eq_insertAll ((ofRoot root).steps xs) ys]

/-- Adding forms is taking one step for each. -/
theorem addForms_eq_steps (g : Network) (fs : List (Layout × Inflection)) :
    g.addForms fs = g.steps (fs.map fun f => .extend (f.1.chains f.2)) := by
  rw [steps, List.foldl_map]
  rfl

/-- Networks of forms may be built in shards. -/
theorem merge_ofForms (root shardRoot : String) (fs hs : List (Layout × Inflection)) :
    (ofForms root fs).merge (ofForms shardRoot hs) = ofForms root (fs ++ hs) := by
  have hlaid : ∀ s ∈ hs.map (fun f => Step.extend (f.1.chains f.2)), s.IsLaidOut := by
    intro s hs'
    obtain ⟨f, -, rfl⟩ := List.mem_map.mp hs'
    exact fun c hc => ⟨f.1, f.2, hc⟩
  rw [ofForms, ofForms, ofForms, addForms_eq_steps, addForms_eq_steps, addForms_eq_steps,
    merge_steps_of_laidOut root shardRoot _ hlaid, List.map_append]

end Network

/-- Alphabets of forms may be built in shards. -/
theorem Alphabet.union_addForms (fs hs : List (Layout × Inflection)) :
    (addForms SortedSet.empty fs).union (addForms SortedSet.empty hs) =
      addForms SortedSet.empty (fs ++ hs) := by
  apply SortedSet.ext
  intro x
  rw [SortedSet.mem_union, mem_addForms, mem_addForms, mem_addForms]
  simp only [SortedSet.not_mem_empty, false_or, List.mem_append, or_and_right, exists_or]

/-- **Sharded builds.**  Any steps may be taken by a shard under the same root,
and steps laid out from forms also under another root: merging the shard gives
the network, with root, entries and order of sublexicons, that the steps in
order would have given.  The alphabets of forms merge to the alphabet of all
forms, so both sources come out the same. -/
theorem sharded_build (root : String) (xs ys : List Network.Step) :
    ((Network.ofRoot root).steps xs).merge ((Network.ofRoot root).steps ys) =
        (Network.ofRoot root).steps (xs ++ ys) ∧
      ((∀ s ∈ ys, s.IsLaidOut) → ∀ shardRoot : String,
        ((Network.ofRoot root).steps xs).merge ((Network.ofRoot shardRoot).steps ys) =
          (Network.ofRoot root).steps (xs ++ ys)) ∧
      ∀ (fs hs : List (Layout × Inflection)) (shardRoot : String) (roots : List String),
        let network := (Network.ofForms root fs).merge (Network.ofForms shardRoot hs)
        let alphabet : Alphabet := (Alphabet.addForms SortedSet.empty fs).union
          (Alphabet.addForms SortedSet.empty hs)
        network = Network.ofForms root (fs ++ hs) ∧
          alphabet = Alphabet.addForms SortedSet.empty (fs ++ hs) ∧
          network.source = (Network.ofForms root (fs ++ hs)).source ∧
          alphabet.rootSource roots =
            (Alphabet.addForms SortedSet.empty (fs ++ hs)).rootSource roots := by
  refine ⟨Network.merge_steps root xs ys, ?_, ?_⟩
  · intro hys shardRoot
    exact Network.merge_steps_of_laidOut root shardRoot xs hys
  · intro fs hs shardRoot roots network alphabet
    have hnetwork : network = Network.ofForms root (fs ++ hs) :=
      Network.merge_ofForms root shardRoot fs hs
    have halphabet : alphabet = Alphabet.addForms SortedSet.empty (fs ++ hs) :=
      Alphabet.union_addForms fs hs
    exact ⟨hnetwork, halphabet, by rw [hnetwork], by rw [halphabet]⟩

/-- The shard of one form, built under a root of its own, is merged into a
network that has a stem of the same paradigm already. -/
theorem sharded_build_of_form :
    let l : Layout := ⟨.regular, none, .standard⟩
    let r : Inflection := ⟨"VTA", "VTA_C", "aaba'", "aaba'w", ["+VTA", "+Ind"],
      [⟨"niaaba'waa", ⟨"ni", "aaba'w", "aa"⟩⟩]⟩
    let xs : List Network.Step :=
      [.insert ⟨.stems "VTA", "waabam", "waabam", .stemBoundary "VTA" "VTA_C"⟩]
    let ys : List Network.Step := [.extend (l.chains r)]
    (∀ s ∈ ys, s.IsLaidOut) ∧
      ((Network.ofRoot "VerbRoot").steps xs).merge ((Network.ofRoot "Shard").steps ys) =
        (Network.ofRoot "VerbRoot").steps (xs ++ ys) := by
  intro l r xs ys
  have hlaid : ∀ s ∈ ys, s.IsLaidOut := by
    intro s hs
    rw [List.mem_singleton.mp hs]
    exact fun c hc => ⟨l, r, hc⟩
  exact ⟨hlaid, (sharded_build "VerbRoot" xs ys).2.1 hlaid "Shard"⟩

end Morphotactics
