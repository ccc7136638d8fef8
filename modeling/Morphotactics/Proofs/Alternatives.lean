import Morphotactics.Proofs.Forms

/-!
# Forms and their alternatives

A form with several variants brings to a network what its variants would bring
as forms of their own.  So networks and alphabets of forms are told by their
alternatives, and of these only by which there are: neither their order nor how
often they come up nor how they are grouped into forms leaves a trace, except in
the order of the sublexicons after the root.

`Network.ofForms_alternatives` takes forms apart, and leaves even the order as it
is.  `Network.WellFormed.sameButOrder` says what two networks have in common that
have the same entries under the same root.
-/

namespace Morphotactics

/-! ## Networks that differ in order -/

namespace Network

/-- Networks with the same root and the same map, that name the same sublexicons after
the root, in whatever order these came up.  Going through them finds the same entries
in the root, and the same other sublexicons with the same entries. -/
def SameButOrder (g h : Network) : Prop :=
  (g.rootName = h.rootName ∧ g.lexicons = h.lexicons ∧
    ∃ rest rest', g.names = g.root :: rest ∧ h.names = g.root :: rest' ∧ rest.Perm rest') ∧
    ∃ top rest rest', top.1 = g.root ∧ g.parts = top :: rest ∧ h.parts = top :: rest' ∧
      rest.Perm rest'

namespace WellFormed

variable {g h : Network}

/-- A part of a well-formed network is one of its sublexicons with all entries
that belong to it. -/
theorem mem_parts_iff (hg : g.WellFormed) {n : Sublexicon} {es : SortedSet Entry} :
    (n, es) ∈ g.parts ↔ n ∈ g.names ∧ ∀ e, e ∈ es ↔ e ∈ g.entries ∧ e.source = n := by
  rw [mem_parts]
  refine and_congr_right fun hn => ⟨fun hes e => hg.mem_iff hes, fun hmem => ?_⟩
  obtain ⟨es', hes'⟩ := hg.exists_of_mem_names hn
  have hset : es' = es := by
    refine SortedSet.ext fun e => ?_
    rw [hmem, hg.mem_iff hes']
  rw [hes', hset]

/-- Networks with the same entries under the same root have the same
sublexicons. -/
theorem mem_names_congr (hg : g.WellFormed) (hh : h.WellFormed)
    (hroot : g.rootName = h.rootName) (hentries : ∀ e, e ∈ g.entries ↔ e ∈ h.entries)
    (n : Sublexicon) : n ∈ g.names ↔ n ∈ h.names := by
  rw [hg.mem_names_iff, hh.mem_names_iff, root, root, hroot]
  simp only [hentries]

/-- They have the same parts. -/
theorem parts_perm (hg : g.WellFormed) (hh : h.WellFormed) (hroot : g.rootName = h.rootName)
    (hentries : ∀ e, e ∈ g.entries ↔ e ∈ h.entries) : g.parts.Perm h.parts := by
  apply (List.perm_ext_iff_of_nodup hg.nodup_parts hh.nodup_parts).mpr
  rintro ⟨n, es⟩
  rw [hg.mem_parts_iff, hh.mem_parts_iff, hg.mem_names_congr hh hroot hentries]
  simp only [hentries]

/-- The root part comes first. -/
theorem exists_parts_eq_cons (hg : g.WellFormed) :
    ∃ es rest, g.parts = (g.root, es) :: rest := by
  obtain ⟨rest, hnames⟩ := List.head?_eq_some_iff.mp hg.rooted
  rw [hg.parts_eq, hnames, List.map_cons]
  exact ⟨_, _, rfl⟩

/-- A sublexicon has the same entries in both. -/
theorem entriesOf?_congr (hg : g.WellFormed) (hh : h.WellFormed)
    (hparts : g.parts.Perm h.parts) (n : Sublexicon) : g.entriesOf? n = h.entriesOf? n := by
  apply Option.ext
  intro es
  rw [hg.entriesOf?_eq_some_iff, hh.entriesOf?_eq_some_iff, hparts.mem_iff]

/-- **Same entries, same network.**  The same entries under the same root leave
only the order of the other sublexicons open. -/
theorem sameButOrder (hg : g.WellFormed) (hh : h.WellFormed) (hroot : g.rootName = h.rootName)
    (hentries : ∀ e, e ∈ g.entries ↔ e ∈ h.entries) : g.SameButOrder h := by
  obtain ⟨es, rest, hgparts⟩ := hg.exists_parts_eq_cons
  obtain ⟨es', rest', hhparts⟩ := hh.exists_parts_eq_cons
  have hnames : g.root = h.root := congrArg Sublexicon.root hroot
  have hperm := hg.parts_perm hh hroot hentries
  have hsame : ∀ n, g.entriesOf? n = h.entriesOf? n := hg.entriesOf?_congr hh hperm
  have hgtop : g.entriesOf? g.root = some es :=
    hg.entriesOf?_eq_some_iff.mpr (hgparts ▸ List.mem_cons_self)
  have hhtop : h.entriesOf? h.root = some es' :=
    hh.entriesOf?_eq_some_iff.mpr (hhparts ▸ List.mem_cons_self)
  obtain rfl : es = es' := by
    rw [hsame, hnames, hhtop] at hgtop
    exact (Option.some.inj hgtop).symm
  rw [hgparts, hhparts, hnames] at hperm
  have hrest : rest.Perm rest' := List.Perm.cons_inv hperm
  refine ⟨⟨hroot, SortedMap.ext hsame, rest.map Prod.fst, rest'.map Prod.fst, ?_, ?_,
    hrest.map _⟩, (g.root, es), rest, rest', rfl, hgparts, hnames ▸ hhparts, hrest⟩
  · rw [← hg.map_fst_parts, hgparts, List.map_cons]
  · rw [← hh.map_fst_parts, hhparts, List.map_cons, hnames]

end WellFormed

/-- Where the same sublexicons are there and the same entries, the same ways on
are missing. -/
theorem dangling_congr {g h : Network} (hg : g.InStep) (hh : h.InStep)
    (hnames : ∀ n, n ∈ g.names ↔ n ∈ h.names)
    (hentries : ∀ e, e ∈ g.entries ↔ e ∈ h.entries) : g.dangling = h.dangling := by
  apply SortedSet.ext
  intro n
  rw [hg.mem_dangling, hh.mem_dangling, hnames]
  simp only [hentries]

/-- The same entries have the same flags. -/
theorem flags_congr {g h : Network} (hentries : ∀ e, e ∈ g.entries ↔ e ∈ h.entries) :
    g.flags = h.flags := by
  apply SortedSet.ext
  intro flag
  rw [flags, flags, SortedSet.mem_ofList, SortedSet.mem_ofList, List.mem_flatMap,
    List.mem_flatMap]
  simp only [hentries]

end Network

/-! ## Taking forms apart -/

/-- The alternatives of forms: every variant of a form as a form of its own, in the
layout of the form. -/
def alternatives (fs : List (Layout × Inflection)) : List (Layout × Inflection) :=
  fs.flatMap fun f => f.2.variants.map fun v => (f.1, { f.2 with variants := [v] })

/-- An alternative is a form with one of its variants only. -/
theorem mem_alternatives {fs : List (Layout × Inflection)} {x : Layout × Inflection} :
    x ∈ alternatives fs ↔
      ∃ f ∈ fs, ∃ v ∈ f.2.variants, (f.1, { f.2 with variants := [v] }) = x := by
  simp only [alternatives, List.mem_flatMap, List.mem_map]

/-- Alternatives have the chains of their forms, in the same order. -/
theorem formChains_alternatives (fs : List (Layout × Inflection)) :
    formChains (alternatives fs) = formChains fs := by
  have hchains : ∀ f : Layout × Inflection,
      (f.2.variants.map fun v => (f.1, { f.2 with variants := [v] })).flatMap
        (fun f => f.1.chains f.2) = f.1.chains f.2 := by
    intro f
    rw [List.flatMap_map, Layout.chains, ← List.flatMap_pure_eq_map]
    rfl
  rw [formChains, formChains, alternatives, List.flatMap_assoc]
  exact List.flatMap_congr fun f _ => hchains f

/-- **Networks of alternatives.**  Grouping variants into forms leaves no trace in
a network. -/
theorem Network.ofForms_alternatives (rootName : String) (fs : List (Layout × Inflection)) :
    ofForms rootName (alternatives fs) = ofForms rootName fs := by
  rw [ofForms, ofForms, addForms_eq_extend, addForms_eq_extend, formChains_alternatives]

/-- The symbols of a form that has variants are those of its alternatives.  Without
variants it has symbols all the same: its tags and the flags of its paradigm. -/
theorem Layout.mem_symbols_iff_alternative {l : Layout} {r : Inflection} (hr : r.variants ≠ [])
    {x : String} :
    x ∈ l.symbols r ↔ ∃ v ∈ r.variants, x ∈ l.symbols { r with variants := [v] } := by
  have hone : ∀ v : Variant, l.variantFlags { r with variants := [v] } v = l.variantFlags r v := by
    intro v
    rfl
  simp only [symbols, List.mem_append, List.flatMap_singleton, hone]
  constructor
  · rintro (hform | hvariant)
    · obtain ⟨v, hv⟩ := List.exists_mem_of_ne_nil _ hr
      exact ⟨v, hv, Or.inl hform⟩
    · obtain ⟨flag, hflag, rfl⟩ := List.mem_map.mp hvariant
      obtain ⟨v, hv, hmem⟩ := List.mem_flatMap.mp hflag
      exact ⟨v, hv, Or.inr (List.mem_map_of_mem hmem)⟩
  · rintro ⟨v, hv, hform | hvariant⟩
    · exact Or.inl hform
    · obtain ⟨flag, hflag, rfl⟩ := List.mem_map.mp hvariant
      exact Or.inr (List.mem_map_of_mem (List.mem_flatMap.mpr ⟨v, hv, hflag⟩))

/-- **Alphabets of alternatives.**  Grouping variants into forms leaves no trace in
an alphabet, as long as no form is without variants. -/
theorem Alphabet.addForms_alternatives (a : Alphabet) {fs : List (Layout × Inflection)}
    (hfs : ∀ f ∈ fs, f.2.variants ≠ []) : a.addForms (alternatives fs) = a.addForms fs := by
  apply SortedSet.ext
  intro x
  rw [mem_addForms, mem_addForms]
  apply or_congr_right
  constructor
  · rintro ⟨_, halternative, hx⟩
    obtain ⟨f, hf, v, hv, rfl⟩ := mem_alternatives.mp halternative
    exact ⟨f, hf, (Layout.mem_symbols_iff_alternative (hfs f hf)).mpr ⟨v, hv, hx⟩⟩
  · rintro ⟨f, hf, hx⟩
    obtain ⟨v, hv, hx⟩ := (Layout.mem_symbols_iff_alternative (hfs f hf)).mp hx
    exact ⟨_, mem_alternatives.mpr ⟨f, hf, v, hv, rfl⟩, hx⟩

/-! ## The same forms -/

/-- Which entries a network of forms has depends on which forms there are. -/
theorem Network.mem_entries_ofForms_congr (rootName : String)
    {fs hs : List (Layout × Inflection)} (h : ∀ f, f ∈ fs ↔ f ∈ hs) (e : Entry) :
    e ∈ (ofForms rootName fs).entries ↔ e ∈ (ofForms rootName hs).entries := by
  rw [mem_entries_ofForms, mem_entries_ofForms]
  simp only [h]

/-- Which symbols an alphabet has depends on which forms there are. -/
theorem Alphabet.addForms_congr (a : Alphabet) {fs hs : List (Layout × Inflection)}
    (h : ∀ f, f ∈ fs ↔ f ∈ hs) : a.addForms fs = a.addForms hs := by
  apply SortedSet.ext
  intro x
  rw [mem_addForms, mem_addForms]
  simp only [h]

/-- **Alternatives are all that matters.**  Two lists of forms, none without
variants, that have the same alternatives, in whatever order, however often and in
whatever grouping, give the same alphabet, and networks in which every sublexicon
has the same entries.  Number of entries, flags and ways on that dangle are the
same, and the networks differ at most in the order of the sublexicons after the
root. -/
theorem network_of_alternatives (rootName : String) (a : Alphabet)
    (fs hs : List (Layout × Inflection)) (hfs : ∀ f ∈ fs, f.2.variants ≠ [])
    (hhs : ∀ f ∈ hs, f.2.variants ≠ [])
    (halternatives : ∀ x, x ∈ alternatives fs ↔ x ∈ alternatives hs) :
    let g := Network.ofForms rootName fs
    let h := Network.ofForms rootName hs
    (∀ n, g.entriesOf? n = h.entriesOf? n) ∧ a.addForms fs = a.addForms hs ∧
      g.entryCount = h.entryCount ∧ g.flags = h.flags ∧ g.dangling = h.dangling ∧
      g.SameButOrder h := by
  intro g h
  have hg : g.WellFormed := Network.wellFormed_ofForms rootName fs
  have hh : h.WellFormed := Network.wellFormed_ofForms rootName hs
  have hroot : g.rootName = h.rootName := by
    apply Sublexicon.root.inj
    rw [← Network.root, ← Network.root, Network.root_ofForms, Network.root_ofForms]
  have hentries : ∀ e, e ∈ g.entries ↔ e ∈ h.entries := by
    intro e
    have hsame := Network.mem_entries_ofForms_congr rootName halternatives e
    rwa [Network.ofForms_alternatives, Network.ofForms_alternatives] at hsame
  have hsame : g.SameButOrder h := hg.sameButOrder hh hroot hentries
  have hlexicons : g.lexicons = h.lexicons := hsame.1.2.1
  refine ⟨hg.entriesOf?_congr hh (hg.parts_perm hh hroot hentries), ?_, ?_,
    Network.flags_congr hentries, ?_, hsame⟩
  · rw [← a.addForms_alternatives hfs, ← a.addForms_alternatives hhs]
    exact a.addForms_congr halternatives
  · rw [Network.entryCount, Network.entryCount, hlexicons]
  · exact Network.dangling_congr hg.toInStep hh.toInStep
      (hg.mem_names_congr hh hroot hentries) hentries

/-- A verb with two variants and a noun, against the noun, one of the variants, and
the verb with its variants the other way round: only the order of the sublexicons
differs. -/
theorem network_of_regrouped_variants :
    let l : Layout := ⟨.regular, none, .standard⟩
    let v : Variant := ⟨"niaaba'waa", ⟨"ni", "aaba'w", "aa"⟩⟩
    let v' : Variant := ⟨"aaba'waad", ⟨"", "aaba'w", "aad"⟩⟩
    let verb : List Variant → Layout × Inflection := fun vs =>
      (l, ⟨"VTA", "VTA_C", "aaba'", "aaba'w", ["+VTA", "+Ind"], vs⟩)
    let noun : Layout × Inflection :=
      (l, ⟨"NA", "NA_C", "makwa", "makw", ["+NA"], [⟨"makwag", ⟨"", "makw", "ag"⟩⟩]⟩)
    let g := Network.ofForms "Root" [verb [v, v'], noun]
    let h := Network.ofForms "Root" [noun, verb [v'], verb [v', v]]
    (∀ n, g.entriesOf? n = h.entriesOf? n) ∧ g.entryCount = 20 ∧ h.entryCount = 20 ∧
      g.SameButOrder h ∧ g.names ≠ h.names := by
  intro l v v' verb noun g h
  have hsame := network_of_alternatives "Root" SortedSet.empty [verb [v, v'], noun]
    [noun, verb [v'], verb [v', v]] (by simp [verb, noun]) (by simp [verb, noun]) (by
      intro x
      simp only [alternatives, verb, noun, List.flatMap_cons, List.flatMap_nil, List.map_cons,
        List.map_nil, List.cons_append, List.nil_append, List.mem_cons, List.not_mem_nil]
      tauto)
  have hcount : g.entryCount = 20 := by decide +kernel
  exact ⟨hsame.1, hcount, hsame.2.2.1.symm.trans hcount, hsame.2.2.2.2.2, by decide +kernel⟩

end Morphotactics
