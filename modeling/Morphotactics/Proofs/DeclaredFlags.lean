import Morphotactics.Proofs.Escaped
import Morphotactics.Proofs.Filing
import Morphotactics.Proofs.FlagSymbols

/-!
# Flags of a network and its alphabet

The flags of a network are found again by reading the sides of its entries, while
the alphabet has the flags that forms were laid out with.  Every flag of the layout
is found, and with it what sets it.  But cells are texts of their own: nothing
keeps a headword, a stem, an ending or an irregular form from being written like a
flag, and a prefix that ends in an at sign makes another flag of the one before
it.  The main theorem says that this is the only way in which a network comes to
flags that its alphabet lacks.
-/

namespace Morphotactics

/-! ## Forms made from cells -/

namespace Inflection

/-- Adding a variant leaves the tags as they are. -/
theorem tags_withVariant {r r' : Inflection} {surface form : String}
    (h : r.withVariant surface form = .ok r') : r'.tags = r.tags := by
  unfold withVariant at h
  cases hsplit : Segmentation.split form with
  | error e =>
      rw [hsplit] at h
      cases h
  | ok parts =>
      rw [hsplit] at h
      obtain rfl := Except.ok.inj h
      rfl

/-- Adding variants leaves the tags of a form as they are. -/
theorem tags_withVariants {forms : List (String × String)} {r r' : Inflection}
    (h : r.withVariants forms = .ok r') : r'.tags = r.tags := by
  induction forms generalizing r with
  | nil =>
      obtain rfl := Except.ok.inj h
      rfl
  | cons f forms ih =>
      rw [withVariants, List.foldlM_cons] at h
      cases hstep : r.withVariant f.1 f.2 with
      | error e =>
          rw [hstep] at h
          cases h
      | ok s =>
          rw [hstep] at h
          exact (ih h).trans (tags_withVariant hstep)

/-- The tags of a form that was made from cells are the tags of some values. -/
theorem FromCells.exists_tags {r : Inflection} (h : r.FromCells) :
    ∃ values, r.tags = List.map tag values := by
  obtain ⟨paradigm, inflClass, headword, stem, values, forms, hforms⟩ := h
  exact ⟨values, tags_withVariants hforms⟩

end Inflection

/-- A tag begins with a plus sign, also when it is escaped. -/
theorem exists_toList_tag (value : String) : ∃ cs, (tag value).toList = '+' :: cs :=
  ⟨(escape value).toList, by simp [tag_eq_append]⟩

namespace Flag

/-- A symbol begins with an at sign. -/
theorem exists_toList_symbol (f : Flag) : ∃ cs, f.symbol.toList = '@' :: cs :=
  ⟨_, enclosed?_eq_some_iff.mp f.enclosed?_symbol⟩

/-- What does not begin with an at sign is no symbol. -/
theorem ne_symbol_of_head {s : String} {c : Char} {cs : List Char} (hs : s.toList = c :: cs)
    (hc : c ≠ '@') (f : Flag) : s ≠ f.symbol := by
  rintro rfl
  obtain ⟨cs', hsymbol⟩ := f.exists_toList_symbol
  exact hc (List.cons.inj (hs.symm.trans hsymbol)).1

/-- The epsilon is no flag. -/
theorem epsilon_ne_symbol (f : Flag) : epsilon ≠ f.symbol := by
  have hhead : epsilon.toList = '0' :: [] := by decide
  exact ne_symbol_of_head hhead (by decide) f

/-- A boundary is no flag. -/
theorem boundary_ne_symbol (b : Boundary) (f : Flag) : b.symbol ≠ f.symbol := by
  have hhead : ∃ cs, b.symbol.toList = '%' :: cs := by
    cases b with
    | opening => exact ⟨['<', '%', '<'], by decide⟩
    | closing => exact ⟨['>', '%', '>'], by decide⟩
  obtain ⟨cs, hcs⟩ := hhead
  exact ne_symbol_of_head hcs (by decide) f

end Flag

/-- Tags are no symbols of flags. -/
theorem Inflection.FromCells.tag_ne_symbol {r : Inflection} (hr : r.FromCells) {t : String}
    (ht : t ∈ r.tags) (f : Flag) : t ≠ f.symbol := by
  obtain ⟨values, hvalues⟩ := hr.exists_tags
  rw [hvalues] at ht
  obtain ⟨value, -, rfl⟩ := List.mem_map.mp ht
  obtain ⟨cs, hcs⟩ := exists_toList_tag value
  exact Flag.ne_symbol_of_head hcs (by decide) f

/-- Neither are all tags of a form together. -/
theorem Inflection.FromCells.analysisTags_ne_symbol {r : Inflection} (hr : r.FromCells)
    (f : Flag) : r.analysisTags ≠ f.symbol := by
  obtain ⟨values, hvalues⟩ := hr.exists_tags
  rw [Inflection.analysisTags, hvalues]
  cases values with
  | nil =>
      intro hempty
      obtain ⟨cs, hcs⟩ := f.exists_toList_symbol
      rw [← hempty] at hcs
      cases hcs
  | cons value values =>
      obtain ⟨cs, hcs⟩ := exists_toList_tag value
      have hhead : (String.join (List.map tag (value :: values))).toList =
          '+' :: (cs ++ (String.join (values.map tag)).toList) := by
        rw [List.map_cons, String.join_cons, String.toList_append, hcs, List.cons_append]
      exact Flag.ne_symbol_of_head hhead (by decide) f

/-! ## Flags of the layout -/

namespace Layout

/-- The sides of the entries of a variant in which the texts of cells stand, apart
from its tags. -/
def cellSides (l : Layout) (r : Inflection) (v : Variant) : List String :=
  match l.mode with
  | .regular =>
    [(Flag.setPrefix v.parts.pre).symbol ++ v.parts.pre, r.headword, r.stem, v.parts.post]
  | .irregular => [r.headword ++ r.analysisTags, escape v.surface]

variable {l : Layout} {rootName : String} {r : Inflection} {v : Variant} {n : Sublexicon}
  {e : Entry} {flag : Flag}

/-- What a flag of a form checks is set by a flag of the form. -/
theorem counterpart_mem_ownFlags (hflag : flag ∈ l.ownFlags r) {setter : Flag}
    (h : flag.counterpart = some setter) : setter ∈ l.ownFlags r := by
  rcases List.mem_append.mp hflag with hparadigm | hvariant
  · simp only [List.mem_cons, List.not_mem_nil, or_false] at hparadigm
    rcases hparadigm with rfl | rfl
    · cases h
    · obtain rfl := Option.some.inj h
      exact List.mem_append_left _ List.mem_cons_self
  · obtain ⟨v, hv, hmem⟩ := List.mem_flatMap.mp hvariant
    refine mem_ownFlags_of_variant hv ?_
    cases hmode : l.mode with
    | irregular => simp [variantFlags, hmode] at hmem
    | regular =>
        simp only [variantFlags, hmode, List.mem_cons, List.not_mem_nil, or_false] at hmem ⊢
        rcases hmem with rfl | rfl | rfl
        · cases h
        · exact Or.inl (Option.some.inj h).symm
        · cases h

/-- **Where flags stand.**  A side of an entry that is the symbol of a flag is one
in which a text of a cell stands, or the flag is one of the form. -/
theorem Files.mem_cellSides_or_ownFlags (hr : r.FromCells) (hv : v ∈ r.variants)
    (h : l.Files rootName r v n e) (hside : e.upper = flag.symbol ∨ e.lower = flag.symbol) :
    flag.symbol ∈ l.cellSides r v ∨ flag ∈ l.ownFlags r := by
  -- an entry with a symbol of the form on both sides shows the flag of that symbol
  have hown : ∀ {f : Flag} {n n' : Sublexicon}, f ∈ l.ownFlags r →
      ((Entry.identity n f.symbol n').upper = flag.symbol ∨
        (Entry.identity n f.symbol n').lower = flag.symbol) → flag ∈ l.ownFlags r := by
    intro f n n' hf hsymbol
    rcases hsymbol with hsymbol | hsymbol <;> exact Flag.symbol_injective hsymbol ▸ hf
  have hset : Flag.setParadigm r.paradigm ∈ l.ownFlags r :=
    List.mem_append_left _ List.mem_cons_self
  have hrequire : Flag.requireParadigm r.paradigm ∈ l.ownFlags r :=
    List.mem_append_left _ (List.mem_cons_of_mem _ List.mem_cons_self)
  have hvariant : ∀ f, l.mode = .regular → f ∈ [Flag.setPrefix v.parts.pre,
      Flag.requirePrefix v.parts.pre, Flag.unifyOrder (l.orderTags.orderOf r.tags)] →
      f ∈ l.ownFlags r := by
    intro f hmode hf
    exact mem_ownFlags_of_variant hv (by rw [variantFlags, hmode]; exact hf)
  cases n with
  | root name =>
      obtain ⟨-, rfl⟩ := h
      exact Or.inr (hown hset hside)
  | prefixes p =>
      obtain ⟨hmode, -, rfl⟩ := h
      rcases hside with hupper | hlower
      · exact Or.inr (Flag.symbol_injective hupper ▸ hvariant _ hmode List.mem_cons_self)
      · refine Or.inl ?_
        rw [← hlower, cellSides, hmode]
        exact List.mem_cons_self
  | prefixBoundary p =>
      obtain ⟨-, -, rfl⟩ := h
      rcases hside with hupper | hlower
      · exact absurd hupper flag.epsilon_ne_symbol
      · exact absurd hlower (Flag.boundary_ne_symbol .opening flag)
  | gate pos =>
      obtain ⟨-, -, rfl⟩ := h
      exact Or.inr (hown hrequire hside)
  | stems p =>
      obtain ⟨hmode, -, rfl⟩ := h
      refine Or.inl ?_
      rcases hside with hupper | hlower
      · rw [← hupper, cellSides, hmode]
        simp [stemEntry]
      · rw [← hlower, cellSides, hmode]
        simp [stemEntry]
  | stemBoundary p c =>
      obtain ⟨-, -, -, rfl⟩ := h
      rcases hside with hupper | hlower
      · exact absurd hupper flag.epsilon_ne_symbol
      · exact absurd hlower (Flag.boundary_ne_symbol .closing flag)
  | prefixCheck p c =>
      obtain ⟨hmode, -, -, rfl⟩ := h
      exact Or.inr (hown (hvariant _ hmode (by simp)) hside)
  | orderCheck k =>
      obtain ⟨hmode, rfl, rfl⟩ := h
      exact Or.inr (hown (hvariant _ hmode (by simp [endingKey])) hside)
  | endings k =>
      obtain ⟨hmode, -, rfl⟩ := h
      rcases hside with hupper | hlower
      · exact absurd hupper (hr.analysisTags_ne_symbol flag)
      · refine Or.inl ?_
        rw [← hlower, cellSides, hmode]
        simp
  | irregular p =>
      obtain ⟨hmode, -, rfl⟩ := h
      refine Or.inl ?_
      rcases hside with hupper | hlower
      · rw [← hupper, cellSides, hmode]
        simp [irregularEntry]
      · rw [← hlower, cellSides, hmode]
        simp [irregularEntry]
  | external name => exact h.elim
  | terminal => exact h.elim

/-- Every such side is a side of an entry that the variant files. -/
theorem files_of_mem_cellSides (rootName : String) {s : String} (hs : s ∈ l.cellSides r v) :
    ∃ n e, l.Files rootName r v n e ∧ (e.upper = s ∨ e.lower = s) := by
  cases hmode : l.mode with
  | regular =>
      simp only [cellSides, hmode, List.mem_cons, List.not_mem_nil, or_false] at hs
      rcases hs with rfl | rfl | rfl | rfl
      · exact ⟨.prefixes r.paradigm, _, ⟨hmode, rfl, rfl⟩, Or.inr rfl⟩
      · exact ⟨.stems r.paradigm, _, ⟨hmode, rfl, rfl⟩, Or.inl rfl⟩
      · exact ⟨.stems r.paradigm, _, ⟨hmode, rfl, rfl⟩, Or.inr rfl⟩
      · exact ⟨.endings (l.endingKey r v), _, ⟨hmode, rfl, rfl⟩, Or.inr rfl⟩
  | irregular =>
      simp only [cellSides, hmode, List.mem_cons, List.not_mem_nil, or_false] at hs
      rcases hs with rfl | rfl
      · exact ⟨.irregular r.paradigm, _, ⟨hmode, rfl, rfl⟩, Or.inl rfl⟩
      · exact ⟨.irregular r.paradigm, _, ⟨hmode, rfl, rfl⟩, Or.inr rfl⟩

end Layout

/-! ## Flags of networks -/

/-- A flag of a network is one that has a value and whose symbol is a side of an
entry. -/
theorem Network.mem_flags {g : Network} {flag : Flag} :
    flag ∈ g.flags ↔
      flag.value ≠ "" ∧ ∃ e ∈ g.entries, e.upper = flag.symbol ∨ e.lower = flag.symbol := by
  have hside : ∀ s, (Flag.parse s).toOption = some flag ↔ s = flag.symbol ∧ flag.value ≠ "" := by
    intro s
    rw [← Flag.parse_eq_ok_iff]
    cases Flag.parse s <;> simp [Except.toOption]
  rw [flags, SortedSet.mem_ofList, List.mem_flatMap]
  simp only [Entry.flags, List.mem_filterMap, List.mem_cons, List.not_mem_nil, or_false,
    exists_eq_or_imp, exists_eq_left, hside]
  constructor
  · rintro ⟨e, he, ⟨hsymbol, hvalue⟩ | ⟨hsymbol, hvalue⟩⟩
    · exact ⟨hvalue, e, he, Or.inl hsymbol⟩
    · exact ⟨hvalue, e, he, Or.inr hsymbol⟩
  · rintro ⟨hvalue, e, he, hsymbol⟩
    exact ⟨e, he, hsymbol.imp (⟨·, hvalue⟩) (⟨·, hvalue⟩)⟩

namespace Alphabet

/-- No flag is left without its setter when the alphabet has the setters of all. -/
theorem neverSet_eq_nil_iff {a : Alphabet} {flags : List Flag} :
    a.neverSet flags = [] ↔
      ∀ f ∈ flags, ∀ setter, f.counterpart = some setter → setter.symbol ∈ a := by
  rw [neverSet, List.filter_eq_nil_iff]
  refine forall₂_congr fun f _ => ?_
  cases f.counterpart with
  | none => simp
  | some setter => simp

/-- An alphabet of forms made from cells has just the flags of the forms. -/
theorem symbol_mem_addForms_iff {fs : List (Layout × Inflection)}
    (hcells : ∀ f ∈ fs, f.2.FromCells) {flag : Flag} :
    flag.symbol ∈ addForms SortedSet.empty fs ↔ ∃ f ∈ fs, flag ∈ f.1.ownFlags f.2 := by
  rw [mem_addForms]
  constructor
  · intro h
    obtain ⟨f, hf, hmem⟩ := h.resolve_left SortedSet.not_mem_empty
    rw [Layout.symbols_eq] at hmem
    rcases List.mem_append.mp hmem with htag | hown
    · exact absurd rfl ((hcells f hf).tag_ne_symbol htag flag)
    · obtain ⟨flag', hflag', hsymbol⟩ := List.mem_map.mp hown
      exact ⟨f, hf, Flag.symbol_injective hsymbol ▸ hflag'⟩
  · rintro ⟨f, hf, hown⟩
    refine Or.inr ⟨f, hf, ?_⟩
    rw [Layout.symbols_eq]
    exact List.mem_append_right _ (List.mem_map_of_mem hown)

end Alphabet

/-- **Flags and the alphabet.**  Forms made from cells are laid out into one network
and one alphabet.  Then the alphabet has every flag of the network, and for every
flag that checks something, a clause order apart, the one that sets it, exactly when
no text of a cell reads as a flag that the forms do not use themselves. -/
theorem flags_declared_iff (rootName : String) (fs : List (Layout × Inflection))
    (hcells : ∀ f ∈ fs, f.2.FromCells) :
    let g := Network.ofForms rootName fs
    let a := Alphabet.addForms SortedSet.empty fs
    ((∀ flag ∈ g.flags, flag.symbol ∈ a) ∧ a.neverSet g.flags.toList = []) ↔
      ∀ f ∈ fs, ∀ v ∈ f.2.variants, ∀ s ∈ f.1.cellSides f.2 v, ∀ flag,
        Flag.parse s = .ok flag → ∃ f' ∈ fs, flag ∈ f'.1.ownFlags f'.2 := by
  intro g a
  constructor
  · rintro ⟨hdeclared, -⟩ f hf v hv s hs flag hparse
    obtain ⟨rfl, hvalue⟩ := Flag.parse_eq_ok_iff.mp hparse
    obtain ⟨n, e, hfiles, hside⟩ := Layout.files_of_mem_cellSides rootName hs
    have he : e ∈ g.entries :=
      Network.mem_entries_iff_files.mpr ⟨f, hf, v, hv, hfiles.source_eq ▸ hfiles⟩
    have hflag : flag ∈ g.flags := Network.mem_flags.mpr ⟨hvalue, e, he, hside⟩
    exact (Alphabet.symbol_mem_addForms_iff hcells).mp (hdeclared flag hflag)
  · intro hread
    have hown : ∀ flag ∈ g.flags, ∃ f ∈ fs, flag ∈ f.1.ownFlags f.2 := by
      intro flag hflag
      obtain ⟨hvalue, e, he, hside⟩ := Network.mem_flags.mp hflag
      obtain ⟨f, hf, v, hv, hfiles⟩ := Network.mem_entries_iff_files.mp he
      rcases hfiles.mem_cellSides_or_ownFlags (hcells f hf) hv hside with hcell | hflag'
      · exact hread f hf v hv _ hcell flag (Flag.parse_eq_ok_iff.mpr ⟨rfl, hvalue⟩)
      · exact ⟨f, hf, hflag'⟩
    refine ⟨fun flag hflag => (Alphabet.symbol_mem_addForms_iff hcells).mpr (hown flag hflag), ?_⟩
    rw [Alphabet.neverSet_eq_nil_iff]
    intro flag hflag setter hsetter
    obtain ⟨f, hf, hmem⟩ := hown flag hflag
    exact (Alphabet.symbol_mem_addForms_iff hcells).mpr
      ⟨f, hf, Layout.counterpart_mem_ownFlags hmem hsetter⟩

/-- The flags of a verb with plain cells are declared, each with its setter. -/
theorem flags_declared_of_verb :
    let r : Inflection := ⟨"VTA", "VTA_C", "aaba'", "aaba'w", ["+VTA", "+Ind"],
      [⟨"niaaba'waa", ⟨"ni", "aaba'w", "aa"⟩⟩]⟩
    let fs : List (Layout × Inflection) := [(⟨.regular, some ⟨"Verb", none⟩, .standard⟩, r)]
    let g := Network.ofForms "VerbRoot" fs
    let a := Alphabet.addForms SortedSet.empty fs
    (∀ f ∈ fs, f.2.FromCells) ∧
      (∀ flag ∈ g.flags, flag.symbol ∈ a) ∧ a.neverSet g.flags.toList = [] := by
  intro r fs g a
  have hcells : ∀ f ∈ fs, f.2.FromCells := by
    intro f hf
    obtain rfl := List.mem_singleton.mp hf
    exact ⟨"VTA", "VTA_C", "aaba'", "aaba'w", ["VTA", "Ind"],
      [("niaaba'waa", "ni<<aaba'w>>aa")], by rfl⟩
  refine ⟨hcells, (flags_declared_iff "VerbRoot" fs hcells).mpr ?_⟩
  intro f hf v hv s hs flag hparse
  obtain rfl := List.mem_singleton.mp hf
  obtain rfl := List.mem_singleton.mp hv
  have hnone : ∀ s ∈ ["@P.Prefix.NI@ni", "aaba'", "aaba'w", "aa"],
      Flag.parse s = .error (.notAFlag s) := by decide
  exact absurd ((hnone s hs).symm.trans hparse) nofun

/-- A headword that is written like a flag is found as one: its check is neither in
the alphabet nor ever set. -/
theorem headword_reads_as_flag :
    let r : Inflection := ⟨"NA", "1", "@R.Prefix.GI@", "x", [], [⟨"x", ⟨"", "x", ""⟩⟩]⟩
    let fs : List (Layout × Inflection) := [(⟨.regular, none, .standard⟩, r)]
    let g := Network.ofForms "Noun" fs
    let a := Alphabet.addForms SortedSet.empty fs
    let flag : Flag := ⟨.require, .prefixId, "GI"⟩
    r.FromCells ∧ flag ∈ g.flags ∧ flag.symbol ∉ a ∧ flag ∈ a.neverSet g.flags.toList := by
  intro r fs g a flag
  have hr : r.FromCells :=
    ⟨"NA", "1", "@R.Prefix.GI@", "x", [], [("x", "<<x>>")], by rfl⟩
  have hcells : ∀ f ∈ fs, f.2.FromCells := by
    intro f hf
    obtain rfl := List.mem_singleton.mp hf
    exact hr
  have hflag : flag ∈ g.flags := by
    refine Network.mem_flags.mpr ⟨by decide, Layout.stemEntry r, ?_, Or.inl (by rfl)⟩
    exact Network.mem_entries_iff_files.mpr
      ⟨_, List.mem_cons_self, _, List.mem_cons_self, rfl, rfl, rfl⟩
  have hout : ∀ operator, Flag.symbol ⟨operator, .prefixId, "GI"⟩ ∉ a := by
    intro operator hmem
    obtain ⟨f, hf, hown⟩ := (Alphabet.symbol_mem_addForms_iff hcells).mp hmem
    obtain rfl := List.mem_singleton.mp hf
    cases operator <;> exact absurd hown (by decide)
  refine ⟨hr, hflag, hout .require, List.mem_filter.mpr ⟨hflag, ?_⟩⟩
  exact decide_eq_true (hout .set)

end Morphotactics
