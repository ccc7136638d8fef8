import Morphotactics.Proofs.Filing
import Morphotactics.Proofs.Runs

/-!
# The language of a regular network

Forms share the entries of a regular network: one prefix serves all stems of
its paradigm, one stem all endings of its class.  So a network spells words
that no single form asked for, and flags are there to rule some of them out.
The main theorem says exactly which words are left.  A prefix, a stem and an
ending are put together when they come from variants of one paradigm, stem and
ending from one class, and prefix and ending agree in the identity of the
prefix.

`Layout.Files` is the invariant: what a variant files in each sublexicon.  What
is spelled from a sublexicon is then worked out from the end of the word back to
the root, with the memory of flags carried along.  The gate of a pre-element
slot is shared by all paradigms; only its flag keeps them apart.
-/

namespace Morphotactics

/-- The network of forms that all have the same layout. -/
def Layout.network (l : Layout) (rootName : String) (rows : List Inflection) : Network :=
  rows.foldl (fun g r => g.extend (l.chains r)) (Network.ofRoot rootName)

/-- Where a word goes on that an entry leads to a sublexicon: one that is
defined elsewhere hands the word on to the gate of the pre-element slot. -/
def Layout.resume (l : Layout) (n : Sublexicon) : Sublexicon :=
  match n, l.slot with
  | .external _, some slot => .gate slot.pos
  | n, _ => n

/-- A variant of one of the forms. -/
def Attested (rows : List Inflection) (r : Inflection) (v : Variant) : Prop :=
  r ∈ rows ∧ v ∈ r.variants

/-- The network of forms of one layout is a network of forms. -/
theorem Layout.network_eq_ofForms (l : Layout) (rootName : String) (rows : List Inflection) :
    l.network rootName rows = Network.ofForms rootName (rows.map fun r => (l, r)) := by
  rw [network, Network.ofForms, Network.addForms, List.foldl_map]

/-- The entries of a network of one layout, by the variants that brought them. -/
theorem Layout.mem_entries_network {l : Layout} {rootName : String} {rows : List Inflection}
    {e : Entry} :
    e ∈ (l.network rootName rows).entries ↔
      ∃ r v, Attested rows r v ∧ l.Files rootName r v e.source e := by
  rw [network_eq_ofForms, Network.mem_entries_iff_files]
  constructor
  · intro hspells
    obtain ⟨f, hf, v, hv, hfiles⟩ := hspells
    obtain ⟨r, hr, rfl⟩ := List.mem_map.mp hf
    exact ⟨r, v, ⟨hr, hv⟩, hfiles⟩
  · intro hparts
    obtain ⟨r, v, ⟨hr, hv⟩, hfiles⟩ := hparts
    exact ⟨(l, r), List.mem_map.mpr ⟨r, hr, rfl⟩, v, hv, hfiles⟩

/-- What is spelled in the network of forms of one layout, from a sublexicon and
a memory on. -/
def Layout.Spells (l : Layout) (rootName : String) (rows : List Inflection) (n : Sublexicon)
    (m : Flag.Memory) (a s : String) : Prop :=
  (l.network rootName rows).Spells l.resume n m a s

/-! ## From the end of the word to the root -/

/-- An ending of a paradigm and class, for the identity of a prefix. -/
def Ending (rows : List Inflection) (p c x : String) (a s : String) : Prop :=
  ∃ r v, Attested rows r v ∧ r.paradigm = p ∧ r.inflClass = c ∧
    Flag.prefixValue v.parts.pre = x ∧ a = r.analysisTags ∧ s = v.parts.post

/-- A stem of a paradigm with the boundary and an ending after it, for the
identity of a prefix. -/
def StemAndEnding (rows : List Inflection) (p x : String) (a s : String) : Prop :=
  ∃ r v, Attested rows r v ∧ r.paradigm = p ∧ ∃ a' s', Ending rows p r.inflClass x a' s' ∧
    a = r.headword ++ a' ∧ s = r.stem ++ (Boundary.closing.symbol ++ s')

namespace Layout

variable {l : Layout} {rootName : String} {rows : List Inflection} {a s : String}

/-- The end of the word spells nothing more. -/
theorem spells_end {m : Flag.Memory} :
    l.Spells rootName rows .terminal m a s ↔ a = "" ∧ s = "" := by
  refine Network.spells_terminal fun e he hend => ?_
  obtain ⟨r, v, -, hfiles⟩ := mem_entries_network.mp he
  rw [hend] at hfiles
  exact hfiles

/-- From a sublexicon some variant's entry is read, and then what can be spelled
from where it leads. -/
theorem spells_files {n : Sublexicon} (hn : n ≠ .terminal) {m : Flag.Memory} :
    l.Spells rootName rows n m a s ↔
      ∃ r v, Attested rows r v ∧ ∃ e, l.Files rootName r v n e ∧ ∃ m', e.Turns m m' ∧
        ∃ a' s', l.Spells rootName rows (l.resume e.next) m' a' s' ∧
          a = e.analysis ++ a' ∧ s = e.surface ++ s' := by
  rw [Spells, Network.spells_of_entries hn]
  constructor
  · intro hspells
    obtain ⟨e, he, rfl, hrest⟩ := hspells
    obtain ⟨r, v, hrv, hfiles⟩ := mem_entries_network.mp he
    exact ⟨r, v, hrv, e, hfiles, hrest⟩
  · intro hparts
    obtain ⟨r, v, hrv, e, hfiles, hrest⟩ := hparts
    have hsource := hfiles.source_eq
    exact ⟨e, mem_entries_network.mpr ⟨r, v, hrv, hsource ▸ hfiles⟩, hsource, hrest⟩

/-- The endings of a key spell the tags and the suffixes of its variants. -/
theorem spells_endings (hmode : l.mode = .regular) {k : EndingKey} {m : Flag.Memory} :
    l.Spells rootName rows (.endings k) m a s ↔
      ∃ r v, Attested rows r v ∧ k = l.endingKey r v ∧ a = r.analysisTags ∧ s = v.parts.post := by
  rw [spells_files (n := .endings k) Sublexicon.noConfusion]
  constructor
  · intro hspells
    obtain ⟨r, v, hrv, _, ⟨-, rfl, rfl⟩, m', -, a', s', hrest, rfl, rfl⟩ := hspells
    obtain ⟨rfl, rfl⟩ := spells_end.mp hrest
    exact ⟨r, v, hrv, rfl, String.append_empty, String.append_empty⟩
  · intro hparts
    obtain ⟨r, v, hrv, rfl, rfl, rfl⟩ := hparts
    exact ⟨r, v, hrv, _, ⟨hmode, rfl, rfl⟩, m,
      (Entry.turns_plain Sublexicon.Role.noConfusion).mpr rfl, "", "",
      spells_end.mpr ⟨rfl, rfl⟩, String.append_empty.symm, String.append_empty.symm⟩

/-- The check of the clause order lets everything pass: no flag before it has
given the order a value. -/
theorem spells_orderCheck (hmode : l.mode = .regular) {k : EndingKey} {m : Flag.Memory}
    (horder : m .order = none) :
    l.Spells rootName rows (.orderCheck k) m a s ↔
      ∃ r v, Attested rows r v ∧ k = l.endingKey r v ∧ a = r.analysisTags ∧ s = v.parts.post := by
  rw [spells_files (n := .orderCheck k) Sublexicon.noConfusion]
  constructor
  · intro hspells
    obtain ⟨r, v, hrv, _, ⟨-, rfl, rfl⟩, m', -, a', s', hrest, rfl, rfl⟩ := hspells
    obtain ⟨r', v', hrv', hk, rfl, rfl⟩ := (spells_endings hmode).mp hrest
    exact ⟨r', v', hrv', hk, Entry.analysis_append_of_flag rfl, Entry.surface_identity_append rfl⟩
  · intro hparts
    obtain ⟨r, v, hrv, rfl, rfl, rfl⟩ := hparts
    have hact : (Flag.unifyOrder (l.endingKey r v).order).act m =
        some (m.put .order (l.endingKey r v).order.text) := if_pos (Or.inl horder)
    exact ⟨r, v, hrv, _, ⟨hmode, rfl, rfl⟩, _, (Entry.turns_flag rfl rfl).mpr hact, _, _,
      (spells_endings hmode).mpr ⟨r, v, hrv, rfl, rfl, rfl⟩,
      (Entry.analysis_append_of_flag rfl).symm, (Entry.surface_identity_append rfl).symm⟩

/-- The check of the prefix lets the endings pass that know the prefix. -/
theorem spells_prefixCheck (hmode : l.mode = .regular) {p c x : String} {m : Flag.Memory}
    (horder : m .order = none) (hidentity : m .prefixId = some x) :
    l.Spells rootName rows (.prefixCheck p c) m a s ↔ Ending rows p c x a s := by
  rw [spells_files (n := .prefixCheck p c) Sublexicon.noConfusion]
  constructor
  · intro hspells
    obtain ⟨r, v, hrv, _, ⟨-, rfl, rfl, rfl⟩, m', hturns, a', s', hrest, rfl, rfl⟩ := hspells
    have hact := (Entry.turns_flag (f := Flag.requirePrefix v.parts.pre) rfl rfl).mp hturns
    obtain ⟨hx, hm⟩ := Option.ite_none_right_eq_some.mp hact
    obtain rfl : m = m' := Option.some.inj hm
    obtain rfl : x = Flag.prefixValue v.parts.pre := Option.some.inj (hidentity.symm.trans hx)
    -- the ending may be another variant's: the two share a key, not a form
    obtain ⟨r', v', hrv', hk, rfl, rfl⟩ := (spells_orderCheck hmode horder).mp hrest
    obtain ⟨hp, hc, hpre, -⟩ := EndingKey.mk.inj hk
    exact ⟨r', v', hrv', hp.symm, hc.symm, hpre.symm, Entry.analysis_append_of_flag rfl,
      Entry.surface_identity_append rfl⟩
  · intro hparts
    obtain ⟨r, v, hrv, rfl, rfl, rfl, rfl, rfl⟩ := hparts
    have hact : (Flag.requirePrefix v.parts.pre).act m = some m := if_pos hidentity
    exact ⟨r, v, hrv, _, ⟨hmode, rfl, rfl, rfl⟩, m, (Entry.turns_flag rfl rfl).mpr hact, _, _,
      (spells_orderCheck hmode horder).mpr ⟨r, v, hrv, rfl, rfl, rfl⟩,
      (Entry.analysis_append_of_flag rfl).symm, (Entry.surface_identity_append rfl).symm⟩

/-- The boundary between stem and ending is written before the ending. -/
theorem spells_stemBoundary (hmode : l.mode = .regular) {r : Inflection} {v : Variant}
    (hrv : Attested rows r v) {x : String} {m : Flag.Memory}
    (horder : m .order = none) (hidentity : m .prefixId = some x) :
    l.Spells rootName rows (.stemBoundary r.paradigm r.inflClass) m a s ↔
      ∃ s', Ending rows r.paradigm r.inflClass x a s' ∧ s = Boundary.closing.symbol ++ s' := by
  rw [spells_files (n := .stemBoundary r.paradigm r.inflClass) Sublexicon.noConfusion]
  constructor
  · intro hspells
    obtain ⟨_, _, _, _, ⟨-, -, -, rfl⟩, m', hturns, a', s', hrest, rfl, rfl⟩ := hspells
    obtain rfl := (Entry.turns_plain Sublexicon.Role.noConfusion).mp hturns
    refine ⟨s', ?_, rfl⟩
    rw [Entry.analysis_of_epsilon rfl rfl, String.empty_append]
    exact (spells_prefixCheck hmode horder hidentity).mp hrest
  · intro hparts
    obtain ⟨s', hending, rfl⟩ := hparts
    exact ⟨r, v, hrv, _, ⟨hmode, rfl, rfl, rfl⟩, m,
      (Entry.turns_plain Sublexicon.Role.noConfusion).mpr rfl, a, s',
      (spells_prefixCheck hmode horder hidentity).mpr hending, String.empty_append.symm, rfl⟩

/-- A stem goes with the endings of its paradigm and class. -/
theorem spells_stems (hmode : l.mode = .regular) {p x : String} {m : Flag.Memory}
    (horder : m .order = none) (hidentity : m .prefixId = some x) :
    l.Spells rootName rows (.stems p) m a s ↔ StemAndEnding rows p x a s := by
  rw [spells_files (n := .stems p) Sublexicon.noConfusion]
  constructor
  · intro hspells
    obtain ⟨r, v, hrv, _, ⟨-, rfl, rfl⟩, m', hturns, a', s', hrest, rfl, rfl⟩ := hspells
    obtain rfl := (Entry.turns_plain Sublexicon.Role.noConfusion).mp hturns
    obtain ⟨s', hending, rfl⟩ := (spells_stemBoundary hmode hrv horder hidentity).mp hrest
    exact ⟨r, v, hrv, rfl, a', s', hending, rfl, rfl⟩
  · intro hparts
    obtain ⟨r, v, hrv, rfl, a', s', hending, rfl, rfl⟩ := hparts
    exact ⟨r, v, hrv, _, ⟨hmode, rfl, rfl⟩, m,
      (Entry.turns_plain Sublexicon.Role.noConfusion).mpr rfl, a', _,
      (spells_stemBoundary hmode hrv horder hidentity).mpr ⟨s', hending, rfl⟩, rfl, rfl⟩

/-- The gate leads back into the paradigm the word started with, and into no
other one of those that share it. -/
theorem spells_gate (hmode : l.mode = .regular) {pos p x : String} {m : Flag.Memory}
    (hslot : l.slot.map PreElementSlot.pos = some pos) (horder : m .order = none)
    (hidentity : m .prefixId = some x) (hparadigm : m .paradigm = some p) :
    l.Spells rootName rows (.gate pos) m a s ↔ StemAndEnding rows p x a s := by
  rw [spells_files (n := .gate pos) Sublexicon.noConfusion]
  constructor
  · intro hspells
    obtain ⟨r, v, hrv, _, ⟨-, -, rfl⟩, m', hturns, a', s', hrest, rfl, rfl⟩ := hspells
    have hact := (Entry.turns_flag (f := Flag.requireParadigm r.paradigm) rfl rfl).mp hturns
    -- an entry of another paradigm asks for a value that the memory does not have
    obtain ⟨hp, hm⟩ := Option.ite_none_right_eq_some.mp hact
    obtain rfl : m = m' := Option.some.inj hm
    obtain rfl : p = r.paradigm := Option.some.inj (hparadigm.symm.trans hp)
    rw [Entry.analysis_append_of_flag rfl, Entry.surface_identity_append rfl]
    exact (spells_stems hmode horder hidentity).mp hrest
  · intro hword
    -- the form of the stem has filed the way through the gate
    obtain ⟨r, v, hrv, rfl, -⟩ := id hword
    have hact : (Flag.requireParadigm r.paradigm).act m = some m := if_pos hparadigm
    exact ⟨r, v, hrv, _, ⟨hmode, hslot, rfl⟩, m, (Entry.turns_flag rfl rfl).mpr hact, a, s,
      (spells_stems hmode horder hidentity).mpr hword,
      (Entry.analysis_append_of_flag rfl).symm, (Entry.surface_identity_append rfl).symm⟩

/-- After the prefix boundary come stem and ending of the paradigm the word
started with, whether directly, through the gate, or through a sublexicon that
is defined elsewhere and hands the word on to the gate. -/
theorem spells_afterPrefix (hmode : l.mode = .regular) {p x : String} {m : Flag.Memory}
    (horder : m .order = none) (hidentity : m .prefixId = some x)
    (hparadigm : m .paradigm = some p) :
    l.Spells rootName rows (l.resume (l.afterPrefix p)) m a s ↔ StemAndEnding rows p x a s := by
  rcases hslot : l.slot with _ | ⟨pos, _ | name⟩
  · have hnext : l.resume (l.afterPrefix p) = .stems p := by simp [resume, afterPrefix, hslot]
    rw [hnext]
    exact spells_stems hmode horder hidentity
  all_goals
    have hnext : l.resume (l.afterPrefix p) = .gate pos := by simp [resume, afterPrefix, hslot]
    rw [hnext]
    exact spells_gate hmode (by rw [hslot]; rfl) horder hidentity hparadigm

/-- The boundary after the prefix is written before the stem. -/
theorem spells_prefixBoundary (hmode : l.mode = .regular) {p x : String} {m : Flag.Memory}
    (horder : m .order = none) (hidentity : m .prefixId = some x)
    (hparadigm : m .paradigm = some p) :
    l.Spells rootName rows (.prefixBoundary p) m a s ↔
      ∃ s', StemAndEnding rows p x a s' ∧ s = Boundary.opening.symbol ++ s' := by
  rw [spells_files (n := .prefixBoundary p) Sublexicon.noConfusion]
  constructor
  · intro hspells
    obtain ⟨_, _, _, _, ⟨-, -, rfl⟩, m', hturns, a', s', hrest, rfl, rfl⟩ := hspells
    obtain rfl := (Entry.turns_plain Sublexicon.Role.noConfusion).mp hturns
    refine ⟨s', ?_, rfl⟩
    rw [Entry.analysis_of_epsilon rfl rfl, String.empty_append]
    exact (spells_afterPrefix hmode horder hidentity hparadigm).mp hrest
  · intro hparts
    obtain ⟨s', hword, rfl⟩ := hparts
    obtain ⟨r, v, hrv, rfl, -⟩ := id hword
    exact ⟨r, v, hrv, _, ⟨hmode, rfl, rfl⟩, m,
      (Entry.turns_plain Sublexicon.Role.noConfusion).mpr rfl, a, s',
      (spells_afterPrefix hmode horder hidentity hparadigm).mpr hword,
      String.empty_append.symm, rfl⟩

/-- A prefix of the paradigm the word started with goes with the stems and
endings that know it. -/
theorem spells_prefixes (hmode : l.mode = .regular) {p : String} {m : Flag.Memory}
    (horder : m .order = none) (hparadigm : m .paradigm = some p) :
    l.Spells rootName rows (.prefixes p) m a s ↔
      ∃ r v, Attested rows r v ∧ r.paradigm = p ∧
        ∃ s', StemAndEnding rows p (Flag.prefixValue v.parts.pre) a s' ∧
          s = v.parts.pre ++ (Boundary.opening.symbol ++ s') := by
  have horder' : ∀ x, (m.put .prefixId x) .order = none :=
    fun x => (Flag.Memory.put_other (by decide) x).trans horder
  have hparadigm' : ∀ x, (m.put .prefixId x) .paradigm = some p :=
    fun x => (Flag.Memory.put_other (by decide) x).trans hparadigm
  rw [spells_files (n := .prefixes p) Sublexicon.noConfusion]
  constructor
  · intro hspells
    obtain ⟨r, v, hrv, _, ⟨-, rfl, rfl⟩, m', hturns, a', s', hrest, rfl, rfl⟩ := hspells
    have hact := (Entry.turns_flag (f := Flag.setPrefix v.parts.pre) rfl rfl).mp hturns
    obtain rfl := Option.some.inj hact
    obtain ⟨s', hword, rfl⟩ := (spells_prefixBoundary hmode (horder' _)
      (Flag.Memory.put_same m _ _) (hparadigm' _)).mp hrest
    rw [Entry.analysis_append_of_flag rfl, Entry.surface_of_flag rfl rfl]
    exact ⟨r, v, hrv, rfl, s', hword, rfl⟩
  · intro hparts
    obtain ⟨r, v, hrv, rfl, s', hword, rfl⟩ := hparts
    refine ⟨r, v, hrv, _, ⟨hmode, rfl, rfl⟩, _,
      (Entry.turns_flag (f := Flag.setPrefix v.parts.pre) rfl rfl).mpr rfl, a, _,
      (spells_prefixBoundary hmode (horder' _) (Flag.Memory.put_same m _ _)
        (hparadigm' _)).mpr ⟨s', hword, rfl⟩, (Entry.analysis_append_of_flag rfl).symm, ?_⟩
    rw [Entry.surface_of_flag rfl rfl]

/-- The root starts a word in each paradigm. -/
theorem spells_root (hmode : l.mode = .regular) :
    l.Spells rootName rows (.root rootName) Flag.Memory.blank a s ↔
      ∃ r v, Attested rows r v ∧
        ∃ s', StemAndEnding rows r.paradigm (Flag.prefixValue v.parts.pre) a s' ∧
          s = v.parts.pre ++ (Boundary.opening.symbol ++ s') := by
  have horder : ∀ x, (Flag.Memory.blank.put .paradigm x) .order = none :=
    fun x => Flag.Memory.put_other (by decide) x
  have hnext : ∀ p, l.resume (l.afterRoot p) = .prefixes p := by
    intro p
    simp only [afterRoot, hmode, resume]
  rw [spells_files (n := .root rootName) Sublexicon.noConfusion]
  constructor
  · intro hspells
    obtain ⟨r, v, hrv, _, ⟨-, rfl⟩, m', hturns, a', s', hrest, rfl, rfl⟩ := hspells
    have hact := (Entry.turns_flag (f := Flag.setParadigm r.paradigm) rfl rfl).mp hturns
    obtain rfl := Option.some.inj hact
    change l.Spells rootName rows (l.resume (l.afterRoot r.paradigm)) _ a' s' at hrest
    rw [hnext] at hrest
    obtain ⟨r₁, v₁, hrv₁, hp, s', hword, rfl⟩ :=
      (spells_prefixes hmode (horder _) (Flag.Memory.put_same _ _ _)).mp hrest
    refine ⟨r₁, v₁, hrv₁, s', ?_, Entry.surface_identity_append rfl⟩
    rw [Entry.analysis_append_of_flag rfl, hp]
    exact hword
  · intro hparts
    obtain ⟨r, v, hrv, s', hword, rfl⟩ := hparts
    have hrest : l.Spells rootName rows (l.resume (l.afterRoot r.paradigm))
        (Flag.Memory.blank.put .paradigm r.paradigm) a
        (v.parts.pre ++ (Boundary.opening.symbol ++ s')) := by
      rw [hnext]
      exact (spells_prefixes hmode (horder _) (Flag.Memory.put_same _ _ _)).mpr
        ⟨r, v, hrv, rfl, s', hword, rfl⟩
    exact ⟨r, v, hrv, _, ⟨rfl, rfl⟩, _,
      (Entry.turns_flag (f := Flag.setParadigm r.paradigm) rfl rfl).mpr rfl, a, _, hrest,
      (Entry.analysis_append_of_flag rfl).symm, (Entry.surface_identity_append rfl).symm⟩

end Layout

/-- **The language of a regular network.**  Analysis and surface of a word are
spelled by a run that obeys its flags exactly when the prefix comes from a
variant of one form, the stem from another and the ending from a variant of a
third one, all of the same paradigm, stem and ending of the same class, prefix
and ending with the same identity of the prefix. -/
theorem regular_language (rootName : String) (slot : Option PreElementSlot) (tags : OrderTags)
    (rows : List Inflection) (a s : String) :
    let l : Layout := ⟨.regular, slot, tags⟩
    (l.network rootName rows).Spells l.resume (.root rootName) Flag.Memory.blank a s ↔
      ∃ r₁ ∈ rows, ∃ v₁ ∈ r₁.variants, ∃ r₂ ∈ rows, ∃ r₃ ∈ rows, ∃ v₃ ∈ r₃.variants,
        r₂.variants ≠ [] ∧ r₂.paradigm = r₁.paradigm ∧ r₃.paradigm = r₁.paradigm ∧
        r₃.inflClass = r₂.inflClass ∧
        Flag.prefixValue v₃.parts.pre = Flag.prefixValue v₁.parts.pre ∧
        a = r₂.headword ++ r₃.analysisTags ∧
        s = v₁.parts.pre ++ "%<%<" ++ r₂.stem ++ "%>%>" ++ v₃.parts.post := by
  intro l
  have hopening : Boundary.opening.symbol = "%<%<" := by decide
  have hclosing : Boundary.closing.symbol = "%>%>" := by decide
  refine (Layout.spells_root (l := l) rfl).trans ?_
  constructor
  · rintro ⟨r₁, v₁, ⟨hr₁, hv₁⟩, _, ⟨r₂, v₂, ⟨hr₂, hv₂⟩, hp₂, _, _,
      ⟨r₃, v₃, ⟨hr₃, hv₃⟩, hp₃, hc₃, hpre, rfl, rfl⟩, rfl, rfl⟩, rfl⟩
    refine ⟨r₁, hr₁, v₁, hv₁, r₂, hr₂, r₃, hr₃, v₃, hv₃, List.ne_nil_of_mem hv₂, hp₂, hp₃, hc₃,
      hpre, rfl, ?_⟩
    simp only [hopening, hclosing, String.append_assoc]
  · intro hspells
    obtain ⟨r₁, hr₁, v₁, hv₁, r₂, hr₂, r₃, hr₃, v₃, hv₃, hne, hp₂, hp₃, hc₃, hpre, rfl, rfl⟩ :=
      hspells
    obtain ⟨v₂, hv₂⟩ := List.exists_mem_of_ne_nil _ hne
    refine ⟨r₁, v₁, ⟨hr₁, hv₁⟩, _, ⟨r₂, v₂, ⟨hr₂, hv₂⟩, hp₂, _, _,
      ⟨r₃, v₃, ⟨hr₃, hv₃⟩, hp₃, hc₃, hpre, rfl, rfl⟩, rfl, rfl⟩, ?_⟩
    simp only [hopening, hclosing, String.append_assoc]

end Morphotactics
