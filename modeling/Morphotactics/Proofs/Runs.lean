import Morphotactics.Proofs.Insertion

/-!
# Runs of a network

A run reads one word: it goes from a sublexicon to the end of the word, from
each entry into the sublexicon that the entry leads to.  Flags are kept in mind
along the way.  A flag writes nothing, but it may change the memory or forbid
to go on, so of all runs only those count that obey their flags.

`Network.Spells` collects what the obedient runs from a sublexicon write on the
two sides.  `spells_of_entries` is its recursion: what is spelled from a
sublexicon is told by its entries and by what is spelled from where they lead.
-/

namespace Morphotactics

/-! ## Flags in mind -/

namespace Flag

/-- The values that features have so far. -/
abbrev Memory := Feature → Option String

/-- The memory at the start of a word: no feature has a value. -/
def Memory.blank : Memory := fun _ => none

/-- The memory with a value for a feature. -/
def Memory.put (m : Memory) (feature : Feature) (value : String) : Memory :=
  fun k => if k = feature then some value else m k

/-- A feature has the value that it was given. -/
@[simp] theorem Memory.put_same (m : Memory) (k : Feature) (value : String) :
    m.put k value k = some value := if_pos rfl

/-- Other features keep their values. -/
@[simp] theorem Memory.put_other {m : Memory} {k feature : Feature} (h : k ≠ feature)
    (value : String) : m.put feature value k = m k := if_neg h

/-- The memory after a flag, or none where the flag forbids to go on.  Setting
always works; a requirement needs exactly its value; unification needs its
value or none, and leaves its value. -/
def act (f : Flag) (m : Memory) : Option Memory :=
  match f.operator with
  | .set => some (m.put f.feature f.value)
  | .require => if m f.feature = some f.value then some m else none
  | .unify =>
    if m f.feature = none ∨ m f.feature = some f.value then some (m.put f.feature f.value)
    else none

end Flag

/-! ## What an entry writes -/

/-- What the entries of a sublexicon hold on their analysis sides: a flag,
nothing but a boundary on the other side, or text of the word. -/
inductive Sublexicon.Role where
  | flags
  | boundary
  | text
deriving DecidableEq

/-- The role of a sublexicon. -/
def Sublexicon.role : Sublexicon → Role
  | root _ | prefixes _ | gate _ | prefixCheck _ _ | orderCheck _ => .flags
  | prefixBoundary _ | stemBoundary _ _ => .boundary
  | external _ | stems _ | endings _ | irregular _ | terminal => .text

namespace Entry

/-- What an entry adds to the analysis.  Flags and the epsilon of a boundary
add nothing. -/
def analysis (e : Entry) : String :=
  match e.source.role with
  | .flags => ""
  | .boundary => if e.upper = epsilon then "" else e.upper
  | .text => e.upper

/-- What an entry adds to the surface: its surface side, where a flag is due
without the flag that stands in front. -/
def surface (e : Entry) : String :=
  match e.source.role with
  | .flags =>
    match e.upper.toList.isPrefixOf? e.lower.toList with
    | some rest => String.ofList rest
    | none => e.lower
  | .boundary | .text => e.lower

/-- A flag in front of the surface side is taken off. -/
theorem surface_of_flag {e : Entry} (hrole : e.source.role = .flags) {rest : String}
    (hlower : e.lower = e.upper ++ rest) : e.surface = rest := by
  have hoff : ∀ l m : List Char, l.isPrefixOf? (l ++ m) = some m := by
    intro l m
    induction l with
    | nil => rfl
    | cons c l ih => simp [List.isPrefixOf?, ih]
  simp only [surface, hrole, hlower, String.toList_append, hoff, String.ofList_toList]

/-- A flag on both sides of an entry adds nothing to the surface. -/
theorem surface_identity_append {n n' : Sublexicon} (hrole : n.role = .flags) {symbol s : String} :
    (identity n symbol n').surface ++ s = s := by
  have hnothing : (identity n symbol n').surface = "" :=
    surface_of_flag hrole String.append_empty.symm
  rw [hnothing, String.empty_append]

/-- Where flags are due, nothing is added to the analysis. -/
theorem analysis_append_of_flag {e : Entry} (hrole : e.source.role = .flags) {a : String} :
    e.analysis ++ a = a := by
  rw [analysis, hrole, String.empty_append]

/-- The epsilon of a boundary adds nothing to the analysis. -/
theorem analysis_of_epsilon {e : Entry} (hrole : e.source.role = .boundary)
    (hupper : e.upper = epsilon) : e.analysis = "" := by
  rw [analysis, hrole]
  exact if_pos hupper

/-- Reading an entry turns one memory into another.  Where a flag is due, the
analysis side is read as the flag that is written so, and the flag acts;
elsewhere nothing happens. -/
def Turns (e : Entry) (m m' : Flag.Memory) : Prop :=
  if e.source.role = .flags then ∃ f : Flag, e.upper = f.symbol ∧ f.act m = some m'
  else m' = m

/-- A side that is written for a flag acts as that flag. -/
theorem turns_flag {e : Entry} {f : Flag} (hrole : e.source.role = .flags)
    (hupper : e.upper = f.symbol) {m m' : Flag.Memory} :
    e.Turns m m' ↔ f.act m = some m' := by
  rw [Turns, if_pos hrole]
  constructor
  · rintro ⟨f', hf', hact⟩
    rw [Flag.symbol_injective (hupper.symm.trans hf')]
    exact hact
  · intro hact
    exact ⟨f, hupper, hact⟩

/-- Where no flag is due, the memory stays. -/
theorem turns_plain {e : Entry} (hrole : e.source.role ≠ .flags) {m m' : Flag.Memory} :
    e.Turns m m' ↔ m' = m := by
  rw [Turns, if_neg hrole]

end Entry

/-- Whether entries obey their flags when read one after the other, from a
memory on. -/
def Obeys : Flag.Memory → List Entry → Prop
  | _, [] => True
  | m, e :: es => ∃ m', e.Turns m m' ∧ Obeys m' es

/-! ## Runs -/

namespace Network

/-- A run from a sublexicon to the end of the word.  A sublexicon that an entry
leads to may be defined elsewhere and hand the word back: `resume` says where
the word goes on. -/
inductive Run (g : Network) (resume : Sublexicon → Sublexicon) :
    Sublexicon → List Entry → Prop
  | done : Run g resume .terminal []
  | step {n : Sublexicon} {e : Entry} {es : List Entry}
      (hmem : e ∈ g.entries) (hsource : e.source = n)
      (hrest : Run g resume (resume e.next) es) : Run g resume n (e :: es)

/-- Analysis and surface that some obedient run spells, from a sublexicon and a
memory on. -/
def Spells (g : Network) (resume : Sublexicon → Sublexicon) (n : Sublexicon)
    (m : Flag.Memory) (a s : String) : Prop :=
  ∃ es, g.Run resume n es ∧ Obeys m es ∧
    a = String.join (es.map Entry.analysis) ∧ s = String.join (es.map Entry.surface)

variable {g : Network} {resume : Sublexicon → Sublexicon}

/-- The end of the word spells nothing more. -/
theorem spells_terminal (hend : ∀ e ∈ g.entries, e.source ≠ .terminal)
    {m : Flag.Memory} {a s : String} :
    g.Spells resume .terminal m a s ↔ a = "" ∧ s = "" := by
  constructor
  · rintro ⟨es, hrun, -, rfl, rfl⟩
    cases hrun with
    | done => exact ⟨rfl, rfl⟩
    | step hmem hsource _ => exact absurd hsource (hend _ hmem)
  · rintro ⟨rfl, rfl⟩
    exact ⟨[], .done, trivial, rfl, rfl⟩

/-- **Recursion of spelling.**  From a sublexicon an entry is read, and then
what can be spelled from where it leads. -/
theorem spells_of_entries {n : Sublexicon} (hn : n ≠ .terminal) {m : Flag.Memory}
    {a s : String} :
    g.Spells resume n m a s ↔
      ∃ e ∈ g.entries, e.source = n ∧ ∃ m', e.Turns m m' ∧
        ∃ a' s', g.Spells resume (resume e.next) m' a' s' ∧
          a = e.analysis ++ a' ∧ s = e.surface ++ s' := by
  constructor
  · rintro ⟨es, hrun, hobeys, rfl, rfl⟩
    cases hrun with
    | done => exact absurd rfl hn
    | @step _ e es hmem hsource hrest =>
        obtain ⟨m', hturns, hobeys'⟩ := hobeys
        exact ⟨e, hmem, hsource, m', hturns, _, _, ⟨es, hrest, hobeys', rfl, rfl⟩,
          by rw [List.map_cons, String.join_cons], by rw [List.map_cons, String.join_cons]⟩
  · rintro ⟨e, hmem, hsource, m', hturns, -, -, ⟨es, hrest, hobeys, rfl, rfl⟩, rfl, rfl⟩
    exact ⟨e :: es, .step hmem hsource hrest, ⟨m', hturns, hobeys⟩,
      by rw [List.map_cons, String.join_cons], by rw [List.map_cons, String.join_cons]⟩

end Network

end Morphotactics
