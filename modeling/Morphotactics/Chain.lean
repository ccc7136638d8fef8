import Morphotactics.Entry
import Morphotactics.Flag
import Morphotactics.Inflection

/-!
# Chains

A chain is the way of one inflected form through a lexicon network: a list of entries that each lead
into the sublexicon of the next one, from the first sublexicon after the root to the end of the
word.  `Layout.chains` lays out all variants of an inflected form, and `Layout.symbols` lists the
symbols that have to be declared for it.

In the regular layout prefix, stem and ending are entries of different sublexicons, which forms of
one paradigm share.  Flags see to it that only prefixes and endings that belong together meet.  In
the irregular layout the whole form is one entry.
-/

namespace Morphotactics

/-- The place where preverbs and prenouns go, after the prefix boundary. -/
structure PreElementSlot where
  /-- The part of speech, which names the sublexicon shared by all paradigms. -/
  pos : String
  /-- The sublexicon, defined elsewhere, that holds the preverbs or prenouns. -/
  prefixRoot : Option String
deriving DecidableEq, Repr

/-- Whether forms are laid out in parts or as wholes. -/
inductive Mode where
  | regular
  | irregular
deriving DecidableEq, Repr

/-- How inflected forms are laid out as chains. -/
structure Layout where
  mode : Mode
  slot : Option PreElementSlot
  orderTags : OrderTags
deriving DecidableEq, Repr

/-- A chain of entries; there is at least one. -/
structure Chain where
  /-- The flag on the root entry that leads into the chain. -/
  flag : Flag
  /-- The first entry. -/
  first : Entry
  /-- The other entries. -/
  rest : List Entry
deriving DecidableEq, Repr

/-- All entries of a chain. -/
def Chain.entries (c : Chain) : List Entry := c.first :: c.rest

namespace Flag

/-- The flag that chooses a paradigm. -/
def setParadigm (p : String) : Flag := ⟨.set, .paradigm, p⟩

/-- The flag that checks the paradigm. -/
def requireParadigm (p : String) : Flag := ⟨.require, .paradigm, p⟩

/-- The flag that a prefix sets. -/
def setPrefix (pre : String) : Flag := ⟨.set, .prefixId, prefixValue pre⟩

/-- The flag that endings check the prefix with. -/
def requirePrefix (pre : String) : Flag := ⟨.require, .prefixId, prefixValue pre⟩

/-- The flag for a clause order. -/
def unifyOrder (o : ClauseOrder) : Flag := ⟨.unify, .order, o.text⟩

end Flag

namespace Layout

variable (l : Layout)

/-- What the ending of a variant depends on. -/
def endingKey (r : Inflection) (v : Variant) : EndingKey :=
  ⟨r.paradigm, r.inflClass, Flag.prefixValue v.parts.pre, l.orderTags.orderOf r.tags⟩

/-- The entry of a prefix.  The flag stands on both sides, the prefix on the surface only. -/
def prefixEntry (r : Inflection) (v : Variant) : Entry :=
  ⟨.prefixes r.paradigm, (Flag.setPrefix v.parts.pre).symbol,
    (Flag.setPrefix v.parts.pre).symbol ++ v.parts.pre, .prefixBoundary r.paradigm⟩

/-- The entries between prefix and stem: the boundary, and where there is a place for preverbs or
prenouns also the check of the paradigm after it. -/
def boundaryEntries (r : Inflection) : List Entry :=
  match l.slot with
  | none =>
    [⟨.prefixBoundary r.paradigm, epsilon, Boundary.opening.symbol, .stems r.paradigm⟩]
  | some slot =>
    let after : Sublexicon :=
      match slot.prefixRoot with
      | none => .gate slot.pos
      | some name => .external name
    [⟨.prefixBoundary r.paradigm, epsilon, Boundary.opening.symbol, after⟩,
      .identity (.gate slot.pos) (Flag.requireParadigm r.paradigm).symbol (.stems r.paradigm)]

/-- The entry of a stem. -/
def stemEntry (r : Inflection) : Entry :=
  ⟨.stems r.paradigm, r.headword, r.stem, .stemBoundary r.paradigm r.inflClass⟩

/-- The entries from the stem to the end of the word. -/
def endingEntries (r : Inflection) (v : Variant) : List Entry :=
  let key := l.endingKey r v
  [⟨.stemBoundary r.paradigm r.inflClass, epsilon, Boundary.closing.symbol,
      .prefixCheck r.paradigm r.inflClass⟩,
    .identity (.prefixCheck r.paradigm r.inflClass) (Flag.requirePrefix v.parts.pre).symbol
      (.orderCheck key),
    .identity (.orderCheck key) (Flag.unifyOrder key.order).symbol (.endings key),
    ⟨.endings key, r.analysisTags, v.parts.post, .terminal⟩]

/-- The entry of an irregular form. -/
def irregularEntry (r : Inflection) (v : Variant) : Entry :=
  ⟨.irregular r.paradigm, r.headword ++ r.analysisTags, escape v.surface, .terminal⟩

/-- The chain of one variant of an inflected form. -/
def chain (r : Inflection) (v : Variant) : Chain :=
  match l.mode with
  | .regular =>
    ⟨Flag.setParadigm r.paradigm, prefixEntry r v,
      l.boundaryEntries r ++ [stemEntry r] ++ l.endingEntries r v⟩
  | .irregular => ⟨Flag.setParadigm r.paradigm, irregularEntry r v, []⟩

/-- The chains of an inflected form, one for each variant. -/
def chains (r : Inflection) : List Chain := r.variants.map (l.chain r)

/-- The flags on the chain of a variant, apart from those of its paradigm. -/
def variantFlags (r : Inflection) (v : Variant) : List Flag :=
  match l.mode with
  | .regular =>
    [Flag.setPrefix v.parts.pre, Flag.requirePrefix v.parts.pre,
      Flag.unifyOrder (l.orderTags.orderOf r.tags)]
  | .irregular => []

/-- The symbols that an inflected form uses: its tags and the flags of its chains.  The flags of the
paradigm belong to them even where there is no variant. -/
def symbols (r : Inflection) : List String :=
  r.tags ++ [(Flag.setParadigm r.paradigm).symbol, (Flag.requireParadigm r.paradigm).symbol] ++
    (r.variants.flatMap (l.variantFlags r)).map Flag.symbol

end Layout

end Morphotactics
