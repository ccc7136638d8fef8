import Morphotactics.Alphabet

/-!
# Building chains

The chains of an inflected form are built with the alphabet at hand.  A flag is made where it is
needed, from what it checks or sets, and added to the alphabet before it is given back and written
on entries.  `Layout.build` goes through the variants of a form in this way.

`Layout.chains` and `Layout.symbols` say the same without going through anything: which chains come
out, and which symbols are in the alphabet afterwards.
-/

namespace Morphotactics

/-- The flag that gives a feature a value, and the flag that checks it. -/
structure FlagPair where
  setter : Flag
  check : Flag
deriving DecidableEq, Repr

namespace Alphabet

/-- Adds a flag. -/
def register (f : Flag) : StateM Alphabet Unit := modify fun a => a.insert f.symbol

/-- The two flags for a value of a feature. -/
def pair (feature : Flag.Feature) (value : String) : StateM Alphabet FlagPair := do
  let flags : FlagPair := ⟨⟨.set, feature, value⟩, ⟨.require, feature, value⟩⟩
  register flags.setter
  register flags.check
  return flags

/-- The two flags for a prefix. -/
def prefixFlags (pre : String) : StateM Alphabet FlagPair :=
  pair .prefixId (Flag.prefixValue pre)

/-- The two flags for a paradigm. -/
def paradigmFlags (p : String) : StateM Alphabet FlagPair := pair .paradigm p

/-- The clause order that tags tell, and the flag for it. -/
def orderFlag (orderTags : OrderTags) (tags : List String) :
    StateM Alphabet (ClauseOrder × Flag) := do
  let order := orderTags.orderOf tags
  let flag : Flag := ⟨.unify, .order, order.text⟩
  register flag
  return (order, flag)

end Alphabet

namespace Layout

variable (l : Layout)

/-- The first entry and the others of a variant in the regular layout, where the check of the
paradigm is given. -/
def regularEntries (r : Inflection) (v : Variant) (paradigmCheck : Flag) :
    StateM Alphabet (Entry × List Entry) := do
  let prefixFlags ← Alphabet.prefixFlags v.parts.pre
  let (order, orderFlag) ← Alphabet.orderFlag l.orderTags r.tags
  let key : EndingKey := ⟨r.paradigm, r.inflClass, Flag.prefixValue v.parts.pre, order⟩
  let first : Entry :=
    ⟨.prefixes r.paradigm, prefixFlags.setter.symbol, prefixFlags.setter.symbol ++ v.parts.pre,
      .prefixBoundary r.paradigm⟩
  let boundary (after : Sublexicon) : Entry :=
    ⟨.prefixBoundary r.paradigm, epsilon, Boundary.opening.symbol, after⟩
  let gate : List Entry :=
    match l.slot with
    | none => [boundary (.stems r.paradigm)]
    | some ⟨pos, prefixRoot⟩ =>
      let after : Sublexicon :=
        match prefixRoot with
        | none => .gate pos
        | some name => .external name
      [boundary after, .identity (.gate pos) paradigmCheck.symbol (.stems r.paradigm)]
  let ending : List Entry :=
    [⟨.stemBoundary r.paradigm r.inflClass, epsilon, Boundary.closing.symbol,
        .prefixCheck r.paradigm r.inflClass⟩,
      .identity (.prefixCheck r.paradigm r.inflClass) prefixFlags.check.symbol (.orderCheck key),
      .identity (.orderCheck key) orderFlag.symbol (.endings key),
      ⟨.endings key, r.analysisTags, v.parts.post, .terminal⟩]
  return (first, gate ++ [stemEntry r] ++ ending)

/-- The first entry and the others of a variant. -/
def variantEntries (r : Inflection) (v : Variant) (paradigmCheck : Flag) :
    StateM Alphabet (Entry × List Entry) :=
  match l.mode with
  | .regular => l.regularEntries r v paradigmCheck
  | .irregular => return (irregularEntry r v, [])

/-- The chain of a variant, where the flags of the paradigm are given. -/
def variantChain (r : Inflection) (paradigmFlags : FlagPair) (v : Variant) :
    StateM Alphabet Chain := do
  let (first, rest) ← l.variantEntries r v paradigmFlags.check
  return ⟨paradigmFlags.setter, first, rest⟩

/-- The chains of an inflected form, one for each variant.  The tags of the form and all flags on
the chains are added to the alphabet. -/
def build (r : Inflection) : StateM Alphabet (List Chain) := do
  modify fun a => a.insertAll r.tags
  let paradigmFlags ← Alphabet.paradigmFlags r.paradigm
  r.variants.mapM (l.variantChain r paradigmFlags)

end Layout

end Morphotactics
