import Morphotactics.Text.Quoted
import Morphotactics.Text.Upper

/-!
# Flag diacritics

A flag diacritic is a symbol such as `@P.Prefix.NI@` that writes nothing but acts on a feature while
a word is read: it sets the feature to a value, requires that value, or unifies with it.  `symbol`
writes a flag and `parse` reads one.
-/

namespace Morphotactics

/-- What a flag does with its feature. -/
inductive Flag.Operator where
  /-- Gives the feature the value. -/
  | set
  /-- Goes on only where the feature has the value. -/
  | require
  /-- Goes on where the feature has the value or none yet, and gives it the value. -/
  | unify
deriving DecidableEq, Repr

/-- The features that flags act on. -/
inductive Flag.Feature where
  /-- The identity of the prefix at the start of the word. -/
  | prefixId
  /-- The paradigm chosen in the root sublexicon. -/
  | paradigm
  /-- The clause order told by the tags of an ending. -/
  | order
deriving DecidableEq, Repr

/-- A flag diacritic. -/
structure Flag where
  operator : Flag.Operator
  feature : Flag.Feature
  value : String
deriving DecidableEq, Repr

namespace Flag

/-- The letter of an operator in a flag. -/
def Operator.letter : Operator → String
  | set => "P"
  | require => "R"
  | unify => "U"

/-- The operator with a given letter. -/
def Operator.ofLetter? : String → Option Operator
  | "P" => some set
  | "R" => some require
  | "U" => some unify
  | _ => none

/-- The position of an operator in the order of flags. -/
def Operator.rank : Operator → Nat
  | set => 0
  | require => 1
  | unify => 2

/-- The name of a feature in a flag. -/
def Feature.text : Feature → String
  | prefixId => "Prefix"
  | paradigm => "Paradigm"
  | order => "Order"

/-- The feature with a given name. -/
def Feature.ofText? : String → Option Feature
  | "Prefix" => some prefixId
  | "Paradigm" => some paradigm
  | "Order" => some order
  | _ => none

/-- The position of a feature in the order of flags. -/
def Feature.rank : Feature → Nat
  | prefixId => 0
  | paradigm => 1
  | order => 2

/-- Operators are told apart by their positions. -/
theorem Operator.rank_inj {a b : Operator} (h : a.rank = b.rank) : a = b := by
  cases a <;> cases b <;> first | rfl | cases h

/-- Features are told apart by their positions. -/
theorem Feature.rank_inj {a b : Feature} (h : a.rank = b.rank) : a = b := by
  cases a <;> cases b <;> first | rfl | cases h

/-- Flags are ordered by operator, then by feature, then by value. -/
def order (a b : Flag) : Ordering :=
  compareLex (compareOn fun f => f.operator.rank)
    (compareLex (compareOn fun f => f.feature.rank) (compareOn Flag.value)) a b

instance : Ord Flag := ⟨order⟩

instance : Std.TransOrd Flag :=
  inferInstanceAs (Std.TransCmp (compareLex (compareOn fun f : Flag => f.operator.rank)
    (compareLex (compareOn fun f : Flag => f.feature.rank) (compareOn Flag.value))))

instance : Std.LawfulEqOrd Flag where
  eq_of_compare {a b} h := by
    obtain ⟨ho, h⟩ := compareLex_eq_eq.1 h
    obtain ⟨hf, hv⟩ := compareLex_eq_eq.1 h
    have ho := Operator.rank_inj (Std.LawfulEqOrd.eq_of_compare ho)
    have hf := Feature.rank_inj (Std.LawfulEqOrd.eq_of_compare hf)
    have hv : a.value = b.value := Std.LawfulEqOrd.eq_of_compare hv
    cases a; cases b; cases ho; cases hf; cases hv; rfl

/-- The symbol that a flag is written with. -/
def symbol (f : Flag) : String :=
  "@" ++ f.operator.letter ++ "." ++ f.feature.text ++ "." ++ f.value ++ "@"

/-- A symbol is written for one flag only. -/
theorem symbol_injective {f f' : Flag} (h : f.symbol = f'.symbol) : f = f' := by
  obtain ⟨operator, feature, value⟩ := f
  obtain ⟨operator', feature', value'⟩ := f'
  have hopen := congrArg String.toList h
  simp only [symbol, String.toList_append, List.append_assoc, List.append_cancel_left_eq] at hopen
  have hoperator : operator = operator' := by
    cases operator <;> cases operator' <;> first | rfl | cases (List.cons.inj hopen).1
  subst hoperator
  have hrest := List.append_cancel_left (List.append_cancel_left hopen)
  have hfeature : feature = feature' := by
    cases feature <;> cases feature' <;>
      first | rfl | exact absurd (congrArg (List.take 2) hrest) (by simp [Feature.text])
  subst hfeature
  have hvalue := List.append_cancel_left (List.append_cancel_left hrest)
  rw [String.toList_inj.mp (List.append_cancel_right hvalue)]

/-- Whether a flag restricts where a word may go on. -/
def isCheck (f : Flag) : Bool := f.operator ≠ .set

/-- The flag that has to set what this flag checks.  Nothing sets the clause order. -/
def counterpart (f : Flag) : Option Flag :=
  if !f.isCheck || f.feature = .order then none
  else some ⟨.set, f.feature, f.value⟩

/-- Why a text is not a flag. -/
inductive ParseError where
  | notAFlag (text : String)
  | malformed (text : String)
  | unknownOperator (text : String)
  | unknownFeature (text : String)
deriving DecidableEq, Repr

/-- What is told about a text that is not a flag. -/
def ParseError.message : ParseError → String
  | notAFlag s => Text.quoted s ++ " is not enclosed in '@'"
  | malformed s => Text.quoted s ++ " does not have the form @OP.Category.VALUE@"
  | unknownOperator s => "Unknown flag operator in " ++ Text.quoted s
  | unknownFeature s => "Unknown flag category in " ++ Text.quoted s

/-- The characters between the first and the last one, when both are at signs of their own. -/
def enclosed? : List Char → Option (List Char)
  | '@' :: rest => if rest.getLast? = some '@' then some rest.dropLast else none
  | _ => none

/-- The characters before and after the first dot. -/
def atDot? : List Char → Option (List Char × List Char)
  | [] => none
  | c :: rest =>
    if c = '.' then some ([], rest) else (atDot? rest).map fun (l, r) => (c :: l, r)

/-- Reads a flag.  Only the first two dots separate parts, so that the value may have dots and at
signs of its own, but it may not be empty. -/
def parse (s : String) : Except ParseError Flag := do
  let some inner := enclosed? s.toList | throw (.notAFlag s)
  let some (operator, rest) := atDot? inner | throw (.malformed s)
  let some (feature, value) := atDot? rest | throw (.malformed s)
  if value.isEmpty then throw (.malformed s)
  let some operator := Operator.ofLetter? (String.ofList operator) | throw (.unknownOperator s)
  let some feature := Feature.ofText? (String.ofList feature) | throw (.unknownFeature s)
  return ⟨operator, feature, String.ofList value⟩

/-- The value that stands for a prefix in flags and sublexicon names: the prefix in upper case, or
`NONE` where there is no prefix. -/
def prefixValue (pre : String) : String :=
  if pre.isEmpty then "NONE" else Text.upper pre

end Flag

end Morphotactics
