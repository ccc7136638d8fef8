import Morphotactics.Json.Token

/-!
# Reading JSON

Readers take what they need from the front of a list of tokens.  They tell two problems apart: the
text is not JSON, or it is JSON but not what was asked for.  Since readers go from left to right,
the first problem of a text decides.
-/

namespace Morphotactics.Json

/-- What may be wrong with a text. -/
inductive Problem where
  /-- It is not JSON, or it breaks off. -/
  | illFormed
  /-- It is JSON but does not fit what is read. -/
  | unfit
deriving DecidableEq, Repr

/-- A reader: what it read and the tokens after it. -/
abbrev Reader (α : Type) := List Token → Except Problem (α × List Token)

/-- The problem with tokens that do not begin the value that was asked for.  Where they begin any
value at all, the text does not fit. -/
def mismatch : List Token → Problem
  | .null :: _ | .bool _ :: _ | .text _ :: _ | .openBrace :: _ | .openBracket :: _ => .unfit
  | .number .tooLarge :: _ => .illFormed
  | .number _ :: _ => .unfit
  | _ => .illFormed

/-- Reads a text. -/
def readText : Reader String
  | .text s :: rest => .ok (s, rest)
  | ts => .error (mismatch ts)

/-- Reads a text or null. -/
def readText? : Reader (Option String)
  | .null :: rest => .ok (none, rest)
  | ts => (readText ts).map fun (s, rest) => (some s, rest)

/-- Reads a number that is written with digits only and fits into 64 bits. -/
def readNatural : Reader Nat
  | .number (.natural n) :: rest => .ok (n, rest)
  | ts => .error (mismatch ts)

/-- Reads the rest of a list of texts after one of them. -/
def readMoreTexts : Reader (List String)
  | .closeBracket :: rest => .ok ([], rest)
  | .comma :: .text s :: rest => (readMoreTexts rest).map fun (more, rest) => (s :: more, rest)
  | .comma :: ts => .error (mismatch ts)
  | _ => .error .illFormed

/-- Reads a list of texts. -/
def readTexts : Reader (List String)
  | .openBracket :: .closeBracket :: rest => .ok ([], rest)
  | .openBracket :: ts =>
    match readText ts with
    | .ok (s, rest) => (readMoreTexts rest).map fun (more, rest) => (s :: more, rest)
    | .error e => .error e
  | ts => .error (mismatch ts)

/-- The tokens of the next element of a list, if it has one.  `first` tells whether no element came
before. -/
def nextElement (first : Bool) : List Token → Except Problem (Option (List Token))
  | .closeBracket :: _ => .ok none
  | ts =>
    if first then (if ts.isEmpty then .error .illFormed else .ok (some ts))
    else
      match ts with
      | .comma :: .closeBracket :: _ => .error .illFormed
      | [.comma] => .error .illFormed
      | .comma :: rest => .ok (some rest)
      | _ => .error .illFormed

/-- The end of a list, after its last element. -/
def endList : List Token → Except Problem (List Token)
  | .closeBracket :: rest => .ok rest
  | _ => .error .illFormed

/-- The next member of an object, if it has one: its name, and the tokens from the colon on. -/
def nextMember (first : Bool) : List Token → Except Problem (Option (String × List Token))
  | .closeBrace :: _ => .ok none
  | .text s :: rest => if first then .ok (some (s, rest)) else .error .illFormed
  | .comma :: .text s :: rest => if first then .error .illFormed else .ok (some (s, rest))
  | _ => .error .illFormed

/-- The end of an object, after its last member. -/
def endObject : List Token → Except Problem (List Token)
  | .closeBrace :: rest => .ok rest
  | _ => .error .illFormed

/-- The colon after the name of a member. -/
def afterColon : List Token → Except Problem (List Token)
  | .colon :: rest => .ok rest
  | _ => .error .illFormed

/-- What is to come while a value is passed over. -/
inductive Awaited where
  | value
  /-- A value, or the end of a list that has just begun. -/
  | valueOrEnd
  | name
  /-- A name, or the end of an object that has just begun. -/
  | nameOrEnd
  | colon
  /-- What may follow a value. -/
  | separator
deriving DecidableEq, Repr

/-- Passes over a value.  The list tells, from the inside out, which of the surrounding lists and
objects are objects; the value ends where none is left. -/
def skipFrom : List Bool → Awaited → List Token → Except Problem (List Token)
  | [], .separator, ts => .ok ts
  | _, _, [] => .error .illFormed
  | inside, awaited, t :: ts =>
    match awaited, t with
    | .value, .null | .value, .bool _ | .value, .number _ | .value, .text _ | .value, .badText
    | .valueOrEnd, .null | .valueOrEnd, .bool _ | .valueOrEnd, .number _ | .valueOrEnd, .text _
    | .valueOrEnd, .badText => skipFrom inside .separator ts
    | .value, .openBracket | .valueOrEnd, .openBracket => skipFrom (false :: inside) .valueOrEnd ts
    | .value, .openBrace | .valueOrEnd, .openBrace => skipFrom (true :: inside) .nameOrEnd ts
    | .valueOrEnd, .closeBracket | .nameOrEnd, .closeBrace =>
      skipFrom inside.tail .separator ts
    | .name, .text _ | .name, .badText | .nameOrEnd, .text _ | .nameOrEnd, .badText =>
      skipFrom inside .colon ts
    | .colon, .colon => skipFrom inside .value ts
    | .separator, .comma =>
      skipFrom inside (if inside.head? = some true then .name else .value) ts
    | .separator, .closeBrace =>
      if inside.head? = some true then skipFrom inside.tail .separator ts else .error .illFormed
    | .separator, .closeBracket =>
      if inside.head? = some false then skipFrom inside.tail .separator ts else .error .illFormed
    | _, _ => .error .illFormed

/-- Passes over a value of any kind. -/
def skip : List Token → Except Problem (List Token) := skipFrom [] .value

/-- The end of the text. -/
def endText : List Token → Except Problem Unit
  | [] => .ok ()
  | _ => .error .illFormed

end Morphotactics.Json
