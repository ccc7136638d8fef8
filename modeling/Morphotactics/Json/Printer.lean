/-!
# Printing JSON

Objects whose members are lists of texts, written over several lines with two blanks for each step
inwards.
-/

namespace Morphotactics.Json

/-- A control character as an escaped code. -/
def controlCode (c : Char) : List Char :=
  let digits := Nat.toDigits 16 c.toNat
  ['\\', 'u'] ++ List.replicate (4 - digits.length) '0' ++ digits

/-- One character of a string.  Quotes, backslashes and control characters are escaped. -/
def stringChar (c : Char) : List Char :=
  if c = '"' || c = '\\' then ['\\', c]
  else if c = '\x08' then ['\\', 'b']
  else if c = '\x0c' then ['\\', 'f']
  else if c = '\n' then ['\\', 'n']
  else if c = '\r' then ['\\', 'r']
  else if c = '\t' then ['\\', 't']
  else if c.toNat < 0x20 then controlCode c
  else [c]

/-- A text as a string. -/
def string (s : String) : String :=
  String.ofList (['"'] ++ s.toList.flatMap stringChar ++ ['"'])

/-- Items between brackets, each on a line of its own.  Without items the brackets stand alone. -/
def bracketed (opening closing indent : String) (items : List String) : String :=
  if items.isEmpty then opening ++ closing
  else
    opening ++ "\n" ++ String.intercalate ",\n" (items.map fun s => indent ++ "  " ++ s) ++ "\n" ++
      indent ++ closing

/-- A list of texts, with its lines indented. -/
def textList (indent : String) (texts : List String) : String :=
  bracketed "[" "]" indent (texts.map string)

/-- An object whose members are lists of texts. -/
def textLists (members : List (String × List String)) : String :=
  bracketed "\x7b" "\x7d" "" (members.map fun m => string m.1 ++ ": " ++ textList "  " m.2)

end Morphotactics.Json
