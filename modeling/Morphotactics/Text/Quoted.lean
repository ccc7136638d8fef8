import Morphotactics.Text.HiddenTable

/-!
# Quoted text

How messages show a text that a user wrote: between double quotes, with quotes and backslashes
escaped, and with every character that would not be seen, or would join the one before it, spelled
by its code point.
-/

namespace Morphotactics.Text

/-- Whether a character cannot be seen for itself: a control, a character without a shape of its
own, or one that joins the character before it.  The plain space is none of these. -/
def isHidden (c : Char) : Bool :=
  let n := c.toNat
  n < 0x20 || n == 0x7F || (0x80 ≤ n && hiddenRanges.any fun r => r.1 ≤ n && n ≤ r.2)

/-- A character by its code point, in hexadecimal between braces. -/
def codePoint (c : Char) : List Char :=
  ['\\', 'u', '\x7b'] ++ Nat.toDigits 16 c.toNat ++ ['\x7d']

/-- How one character is shown inside quotes. -/
def quotedChar (c : Char) : List Char :=
  if c = '\x00' then ['\\', '0']
  else if c = '\t' then ['\\', 't']
  else if c = '\n' then ['\\', 'n']
  else if c = '\r' then ['\\', 'r']
  else if c = '"' || c = '\\' then ['\\', c]
  else if isHidden c then codePoint c
  else [c]

/-- A text between double quotes. -/
def quoted (s : String) : String :=
  String.ofList (['"'] ++ s.toList.flatMap quotedChar ++ ['"'])

/-- A list of quoted texts between brackets, separated by commas. -/
def quotedList (ss : List String) : String :=
  "[" ++ String.intercalate ", " (ss.map quoted) ++ "]"

end Morphotactics.Text
