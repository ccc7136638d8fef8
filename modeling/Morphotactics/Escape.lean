/-!
# Escaping

In lexc source nine characters have a meaning of their own: the comment mark `!`, the escape mark
`%`, the angle brackets, the epsilon `0`, the separators `/`, `#` and `;`, and the blank.  To stand
for itself such a character is written after the escape mark.

`escape` writes a text in this way.  An escape mark that is already followed by a reserved character
is kept together with it, so that texts which were escaped by hand are left as they are; any other
escape mark is itself escaped.
-/

namespace Morphotactics

/-- The mark written before a reserved character that stands for itself. -/
def escapeMark : Char := '%'

/-- The characters with a meaning of their own in lexc source. -/
def reservedChars : List Char := ['!', '%', '<', '>', '0', '/', '#', ';', ' ']

/-- Whether a character has a meaning of its own in lexc source. -/
def isReserved (c : Char) : Bool := reservedChars.contains c

/-- Escapes a list of characters, from the left. -/
def escapeChars : List Char → List Char
  | [] => []
  | [c] => if isReserved c then [escapeMark, c] else [c]
  | c :: d :: rest =>
    if c = escapeMark then
      if isReserved d then escapeMark :: d :: escapeChars rest
      else escapeMark :: escapeMark :: escapeChars (d :: rest)
    else if isReserved c then escapeMark :: c :: escapeChars (d :: rest)
    else c :: escapeChars (d :: rest)

/-- Escapes a text, keeping the escapes it already has. -/
def escape (s : String) : String :=
  String.ofList (escapeChars s.toList)

/-- The characters of an escaped text. -/
theorem toList_escape (s : String) : (escape s).toList = escapeChars s.toList := by
  simp [escape]

end Morphotactics
