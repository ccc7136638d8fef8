/-!
# Blank characters

The characters with the Unicode property White_Space, and cutting them off both ends of a text.
Cutting twice is cutting once.
-/

namespace Morphotactics.Text

/-- Whether a character is white space: the blanks and line ends of ASCII, the next-line control,
the no-break space, and the spaces and separators of general punctuation. -/
def isBlank (c : Char) : Bool :=
  let n := c.toNat
  (9 ≤ n && n ≤ 13) || n == 0x20 || n == 0x85 || n == 0xA0 || n == 0x1680 ||
    (0x2000 ≤ n && n ≤ 0x200A) || n == 0x2028 || n == 0x2029 || n == 0x202F || n == 0x205F ||
    n == 0x3000

/-- Cuts the blanks off the end of a list of characters. -/
def trimEnd (cs : List Char) : List Char :=
  (cs.reverse.dropWhile isBlank).reverse

/-- A text without the blanks at its ends. -/
def trim (s : String) : String :=
  String.ofList (trimEnd (s.toList.dropWhile isBlank))

end Morphotactics.Text
