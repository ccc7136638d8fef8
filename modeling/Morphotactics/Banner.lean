import Morphotactics.Sublexicon

/-!
# Banners

A sublexicon of a paradigm is written under a banner: a box of comment marks that says in words what
the sublexicon is for.
-/

namespace Morphotactics.Banner

/-- The width of a banner. -/
def width : Nat := 80

/-- The column where the text of a banner starts. -/
def textColumn : Nat := 10

/-- Why there is no banner: the sublexicon does not describe a part of a word. -/
inductive Error where
  | noPattern (name : String)
deriving DecidableEq, Repr

/-- What is told about a sublexicon without a banner. -/
def Error.message : Error → String
  | noPattern name => "Lexicon name " ++ name ++ " does not match any comment pattern"

/-- The words for a paradigm. -/
def paradigmText (p : String) : String := "Paradigm: " ++ p

/-- The words for a class of a paradigm. -/
def classText (p c : String) : String := "Paradigm: " ++ p ++ ", Class: " ++ c

/-- The words for an ending key. -/
def keyText (k : EndingKey) : String :=
  classText k.paradigm k.inflClass ++ ", Prefix: " ++ k.prefixValue ++ ", Order: " ++ k.order.text

/-- The texts of a banner.  Only sublexicons of a paradigm, and the shared place of preverbs and
prenouns, have one. -/
def texts : Sublexicon → Except Error (List String)
  | .prefixes p => .ok [paradigmText p, "Prefixes"]
  | .prefixBoundary p => .ok [paradigmText p, "Morpheme boundary between prefix and stem"]
  | .gate pos => .ok ["Part of speech: " ++ pos, "Pre-verbs/nouns"]
  | .stems p => .ok [paradigmText p, "Stems"]
  | .stemBoundary p c => .ok [classText p c, "Morpheme boundary between stem and suffix"]
  | .prefixCheck p c =>
    .ok [classText p c, "Flag diacritic governing combinations between", "prefix and ending"]
  | .orderCheck k => .ok [keyText k]
  | .endings k => .ok [keyText k, "Endings"]
  | .irregular p => .ok [paradigmText p, "Irregular forms"]
  | .root name => .error (.noPattern (Sublexicon.root name).text)
  | .external name => .error (.noPattern (Sublexicon.external name).text)
  | .terminal => .error (.noPattern Sublexicon.terminal.text)

/-- The border of a banner. -/
def border : List Char := List.replicate width '!'

/-- A line of a banner without text. -/
def blankLine : List Char := ['!'] ++ List.replicate (width - 2) ' ' ++ ['!']

/-- A line of a banner with a text, written over the blank line from the text column on.  A text
that is too long runs past the border. -/
def framed (text : List Char) : List Char :=
  blankLine.take textColumn ++ text ++ blankLine.drop (textColumn + text.length)

/-- The lines of the banner of a sublexicon. -/
def lines (name : Sublexicon) : Except Error (List String) :=
  (texts name).map fun ts =>
    ([border, blankLine] ++ ts.map (fun t => framed t.toList) ++ [blankLine, border]).map
      String.ofList

/-- The banner of a sublexicon as one text. -/
def block (name : Sublexicon) : Except Error String :=
  (lines name).map (String.intercalate "\n")

end Morphotactics.Banner
