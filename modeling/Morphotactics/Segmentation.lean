import Morphotactics.Escape
import Morphotactics.Text.Quoted

/-!
# Segmented forms

A segmented form is an inflected form in which the stem is set off by two morpheme boundaries, `<<`
before it and `>>` after it.  `Segmentation.split` cuts such a form into the text before the stem,
the stem, and the text after it.  A form without one of the boundaries is read as if the boundary
stood at its outer end.
-/

namespace Morphotactics

/-- A morpheme boundary: the one that opens the stem or the one that closes it. -/
inductive Boundary where
  | opening
  | closing
deriving DecidableEq, Repr

namespace Boundary

/-- The two characters that a boundary is written with. -/
def chars : Boundary → List Char
  | opening => ['<', '<']
  | closing => ['>', '>']

/-- A boundary as a text. -/
def text (b : Boundary) : String := String.ofList b.chars

/-- A boundary as a symbol of lexc source. -/
def symbol (b : Boundary) : String := escape b.text

/-- Whether a boundary occurs anywhere in a list of characters. -/
def occursIn (b : Boundary) : List Char → Bool
  | [] => false
  | c :: rest => b.chars.isPrefixOf (c :: rest) || b.occursIn rest

end Boundary

/-- The boundaries of a form, found from the left and without overlap, together with the text
between them: the text before the first boundary, and for every boundary the text after it up to
the next. -/
def cut : List Char → List Char × List (Boundary × List Char)
  | [] => ([], [])
  | [c] => ([c], [])
  | c :: d :: rest =>
    if c = '<' ∧ d = '<' then ([], (.opening, (cut rest).1) :: (cut rest).2)
    else if c = '>' ∧ d = '>' then ([], (.closing, (cut rest).1) :: (cut rest).2)
    else (c :: (cut (d :: rest)).1, (cut (d :: rest)).2)

/-- An inflected form in three escaped parts. -/
structure Segmentation where
  /-- The text before the stem, possibly empty. -/
  pre : String
  /-- The text between the boundaries. -/
  stem : String
  /-- The text after the stem, possibly empty. -/
  post : String
deriving DecidableEq, Repr

/-- A boundary that a form lacks and that is read at its outer end. -/
structure Repair where
  form : String
  boundary : Boundary
deriving DecidableEq, Repr

/-- A form that does not have exactly two boundaries, with those that were found. -/
structure Malformed where
  form : String
  found : List Boundary
deriving DecidableEq, Repr

namespace Segmentation

/-- A form with the missing boundaries put in: `<<` at its start and `>>` at its end. -/
def repaired (form : List Char) : List Char :=
  let opened := if Boundary.opening.occursIn form then form else Boundary.opening.chars ++ form
  if Boundary.closing.occursIn opened then opened else opened ++ Boundary.closing.chars

/-- The boundaries that had to be put in, in the order in which this is done. -/
def repairs (form : String) : List Repair :=
  ([.opening, .closing].filter fun b : Boundary => !b.occursIn form.toList).map fun b => ⟨form, b⟩

/-- Cuts a form at its two boundaries.  They may stand in either order, but there have to be
exactly two of them once the missing ones are put in. -/
def split (form : String) : Except Malformed Segmentation :=
  match cut (repaired form.toList) with
  | (pre, [(_, stem), (_, post)]) =>
    .ok ⟨escape (String.ofList pre), escape (String.ofList stem), escape (String.ofList post)⟩
  | (_, parts) => .error ⟨form, parts.map Prod.fst⟩

end Segmentation

/-- The warning about a boundary that was put in. -/
def Repair.message (r : Repair) : String :=
  let place := match r.boundary with
    | .opening => "start"
    | .closing => "end"
  "Invalid form " ++ Text.quoted r.form ++ ": adding morpheme boundary '" ++ r.boundary.text ++
    "' at the " ++ place

/-- The boundaries that were found in a malformed form, as a text. -/
def Malformed.foundText (e : Malformed) : String :=
  String.intercalate " " (e.found.map Boundary.text)

/-- Why a form is refused. -/
def Malformed.message (e : Malformed) : String :=
  "Invalid form " ++ Text.quoted e.form ++
    ": expected exactly two morpheme boundaries, found [" ++ e.foundText ++ "]"

end Morphotactics
