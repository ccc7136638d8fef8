import Morphotactics.Segmentation
import Morphotactics.Tag

/-!
# Inflected forms

One cell of the paradigm of a word: the word's headword and stem, the tags of the cell, and the
variants in which the form occurs.  Headword, stem, tags and the parts of the variants are escaped;
the surface text of a variant is kept as it was written.
-/

namespace Morphotactics

/-- One way in which an inflected form occurs. -/
structure Variant where
  /-- The plain surface text. -/
  surface : String
  /-- The parts of the form. -/
  parts : Segmentation
deriving DecidableEq, Repr

/-- An inflected form of a word. -/
structure Inflection where
  paradigm : String
  inflClass : String
  headword : String
  stem : String
  tags : List String
  variants : List Variant
deriving DecidableEq, Repr

namespace Inflection

/-- An inflected form without variants, from the texts of its cells. -/
def ofCells (paradigm inflClass headword stem : String) (values : List String) : Inflection :=
  ⟨paradigm, inflClass, escape headword, escape stem, values.map tag, []⟩

/-- The form with one more variant, given by its surface text and its segmented form. -/
def withVariant (r : Inflection) (surface form : String) : Except Malformed Inflection :=
  (Segmentation.split form).map fun parts =>
    { r with variants := r.variants ++ [⟨surface, parts⟩] }

/-- The form with more variants, up to the first malformed one. -/
def withVariants (r : Inflection) (forms : List (String × String)) :
    Except Malformed Inflection :=
  forms.foldlM (fun r f => r.withVariant f.1 f.2) r

/-- The boundaries put in while variants are added, up to the first malformed one. -/
def repairs : List (String × String) → List Repair
  | [] => []
  | (_, form) :: rest =>
    Segmentation.repairs form ++
      match Segmentation.split form with
      | .ok _ => repairs rest
      | .error _ => []

/-- All tags of the form as one text. -/
def analysisTags (r : Inflection) : String := String.join r.tags

end Inflection

end Morphotactics
