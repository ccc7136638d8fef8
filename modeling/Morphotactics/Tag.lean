import Morphotactics.Escape

/-!
# Tags and clause orders

A morphological tag is a feature value after a plus sign.  Two of the tags of an inflected form tell
its clause order: the independent and the conjunct one; a form with neither has another order.
-/

namespace Morphotactics

/-- The tag of a feature value. -/
def tag (value : String) : String := escape ("+" ++ value)

/-- The plus sign is no reserved character. -/
theorem tag_eq_append (value : String) : tag value = "+" ++ escape value := by
  have hplus : ("+" ++ value).toList = '+' :: value.toList := by simp
  have hescape : escapeChars ('+' :: value.toList) = '+' :: escapeChars value.toList := by
    cases value.toList <;> rfl
  rw [← String.toList_inj, tag, toList_escape, hplus, hescape, ← toList_escape]
  simp

/-- The clause order of an inflected form: independent, conjunct, or another one such as the
imperative. -/
inductive ClauseOrder where
  | independent
  | conjunct
  | other
deriving DecidableEq, Repr

/-- The short name of a clause order in flags and sublexicon names. -/
def ClauseOrder.text : ClauseOrder → String
  | independent => "Ind"
  | conjunct => "Cnj"
  | other => "Other"

/-- Clause orders have different names. -/
theorem ClauseOrder.text_inj {a b : ClauseOrder} (h : a.text = b.text) : a = b := by
  revert h
  cases a <;> cases b <;> decide

/-- The position of a clause order among the three. -/
def ClauseOrder.rank : ClauseOrder → Nat
  | independent => 0
  | conjunct => 1
  | other => 2

/-- The feature values that tell the clause order. -/
structure OrderTags where
  independent : String
  conjunct : String
deriving DecidableEq, Repr

/-- The values that spreadsheets use unless they are configured otherwise. -/
def OrderTags.standard : OrderTags := ⟨"Ind", "Cnj"⟩

/-- The clause order of a form with the given tags.  The independent tag wins over the conjunct
one. -/
def OrderTags.orderOf (o : OrderTags) (tags : List String) : ClauseOrder :=
  if tags.contains (tag o.independent) then .independent
  else if tags.contains (tag o.conjunct) then .conjunct
  else .other

end Morphotactics
