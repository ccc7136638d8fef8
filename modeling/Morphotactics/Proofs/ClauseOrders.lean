import Morphotactics.Inflection
import Morphotactics.Proofs.DenotedText

/-!
# Clause orders

The clause order of a form is found among its tags.  These are compared as they are written
down, but a value can be written in more than one way, with or without the marks that its
reserved characters need.  `tag_eq_tag_iff` says which values have the same tag, so that
the order can be told by what the values denote, and no longer by how they are escaped.
-/

namespace Morphotactics

/-- Values have the same tag when they denote the same text after the plus sign. -/
theorem tag_eq_tag_iff {v w : String} : tag v = tag w ↔ denoted ("+" ++ v) = denoted ("+" ++ w) :=
  escape_inj_iff

/-- Whether one of some values denotes the tag of a given one. -/
def DenotesTag (values : List String) (w : String) : Prop :=
  ∃ v ∈ values, denoted ("+" ++ v) = denoted ("+" ++ w)

/-- The tag of a value is among the tags of others when one of these denotes it. -/
theorem tag_mem_map_tag {values : List String} {w : String} :
    tag w ∈ values.map tag ↔ DenotesTag values w := by
  rw [List.mem_map, DenotesTag]
  exact exists_congr fun v => and_congr_right fun _ => tag_eq_tag_iff

namespace OrderTags

variable {o : OrderTags} {tags tags' : List String}

/-- The order of tags, with the tag that is looked for first. -/
theorem orderOf_eq (o : OrderTags) (tags : List String) :
    o.orderOf tags =
      if tag o.independent ∈ tags then .independent
      else if tag o.conjunct ∈ tags then .conjunct
      else .other := by
  simp only [orderOf, List.contains_iff_mem]

/-- The tags by which each order is known. -/
theorem orderOf_iff (o : OrderTags) (tags : List String) :
    (o.orderOf tags = .independent ↔ tag o.independent ∈ tags) ∧
      (o.orderOf tags = .conjunct ↔ tag o.independent ∉ tags ∧ tag o.conjunct ∈ tags) ∧
      (o.orderOf tags = .other ↔ tag o.independent ∉ tags ∧ tag o.conjunct ∉ tags) := by
  rw [orderOf_eq]
  by_cases hind : tag o.independent ∈ tags
  · simp [hind]
  · by_cases hcnj : tag o.conjunct ∈ tags <;> simp [hind, hcnj]

/-- Which tags there are is all that counts. -/
theorem orderOf_congr (h : ∀ t, t ∈ tags' ↔ t ∈ tags) : o.orderOf tags' = o.orderOf tags := by
  simp only [orderOf_eq, h]

end OrderTags

/-- **Orders by what tags denote.**  Take a form of any cells, and any two values that tell
the order.  It is independent if one of the form's values denotes the same text as the value
for that, a plus sign before both; otherwise conjunct if one of them denotes the same text
as the value for the conjunct; and otherwise another one.  Values that come in another order
or more than once tell the same. -/
theorem clause_order_of_denoted (o : OrderTags)
    (paradigm inflClass headword stem : String) (values : List String) :
    let orderOf (values : List String) : ClauseOrder :=
      o.orderOf (Inflection.ofCells paradigm inflClass headword stem values).tags
    (orderOf values = .independent ↔ DenotesTag values o.independent) ∧
      (orderOf values = .conjunct ↔
        ¬DenotesTag values o.independent ∧ DenotesTag values o.conjunct) ∧
      (orderOf values = .other ↔
        ¬DenotesTag values o.independent ∧ ¬DenotesTag values o.conjunct) ∧
      ∀ values', (∀ v, v ∈ values' ↔ v ∈ values) → orderOf values' = orderOf values := by
  intro orderOf
  obtain ⟨hind, hcnj, hother⟩ := o.orderOf_iff (values.map tag)
  simp only [tag_mem_map_tag] at hind hcnj hother
  refine ⟨hind, hcnj, hother, fun values' hsame => OrderTags.orderOf_congr fun t => ?_⟩
  simp only [Inflection.ofCells, List.mem_map, hsame]

/-- The value for the independent order begins with a zero.  A form that has it with the mark
of an escape, and after the conjunct one, is independent, also with its values turned round
and one of them twice. -/
theorem clause_order_of_denoted_zero :
    let o : OrderTags := ⟨"0Ind", "Cnj"⟩
    let orderOf (values : List String) : ClauseOrder :=
      o.orderOf (Inflection.ofCells "VTA" "1" "aaba'" "aaba'w" values).tags
    (∀ v, v ∈ ["%0Ind", "Cnj", "%0Ind"] ↔ v ∈ ["Cnj", "%0Ind"]) ∧
      orderOf ["Cnj", "%0Ind"] = .independent ∧
      orderOf ["%0Ind", "Cnj", "%0Ind"] = orderOf ["Cnj", "%0Ind"] := by
  intro o orderOf
  have hsame : ∀ v, v ∈ ["%0Ind", "Cnj", "%0Ind"] ↔ v ∈ ["Cnj", "%0Ind"] := by
    intro v
    simp only [List.mem_cons, List.not_mem_nil, or_false]
    tauto
  have htold := clause_order_of_denoted o "VTA" "1" "aaba'" "aaba'w" ["Cnj", "%0Ind"]
  have hdenoted : DenotesTag ["Cnj", "%0Ind"] o.independent :=
    ⟨"%0Ind", by simp, by decide⟩
  exact ⟨hsame, htold.1.mpr hdenoted, htold.2.2.2 _ hsame⟩

end Morphotactics
