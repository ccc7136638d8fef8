import Morphotactics.Flag

/-!
# Flags and their symbols

`Flag.symbol` writes a flag and `Flag.parse` reads one.  A text is read as a flag
just when it is the symbol of a flag that has a value: reading gives that flag
back, whatever characters the value has, since only the first two dots and the
outer at signs separate parts.
-/

namespace Morphotactics.Flag

/-- Reading a flag, step by step. -/
theorem parse_eq (s : String) :
    parse s =
      match enclosed? s.toList with
      | none => .error (.notAFlag s)
      | some inner =>
        match atDot? inner with
        | none => .error (.malformed s)
        | some (operator, rest) =>
          match atDot? rest with
          | none => .error (.malformed s)
          | some (feature, value) =>
            if value.isEmpty then .error (.malformed s)
            else
              match Operator.ofLetter? (String.ofList operator) with
              | none => .error (.unknownOperator s)
              | some operator =>
                match Feature.ofText? (String.ofList feature) with
                | none => .error (.unknownFeature s)
                | some feature => .ok ⟨operator, feature, String.ofList value⟩ := by
  unfold parse
  cases enclosed? s.toList with
  | none => rfl
  | some inner =>
      cases hoperator : atDot? inner with
      | none => simp only [hoperator]; rfl
      | some p =>
          obtain ⟨operator, rest⟩ := p
          cases hfeature : atDot? rest with
          | none => simp only [hoperator, hfeature]; rfl
          | some q =>
              obtain ⟨feature, value⟩ := q
              simp only [hoperator, hfeature]
              split
              · rfl
              · cases Operator.ofLetter? (String.ofList operator) with
                | none => rfl
                | some operator =>
                    cases Feature.ofText? (String.ofList feature) <;> rfl

/-- A text stands between at signs of its own. -/
theorem enclosed?_eq_some_iff {cs inner : List Char} :
    enclosed? cs = some inner ↔ cs = '@' :: (inner ++ ['@']) := by
  constructor
  · intro h
    unfold enclosed? at h
    split at h
    · rename_i rest
      obtain ⟨hlast, hinner⟩ := Option.ite_none_right_eq_some.mp h
      obtain ⟨l, rfl⟩ := List.getLast?_eq_some_iff.mp hlast
      rw [← Option.some.inj hinner, List.dropLast_concat]
    · cases h
  · rintro rfl
    rw [enclosed?, if_pos (by simp), List.dropLast_concat]

/-- A text is cut at its first dot. -/
theorem atDot?_eq_some_iff {cs l r : List Char} :
    atDot? cs = some (l, r) ↔ cs = l ++ '.' :: r ∧ '.' ∉ l := by
  constructor
  · intro h
    induction cs generalizing l with
    | nil => cases h
    | cons c cs ih =>
        rw [atDot?] at h
        by_cases hdot : c = '.'
        · rw [if_pos hdot] at h
          obtain ⟨rfl, rfl⟩ := Prod.mk.inj (Option.some.inj h)
          exact ⟨by rw [hdot, List.nil_append], List.not_mem_nil⟩
        · rw [if_neg hdot] at h
          obtain ⟨⟨l', r'⟩, hcut, heq⟩ := Option.map_eq_some_iff.mp h
          obtain ⟨rfl, rfl⟩ := Prod.mk.inj heq
          obtain ⟨rfl, hl'⟩ := ih hcut
          exact ⟨rfl, List.not_mem_cons_of_ne_of_not_mem (Ne.symm hdot) hl'⟩
  · rintro ⟨rfl, hl⟩
    induction l with
    | nil => rw [List.nil_append, atDot?, if_pos rfl]
    | cons c l ih =>
        have hdot : c ≠ '.' := fun h => hl (h ▸ List.mem_cons_self)
        have hrest : '.' ∉ l := fun h => hl (List.mem_cons_of_mem c h)
        rw [List.cons_append, atDot?, if_neg hdot, ih hrest, Option.map_some]

/-- An operator is known by its letter. -/
theorem Operator.ofLetter?_eq_some_iff {s : String} {o : Operator} :
    ofLetter? s = some o ↔ s = o.letter := by
  constructor
  · intro h
    unfold ofLetter? at h
    split at h <;> cases h <;> rfl
  · rintro rfl
    cases o <;> rfl

/-- A feature is known by its name. -/
theorem Feature.ofText?_eq_some_iff {s : String} {k : Feature} :
    ofText? s = some k ↔ s = k.text := by
  constructor
  · intro h
    unfold ofText? at h
    split at h <;> cases h <;> rfl
  · rintro rfl
    cases k <;> rfl

/-- Between the at signs of a symbol stand operator, feature and value. -/
theorem enclosed?_symbol (f : Flag) :
    enclosed? f.symbol.toList = some
      (f.operator.letter.toList ++ '.' :: (f.feature.text.toList ++ '.' :: f.value.toList)) :=
  enclosed?_eq_some_iff.mpr (by simp [symbol])

/-- No letter of an operator is a dot. -/
theorem Operator.not_mem_letter (o : Operator) : '.' ∉ o.letter.toList := by
  cases o <;> decide

/-- No name of a feature has a dot. -/
theorem Feature.not_mem_text (k : Feature) : '.' ∉ k.text.toList := by
  cases k <;> decide

/-- **Flags and texts.**  A text reads as a flag exactly when it is the symbol of
the flag and the flag has a value. -/
theorem parse_eq_ok_iff {s : String} {f : Flag} :
    parse s = .ok f ↔ s = f.symbol ∧ f.value ≠ "" := by
  rw [parse_eq]
  constructor
  · intro h
    split at h
    · cases h
    rename_i inner hinner
    split at h
    · cases h
    rename_i operator rest hoperator
    split at h
    · cases h
    rename_i feature value hfeature
    split at h
    · cases h
    rename_i hvalue
    split at h
    · cases h
    rename_i o ho
    split at h
    · cases h
    rename_i k hk
    obtain rfl := Except.ok.inj h
    obtain ⟨rfl, -⟩ := atDot?_eq_some_iff.mp hfeature
    obtain ⟨rfl, -⟩ := atDot?_eq_some_iff.mp hoperator
    have hletter := Operator.ofLetter?_eq_some_iff.mp ho
    have htext := Feature.ofText?_eq_some_iff.mp hk
    constructor
    · rw [← String.toList_inj, enclosed?_eq_some_iff.mp hinner,
        enclosed?_eq_some_iff.mp (enclosed?_symbol _)]
      simp only [← hletter, ← htext, String.toList_ofList]
    · intro hempty
      have hnil : value = [] := String.ofList_eq_empty_iff.mp hempty
      exact hvalue (by rw [hnil]; rfl)
  · rintro ⟨rfl, hvalue⟩
    have hne : f.value.toList.isEmpty = false := by
      rw [List.isEmpty_eq_false_iff]
      exact fun hnil => hvalue (String.toList_eq_nil_iff.mp hnil)
    simp only [enclosed?_symbol, atDot?_eq_some_iff.mpr ⟨rfl, f.operator.not_mem_letter⟩,
      atDot?_eq_some_iff.mpr ⟨rfl, f.feature.not_mem_text⟩, hne, Bool.false_eq_true, if_false,
      String.ofList_toList, Operator.ofLetter?_eq_some_iff.mpr rfl,
      Feature.ofText?_eq_some_iff.mpr rfl]

end Morphotactics.Flag
