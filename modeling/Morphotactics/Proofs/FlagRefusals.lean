import Morphotactics.Proofs.FlagSymbols
import Morphotactics.Proofs.SourceLines

/-!
# Texts that are refused as flags

A text is read as a flag in four steps, and each of them may refuse it: it has to stand
between at signs, it has to have three parts and a value, and operator and feature have to
be known.  Only the first two dots separate parts.  Whatever stands behind them is the
value, with dots and at signs of its own.

Every text is of one of three kinds: it is not enclosed, what is enclosed is incomplete, or
it has all the parts of a flag (`enclosed_cases`).  The main theorem says what comes of
each kind, and that flags and texts correspond.
-/

namespace Morphotactics.Flag

/-- A text stands between two at signs. -/
def Encloses (s inner : String) : Prop := s = "@" ++ inner ++ "@"

/-- A text is cut at its first two dots. -/
structure Chunks (inner operator feature value : String) : Prop where
  text_eq : inner = operator ++ "." ++ feature ++ "." ++ value
  operator_noDot : '.' ∉ operator.toList
  feature_noDot : '.' ∉ feature.toList

/-- A text has fewer than three parts, or no value in the third. -/
def Incomplete (inner : String) : Prop :=
  (Text.pieces '.' inner).length < 3 ∨ ∃ operator feature, Chunks inner operator feature ""

/-- A text has the parts of a flag, and a value. -/
def HasParts (s operator feature value : String) : Prop :=
  ∃ inner, Encloses s inner ∧ Chunks inner operator feature value ∧ value ≠ ""

variable {s inner operator feature value : String}

/-! ## The steps of reading -/

/-- What is found between at signs is what they enclose. -/
theorem encloses_iff : Encloses s inner ↔ enclosed? s.toList = some inner.toList := by
  rw [enclosed?_eq_some_iff, Encloses, ← String.toList_inj, String.toList_append,
    String.toList_append]
  exact Iff.rfl

/-- Nothing is found between at signs when they enclose nothing. -/
theorem enclosed?_eq_none_iff : enclosed? s.toList = none ↔ ¬ ∃ inner, Encloses s inner := by
  constructor
  · rintro hnone ⟨inner, hinner⟩
    rw [encloses_iff.mp hinner] at hnone
    cases hnone
  · intro h
    cases hinner : enclosed? s.toList with
    | none => rfl
    | some cs => exact absurd ⟨_, encloses_iff.mpr (by rw [hinner, String.toList_ofList])⟩ h

/-- A text without a dot is not cut at one. -/
theorem atDot?_eq_none_iff {cs : List Char} : atDot? cs = none ↔ '.' ∉ cs := by
  induction cs with
  | nil => simp [atDot?]
  | cons c cs ih =>
      rw [atDot?, List.mem_cons, not_or, ← ih]
      by_cases hc : c = '.'
      · simp [hc]
      · simp [hc, Ne.symm hc]

/-- A text is cut at its first two dots by cutting it at the first, and the rest at the
next. -/
theorem chunks_iff :
    Chunks inner operator feature value ↔
      ∃ rest, atDot? inner.toList = some (operator.toList, rest) ∧
        atDot? rest = some (feature.toList, value.toList) := by
  have htext : inner = operator ++ "." ++ feature ++ "." ++ value ↔
      inner.toList = operator.toList ++ '.' :: (feature.toList ++ '.' :: value.toList) := by
    rw [← String.toList_inj]
    simp
  simp only [atDot?_eq_some_iff]
  constructor
  · intro h
    exact ⟨_, ⟨htext.mp h.text_eq, h.operator_noDot⟩, rfl, h.feature_noDot⟩
  · rintro ⟨rest, ⟨hinner, hoperator⟩, rfl, hfeature⟩
    exact ⟨htext.mpr hinner, hoperator, hfeature⟩

/-- A text that is cut at one dot and then at another has its chunks. -/
theorem exists_chunks {o rest k v : List Char} (hfirst : atDot? inner.toList = some (o, rest))
    (hsecond : atDot? rest = some (k, v)) :
    ∃ operator feature value, Chunks inner operator feature value := by
  refine ⟨String.ofList o, String.ofList k, String.ofList v, chunks_iff.mpr ⟨rest, ?_⟩⟩
  simp only [String.toList_ofList]
  exact ⟨hfirst, hsecond⟩

/-- A text has fewer than three pieces when it cannot be cut at two dots. -/
theorem length_pieces_lt_iff :
    (Text.pieces '.' inner).length < 3 ↔
      ¬ ∃ operator feature value, Chunks inner operator feature value := by
  rw [Text.pieces, List.length_map]
  constructor
  · rintro hshort ⟨operator, feature, value, h⟩
    obtain ⟨rest, hfirst, hsecond⟩ := chunks_iff.mp h
    obtain ⟨hinner, hoperator⟩ := atDot?_eq_some_iff.mp hfirst
    obtain ⟨hrest, hfeature⟩ := atDot?_eq_some_iff.mp hsecond
    rw [hinner, hrest, Text.pieceChars_append_cons hoperator,
      Text.pieceChars_append_cons hfeature, List.length_cons, List.length_cons] at hshort
    have hlast := List.length_pos_iff.mpr (Text.pieceChars_ne_nil '.' value.toList)
    omega
  · intro h
    cases hfirst : atDot? inner.toList with
    | none =>
        rw [Text.pieceChars_of_not_mem (atDot?_eq_none_iff.mp hfirst), List.length_singleton]
        omega
    | some p =>
        obtain ⟨o, rest⟩ := p
        cases hsecond : atDot? rest with
        | none =>
            obtain ⟨hinner, hoperator⟩ := atDot?_eq_some_iff.mp hfirst
            rw [hinner, Text.pieceChars_append_cons hoperator,
              Text.pieceChars_of_not_mem (atDot?_eq_none_iff.mp hsecond), List.length_cons,
              List.length_singleton]
            omega
        | some q => exact absurd (exists_chunks hfirst hsecond) h

/-- **Kinds of texts.**  A text is not enclosed, or what it encloses is incomplete, or it
has all the parts of a flag. -/
theorem enclosed_cases (s : String) :
    (¬ ∃ inner, Encloses s inner) ∨ (∃ inner, Encloses s inner ∧ Incomplete inner) ∨
      ∃ operator feature value, HasParts s operator feature value := by
  by_cases henclosed : ∃ inner, Encloses s inner
  · obtain ⟨inner, hinner⟩ := henclosed
    by_cases hchunks : ∃ operator feature value, Chunks inner operator feature value
    · obtain ⟨operator, feature, value, h⟩ := hchunks
      by_cases hvalue : value = ""
      · exact Or.inr (Or.inl ⟨inner, hinner, Or.inr ⟨operator, feature, hvalue ▸ h⟩⟩)
      · exact Or.inr (Or.inr ⟨operator, feature, value, inner, hinner, h, hvalue⟩)
    · exact Or.inr (Or.inl ⟨inner, hinner, Or.inl (length_pieces_lt_iff.mpr hchunks)⟩)
  · exact Or.inl henclosed

/-! ## What comes of a text -/

/-- The letters of operators are known, and no other texts are. -/
theorem Operator.ofLetter?_eq_none_iff : ofLetter? s = none ↔ s ∉ ["P", "R", "U"] := by
  unfold ofLetter?
  split <;> simp_all

/-- The names of features are known, and no other texts are. -/
theorem Feature.ofText?_eq_none_iff :
    ofText? s = none ↔ s ∉ ["Prefix", "Paradigm", "Order"] := by
  unfold ofText?
  split <;> simp_all

/-- A text that does not stand between at signs is refused as no flag. -/
theorem parse_of_not_enclosed (h : ¬ ∃ inner, Encloses s inner) :
    parse s = .error (.notAFlag s) := by
  rw [parse_eq, enclosed?_eq_none_iff.mpr h]

/-- What becomes of a text in three parts is told by the parts: the value is looked at
first, then the operator, then the feature. -/
theorem parse_of_chunks (h : Encloses s inner) (hinner : Chunks inner operator feature value) :
    parse s =
      if value = "" then .error (.malformed s)
      else
        match Operator.ofLetter? operator, Feature.ofText? feature with
        | none, _ => .error (.unknownOperator s)
        | some _, none => .error (.unknownFeature s)
        | some o, some k => .ok ⟨o, k, value⟩ := by
  obtain ⟨rest, hfirst, hsecond⟩ := chunks_iff.mp hinner
  rw [parse_eq, encloses_iff.mp h]
  simp only [hfirst, hsecond, List.isEmpty_iff, String.toList_eq_nil_iff, String.ofList_toList]
  cases Operator.ofLetter? operator with
  | none => rfl
  | some o => cases Feature.ofText? feature <;> rfl

/-- A text with fewer than three parts, or without a value, is refused as malformed. -/
theorem parse_of_incomplete (h : Encloses s inner) (hinner : Incomplete inner) :
    parse s = .error (.malformed s) := by
  rcases hinner with hshort | ⟨operator, feature, hchunks⟩
  · have hnone := length_pieces_lt_iff.mp hshort
    rw [parse_eq, encloses_iff.mp h]
    cases hfirst : atDot? inner.toList with
    | none => simp only [hfirst]
    | some p =>
        obtain ⟨o, rest⟩ := p
        cases hsecond : atDot? rest with
        | none => simp only [hfirst, hsecond]
        | some q => exact absurd (exists_chunks hfirst hsecond) hnone
  · rw [parse_of_chunks h hchunks, if_pos rfl]

/-- A text with all parts is refused for an operator that is not known. -/
theorem parse_of_unknown_operator (h : HasParts s operator feature value)
    (hoperator : operator ∉ ["P", "R", "U"]) : parse s = .error (.unknownOperator s) := by
  obtain ⟨inner, hencloses, hchunks, hvalue⟩ := h
  rw [parse_of_chunks hencloses hchunks, if_neg hvalue,
    Operator.ofLetter?_eq_none_iff.mpr hoperator]

/-- A text with all parts and a known operator is refused for a feature that is not known. -/
theorem parse_of_unknown_feature (h : HasParts s operator feature value)
    (hoperator : operator ∈ ["P", "R", "U"])
    (hfeature : feature ∉ ["Prefix", "Paradigm", "Order"]) :
    parse s = .error (.unknownFeature s) := by
  obtain ⟨inner, hencloses, hchunks, hvalue⟩ := h
  rw [parse_of_chunks hencloses hchunks, if_neg hvalue, Feature.ofText?_eq_none_iff.mpr hfeature]
  cases ho : Operator.ofLetter? operator with
  | none => exact absurd hoperator (Operator.ofLetter?_eq_none_iff.mp ho)
  | some o => rfl

/-- A text with all parts, a known operator and a known feature is read as a flag. -/
theorem exists_parse_eq_ok (h : HasParts s operator feature value)
    (hoperator : operator ∈ ["P", "R", "U"])
    (hfeature : feature ∈ ["Prefix", "Paradigm", "Order"]) : ∃ f, parse s = .ok f := by
  obtain ⟨inner, hencloses, hchunks, hvalue⟩ := h
  rw [parse_of_chunks hencloses hchunks, if_neg hvalue]
  cases ho : Operator.ofLetter? operator with
  | none => exact absurd hoperator (Operator.ofLetter?_eq_none_iff.mp ho)
  | some o =>
      cases hk : Feature.ofText? feature with
      | none => exact absurd hfeature (Feature.ofText?_eq_none_iff.mp hk)
      | some k => exact ⟨_, rfl⟩

/-- What a text is that comes to an outcome. -/
inductive Outcome (s : String) : Except ParseError Flag → Prop
  | notAFlag (h : ¬ ∃ inner, Encloses s inner) : Outcome s (.error (.notAFlag s))
  | malformed {inner : String} (h : Encloses s inner) (hinner : Incomplete inner) :
      Outcome s (.error (.malformed s))
  | unknownOperator {operator feature value : String} (h : HasParts s operator feature value)
      (hoperator : operator ∉ ["P", "R", "U"]) : Outcome s (.error (.unknownOperator s))
  | unknownFeature {operator feature value : String} (h : HasParts s operator feature value)
      (hoperator : operator ∈ ["P", "R", "U"])
      (hfeature : feature ∉ ["Prefix", "Paradigm", "Order"]) :
      Outcome s (.error (.unknownFeature s))
  | flag {f : Flag} (h : s = f.symbol) (hvalue : f.value ≠ "") : Outcome s (.ok f)

/-- **Every text** comes to the outcome for what it is. -/
theorem outcome_parse (s : String) : Outcome s (parse s) := by
  rcases enclosed_cases s with h | ⟨inner, h, hinner⟩ | ⟨operator, feature, value, h⟩
  · rw [parse_of_not_enclosed h]
    exact .notAFlag h
  · rw [parse_of_incomplete h hinner]
    exact .malformed h hinner
  · by_cases hoperator : operator ∈ ["P", "R", "U"]
    · by_cases hfeature : feature ∈ ["Prefix", "Paradigm", "Order"]
      · obtain ⟨f, hf⟩ := exists_parse_eq_ok h hoperator hfeature
        obtain ⟨hs, hvalue⟩ := parse_eq_ok_iff.mp hf
        rw [hf]
        exact .flag hs hvalue
      · rw [parse_of_unknown_feature h hoperator hfeature]
        exact .unknownFeature h hoperator hfeature
    · rw [parse_of_unknown_operator h hoperator]
      exact .unknownOperator h hoperator

/-- Operators have known letters. -/
theorem Operator.letter_mem (o : Operator) : o.letter ∈ ["P", "R", "U"] := by
  cases o <;> decide

/-- Features have known names. -/
theorem Feature.text_mem (k : Feature) : k.text ∈ ["Prefix", "Paradigm", "Order"] := by
  cases k <;> decide

/-- A text in the frame of a flag has its parts when operator and feature are known: they
have no dots. -/
theorem hasParts_of_known (hoperator : operator ∈ ["P", "R", "U"])
    (hfeature : feature ∈ ["Prefix", "Paradigm", "Order"]) (hvalue : value ≠ "")
    (hs : s = "@" ++ operator ++ "." ++ feature ++ "." ++ value ++ "@") :
    HasParts s operator feature value := by
  have hnoDot : ∀ t ∈ ["P", "R", "U"] ++ ["Prefix", "Paradigm", "Order"], '.' ∉ t.toList := by
    decide
  refine ⟨_, ?_, ⟨rfl, hnoDot _ (List.mem_append_left _ hoperator),
    hnoDot _ (List.mem_append_right _ hfeature)⟩, hvalue⟩
  rw [Encloses, hs]
  simp only [String.append_assoc]

/-- **Flags and texts correspond.**  A flag with a value is read back from its symbol, and
a text that is read as a flag is the symbol of that flag; so a text is read exactly when it
is a known operator, a known feature and a value in the frame of a flag.  A text that is
refused is not enclosed in at signs of its own; or it is, but has fewer than three parts or
an empty value; or it has its parts, and the operator is unknown; or only the feature is.
In each case the error says so. -/
theorem flags_and_texts :
    (∀ f : Flag, f.value ≠ "" → parse f.symbol = .ok f) ∧
    ∀ s : String,
      (∀ f, parse s = .ok f → f.symbol = s) ∧
      ((∃ f, parse s = .ok f) ↔
        ∃ operator ∈ ["P", "R", "U"], ∃ feature ∈ ["Prefix", "Paradigm", "Order"],
          ∃ value, value ≠ "" ∧ s = "@" ++ operator ++ "." ++ feature ++ "." ++ value ++ "@") ∧
      (parse s = .error (.notAFlag s) ↔ ¬ ∃ inner, Encloses s inner) ∧
      (parse s = .error (.malformed s) ↔ ∃ inner, Encloses s inner ∧ Incomplete inner) ∧
      (parse s = .error (.unknownOperator s) ↔
        ∃ operator feature value, HasParts s operator feature value ∧
          operator ∉ ["P", "R", "U"]) ∧
      (parse s = .error (.unknownFeature s) ↔
        ∃ operator feature value, HasParts s operator feature value ∧
          operator ∈ ["P", "R", "U"] ∧ feature ∉ ["Prefix", "Paradigm", "Order"]) ∧
      ∀ e, parse s = .error e →
        e ∈ [.notAFlag s, .malformed s, .unknownOperator s, .unknownFeature s] := by
  refine ⟨fun f hvalue => parse_eq_ok_iff.mpr ⟨rfl, hvalue⟩, fun s => ?_⟩
  have houtcome := outcome_parse s
  refine ⟨fun f hf => (parse_eq_ok_iff.mp hf).1.symm, ⟨?_, ?_⟩, ⟨?_, parse_of_not_enclosed⟩,
    ⟨?_, ?_⟩, ⟨?_, ?_⟩, ⟨?_, ?_⟩, ?_⟩
  · rintro ⟨f, hf⟩
    obtain ⟨hs, hvalue⟩ := parse_eq_ok_iff.mp hf
    exact ⟨_, f.operator.letter_mem, _, f.feature.text_mem, f.value, hvalue, hs⟩
  · rintro ⟨operator, hoperator, feature, hfeature, value, hvalue, hs⟩
    exact exists_parse_eq_ok (hasParts_of_known hoperator hfeature hvalue hs) hoperator hfeature
  · intro herror
    rw [herror] at houtcome
    cases houtcome with
    | notAFlag h => exact h
  · intro herror
    rw [herror] at houtcome
    cases houtcome with
    | malformed h hinner => exact ⟨_, h, hinner⟩
  · rintro ⟨inner, h, hinner⟩
    exact parse_of_incomplete h hinner
  · intro herror
    rw [herror] at houtcome
    cases houtcome with
    | unknownOperator h hoperator => exact ⟨_, _, _, h, hoperator⟩
  · rintro ⟨operator, feature, value, h, hoperator⟩
    exact parse_of_unknown_operator h hoperator
  · intro herror
    rw [herror] at houtcome
    cases houtcome with
    | unknownFeature h hoperator hfeature => exact ⟨_, _, _, h, hoperator, hfeature⟩
  · rintro ⟨operator, feature, value, h, hoperator, hfeature⟩
    exact parse_of_unknown_feature h hoperator hfeature
  · intro e herror
    rw [herror] at houtcome
    cases houtcome <;> simp

/-- A value may have dots and at signs, and may itself look like a flag. -/
theorem flags_and_texts_of_nested_value :
    let f : Flag := ⟨.require, .prefixId, "@P.Order.Ind@"⟩
    f.value ≠ "" ∧ f.symbol = "@R.Prefix.@P.Order.Ind@@" ∧ parse f.symbol = .ok f := by
  intro f
  have hvalue : f.value ≠ "" := by decide
  exact ⟨hvalue, by decide, flags_and_texts.1 f hvalue⟩

end Morphotactics.Flag
