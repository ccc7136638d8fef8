import Morphotactics.Chain
import Morphotactics.Proofs.UpperCase

/-!
# Escaped texts

In an escaped text every reserved character stands after an escape mark, and
escape marks stand nowhere else.  `WellEscaped` builds such texts from the left,
one plain character or one escaped pair at a time.  Escaping gives one, whatever
the text was, and putting two of them together or writing one in upper case
gives one again.

A reader of lexc source passes over the character after an escape mark.
`cutBare` looks for a character as such a reader does.  In an escaped text it
finds no reserved character, and any other character where it stands.
-/

namespace Morphotactics

/-! ## Escaping -/

/-- Reserved characters come before the capital letters. -/
theorem lt_of_isReserved {c : Char} (hc : isReserved c) : c.toNat < 0x41 := by
  have hall : reservedChars.all (fun d => d.toNat < 0x41) := by decide
  exact of_decide_eq_true (List.all_eq_true.mp hall c (List.contains_iff_mem.mp hc))

/-- The escape mark is reserved. -/
theorem ne_escapeMark_of_plain {c : Char} (hc : isReserved c = false) : c ≠ escapeMark := by
  rintro rfl
  exact absurd hc (by decide)

/-- Escaping puts in escape marks and leaves everything else as it was. -/
theorem filter_escapeChars (cs : List Char) :
    (escapeChars cs).filter (· ≠ escapeMark) = cs.filter (· ≠ escapeMark) := by
  have hskip : ∀ l : List Char,
      (escapeMark :: l).filter (· ≠ escapeMark) = l.filter (· ≠ escapeMark) :=
    fun l => List.filter_cons_of_neg (by simp)
  fun_induction escapeChars cs with
  | case1 => rfl
  | case2 c hc => rw [hskip]
  | case3 c hc => rfl
  | case4 d rest hd ih => rw [hskip, hskip, List.filter_cons, List.filter_cons, ih]
  | case5 d rest hd ih => rw [hskip, hskip, hskip, ih]
  | case6 c d rest hc hc' ih => rw [hskip, List.filter_cons, List.filter_cons, ih]
  | case7 c d rest hc hc' ih => rw [List.filter_cons, List.filter_cons, ih]

/-- Escaping brings up no character but escape marks, and loses none. -/
theorem mem_escapeChars {d : Char} (hd : d ≠ escapeMark) {cs : List Char} :
    d ∈ escapeChars cs ↔ d ∈ cs := by
  have hkept : ∀ l : List Char, d ∈ l.filter (· ≠ escapeMark) ↔ d ∈ l := by
    intro l
    rw [List.mem_filter, decide_eq_true_iff, and_iff_left hd]
  rw [← hkept, filter_escapeChars, hkept]

/-- A text in which every reserved character stands after an escape mark, and
every escape mark before a reserved character. -/
inductive WellEscaped : List Char → Prop
  | nil : WellEscaped []
  | plain {c : Char} {cs : List Char} (hc : isReserved c = false) (hcs : WellEscaped cs) :
      WellEscaped (c :: cs)
  | pair {c : Char} {cs : List Char} (hc : isReserved c = true) (hcs : WellEscaped cs) :
      WellEscaped (escapeMark :: c :: cs)

namespace WellEscaped

/-- Escaping gives an escaped text. -/
theorem escapeChars (cs : List Char) : WellEscaped (escapeChars cs) := by
  fun_induction Morphotactics.escapeChars cs with
  | case1 => exact nil
  | case2 c hc => exact pair hc nil
  | case3 c hc => exact plain (by simpa using hc) nil
  | case4 d rest hd ih => exact pair hd ih
  | case5 d rest hd ih => exact pair (by decide) ih
  | case6 c d rest hc hc' ih => exact pair hc' ih
  | case7 c d rest hc hc' ih => exact plain (by simpa using hc') ih

/-- What escaping gives is well-escaped. -/
theorem escape (s : String) : WellEscaped (Morphotactics.escape s).toList := by
  rw [toList_escape]
  exact escapeChars s.toList

/-- Well-escaped texts may be put one behind the other. -/
theorem append {cs ds : List Char} (hcs : WellEscaped cs) (hds : WellEscaped ds) :
    WellEscaped (cs ++ ds) := by
  induction hcs with
  | nil => exact hds
  | plain hc _ ih => exact plain hc ih
  | pair hc _ ih => exact pair hc ih

/-- Texts put together are escaped when each of them is. -/
theorem join {ss : List String} (hss : ∀ s ∈ ss, WellEscaped s.toList) :
    WellEscaped (String.join ss).toList := by
  induction ss with
  | nil => exact nil
  | cons s ss ih =>
      rw [String.join_cons, String.toList_append]
      exact (hss s List.mem_cons_self).append (ih fun t ht => hss t (List.mem_cons_of_mem _ ht))

/-- A text without reserved characters needs no escape marks. -/
theorem of_plain {cs : List Char} (hcs : cs.any isReserved = false) : WellEscaped cs := by
  induction cs with
  | nil => exact nil
  | cons c cs ih =>
      rw [List.any_cons, Bool.or_eq_false_iff] at hcs
      exact plain hcs.1 (ih hcs.2)

/-- An escaped text is not the empty text of lexc source, where a zero is bare. -/
theorem ne_epsilon {s : String} (hs : WellEscaped s.toList) : s ≠ epsilon := by
  rintro rfl
  cases hs with
  | plain hc _ => exact absurd hc (by decide)

/-- Upper case keeps escapes: it changes no reserved character and brings up no
new one. -/
theorem upperChars {cs : List Char} (hcs : WellEscaped cs) :
    WellEscaped (cs.flatMap Text.upperChar) := by
  induction hcs with
  | nil => exact nil
  | @plain c cs hc _ ih =>
      rw [List.flatMap_cons]
      refine append (of_plain ?_) ih
      by_cases hlow : c.toNat < 0x41
      · rw [Text.upperChar_of_lt hlow, List.any_cons, hc]
        rfl
      · rw [List.any_eq_false]
        intro d hd hres
        have hle := Text.le_of_mem_upperChar (by omega) hd
        have hlt := lt_of_isReserved hres
        omega
  | @pair c cs hc _ ih =>
      rw [List.flatMap_cons, List.flatMap_cons, Text.upperChar_of_lt (by decide),
        Text.upperChar_of_lt (lt_of_isReserved hc)]
      exact pair hc ih

/-- The value that stands for an escaped prefix is escaped. -/
theorem prefixValue {pre : String} (hpre : WellEscaped pre.toList) :
    WellEscaped (Flag.prefixValue pre).toList := by
  rw [Flag.prefixValue]
  split
  · exact of_plain (by decide)
  · rw [Text.upper, String.toList_ofList]
    exact hpre.upperChars

end WellEscaped

/-! ## Looking for bare characters -/

/-- Whether the last escape mark of a text still waits for its character.  The
flag tells the same of what stands before the text. -/
def markPending : Bool → List Char → Bool
  | waiting, [] => waiting
  | true, _ :: rest => markPending false rest
  | false, c :: rest => markPending (c == escapeMark) rest

/-- The texts before and after the first bare occurrence of a character.  A
character that an escape mark waits for is never bare. -/
def cutBare (stop : Char) : Bool → List Char → Option (List Char × List Char)
  | _, [] => none
  | true, c :: rest => (cutBare stop false rest).map fun p => (c :: p.1, p.2)
  | false, c :: rest =>
    if c = stop then some ([], rest)
    else (cutBare stop (c == escapeMark) rest).map fun p => (c :: p.1, p.2)

/-- Whether a character never occurs bare in a text. -/
def NoBare (stop : Char) (s : String) : Prop := cutBare stop false s.toList = none

instance (stop : Char) (s : String) : Decidable (NoBare stop s) :=
  inferInstanceAs (Decidable (cutBare stop false s.toList = none))

section Scanning

variable {stop : Char} {waiting : Bool} {cs ds : List Char}

/-- Whether a mark is pending after two texts is found by going through the first and then
the second. -/
theorem markPending_append (waiting : Bool) (cs ds : List Char) :
    markPending waiting (cs ++ ds) = markPending (markPending waiting cs) ds := by
  induction cs generalizing waiting with
  | nil => rfl
  | cons c cs ih => cases waiting <;> exact ih _

/-- The text before the character, the character and the text after it are the
text that was cut. -/
theorem eq_of_cutBare {l r : List Char} (h : cutBare stop waiting cs = some (l, r)) :
    cs = l ++ stop :: r := by
  induction cs generalizing waiting l with
  | nil => cases h
  | cons c cs ih =>
      -- the two ways in which the search goes on differ only in whether a mark waits
      have hlater : ∀ w, (cutBare stop w cs).map (fun p => (c :: p.1, p.2)) = some (l, r) →
          c :: cs = l ++ stop :: r := by
        intro w hw
        obtain ⟨⟨l', r'⟩, hcut, heq⟩ := Option.map_eq_some_iff.mp hw
        obtain ⟨rfl, rfl⟩ := Prod.mk.inj heq
        rw [ih hcut, List.cons_append]
      cases waiting with
      | true => exact hlater _ h
      | false =>
          unfold cutBare at h
          split at h
          · rename_i hstop
            obtain ⟨rfl, rfl⟩ := Prod.mk.inj (Option.some.inj h)
            rw [hstop, List.nil_append]
          · exact hlater _ h

/-- What is found in a text is found in every longer one. -/
theorem cutBare_append_of_some {l r : List Char} (h : cutBare stop waiting cs = some (l, r))
    (ds : List Char) : cutBare stop waiting (cs ++ ds) = some (l, r ++ ds) := by
  induction cs generalizing waiting l with
  | nil => cases h
  | cons c cs ih =>
      have hlater : ∀ w, (cutBare stop w cs).map (fun p => (c :: p.1, p.2)) = some (l, r) →
          (cutBare stop w (cs ++ ds)).map (fun p => (c :: p.1, p.2)) = some (l, r ++ ds) := by
        intro w hw
        obtain ⟨⟨l', r'⟩, hcut, heq⟩ := Option.map_eq_some_iff.mp hw
        obtain ⟨rfl, rfl⟩ := Prod.mk.inj heq
        rw [ih hcut, Option.map_some]
      cases waiting with
      | true => exact hlater _ h
      | false =>
          rw [List.cons_append, cutBare]
          rw [cutBare] at h
          split at h
          · rename_i hstop
            obtain ⟨rfl, rfl⟩ := Prod.mk.inj (Option.some.inj h)
            rw [if_pos hstop]
          · rename_i hstop
            rw [if_neg hstop]
            exact hlater _ h

/-- What is not found in a text is looked for in the text after it. -/
theorem cutBare_append_of_none (h : cutBare stop waiting cs = none) (ds : List Char) :
    cutBare stop waiting (cs ++ ds) =
      (cutBare stop (markPending waiting cs) ds).map fun p => (cs ++ p.1, p.2) := by
  induction cs generalizing waiting with
  | nil => cases hcut : cutBare stop waiting ds <;> simp [markPending, hcut]
  | cons c cs ih =>
      have hlater : ∀ w, cutBare stop w cs = none →
          (cutBare stop w (cs ++ ds)).map (fun p => (c :: p.1, p.2)) =
            (cutBare stop (markPending w cs) ds).map fun p => (c :: cs ++ p.1, p.2) := by
        intro w hw
        rw [ih hw, Option.map_map]
        rfl
      cases waiting with
      | true =>
          rw [cutBare, Option.map_eq_none_iff] at h
          exact hlater _ h
      | false =>
          rw [cutBare] at h
          split at h
          · cases h
          · rename_i hstop
            rw [List.cons_append, cutBare, if_neg hstop]
            exact hlater _ (Option.map_eq_none_iff.mp h)

/-- After a text in which it is not bare, and which leaves no escape mark waiting, a
character is found at once. -/
theorem cutBare_append_cons (h : cutBare stop false cs = none)
    (hclosed : markPending false cs = false) (ds : List Char) :
    cutBare stop false (cs ++ stop :: ds) = some (cs, ds) := by
  rw [cutBare_append_of_none h, hclosed, cutBare, if_pos rfl, Option.map_some, List.append_nil]

/-- Nothing is found in two texts when it is found in neither. -/
theorem cutBare_append_eq_none :
    cutBare stop waiting (cs ++ ds) = none ↔
      cutBare stop waiting cs = none ∧ cutBare stop (markPending waiting cs) ds = none := by
  cases hcut : cutBare stop waiting cs with
  | none => rw [cutBare_append_of_none hcut, Option.map_eq_none_iff, eq_self, true_and]
  | some p => rw [cutBare_append_of_some hcut]; simp

namespace WellEscaped

/-- In an escaped text every escape mark has its character. -/
theorem markPending_eq_false (hcs : WellEscaped cs) : markPending false cs = false := by
  induction hcs with
  | nil => rfl
  | @plain c cs hc _ ih =>
      have hmark : (c == escapeMark) = false :=
        beq_eq_false_iff_ne.mpr (ne_escapeMark_of_plain hc)
      rw [markPending, hmark]
      exact ih
  | pair _ _ ih => exact ih

/-- In an escaped text a character is bare wherever it occurs, unless it is a
reserved one; those never are. -/
theorem cutBare_eq_none_iff (hcs : WellEscaped cs) (hstop : stop ≠ escapeMark) :
    cutBare stop false cs = none ↔ isReserved stop = true ∨ stop ∉ cs := by
  induction hcs with
  | nil => simp [cutBare]
  | @plain c cs hc _ ih =>
      have hmark : (c == escapeMark) = false :=
        beq_eq_false_iff_ne.mpr (ne_escapeMark_of_plain hc)
      rw [cutBare, hmark]
      by_cases hsame : c = stop
      · subst hsame
        simp [hc]
      · rw [if_neg hsame, Option.map_eq_none_iff, ih, List.mem_cons, not_or]
        simp [Ne.symm hsame]
  | @pair c cs hc _ ih =>
      -- after the mark the reader is waiting, so it passes over the reserved character
      have hpair : cutBare stop false (escapeMark :: c :: cs) = none ↔
          cutBare stop false cs = none := by
        rw [cutBare, if_neg (Ne.symm hstop), Option.map_eq_none_iff]
        exact Option.map_eq_none_iff
      rw [hpair, ih, List.mem_cons, List.mem_cons]
      constructor
      · intro h
        by_cases hres : isReserved stop = true
        · exact Or.inl hres
        · refine Or.inr ?_
          have hne : stop ≠ c := by
            rintro rfl
            exact hres hc
          simp [hstop, hne, h.resolve_left hres]
      · intro h
        exact h.imp_right fun hout hin => hout (Or.inr (Or.inr hin))

end WellEscaped

end Scanning

/-! ## Forms made from cells -/

namespace Inflection

/-- A form made from the texts of cells. -/
def FromCells (r : Inflection) : Prop :=
  ∃ paradigm inflClass headword stem values forms,
    (ofCells paradigm inflClass headword stem values).withVariants forms = .ok r

/-- A form all of whose parts are escaped.  Paradigm, class and surface text are
kept as they were written. -/
structure Escaped (r : Inflection) : Prop where
  headword : WellEscaped r.headword.toList
  stem : WellEscaped r.stem.toList
  tags : ∀ t ∈ r.tags, WellEscaped t.toList
  pre : ∀ v ∈ r.variants, WellEscaped v.parts.pre.toList
  post : ∀ v ∈ r.variants, WellEscaped v.parts.post.toList

/-- A form that is made from cells is escaped before it has variants. -/
theorem escaped_ofCells (paradigm inflClass headword stem : String) (values : List String) :
    (ofCells paradigm inflClass headword stem values).Escaped where
  headword := WellEscaped.escape headword
  stem := WellEscaped.escape stem
  tags t ht := by
    obtain ⟨value, -, rfl⟩ := List.mem_map.mp ht
    exact WellEscaped.escape _
  pre v hv := absurd hv List.not_mem_nil
  post v hv := absurd hv List.not_mem_nil

/-- The outer parts of a segmented form are escaped. -/
theorem escaped_split {form : String} {parts : Segmentation}
    (h : Segmentation.split form = .ok parts) :
    WellEscaped parts.pre.toList ∧ WellEscaped parts.post.toList := by
  unfold Segmentation.split at h
  split at h
  · obtain rfl := Except.ok.inj h
    exact ⟨WellEscaped.escape _, WellEscaped.escape _⟩
  · cases h

/-- One more variant leaves a form escaped. -/
theorem Escaped.withVariant {r r' : Inflection} (hr : r.Escaped) {surface form : String}
    (h : r.withVariant surface form = .ok r') : r'.Escaped := by
  unfold Inflection.withVariant at h
  cases hsplit : Segmentation.split form with
  | error e =>
      rw [hsplit] at h
      cases h
  | ok parts =>
      rw [hsplit] at h
      obtain rfl := Except.ok.inj h
      obtain ⟨hpre, hpost⟩ := escaped_split hsplit
      refine ⟨hr.headword, hr.stem, hr.tags, ?_, ?_⟩
      · intro v hv
        rcases List.mem_append.mp hv with hold | hnew
        · exact hr.pre v hold
        · obtain rfl := List.mem_singleton.mp hnew
          exact hpre
      · intro v hv
        rcases List.mem_append.mp hv with hold | hnew
        · exact hr.post v hold
        · obtain rfl := List.mem_singleton.mp hnew
          exact hpost

/-- More variants leave a form escaped. -/
theorem Escaped.withVariants {forms : List (String × String)} {r r' : Inflection}
    (hr : r.Escaped) (h : r.withVariants forms = .ok r') : r'.Escaped := by
  induction forms generalizing r with
  | nil =>
      obtain rfl := Except.ok.inj h
      exact hr
  | cons f forms ih =>
      cases hstep : r.withVariant f.1 f.2 with
      | error e =>
          rw [Inflection.withVariants, List.foldlM_cons, hstep] at h
          cases h
      | ok s =>
          rw [Inflection.withVariants, List.foldlM_cons, hstep] at h
          exact ih (hr.withVariant hstep) h

/-- A form made from cells is escaped, whatever the cells hold. -/
theorem FromCells.escaped {r : Inflection} (h : r.FromCells) : r.Escaped := by
  obtain ⟨paradigm, inflClass, headword, stem, values, forms, hforms⟩ := h
  exact (escaped_ofCells paradigm inflClass headword stem values).withVariants hforms

/-- The analysis tags of an escaped form are escaped. -/
theorem Escaped.analysisTags {r : Inflection} (hr : r.Escaped) :
    WellEscaped r.analysisTags.toList :=
  WellEscaped.join hr.tags

/-- The whole analysis of an escaped form is escaped. -/
theorem Escaped.analysis {r : Inflection} (hr : r.Escaped) :
    WellEscaped (r.headword ++ r.analysisTags).toList := by
  rw [String.toList_append]
  exact hr.headword.append hr.analysisTags

end Inflection

/-! ## Flags -/

namespace Flag

/-- A character before the capital letters is in the value for a prefix where it
was in the prefix. -/
theorem mem_prefixValue_of_lt {d : Char} (hd : d.toNat < 0x41) {pre : String} :
    d ∈ (prefixValue pre).toList ↔ d ∈ pre.toList := by
  rw [prefixValue]
  split
  · rename_i hempty
    obtain rfl := String.isEmpty_iff.mp hempty
    have hnone : "NONE".toList.all (fun c => 0x41 ≤ c.toNat) := by decide
    constructor
    · intro hin
      have hle := of_decide_eq_true (List.all_eq_true.mp hnone d hin)
      omega
    · intro hin
      exact absurd hin List.not_mem_nil
  · exact Text.mem_upper_of_lt hd

/-- The symbol of a flag as its value in a frame without anything special. -/
theorem toList_symbol (f : Flag) :
    f.symbol.toList = ("@" ++ f.operator.letter ++ "." ++ f.feature.text ++ ".").toList ++
      (f.value.toList ++ ['@']) := by
  rw [symbol, String.toList_append, String.toList_append, List.append_assoc]
  rfl

/-- The frame of a flag needs no escape marks. -/
theorem wellEscaped_frame (f : Flag) :
    WellEscaped ("@" ++ f.operator.letter ++ "." ++ f.feature.text ++ ".").toList := by
  refine WellEscaped.of_plain ?_
  cases f.operator <;> cases f.feature <;> decide

/-- The at sign at the end of a flag is the character that an escape mark before
it waits for. -/
theorem markPending_symbol (f : Flag) : markPending false f.symbol.toList = false := by
  rw [toList_symbol, markPending_append, f.wellEscaped_frame.markPending_eq_false,
    markPending_append]
  cases markPending false f.value.toList <;> decide

/-- A blank or colon is bare in a flag where it is bare in the value. -/
theorem noBare_symbol {stop : Char} (hstop : stop = ' ' ∨ stop = ':') (f : Flag) :
    NoBare stop f.symbol ↔ NoBare stop f.value := by
  have hframe : cutBare stop false
      ("@" ++ f.operator.letter ++ "." ++ f.feature.text ++ ".").toList = none := by
    rcases hstop with rfl | rfl <;> cases f.operator <;> cases f.feature <;> decide
  have hend : ∀ waiting, cutBare stop waiting ['@'] = none := by
    rcases hstop with rfl | rfl <;> decide
  rw [NoBare, NoBare, toList_symbol, cutBare_append_eq_none, cutBare_append_eq_none, hend,
    f.wellEscaped_frame.markPending_eq_false]
  simp only [hframe, true_and, and_true]

end Flag

end Morphotactics
