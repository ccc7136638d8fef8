import Morphotactics.Proofs.Escaped
import Morphotactics.Proofs.NetworkShape
import Morphotactics.Proofs.UpperCase

/-!
# Words with and without a prefix

Endings know the prefix they go with by its identity: the prefix in upper case, or
`NONE` where there is no prefix.  The flags see to it that prefix and ending of a
word agree in the identity, and this file follows the identity through a run.
`Layout.AfterPrefix` is what holds in every sublexicon after the prefix, one entry
keeps it, and so a whole run does.

But a prefix may be the word `none` itself, in whatever case, and then it has the
identity of words without a prefix.  `Flag.prefixValue_eq_none_iff` says that this is
the only way to come to it.  The main theorem says when words with and without a
prefix are kept apart nevertheless: where a paradigm has both, each of their endings
has to be recorded for both.
-/

namespace Morphotactics

/-! ## Prefixes with the identity of no prefix -/

namespace Text

/-- The code points of the letters of `NONE`. -/
theorem toNat_of_mem_none {d : Char} (hd : d ∈ "NONE".toList) :
    d.toNat ∈ [0x45, 0x4E, 0x4F] := by
  have hall : "NONE".toList.all (fun d => d.toNat ∈ [0x45, 0x4E, 0x4F]) := by decide
  exact of_decide_eq_true (List.all_eq_true.mp hall d hd)

/-- The word for no prefix is plain letters. -/
theorem lt_of_mem_none {d : Char} (hd : d ∈ "NONE".toList) : d.toNat < 0x80 := by
  have hascii : ∀ n ∈ [0x45, 0x4E, 0x4F], n < 0x80 := by decide
  exact hascii _ (toNat_of_mem_none hd)

/-- Every expansion has a code point that is not one of a letter of `NONE`. -/
theorem caseExpansions_not_none : ∀ e ∈ caseExpansions, ∃ n ∈ e.2, n ∉ [0x45, 0x4E, 0x4F] := by
  decide +kernel

/-- Every run lies on one side of each letter of `NONE`. -/
theorem caseRuns_not_none :
    ∀ run ∈ caseRuns, ∀ n ∈ [0x45, 0x4E, 0x4F], n < run.target ∨ run.image run.last < n := by
  decide +kernel

/-- The runs lead to no letter of `NONE`. -/
theorem image_not_none {run : CaseRun} (hrun : run ∈ caseRuns) {n : Nat}
    (hcovers : run.covers n = true) : run.image n ∉ [0x45, 0x4E, 0x4F] := by
  intro hin
  have hfirst : run.target ≤ run.image n := Nat.le_add_right _ _
  have hlast : run.image n ≤ run.image run.last := by
    simp only [CaseRun.covers, Bool.and_eq_true, decide_eq_true_eq] at hcovers
    unfold CaseRun.image
    omega
  rcases caseRuns_not_none run hrun _ hin with hbelow | habove <;> omega

/-- A character beyond ASCII has a character in its upper-case form that is not a
letter of `NONE`. -/
theorem exists_mem_upperChar_not_none {c : Char} (hc : 0x80 ≤ c.toNat) :
    ∃ d ∈ upperChar c, d ∉ "NONE".toList := by
  unfold upperChar
  rw [if_neg (by omega)]
  split
  · rename_i hfind
    have hentry := List.mem_of_find?_eq_some hfind
    obtain ⟨n, hn, hout⟩ := caseExpansions_not_none _ hentry
    have hvalid := (caseExpansions_images _ hentry n hn).2.1
    refine ⟨_, List.mem_map_of_mem hn, fun hin => hout ?_⟩
    have hcode := toNat_of_mem_none hin
    rw [toNat_ofNat hvalid] at hcode
    exact hcode
  · split
    · rename_i hfind
      have hrun := List.mem_of_find?_eq_some hfind
      have hcovers := List.find?_some hfind
      have hvalid := (caseRuns_images hrun hcovers).2.1
      refine ⟨_, List.mem_singleton_self _, fun hin => image_not_none hrun hcovers ?_⟩
      have hcode := toNat_of_mem_none hin
      rw [toNat_ofNat hvalid] at hcode
      exact hcode
    · refine ⟨c, List.mem_singleton_self c, fun hin => ?_⟩
      have hlow := lt_of_mem_none hin
      omega

/-- A text has the upper-case form `NONE` when it is this word, its letters being
small or capital ones of ASCII. -/
theorem upper_eq_none_iff {s : String} : upper s = "NONE" ↔ s.toUpper = "NONE" := by
  have hascii : (∀ c ∈ s.toList, c.toNat < 0x80) → upper s = s.toUpper := by
    intro hlow
    rw [← String.toList_inj, upper, String.toList_ofList, String.toUpper, String.toList_map]
    have hsame : ∀ c ∈ s.toList, upperChar c = [c.toUpper] := fun c hc => if_pos (hlow c hc)
    rw [List.flatMap_congr hsame, List.map_eq_flatMap]
  constructor
  · intro h
    rw [← hascii, h]
    intro c hc
    by_contra hhigh
    obtain ⟨d, hd, hout⟩ := exists_mem_upperChar_not_none (Nat.not_lt.mp hhigh)
    apply hout
    rw [← h, upper, String.toList_ofList]
    exact List.mem_flatMap.mpr ⟨c, hc, hd⟩
  · intro h
    rw [hascii, h]
    intro c hc
    have hin : c.toUpper ∈ "NONE".toList := by
      rw [← h, String.toUpper, String.toList_map]
      exact List.mem_map_of_mem hc
    have hcode := toNat_toUpper c
    have hup := lt_of_mem_none hin
    split at hcode <;> omega

end Text

/-- **The identity of no prefix.**  It belongs to words without a prefix, and to the
prefix that is the word `none`, in small or capital letters. -/
theorem Flag.prefixValue_eq_none_iff {pre : String} :
    prefixValue pre = "NONE" ↔ pre = "" ∨ pre.toUpper = "NONE" := by
  unfold prefixValue
  by_cases hpre : pre = ""
  · simp [hpre]
  · have hempty : ¬ pre.isEmpty = true := fun h => hpre (String.isEmpty_iff.mp h)
    rw [if_neg hempty, Text.upper_eq_none_iff]
    exact ⟨Or.inr, fun h => h.resolve_left hpre⟩

/-! ## From the prefix to the ending -/

/-- The entries of a run belong to the network. -/
theorem Network.Run.mem_entries {g : Network} {resume : Sublexicon → Sublexicon} {n : Sublexicon}
    {es : List Entry} (h : g.Run resume n es) : ∀ e ∈ es, e ∈ g.entries := by
  induction h with
  | done => exact List.forall_mem_nil _
  | step hmem _ _ ih => exact List.forall_mem_cons.mpr ⟨hmem, ih⟩

namespace Layout

/-- The entry of an ending. -/
def endingEntry (l : Layout) (r : Inflection) (v : Variant) : Entry :=
  ⟨.endings (l.endingKey r v), r.analysisTags, v.parts.post, .terminal⟩

/-- What holds in the sublexicons after a prefix, with the memory a word comes
with.  The word is in the paradigm of the prefix, or still knows it; and it still
knows the identity of the prefix, until that has become part of the key of the
ending. -/
def AfterPrefix (p x : String) (m : Flag.Memory) : Sublexicon → Prop
  | .prefixBoundary p' | .stems p' | .stemBoundary p' _ | .prefixCheck p' _ =>
    p' = p ∧ m .paradigm = some p ∧ m .prefixId = some x
  | .gate _ => m .paradigm = some p ∧ m .prefixId = some x
  | .orderCheck k | .endings k => k.paradigm = p ∧ k.prefixValue = x
  | .terminal => True
  | .root _ | .external _ | .prefixes _ | .irregular _ => False

variable {l : Layout} {rootName : String} {rows : List Inflection} {r : Inflection} {v : Variant}
  {n : Sublexicon} {e : Entry} {es : List Entry} {p x : String} {m m' : Flag.Memory}

/-- One entry keeps what holds after a prefix. -/
theorem Files.afterPrefix_next (h : l.Files rootName r v n e) (hturns : e.Turns m m')
    (hafter : AfterPrefix p x m n) : AfterPrefix p x m' (l.resume e.next) := by
  cases n with
  | prefixBoundary p' =>
      obtain ⟨-, -, rfl⟩ := h
      obtain rfl := (Entry.turns_plain Sublexicon.Role.noConfusion).mp hturns
      obtain ⟨rfl, hknown⟩ := hafter
      rcases hslot : l.slot with _ | ⟨pos, _ | name⟩ <;>
        simpa [Layout.afterPrefix, resume, hslot, AfterPrefix] using hknown
  | gate pos =>
      obtain ⟨-, -, rfl⟩ := h
      have hact := (Entry.turns_flag (f := Flag.requireParadigm r.paradigm) rfl rfl).mp hturns
      obtain ⟨hp, hm⟩ := Option.ite_none_right_eq_some.mp hact
      obtain rfl := Option.some.inj hm
      -- the gate is shared, but the memory tells the paradigm
      exact ⟨Option.some.inj (hp.symm.trans hafter.1), hafter⟩
  | stems p' =>
      obtain ⟨-, rfl, rfl⟩ := h
      obtain rfl := (Entry.turns_plain Sublexicon.Role.noConfusion).mp hturns
      exact hafter
  | stemBoundary p' c =>
      obtain ⟨-, -, -, rfl⟩ := h
      obtain rfl := (Entry.turns_plain Sublexicon.Role.noConfusion).mp hturns
      exact hafter
  | prefixCheck p' c =>
      obtain ⟨-, rfl, -, rfl⟩ := h
      have hact := (Entry.turns_flag (f := Flag.requirePrefix v.parts.pre) rfl rfl).mp hturns
      have hx := (Option.ite_none_right_eq_some.mp hact).1
      exact ⟨hafter.1, Option.some.inj (hx.symm.trans hafter.2.2)⟩
  | orderCheck k =>
      obtain ⟨-, -, rfl⟩ := h
      exact hafter
  | endings k =>
      obtain ⟨-, -, rfl⟩ := h
      trivial
  | root _ | external _ | prefixes _ | irregular _ => exact hafter.elim
  | terminal => exact h.elim

/-- A run keeps what holds after a prefix. -/
theorem afterPrefix_of_run (hrun : (l.network rootName rows).Run l.resume n es)
    (hobeys : Obeys m es) (hafter : AfterPrefix p x m n) :
    ∀ e ∈ es, ∃ m', AfterPrefix p x m' e.source := by
  induction hrun generalizing m with
  | done => exact List.forall_mem_nil _
  | @step n e es hmem hsource _ ih =>
      obtain ⟨m', hturns, hobeys'⟩ := hobeys
      subst hsource
      obtain ⟨r, v, -, hfiles⟩ := mem_entries_network.mp hmem
      intro e' he'
      rcases List.mem_cons.mp he' with rfl | hlater
      · exact ⟨m, hafter⟩
      · exact ih hobeys' (hfiles.afterPrefix_next hturns hafter) e' hlater

/-- An obedient run in the regular layout begins with a root entry and a prefix,
and the prefix leaves its mark on all that comes after it. -/
theorem exists_prefix_of_run (hmode : l.mode = .regular)
    (hrun : (l.network rootName rows).Run l.resume (.root rootName) es)
    (hobeys : Obeys Flag.Memory.blank es) :
    ∃ r v e₀ rest, Attested rows r v ∧ e₀.source = .root rootName ∧
      es = e₀ :: prefixEntry r v :: rest ∧
      ∀ e ∈ rest, ∃ m, AfterPrefix r.paradigm (Flag.prefixValue v.parts.pre) m e.source := by
  cases hrun with
  | @step _ e₀ es hmem hsource hrest =>
      obtain ⟨m, hturns, hobeys⟩ := hobeys
      obtain ⟨r₀, v₀, -, hfiles⟩ := mem_entries_network.mp hmem
      rw [hsource] at hfiles
      obtain ⟨-, rfl⟩ := hfiles
      have hact := (Entry.turns_flag (f := Flag.setParadigm r₀.paradigm) rfl rfl).mp hturns
      obtain rfl := Option.some.inj hact
      have hnext : l.resume (l.afterRoot r₀.paradigm) = .prefixes r₀.paradigm := by
        simp only [afterRoot, hmode, resume]
      change (l.network rootName rows).Run l.resume (l.resume (l.afterRoot r₀.paradigm)) es at hrest
      rw [hnext] at hrest
      cases hrest with
      | @step _ e₁ es hmem hsource₁ hrest =>
          obtain ⟨m, hturns, hobeys⟩ := hobeys
          obtain ⟨r, v, hrv, hfiles⟩ := mem_entries_network.mp hmem
          rw [hsource₁] at hfiles
          obtain ⟨-, hp, rfl⟩ := hfiles
          have hact := (Entry.turns_flag (f := Flag.setPrefix v.parts.pre) rfl rfl).mp hturns
          obtain rfl := Option.some.inj hact
          refine ⟨r, v, _, es, hrv, hsource, rfl, afterPrefix_of_run hrest hobeys ?_⟩
          have hother : Flag.Feature.paradigm ≠ .prefixId := by decide
          refine ⟨rfl, (Flag.Memory.put_other hother _).trans ?_, Flag.Memory.put_same _ _ _⟩
          rw [← hp]
          exact Flag.Memory.put_same _ _ _

/-- Some entry of a run in the regular layout is an ending. -/
theorem exists_ending_of_run (hmode : l.mode = .regular)
    (hrun : (l.network rootName rows).Run l.resume n es) (hn : n ≠ .terminal) :
    ∃ e ∈ es, ∃ k, e.source = .endings k := by
  have hlong : 8 ≤ l.wordLength := by
    rcases hslot : l.slot with _ | slot <;> simp [wordLength, hmode, hslot]
  induction hrun with
  | done => exact absurd rfl hn
  | @step n e es hmem hsource _ ih =>
      subst hsource
      obtain ⟨r, v, -, hfiles⟩ := mem_entries_network.mp hmem
      by_cases hend : l.resume e.next = .terminal
      · -- only endings and irregular forms are one entry away from the end
        have hlast := hfiles.remaining_eq
        rw [hend] at hlast
        cases hkind : e.source with
        | endings k => exact ⟨e, List.mem_cons_self, k, hkind⟩
        | irregular p =>
            rw [hkind] at hfiles
            exact Mode.noConfusion (hmode.symm.trans hfiles.1)
        | _ =>
            rw [hkind] at hlast
            simp only [remaining] at hlast
            omega
      · obtain ⟨e', he', hkind⟩ := ih hend
        exact ⟨e', List.mem_cons_of_mem _ he', hkind⟩

/-- **Prefix and ending agree.**  On an obedient run they come from variants of one
paradigm that have the same identity of the prefix. -/
theorem prefix_agrees_with_ending (hmode : l.mode = .regular)
    (hrun : (l.network rootName rows).Run l.resume (.root rootName) es)
    (hobeys : Obeys Flag.Memory.blank es) {first last : Entry} (hfirst : first ∈ es)
    (hlast : last ∈ es) {k : EndingKey} (hp : first.source = .prefixes p)
    (hk : last.source = .endings k) :
    ∃ r v r' v', Attested rows r v ∧ Attested rows r' v' ∧ last = l.endingEntry r v ∧
      first = prefixEntry r' v' ∧ r.paradigm = r'.paradigm ∧
      Flag.prefixValue v.parts.pre = Flag.prefixValue v'.parts.pre := by
  obtain ⟨r, v, hrv, hfiles⟩ := mem_entries_network.mp (hrun.mem_entries last hlast)
  rw [hk] at hfiles
  obtain ⟨-, rfl, hending⟩ := hfiles
  obtain ⟨r', v', e₀, rest, hrv', hroot, rfl, hafter⟩ := exists_prefix_of_run hmode hrun hobeys
  rw [List.mem_cons, List.mem_cons] at hfirst hlast
  have hfound : first = prefixEntry r' v' := by
    rcases hfirst with rfl | rfl | hrest
    · exact Sublexicon.noConfusion (hroot.symm.trans hp)
    · rfl
    · obtain ⟨m, hm⟩ := hafter first hrest
      rw [hp] at hm
      exact hm.elim
  have hagree : (l.endingKey r v).paradigm = r'.paradigm ∧
      (l.endingKey r v).prefixValue = Flag.prefixValue v'.parts.pre := by
    rcases hlast with rfl | rfl | hrest
    · exact Sublexicon.noConfusion (hroot.symm.trans hk)
    · cases hk
    · obtain ⟨m, hm⟩ := hafter last hrest
      rw [hk] at hm
      exact hm
  exact ⟨r, v, r', v', hrv, hrv', hending, hfound, hagree.1, hagree.2⟩

end Layout

/-! ## From one form's prefix to another one's ending -/

/-- Where no flag is due, a word goes on with the memory it has. -/
theorem Obeys.cons_plain {e : Entry} {es : List Entry} {m : Flag.Memory}
    (hrole : e.source.role ≠ .flags) (h : Obeys m es) : Obeys m (e :: es) :=
  ⟨m, (Entry.turns_plain hrole).mpr rfl, h⟩

/-- Where a flag is due, a word goes on with the memory after the flag. -/
theorem Obeys.cons_flag {e : Entry} {es : List Entry} {f : Flag} {m m' : Flag.Memory}
    (hrole : e.source.role = .flags) (hupper : e.upper = f.symbol) (hact : f.act m = some m')
    (h : Obeys m' es) : Obeys m (e :: es) :=
  ⟨m', (Entry.turns_flag hrole hupper).mpr hact, h⟩

namespace Layout

variable {l : Layout} {rootName : String} {rows : List Inflection} {r r' : Inflection}
  {v v' : Variant} {m : Flag.Memory}

/-- From the stem on, the flags of a variant do not stop a word that knows the
prefix. -/
theorem obeys_stem_endings (hidentity : m .prefixId = some (Flag.prefixValue v.parts.pre))
    (horder : m .order = none) : Obeys m (stemEntry r :: l.endingEntries r v) := by
  refine .cons_plain Sublexicon.Role.noConfusion
    (.cons_plain Sublexicon.Role.noConfusion ?_)
  refine .cons_flag (f := Flag.requirePrefix v.parts.pre) rfl rfl (if_pos hidentity) ?_
  refine .cons_flag (f := Flag.unifyOrder (l.endingKey r v).order) rfl rfl
    (if_pos (Or.inl horder)) ?_
  exact .cons_plain Sublexicon.Role.noConfusion trivial

/-- Neither do those of the paradigm, where there is a gate, when the word knows it. -/
theorem obeys_rest (hmode : l.mode = .regular) (hparadigm : m .paradigm = some r.paradigm)
    (hidentity : m .prefixId = some (Flag.prefixValue v.parts.pre)) (horder : m .order = none) :
    Obeys m (l.chain r v).rest := by
  have hword := obeys_stem_endings (l := l) (r := r) hidentity horder
  rcases hslot : l.slot with _ | slot <;> simp only [chain, hmode, boundaryEntries, hslot]
  · exact .cons_plain Sublexicon.Role.noConfusion hword
  · exact .cons_plain Sublexicon.Role.noConfusion
      (.cons_flag (f := Flag.requireParadigm r.paradigm) rfl rfl (if_pos hparadigm) hword)

/-- The entries of a word that has the prefix of one variant, with the way to it
from the root, and all that comes after the prefix from another variant. -/
def crossedEntries (l : Layout) (rootName : String) (r' : Inflection) (v' : Variant)
    (r : Inflection) (v : Variant) : List Entry :=
  .identity (.root rootName) (Flag.setParadigm r'.paradigm).symbol (.prefixes r'.paradigm) ::
    prefixEntry r' v' :: (l.chain r v).rest

/-- Nothing is crossed in the word of a variant by itself. -/
theorem chainEntries_eq_crossedEntries (hmode : l.mode = .regular) :
    Network.chainEntries rootName (l.chain r v) = l.crossedEntries rootName r v r v := by
  simp only [Network.chainEntries, crossedEntries, chain, hmode, Chain.entries]
  rfl

/-- In one paradigm crossed entries follow each other. -/
theorem linked_crossedEntries (hmode : l.mode = .regular) (hp : r.paradigm = r'.paradigm) :
    Network.Linked l.resume (.root rootName) (l.crossedEntries rootName r' v' r v) := by
  have hown : Network.Linked l.resume (.root rootName) (l.crossedEntries rootName r v r v) :=
    chainEntries_eq_crossedEntries hmode ▸ l.linked_chainEntries rootName r v
  obtain ⟨-, -, hrest⟩ := hown
  have hnext : (prefixEntry r v).next = (prefixEntry r' v').next :=
    congrArg Sublexicon.prefixBoundary hp
  rw [hnext] at hrest
  exact ⟨rfl, rfl, hrest⟩

/-- They obey their flags when the variants agree in the identity of the prefix. -/
theorem obeys_crossedEntries (hmode : l.mode = .regular) (hp : r.paradigm = r'.paradigm)
    (hpre : Flag.prefixValue v.parts.pre = Flag.prefixValue v'.parts.pre) :
    Obeys Flag.Memory.blank (l.crossedEntries rootName r' v' r v) := by
  refine .cons_flag (f := Flag.setParadigm r'.paradigm) rfl rfl rfl ?_
  refine .cons_flag (f := Flag.setPrefix v'.parts.pre) rfl rfl rfl ?_
  refine obeys_rest hmode ?_ ?_ rfl
  · rw [hp]
    rfl
  · rw [hpre]
    rfl

/-- A prefix goes with the stem and the ending of another variant when they agree
in the paradigm and in the identity of the prefix. -/
theorem exists_run_of_agreeing (rootName : String) (hmode : l.mode = .regular)
    (hrv : Attested rows r v) (hrv' : Attested rows r' v') (hp : r.paradigm = r'.paradigm)
    (hpre : Flag.prefixValue v.parts.pre = Flag.prefixValue v'.parts.pre) :
    ∃ es, (l.network rootName rows).Run l.resume (.root rootName) es ∧
      Obeys Flag.Memory.blank es ∧ prefixEntry r' v' ∈ es ∧ l.endingEntry r v ∈ es := by
  have hmem : ∀ {r v}, Attested rows r v → ∀ e ∈ l.crossedEntries rootName r v r v,
      e ∈ (l.network rootName rows).entries := by
    intro r v hrv e he
    rw [← chainEntries_eq_crossedEntries hmode] at he
    exact mem_entries_of_mem_chainEntries hrv he
  have hending : l.endingEntry r v ∈ (l.chain r v).rest := by
    simp [chain, hmode, endingEntries, endingEntry]
  refine ⟨l.crossedEntries rootName r' v' r v,
    Network.run_of_linked (linked_crossedEntries hmode hp) ?_, obeys_crossedEntries hmode hp hpre,
    List.mem_cons_of_mem _ List.mem_cons_self,
    List.mem_cons_of_mem _ (List.mem_cons_of_mem _ hending)⟩
  intro e he
  rcases List.mem_cons.mp he with rfl | he
  · exact hmem hrv' _ List.mem_cons_self
  rcases List.mem_cons.mp he with rfl | he
  · exact hmem hrv' _ (List.mem_cons_of_mem _ List.mem_cons_self)
  · exact hmem hrv _ (List.mem_cons_of_mem _ (List.mem_cons_of_mem _ he))

/-! ## Words with a prefix kept apart from words without one -/

/-- The prefix of a variant is what its entry adds to the surface. -/
theorem surface_prefixEntry (r : Inflection) (v : Variant) :
    (prefixEntry r v).surface = v.parts.pre :=
  Entry.surface_of_flag rfl rfl

/-- The entry of the ending is the one on a chain that belongs to the endings. -/
theorem mem_chain_iff_endingEntry (hmode : l.mode = .regular) {e : Entry} {k : EndingKey}
    (hk : e.source = .endings k) : e ∈ (l.chain r v).entries ↔ e = l.endingEntry r v := by
  constructor
  · intro he
    have hfiles : l.Files "" r v e.source e :=
      files_of_mem_chainEntries (List.mem_cons_of_mem _ he)
    rw [hk] at hfiles
    obtain ⟨-, rfl, hending⟩ := hfiles
    exact hending
  · rintro rfl
    simp [chain, hmode, Chain.entries, endingEntries, endingEntry]

/-- The identity `NONE` is reserved for words without a prefix: on every obedient
run an ending that is recorded for such words only comes after no prefix, and one
that is recorded for words with a prefix only comes after a prefix. -/
def ReservesNone (l : Layout) (rootName : String) (rows : List Inflection) : Prop :=
  ∀ es, (l.network rootName rows).Run l.resume (.root rootName) es →
    Obeys Flag.Memory.blank es → ∀ first ∈ es, ∀ last ∈ es, ∀ p k,
      first.source = .prefixes p → last.source = .endings k →
        ((∀ r v, Attested rows r v → last ∈ (l.chain r v).entries → v.parts.pre = "") →
          first.surface = "") ∧
        ((∀ r v, Attested rows r v → last ∈ (l.chain r v).entries → v.parts.pre ≠ "") →
          first.surface ≠ "")

/-- An ending that is not only recorded for prefixes of one kind is recorded for one
of the other kind. -/
theorem exists_recorded_of_not_forall {P : String → Prop} (hmode : l.mode = .regular)
    (h : ¬ ∀ s w, Attested rows s w → l.endingEntry r v ∈ (l.chain s w).entries → P w.parts.pre) :
    ∃ s w, Attested rows s w ∧ ¬ P w.parts.pre ∧ l.endingEntry s w = l.endingEntry r v := by
  by_contra hnone
  apply h
  intro s w hsw hmem
  by_contra hw
  exact hnone ⟨s, w, hsw, hw, ((mem_chain_iff_endingEntry hmode rfl).mp hmem).symm⟩

/-- Where `NONE` is reserved and a paradigm has words without a prefix and words
with the prefix `none`, the endings of each kind are recorded for the other, too. -/
theorem ReservesNone.recorded_for_both (h : l.ReservesNone rootName rows)
    (hmode : l.mode = .regular) (hrv : Attested rows r v) (hrv' : Attested rows r' v')
    (hp : r.paradigm = r'.paradigm) (hpre : v.parts.pre = "")
    (hpre' : v'.parts.pre.toUpper = "NONE") :
    (∃ s w, Attested rows s w ∧ w.parts.pre ≠ "" ∧ l.endingEntry s w = l.endingEntry r v) ∧
      ∃ s w, Attested rows s w ∧ w.parts.pre = "" ∧ l.endingEntry s w = l.endingEntry r' v' := by
  have hnone : Flag.prefixValue v.parts.pre = "NONE" := Flag.prefixValue_eq_none_iff.mpr (.inl hpre)
  have hnone' : Flag.prefixValue v'.parts.pre = "NONE" :=
    Flag.prefixValue_eq_none_iff.mpr (.inr hpre')
  constructor
  · obtain ⟨es, hrun, hobeys, hfirst, hlast⟩ :=
      exists_run_of_agreeing rootName hmode hrv hrv' hp (hnone.trans hnone'.symm)
    apply exists_recorded_of_not_forall (P := (· = "")) hmode
    intro hall
    have hempty := (h es hrun hobeys _ hfirst _ hlast _ _ rfl rfl).1 hall
    rw [surface_prefixEntry] at hempty
    rw [hempty, ← String.toList_inj, String.toUpper, String.toList_map] at hpre'
    exact absurd hpre' (by decide)
  · obtain ⟨es, hrun, hobeys, hfirst, hlast⟩ :=
      exists_run_of_agreeing rootName hmode hrv' hrv hp.symm (hnone'.trans hnone.symm)
    have hrecorded := exists_recorded_of_not_forall (P := (· ≠ "")) hmode fun hall => by
      have hne := (h es hrun hobeys _ hfirst _ hlast _ _ rfl rfl).2 hall
      rw [surface_prefixEntry] at hne
      exact hne hpre
    obtain ⟨s, w, hsw, hempty, hending⟩ := hrecorded
    exact ⟨s, w, hsw, not_not.mp hempty, hending⟩

end Layout

/-- **When `NONE` is reserved for the empty prefix.**  Each obedient run of a network
of regular forms reads a prefix and an ending.  An ending that is recorded for words
without a prefix only is never read after a prefix, and the other way round, exactly
when this holds: where a paradigm has forms without a prefix and forms with the
prefix `none`, in small or capital letters, each ending of the former is recorded
with a prefix, too, and each ending of the latter without one. -/
theorem none_reserved_iff (rootName : String) (slot : Option PreElementSlot) (tags : OrderTags)
    (rows : List Inflection) :
    let l : Layout := ⟨.regular, slot, tags⟩
    (∀ es, (l.network rootName rows).Run l.resume (.root rootName) es →
      Obeys Flag.Memory.blank es →
        (∃ e ∈ es, ∃ p, e.source = .prefixes p) ∧ ∃ e ∈ es, ∃ k, e.source = .endings k) ∧
    (l.ReservesNone rootName rows ↔
      ∀ r v r' v', Attested rows r v → Attested rows r' v' → r.paradigm = r'.paradigm →
        v.parts.pre = "" → v'.parts.pre.toUpper = "NONE" →
          (∃ s w, Attested rows s w ∧ w.parts.pre ≠ "" ∧ l.endingEntry s w = l.endingEntry r v) ∧
          ∃ s w, Attested rows s w ∧ w.parts.pre = "" ∧
            l.endingEntry s w = l.endingEntry r' v') := by
  intro l
  refine ⟨fun es hrun hobeys => ?_, ?_⟩
  · obtain ⟨r, v, e₀, rest, -, -, rfl, -⟩ := Layout.exists_prefix_of_run rfl hrun hobeys
    exact ⟨⟨Layout.prefixEntry r v, List.mem_cons_of_mem _ List.mem_cons_self, r.paradigm, rfl⟩,
      Layout.exists_ending_of_run rfl hrun Sublexicon.noConfusion⟩
  constructor
  · intro h r v r' v' hrv hrv' hp hpre hpre'
    exact h.recorded_for_both rfl hrv hrv' hp hpre hpre'
  · intro h es hrun hobeys first hfirst last hlast p k hprefixes hendings
    obtain ⟨r, v, r', v', hrv, hrv', rfl, rfl, hp, hpre⟩ :=
      Layout.prefix_agrees_with_ending rfl hrun hobeys hfirst hlast hprefixes hendings
    have hrecords : ∀ {s w}, l.endingEntry s w = l.endingEntry r v →
        l.endingEntry r v ∈ (l.chain s w).entries := fun hending =>
      (Layout.mem_chain_iff_endingEntry rfl rfl).mpr hending.symm
    rw [Layout.surface_prefixEntry]
    constructor
    · intro hall
      have hempty : v.parts.pre = "" := hall r v hrv (hrecords rfl)
      have hnone := hpre.symm.trans (Flag.prefixValue_eq_none_iff.mpr (.inl hempty))
      rcases Flag.prefixValue_eq_none_iff.mp hnone with hempty' | hword
      · exact hempty'
      · obtain ⟨⟨s, w, hsw, hne, hending⟩, -⟩ := h r v r' v' hrv hrv' hp hempty hword
        exact absurd (hall s w hsw (hrecords hending)) hne
    · intro hall hempty
      have hnone := hpre.trans (Flag.prefixValue_eq_none_iff.mpr (.inl hempty))
      rcases Flag.prefixValue_eq_none_iff.mp hnone with hempty' | hword
      · exact hall r v hrv (hrecords rfl) hempty'
      · obtain ⟨-, s, w, hsw, hempty', hending⟩ := h r' v' r v hrv' hrv hp.symm hempty hword
        exact hall s w hsw (hrecords hending) hempty'

/-- A noun with the prefix `none` lends it to a noun that never has a prefix. -/
theorem prefix_none_is_lent :
    let r : Inflection := ⟨"NA", "1", "a", "a", [], [⟨"ay", ⟨"", "a", "y"⟩⟩]⟩
    let r' : Inflection := ⟨"NA", "1", "a", "a", [], [⟨"noneax", ⟨"none", "a", "x"⟩⟩]⟩
    let l : Layout := ⟨.regular, none, .standard⟩
    r.FromCells ∧ r'.FromCells ∧ ¬ l.ReservesNone "Noun" [r, r'] := by
  intro r r' l
  refine ⟨⟨"NA", "1", "a", "a", [], [("ay", "<<a>>y")], by rfl⟩,
    ⟨"NA", "1", "a", "a", [], [("noneax", "none<<a>>x")], by rfl⟩, fun h => ?_⟩
  have hr : Attested [r, r'] r ⟨"ay", ⟨"", "a", "y"⟩⟩ :=
    ⟨List.mem_cons_self, List.mem_cons_self⟩
  have hr' : Attested [r, r'] r' ⟨"noneax", ⟨"none", "a", "x"⟩⟩ :=
    ⟨List.mem_cons_of_mem _ List.mem_cons_self, List.mem_cons_self⟩
  have hword : "none".toUpper = "NONE" := by
    rw [← String.toList_inj, String.toUpper, String.toList_map]
    decide
  obtain ⟨⟨s, w, ⟨hs, hw⟩, hne, hending⟩, -⟩ := h.recorded_for_both rfl hr hr' rfl rfl hword
  rcases List.mem_pair.mp hs with rfl | rfl <;> obtain rfl := List.mem_singleton.mp hw
  · exact hne rfl
  · exact absurd hending (by decide)

end Morphotactics
