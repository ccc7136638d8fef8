import Mathlib.Data.Set.Function
import Morphotactics.Proofs.Filing
import Morphotactics.Proofs.UpperCase

/-!
# Sublexicons and their written names

In the source a sublexicon is known by its written name only, and names are made
by joining texts of cells with fixed words.  This file asks when two sublexicons
are written with one name.

The end of a name tells the kind of its sublexicon, with one exception: the
stems of a paradigm `P` end in `_Stems`, and the place of preverbs and prenouns of
a part of speech `P_` ends in `Stems`.  Within a kind the texts of the name can be
told apart from the left up to the first `_Class=`, and from the right up to the
last small letter, which is the `x` of `_Prefix=`: an identity of a prefix is in
upper case and has none.  So names collide in that one way, or because a paradigm
has `_Class=` inside.
-/

namespace Morphotactics

/-! ## Taking joined texts apart -/

namespace Text

variable {l l' m r r' : List Char} {a c c' : Char} {d : List Char}

/-- Of two ways to cut a text, one cuts further to the right, unless they are
the same. -/
theorem eq_or_further (h : l ++ r = l' ++ r') :
    l = l' ∧ r = r' ∨ (∃ b m, l' = l ++ b :: m ∧ r = b :: m ++ r') ∨
      ∃ b m, l = l' ++ b :: m ∧ r' = b :: m ++ r := by
  rcases List.append_eq_append_iff.mp h with ⟨m, hl, hr⟩ | ⟨m, hl, hr⟩
  · cases m with
    | nil => exact Or.inl ⟨by simpa using hl.symm, by simpa using hr⟩
    | cons b m => exact Or.inr (Or.inl ⟨b, m, hl, hr⟩)
  · cases m with
    | nil => exact Or.inl ⟨by simpa using hl, by simpa using hr.symm⟩
    | cons b m => exact Or.inr (Or.inr ⟨b, m, hl, hr⟩)

/-- A part that goes on over a separator has it inside, if the first character of
the separator does not come again in it. -/
theorem separator_infix_of_further {b : Char} (ha : a ∉ d)
    (h : a :: d ++ r = b :: m ++ (a :: d ++ r')) : a :: d <:+: l ++ b :: m := by
  obtain ⟨rfl, hrest⟩ := List.cons.inj h
  have hin : ∀ m', m = d ++ m' → a :: d <:+: l ++ a :: m := by
    rintro m' rfl
    exact ⟨l, m', by simp⟩
  rcases List.append_eq_append_iff.mp hrest with ⟨m', hm, -⟩ | ⟨m', hd, hm⟩
  · exact hin m' hm
  · cases m' with
    | nil => exact hin [] (by simpa using hd.symm)
    | cons b m' =>
        obtain ⟨rfl, -⟩ := List.cons.inj hm
        exact absurd (hd ▸ List.mem_append_right m List.mem_cons_self) ha

/-- A separator whose first character does not come again in it cuts a text in
one way, if neither part before it has it inside. -/
theorem eq_of_append_separator (ha : a ∉ d) (hl : ¬(a :: d <:+: l)) (hl' : ¬(a :: d <:+: l'))
    (h : l ++ (a :: d ++ r) = l' ++ (a :: d ++ r')) : l = l' ∧ r = r' := by
  rcases eq_or_further h with ⟨hsame, hrest⟩ | ⟨b, m, rfl, hm⟩ | ⟨b, m, rfl, hm⟩
  · exact ⟨hsame, List.append_cancel_left hrest⟩
  · exact absurd (separator_infix_of_further ha hm) hl'
  · exact absurd (separator_infix_of_further ha hm) hl

/-- A text is cut in one way at its last small letter. -/
theorem eq_of_append_lastLower (hc : c.isLower = true) (hc' : c'.isLower = true)
    (hr : ∀ d ∈ r, d.isLower = false) (hr' : ∀ d ∈ r', d.isLower = false)
    (h : l ++ c :: r = l' ++ c' :: r') : l = l' ∧ r = r' := by
  have hlater : ∀ {m r r' : List Char} {b c c' : Char}, c'.isLower = true →
      (∀ d ∈ r, d.isLower = false) → c :: r ≠ b :: m ++ c' :: r' := by
    intro m r r' b c c' hc' hr hm
    have hin : c' ∈ r := by
      rw [(List.cons.inj hm).2]
      exact List.mem_append_right m List.mem_cons_self
    exact Bool.false_ne_true ((hr c' hin).symm.trans hc')
  rcases eq_or_further h with ⟨hsame, hrest⟩ | ⟨b, m, -, hm⟩ | ⟨b, m, -, hm⟩
  · exact ⟨hsame, (List.cons.inj hrest).2⟩
  · exact absurd hm (hlater hc' hr)
  · exact absurd hm (hlater hc hr')

end Text

/-! ## The ends of written names -/

namespace Sublexicon

/-- Whether the name of a sublexicon is made from a paradigm or a part of speech.
Other names are taken as they are given. -/
def IsMade : Sublexicon → Prop
  | root _ | external _ => False
  | _ => True

/-- The end of a written name. -/
def ending : Sublexicon → String
  | root _ | external _ => ""
  | prefixes _ => "_Prefix"
  | prefixBoundary _ => "_PrefixBoundary"
  | gate _ => "Stems"
  | stems _ => "_Stems"
  | stemBoundary _ _ => "_Boundary"
  | prefixCheck _ _ => "_Flags"
  | orderCheck k => "_Order=" ++ k.order.text
  | endings _ => "_Endings"
  | irregular _ => "_Irregular"
  | terminal => "#"

/-- What stands before the end of a written name. -/
def beginning : Sublexicon → String
  | root name | external name => name
  | prefixes p | prefixBoundary p | stems p | irregular p => p
  | gate pos => pos
  | stemBoundary p c | prefixCheck p c => p ++ "_Class=" ++ c
  | orderCheck k => k.paradigm ++ "_Class=" ++ k.inflClass ++ "_Prefix=" ++ k.prefixValue
  | endings k => k.text
  | terminal => ""

/-- A name is written as its beginning and its end. -/
theorem text_eq_append (n : Sublexicon) : n.text = n.beginning ++ n.ending := by
  cases n <;>
    simp only [text, beginning, ending, EndingKey.text, String.append_empty, String.empty_append,
      String.append_assoc]

/-- The kinds of sublexicons whose names are made, by position, with the ends of
these names. -/
def kindEndings : List (Nat × String) :=
  [(2, "_Prefix"), (3, "_PrefixBoundary"), (4, "Stems"), (5, "_Stems"), (6, "_Boundary"),
    (7, "_Flags"), (8, "_Order=Ind"), (8, "_Order=Cnj"), (8, "_Order=Other"), (9, "_Endings"),
    (10, "_Irregular"), (11, "#")]

/-- A name that is made ends as names of its kind do. -/
theorem rank_ending_mem {n : Sublexicon} (hn : n.IsMade) : (n.rank, n.ending) ∈ kindEndings := by
  have horder : ∀ o : ClauseOrder, (8, "_Order=" ++ o.text) ∈ kindEndings := by
    intro o
    cases o <;> decide
  cases n with
  | root name => exact hn.elim
  | external name => exact hn.elim
  | orderCheck k => exact horder k.order
  | _ => simp [rank, ending, kindEndings]

/-- **Ends of names.**  No name ends in the end of another kind, except that
`_Stems` ends in `Stems`. -/
theorem kindEndings_suffix :
    ∀ s ∈ kindEndings, ∀ t ∈ kindEndings, s.2.toList <:+ t.2.toList →
      s = t ∨ s.1 = 4 ∧ t.1 = 5 := by
  decide

/-- Sublexicons with one name are of one kind, or they are the place of preverbs
and prenouns and the stems of a paradigm. -/
theorem rank_eq_of_text_eq {n n' : Sublexicon} (hn : n.IsMade) (hn' : n'.IsMade)
    (h : n.text = n'.text) :
    n.rank = n'.rank ∧ n.ending = n'.ending ∨
      n.rank = 4 ∧ n'.rank = 5 ∨ n.rank = 5 ∧ n'.rank = 4 := by
  have hmem := rank_ending_mem hn
  have hmem' := rank_ending_mem hn'
  have hlists := congrArg String.toList h
  rw [text_eq_append, text_eq_append, String.toList_append, String.toList_append] at hlists
  have hsuffix : n.ending.toList <:+ n'.ending.toList ∨ n'.ending.toList <:+ n.ending.toList :=
    List.suffix_or_suffix_of_suffix ⟨_, hlists⟩ (List.suffix_append _ _)
  rcases hsuffix with hsuffix | hsuffix
  · rcases kindEndings_suffix _ hmem _ hmem' hsuffix with hsame | hstems
    · exact Or.inl (Prod.mk.inj hsame)
    · exact Or.inr (Or.inl hstems)
  · rcases kindEndings_suffix _ hmem' _ hmem hsuffix with hsame | hstems
    · exact Or.inl (Prod.mk.inj hsame.symm)
    · exact Or.inr (Or.inr hstems.symm)

end Sublexicon

/-! ## Names within a kind -/

/-- A text that has the mark of a class inside. -/
def HasClassMark (p : String) : Prop := ∃ a b, p = a ++ "_Class=" ++ b

/-- A text in which no small letter of ASCII stands. -/
def NoLower (x : String) : Prop := ∀ d ∈ x.toList, d.isLower = false

/-- The identity of a prefix has no small letters of ASCII. -/
theorem noLower_prefixValue (pre : String) : NoLower (Flag.prefixValue pre) := by
  intro d hd
  rw [Flag.prefixValue] at hd
  split at hd
  · have hnone : "NONE".toList.all (fun d => !d.isLower) = true := by decide
    simpa using List.all_eq_true.mp hnone d hd
  · exact Text.isLower_of_mem_upper hd

/-- Paradigm and class can be told apart where the paradigm has no mark of a
class inside. -/
theorem eq_of_append_class {p p' c c' : String} (hp : ¬HasClassMark p) (hp' : ¬HasClassMark p')
    (h : p ++ "_Class=" ++ c = p' ++ "_Class=" ++ c') : p = p' ∧ c = c' := by
  have hmark : "_Class=".toList = '_' :: "Class=".toList := by decide
  have hinside : ∀ {p : String}, ¬HasClassMark p → ¬('_' :: "Class=".toList <:+: p.toList) := by
    rintro p hp ⟨a, b, hab⟩
    refine hp ⟨String.ofList a, String.ofList b, String.toList_inj.mp ?_⟩
    simpa using hab.symm
  have hlists := congrArg String.toList h
  rw [String.toList_append, String.toList_append, String.toList_append, String.toList_append,
    List.append_assoc, List.append_assoc, hmark] at hlists
  obtain ⟨hsame, hrest⟩ :=
    Text.eq_of_append_separator (by decide) (hinside hp) (hinside hp') hlists
  exact ⟨String.toList_inj.mp hsame, String.toList_inj.mp hrest⟩

/-- Class and prefix can be told apart where the identity of the prefix has no
small letter: the last one is the end of the word between them. -/
theorem eq_of_append_prefix {c c' x x' : String} (hx : NoLower x) (hx' : NoLower x')
    (h : c ++ "_Prefix=" ++ x = c' ++ "_Prefix=" ++ x') : c = c' ∧ x = x' := by
  have hword : "_Prefix=".toList = "_Prefi".toList ++ 'x' :: ['='] := by decide
  have hafter : ∀ {x : String}, NoLower x → ∀ d ∈ '=' :: x.toList, d.isLower = false := by
    intro x hx d hd
    rcases List.mem_cons.mp hd with rfl | hd
    · decide
    · exact hx d hd
  have hlists := congrArg String.toList h
  rw [String.toList_append, String.toList_append, String.toList_append, String.toList_append,
    hword] at hlists
  have hcut : c.toList ++ "_Prefi".toList ++ 'x' :: '=' :: x.toList =
      c'.toList ++ "_Prefi".toList ++ 'x' :: '=' :: x'.toList := by
    simpa only [List.append_assoc, List.cons_append, List.nil_append] using hlists
  obtain ⟨hleft, hright⟩ :=
    Text.eq_of_append_lastLower (by decide) (by decide) (hafter hx) (hafter hx') hcut
  exact ⟨String.toList_inj.mp (List.append_cancel_right hleft),
    String.toList_inj.mp (List.cons.inj hright).2⟩

/-- An ending key can be told from its name. -/
theorem EndingKey.eq_of_text_eq {k k' : EndingKey} (hp : ¬HasClassMark k.paradigm)
    (hp' : ¬HasClassMark k'.paradigm) (hx : NoLower k.prefixValue) (hx' : NoLower k'.prefixValue)
    (h : k.text = k'.text) : k = k' := by
  have hmade : ∀ key, (Sublexicon.orderCheck key).IsMade := fun _ => trivial
  have hkind := Sublexicon.rank_eq_of_text_eq (hmade k) (hmade k') h
  have horder : k.order = k'.order := by
    rcases hkind with ⟨-, hending⟩ | ⟨hrank, -⟩ | ⟨hrank, -⟩
    · exact ClauseOrder.text_inj ((String.append_right_inj _).mp hending)
    · exact absurd hrank (by simp [Sublexicon.rank])
    · exact absurd hrank (by simp [Sublexicon.rank])
  obtain ⟨p, c, x, order⟩ := k
  obtain ⟨p', c', x', order'⟩ := k'
  obtain rfl : order = order' := horder
  have hbefore : p ++ "_Class=" ++ (c ++ "_Prefix=" ++ x) =
      p' ++ "_Class=" ++ (c' ++ "_Prefix=" ++ x') := by
    have htext := (String.append_left_inj _).mp ((String.append_left_inj _).mp h)
    simpa only [String.append_assoc] using htext
  obtain ⟨rfl, hrest⟩ := eq_of_append_class hp hp' hbefore
  obtain ⟨rfl, rfl⟩ := eq_of_append_prefix hx hx' hrest
  rfl

namespace Sublexicon

/-- A sublexicon whose own texts cannot be taken for the fixed words of its
name. -/
def IsPlain : Sublexicon → Prop
  | stemBoundary p _ | prefixCheck p _ => ¬HasClassMark p
  | orderCheck k | endings k => ¬HasClassMark k.paradigm ∧ NoLower k.prefixValue
  | _ => True

variable {n n' : Sublexicon}

/-- Plain sublexicons of one kind can be told from their names. -/
theorem eq_of_rank_eq_of_text_eq (hplain : n.IsPlain) (hplain' : n'.IsPlain)
    (hrank : n.rank = n'.rank) (h : n.text = n'.text) : n = n' := by
  cases n <;> cases n'
  case root.root name name' => exact congrArg root h
  case external.external name name' => exact congrArg external h
  case prefixes.prefixes p p' => exact congrArg prefixes ((String.append_left_inj _).mp h)
  case prefixBoundary.prefixBoundary p p' =>
    exact congrArg prefixBoundary ((String.append_left_inj _).mp h)
  case gate.gate pos pos' => exact congrArg gate ((String.append_left_inj _).mp h)
  case stems.stems p p' => exact congrArg stems ((String.append_left_inj _).mp h)
  case stemBoundary.stemBoundary p c p' c' =>
    obtain ⟨rfl, rfl⟩ := eq_of_append_class hplain hplain' ((String.append_left_inj _).mp h)
    rfl
  case prefixCheck.prefixCheck p c p' c' =>
    obtain ⟨rfl, rfl⟩ := eq_of_append_class hplain hplain' ((String.append_left_inj _).mp h)
    rfl
  case orderCheck.orderCheck k k' =>
    exact congrArg orderCheck
      (EndingKey.eq_of_text_eq hplain.1 hplain'.1 hplain.2 hplain'.2 h)
  case endings.endings k k' =>
    exact congrArg endings (EndingKey.eq_of_text_eq hplain.1 hplain'.1 hplain.2 hplain'.2
      ((String.append_left_inj _).mp h))
  case irregular.irregular p p' => exact congrArg irregular ((String.append_left_inj _).mp h)
  case terminal.terminal => rfl
  all_goals exact absurd hrank (by simp [rank])

/-- The name of a gate is that of the stems of a paradigm when the part of speech
is the paradigm with a low line. -/
theorem pos_of_text_eq (hrank : n.rank = 4) (hrank' : n'.rank = 5) (h : n.text = n'.text) :
    ∃ p, n = gate (p ++ "_") ∧ n' = stems p := by
  cases n
  case gate pos =>
    cases n'
    case stems p =>
      have hends : pos ++ "Stems" = p ++ "_" ++ "Stems" := by
        rw [String.append_assoc]
        exact h
      exact ⟨p, congrArg gate ((String.append_left_inj _).mp hends), rfl⟩
    all_goals exact absurd hrank' (by simp [rank])
  all_goals exact absurd hrank (by simp [rank])

/-- **Collisions of plain names.**  Two plain sublexicons with one name are the
same, or a gate and the stems of a paradigm. -/
theorem eq_or_gate_of_text_eq (hn : n.IsMade) (hn' : n'.IsMade) (hplain : n.IsPlain)
    (hplain' : n'.IsPlain) (h : n.text = n'.text) :
    n = n' ∨ ∃ p, n = gate (p ++ "_") ∧ n' = stems p ∨ n' = gate (p ++ "_") ∧ n = stems p := by
  rcases rank_eq_of_text_eq hn hn' h with ⟨hrank, -⟩ | ⟨hrank, hrank'⟩ | ⟨hrank, hrank'⟩
  · exact Or.inl (eq_of_rank_eq_of_text_eq hplain hplain' hrank h)
  · obtain ⟨p, hp⟩ := pos_of_text_eq hrank hrank' h
    exact Or.inr ⟨p, Or.inl hp⟩
  · obtain ⟨p, hp⟩ := pos_of_text_eq hrank' hrank h.symm
    exact Or.inr ⟨p, Or.inr hp⟩

end Sublexicon

/-! ## Names in networks of forms -/

namespace Network

/-- The sublexicons that a network has or leads to. -/
def states (g : Network) : List Sublexicon := g.names ++ g.entries.map Entry.next

variable {rootName : String} {fs : List (Layout × Inflection)} {n : Sublexicon}

/-- A sublexicon of a network of forms whose name is made is the end of the word,
or some variant files an entry there. -/
theorem files_of_mem_states (hn : n ∈ (ofForms rootName fs).states) (hmade : n.IsMade) :
    n = .terminal ∨ ∃ f ∈ fs, ∃ v ∈ f.2.variants, ∃ e, f.1.Files rootName f.2 v n e := by
  have hg := wellFormed_ofForms rootName fs
  rcases List.mem_append.mp hn with hname | hnext
  · have hroot : n ≠ (ofForms rootName fs).root := by
      rintro rfl
      exact hmade
    obtain ⟨e, he, rfl⟩ := hg.exists_mem_of_mem_names hname hroot
    obtain ⟨f, hf, v, hv, hfiles⟩ := mem_entries_iff_files.mp he
    exact Or.inr ⟨f, hf, v, hv, e, hfiles⟩
  · obtain ⟨e, he, rfl⟩ := List.mem_map.mp hnext
    obtain ⟨f, hf, v, hv, hfiles⟩ := mem_entries_iff_files.mp he
    rcases hfiles.next_files with hend | ⟨name, hname⟩ | ⟨e', hfiles'⟩
    · exact Or.inl hend
    · rw [hname] at hmade
      exact hmade.elim
    · exact Or.inr ⟨f, hf, v, hv, e', hfiles'⟩

/-- The sublexicons of a network of forms are plain when no paradigm has the mark
of a class inside. -/
theorem isPlain_of_mem_states (hclass : ∀ f ∈ fs, ¬HasClassMark f.2.paradigm)
    (hn : n ∈ (ofForms rootName fs).states) (hmade : n.IsMade) : n.IsPlain := by
  rcases files_of_mem_states hn hmade with rfl | ⟨f, hf, v, hv, e, hfiles⟩
  · trivial
  · have hp := hclass f hf
    have hx := noLower_prefixValue v.parts.pre
    cases n with
    | stemBoundary p c =>
        obtain ⟨-, rfl, -, -⟩ := hfiles
        exact hp
    | prefixCheck p c =>
        obtain ⟨-, rfl, -, -⟩ := hfiles
        exact hp
    | orderCheck k =>
        obtain ⟨-, rfl, -⟩ := hfiles
        exact ⟨hp, hx⟩
    | endings k =>
        obtain ⟨-, rfl, -⟩ := hfiles
        exact ⟨hp, hx⟩
    | _ => trivial

end Network

/-- **Collisions of names.**  Two different sublexicons of a network of forms, of
which neither is a root or defined elsewhere, have one name only if a paradigm of
the forms has the mark of a class inside, or a part of speech is a paradigm of the
forms with a low line.  Where neither is the case, names tell the sublexicons
apart. -/
theorem names_collide_only (rootName : String) (fs : List (Layout × Inflection)) :
    let g := Network.ofForms rootName fs
    (∀ n ∈ g.states, ∀ n' ∈ g.states, n.IsMade → n'.IsMade → n ≠ n' → n.text = n'.text →
      (∃ f ∈ fs, HasClassMark f.2.paradigm) ∨
        ∃ f ∈ fs, ∃ f' ∈ fs, f.1.slot.map PreElementSlot.pos = some (f'.2.paradigm ++ "_")) ∧
    ((∀ f ∈ fs, ¬HasClassMark f.2.paradigm) →
      (∀ f ∈ fs, ∀ f' ∈ fs, f.1.slot.map PreElementSlot.pos ≠ some (f'.2.paradigm ++ "_")) →
      Set.InjOn Sublexicon.text {n | n ∈ g.states ∧ n.IsMade}) := by
  intro g
  have hcollide : ∀ n ∈ g.states, ∀ n' ∈ g.states, n.IsMade → n'.IsMade → n ≠ n' →
      n.text = n'.text → (∃ f ∈ fs, HasClassMark f.2.paradigm) ∨
        ∃ f ∈ fs, ∃ f' ∈ fs, f.1.slot.map PreElementSlot.pos = some (f'.2.paradigm ++ "_") := by
    intro n hn n' hn' hmade hmade' hne htext
    by_cases hclass : ∃ f ∈ fs, HasClassMark f.2.paradigm
    · exact Or.inl hclass
    · have hplain : ∀ f ∈ fs, ¬HasClassMark f.2.paradigm := fun f hf h => hclass ⟨f, hf, h⟩
      -- a gate is filed by a form of its part of speech, stems by a form of the paradigm
      have hslot : ∀ p, .gate (p ++ "_") ∈ g.states → .stems p ∈ g.states →
          ∃ f ∈ fs, ∃ f' ∈ fs,
            f.1.slot.map PreElementSlot.pos = some (f'.2.paradigm ++ "_") := by
        intro p hgate hstems
        obtain ⟨f, hf, v, hv, e, -, hpos, -⟩ :=
          (Network.files_of_mem_states hgate trivial).resolve_left nofun
        obtain ⟨f', hf', v', hv', e', -, rfl, -⟩ :=
          (Network.files_of_mem_states hstems trivial).resolve_left nofun
        exact ⟨f, hf, f', hf', hpos⟩
      have hcases := Sublexicon.eq_or_gate_of_text_eq hmade hmade'
        (Network.isPlain_of_mem_states hplain hn hmade)
        (Network.isPlain_of_mem_states hplain hn' hmade') htext
      rcases hcases with hsame | ⟨p, ⟨rfl, rfl⟩ | ⟨rfl, rfl⟩⟩
      · exact absurd hsame hne
      · exact Or.inr (hslot p hn hn')
      · exact Or.inr (hslot p hn' hn)
  refine ⟨hcollide, ?_⟩
  intro hclass hpos n hn n' hn' htext
  by_contra hne
  rcases hcollide n hn.1 n' hn'.1 hn.2 hn'.2 hne htext with ⟨f, hf, hmark⟩ | ⟨f, hf, f', hf', hsame⟩
  · exact hclass f hf hmark
  · exact hpos f hf f' hf' hsame

/-- A noun whose part of speech ends in a low line has its gate and its stems
under one name; with an ordinary part of speech its names are told apart. -/
theorem names_collide_of_noun :
    let r : Inflection := ⟨"NA", "1", "makwa", "makw", ["+Sg"], [⟨"makwa", ⟨"", "makw", "a"⟩⟩]⟩
    let f : Layout × Inflection := (⟨.regular, some ⟨"NA_", none⟩, .standard⟩, r)
    let f' : Layout × Inflection := (⟨.regular, some ⟨"Noun", none⟩, .standard⟩, r)
    (.gate "NA_" ∈ (Network.ofForms "NounRoot" [f]).states ∧
        .stems "NA" ∈ (Network.ofForms "NounRoot" [f]).states ∧
        (Sublexicon.gate "NA_").text = (Sublexicon.stems "NA").text ∧
        ((∃ h ∈ [f], HasClassMark h.2.paradigm) ∨ ∃ h ∈ [f], ∃ h' ∈ [f],
          h.1.slot.map PreElementSlot.pos = some (h'.2.paradigm ++ "_"))) ∧
      Set.InjOn Sublexicon.text
        {n | n ∈ (Network.ofForms "NounRoot" [f']).states ∧ n.IsMade} := by
  intro r f f'
  have hstate : ∀ {n e}, f.1.Files "NounRoot" r ⟨"makwa", ⟨"", "makw", "a"⟩⟩ n e →
      e.next ∈ (Network.ofForms "NounRoot" [f]).states := by
    intro n e hfiles
    have he : e ∈ (Network.ofForms "NounRoot" [f]).entries := Network.mem_entries_iff_files.mpr
      ⟨f, List.mem_cons_self, _, List.mem_cons_self, hfiles.source_eq ▸ hfiles⟩
    exact List.mem_append_right _ (List.mem_map.mpr ⟨e, he, rfl⟩)
  have hgate : .gate "NA_" ∈ (Network.ofForms "NounRoot" [f]).states :=
    hstate (n := .prefixBoundary "NA") ⟨rfl, rfl, rfl⟩
  have hstems : .stems "NA" ∈ (Network.ofForms "NounRoot" [f]).states :=
    hstate (n := .gate "NA_") ⟨rfl, rfl, rfl⟩
  refine ⟨⟨hgate, hstems, rfl, ?_⟩, ?_⟩
  · exact (names_collide_only "NounRoot" [f]).1 _ hgate _ hstems trivial trivial nofun rfl
  · refine (names_collide_only "NounRoot" [f']).2 ?_ ?_
    · intro h hh
      obtain rfl := List.mem_singleton.mp hh
      rintro ⟨a, b, hab⟩
      have hlength := congrArg String.length hab
      rw [String.length_append, String.length_append] at hlength
      have hword : "NA".length = 2 ∧ "_Class=".length = 7 := by decide
      change "NA".length = _ at hlength
      omega
    · intro h hh h' hh'
      obtain rfl := List.mem_singleton.mp hh
      obtain rfl := List.mem_singleton.mp hh'
      decide

end Morphotactics
