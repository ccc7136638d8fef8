import Morphotactics.Proofs.Compiling

/-!
# Compilations side by side

Two compilations of one configuration may start from different alphabets, or read
different sources.  They are compared by a relation between what they have come to.  If
each table and each dictionary keeps the relation and either fails in both or in none,
then both compilations end alike, at related places (`compile_related`).
-/

namespace Morphotactics

namespace Progress

/-- Two stages that end alike, at related places. -/
structure EndIn {α : Type} (R : Progress → Progress → Prop) (q q' : Progress × α) : Prop where
  ending : q'.2 = q.2
  related : R q.1 q'.1

variable {R : Progress → Progress → Prop} {s s' : Sources} {c : Config} {m : Mode}
variable {p p' : Progress}

/-- **Reading tables.**  If one table after the other ends alike, then all of them do. -/
theorem endIn_addTables {names : List String} (h : R p p')
    (htable : ∀ name ∈ names, ∀ p p', R p p' →
      EndIn R (p.addTable s c m name) (p'.addTable s' c m name)) :
    EndIn R (p.addTables s c m names) (p'.addTables s' c m names) := by
  induction names generalizing p p' with
  | nil => exact ⟨rfl, h⟩
  | cons name names ih =>
      have hfirst := htable name List.mem_cons_self p p' h
      have hstep : ∀ (s : Sources) (p : Progress), p.addTables s c m (name :: names) =
          thenTables s c m names (p.addTable s c m name) := fun _ _ => rfl
      rw [hstep, hstep]
      generalize p.addTable s c m name = q at hfirst ⊢
      generalize p'.addTable s' c m name = q' at hfirst ⊢
      obtain ⟨q, r⟩ := q
      obtain ⟨q', r'⟩ := q'
      obtain ⟨hend, hrelated⟩ := hfirst
      obtain rfl : r' = r := hend
      cases r' with
      | error e => exact ⟨rfl, hrelated⟩
      | ok _ => exact ih hrelated fun name hname => htable name (List.mem_cons_of_mem _ hname)

/-- **Adding dictionaries.**  What ends alike for the dictionary of a configuration does so
where there is none. -/
theorem endIn_addDictionaries (h : R p p') (hdirs : s'.dictionaryDirs = s.dictionaryDirs)
    (hdictionary : ∀ dirs name, s.dictionaryDirs = some dirs → c.dictionary = some name →
      EndIn R (p.addDictionary s.disk c dirs name) (p'.addDictionary s'.disk c dirs name)) :
    EndIn R (p.addDictionaries s c m) (p'.addDictionaries s' c m) := by
  unfold addDictionaries
  rw [hdirs]
  cases m with
  | irregular => exact ⟨rfl, h⟩
  | regular =>
      cases hsome : s.dictionaryDirs with
      | none => exact ⟨rfl, h⟩
      | some dirs =>
          cases hname : c.dictionary with
          | none => exact ⟨rfl, h⟩
          | some name =>
              have hadded := hdictionary dirs name hsome hname
              dsimp only
              generalize p.addDictionary s.disk c dirs name = q at hadded ⊢
              generalize p'.addDictionary s'.disk c dirs name = q' at hadded ⊢
              obtain ⟨q, r⟩ := q
              obtain ⟨q', r'⟩ := q'
              obtain ⟨hend, hrelated⟩ := hadded
              obtain rfl : r' = r := hend
              cases r' <;> exact ⟨rfl, hrelated⟩

/-- What a compilation leaves after its last stage. -/
def finish (p : Progress) : Except CompileError (Option DictionarySummary) → Compilation
  | .error e => ⟨p.alphabet, p.notices, .error e⟩
  | .ok summary =>
    let p := p.note (.compiled p.network.root.text p.counts.rows p.counts.skippedRows
      p.network.size p.network.entryCount)
    ⟨p.alphabet, p.notices, .ok ⟨p.network, p.counts, summary⟩⟩

/-- **Two compilations** whose stages end alike finish alike, at related places. -/
theorem compile_related {a a' : Alphabet} (h : R (.initial c m a) (.initial c m a'))
    (htable : ∀ name ∈ c.tablesFor m, ∀ p p', R p p' →
      EndIn R (p.addTable s c m name) (p'.addTable s' c m name))
    (hdictionaries : ∀ p p', R p p' →
      EndIn R (p.addDictionaries s c m) (p'.addDictionaries s' c m)) :
    ∃ p p' r, R p p' ∧ compile s c m a = p.finish r ∧ compile s' c m a' = p'.finish r := by
  have htables := endIn_addTables h htable
  unfold compile
  generalize (initial c m a).addTables s c m (c.tablesFor m) = q at htables ⊢
  generalize (initial c m a').addTables s' c m (c.tablesFor m) = q' at htables ⊢
  obtain ⟨p, r⟩ := q
  obtain ⟨p', r'⟩ := q'
  obtain ⟨hend, hrelated⟩ := htables
  obtain rfl : r' = r := hend
  cases r' with
  | error e => exact ⟨p, p', .error (.table e), hrelated, rfl, rfl⟩
  | ok _ =>
      have hadded := hdictionaries p p' hrelated
      dsimp only
      generalize p.addDictionaries s c m = q at hadded ⊢
      generalize p'.addDictionaries s' c m = q' at hadded ⊢
      obtain ⟨q, r⟩ := q
      obtain ⟨q', r'⟩ := q'
      obtain ⟨hend, hrelated⟩ := hadded
      obtain rfl : r' = r := hend
      cases r' with
      | error e => exact ⟨q, q', .error (.dictionary e), hrelated, rfl, rfl⟩
      | ok summary => exact ⟨q, q', .ok summary, hrelated, rfl, rfl⟩

end Progress

end Morphotactics
