import Morphotactics.Proofs.Declarations
import Morphotactics.Proofs.SideBySide

/-!
# Compilations on a shared alphabet

A compilation is given the alphabet of all compilations before it, adds to it, and
gives it on.  It never looks at it.  This is shown by two runs side by side that start
from different alphabets: they read the same tables, make the same entries, count and
tell the same, and fail at the same place.  So a compilation has one outcome
(`compile_agrees`), and what it adds to the alphabet is one set of symbols
(`alphabet_compile_eq_union`), which it adds also where it fails.
-/

namespace Morphotactics

namespace Progress

variable {p p' : Progress}

/-- Two compilations in progress that differ in their alphabets alone. -/
def Agrees (p p' : Progress) : Prop := ∃ a, p' = { p with alphabet := a }

/-- A notice is told in both. -/
theorem Agrees.note (h : p.Agrees p') (n : Notice) : (p.note n).Agrees (p'.note n) := by
  obtain ⟨a, rfl⟩ := h
  exact ⟨a, rfl⟩

/-- **A row's step.**  The alphabet is handed through while chains are built, but what a row
adds to the network does not depend on it. -/
theorem Agrees.addRow (h : p.Agrees p') (l : Layout) (r : RowReading) :
    (p.addRow l r).Agrees (p'.addRow l r) := by
  obtain ⟨a, rfl⟩ := h
  cases hr : r.form with
  | error e =>
      rw [Progress.addRow, Progress.addRow, hr]
      exact ⟨a, rfl⟩
  | ok form =>
      rw [Progress.addRow_of_ok hr, Progress.addRow_of_ok hr]
      exact ⟨_, rfl⟩

/-- **A run of rows** keeps both side by side. -/
theorem Agrees.addRows (h : p.Agrees p') (l : Layout) (rows : List RowReading) :
    (rows.foldl (Progress.addRow l) p).Agrees (rows.foldl (Progress.addRow l) p') := by
  induction rows generalizing p p' with
  | nil => exact h
  | cons r rows ih => exact ih (h.addRow l r)

/-- A table is used in both, or fails in both in the same way. -/
theorem Agrees.addTable (h : p.Agrees p') (s : Sources) (c : Config) (m : Mode) (name : String) :
    EndIn Agrees (p.addTable s c m name) (p'.addTable s c m name) := by
  have hnote := h.note (.compilingTable (c.tablePath s.sourceDir name))
  rw [addTable_eq, addTable_eq]
  cases s.rows c name with
  | error e => exact ⟨rfl, hnote⟩
  | ok rows => exact ⟨rfl, hnote.addRows (c.layout m) rows⟩

/-- A dictionary meets the same network in both, and fails in both in the same way. -/
theorem Agrees.addDictionary (h : p.Agrees p') (disk : Disk) (c : Config) (dirs : List String)
    (name : String) :
    EndIn Agrees (p.addDictionary disk c dirs name) (p'.addDictionary disk c dirs name) := by
  obtain ⟨a, rfl⟩ := h
  unfold Progress.addDictionary
  cases Dictionary.locate disk name dirs with
  | error e => exact ⟨rfl, a, rfl⟩
  | ok path =>
      dsimp only
      split <;> exact ⟨rfl, a, rfl⟩

end Progress

/-- **One outcome.**  A compilation succeeds on every alphabet or on none.  It gives the
same network and counts or the same error, and tells the same. -/
theorem compile_agrees (s : Sources) (c : Config) (m : Mode) (a a' : Alphabet) :
    (compile s c m a').outcome = (compile s c m a).outcome ∧
      (compile s c m a').notices = (compile s c m a).notices := by
  have hinitial : (Progress.initial c m a).Agrees (.initial c m a') := ⟨_, rfl⟩
  obtain ⟨p, p', r, ⟨b, rfl⟩, hcompile, hcompile'⟩ :=
    Progress.compile_related hinitial (fun name _ p p' h => h.addTable s c m name)
      fun p p' h => Progress.endIn_addDictionaries h rfl
        fun dirs name _ _ => h.addDictionary s.disk c dirs name
  rw [hcompile, hcompile']
  cases r <;> exact ⟨rfl, rfl⟩

/-- **One set of symbols.**  The alphabet after a compilation is the one before it,
united with the symbols of what the compilation declares and lays out. -/
theorem alphabet_compile_eq_union (s : Sources) (c : Config) (m : Mode) (a : Alphabet) :
    (compile s c m a).alphabet = a.union (SortedSet.ofList (Job.mk s c m).batch.symbols) := by
  apply SortedSet.ext
  intro x
  have hbatch : x ∈ (compile s c m a).alphabet ↔ x ∈ a.addBatch (Job.mk s c m).batch := by
    rw [alphabet_compile]
    rfl
  rw [hbatch, Alphabet.mem_addBatch, SortedSet.mem_union, SortedSet.mem_ofList]

/-- The alphabet after compilations does not depend on their order. -/
theorem Alphabet.afterJobs_perm {js js' : List Job} (h : js.Perm js') (a : Alphabet) :
    a.afterJobs js = a.afterJobs js' := by
  rw [afterJobs_eq_addBatches, afterJobs_eq_addBatches]
  apply SortedSet.ext
  intro x
  rw [mem_addBatches, mem_addBatches]
  simp only [(h.map Job.batch).mem_iff]

end Morphotactics
