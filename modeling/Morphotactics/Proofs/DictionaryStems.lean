import Morphotactics.Dictionary
import Morphotactics.Proofs.Insertion

/-!
# Stems from a dictionary

A dictionary only adds stems, and only where a network is ready for them: each
of its entries leads from the stems of a paradigm to a stem boundary of the same
paradigm, and the network has both sublexicons already.  So no sublexicon comes
up that was not there, and no entry leads anywhere new.
-/

namespace Morphotactics

/-- What may fail has a result where it does not. -/
theorem toOption_eq_some_iff {ε α : Type} {x : Except ε α} {a : α} :
    x.toOption = some a ↔ x = .ok a := by
  cases x <;> simp [Except.toOption]

/-- An entry that a network has the place for: it leads from the stems of a
paradigm to one of its stem boundaries, and the network has both. -/
def Network.TakesStem (g : Network) (e : Entry) : Prop :=
  ∃ p c, e.source = .stems p ∧ e.next = .stemBoundary p c ∧
    g.defines e.source = true ∧ g.defines e.next = true

/-- A network with more stems, all of which it had the place for. -/
def Network.HasMoreStems (g g' : Network) : Prop :=
  ∃ es, g' = g.insertAll es ∧ ∀ e ∈ es, g.TakesStem e

/-- A network has no fewer stems than itself. -/
theorem Network.HasMoreStems.refl (g : Network) : g.HasMoreStems g :=
  ⟨[], rfl, fun _ he => absurd he List.not_mem_nil⟩

/-- An entry of a sublexicon that a network has brings no other. -/
theorem Network.defines_insert_of_defines {g : Network} {e : Entry}
    (h : g.defines e.source = true) : (g.insert e).defines = g.defines := by
  funext n
  rw [Bool.eq_iff_iff, defines_insert]
  exact or_iff_right_of_imp fun hn => hn ▸ h

/-- Entries of sublexicons that a network has bring no others, and leave the order as it
is. -/
theorem Network.insertAll_of_defines {g : Network} {es : List Entry}
    (h : ∀ e ∈ es, g.defines e.source = true) :
    (g.insertAll es).names = g.names ∧ (g.insertAll es).defines = g.defines := by
  induction es generalizing g with
  | nil => exact ⟨rfl, rfl⟩
  | cons e es ih =>
      have he : g.defines e.source = true := h e List.mem_cons_self
      have hnames : (g.insert e).names = g.names := if_pos he
      have hrun := @ih (g.insert e) fun e' he' => by
        rw [defines_insert_of_defines he]
        exact h e' (List.mem_cons_of_mem _ he')
      rw [insertAll_cons, hrun.1, hrun.2, hnames, defines_insert_of_defines he]
      exact ⟨rfl, rfl⟩

/-- An entry that a network has the place for belongs to one of its sublexicons. -/
theorem Network.TakesStem.defines_source {g : Network} {e : Entry} (h : g.TakesStem e) :
    g.defines e.source = true := by
  obtain ⟨p, c, -, -, hsource, -⟩ := h
  exact hsource

namespace Dictionary

/-- What a word is taken as: an entry from the stems of a paradigm to a stem boundary
which the network both has, with headword and stem cut of blanks and escaped. -/
theorem exists_of_stemEntry {classify : Classifier} {g : Network} {r : DictionaryRecord}
    {e : Entry} (h : stemEntry classify g r = .ok e) :
    ∃ p c, g.defines (.stems p) = true ∧ g.defines (.stemBoundary p c) = true ∧
      e = ⟨.stems p, escape (Text.trim r.headword), escape (Text.trim r.stem),
        .stemBoundary p c⟩ := by
  rw [stemEntry] at h
  cases hclass : (filled? r.inflClass).or (classify r) with
  | none =>
      rw [hclass] at h
      cases h
  | some c =>
      rw [hclass] at h
      dsimp only at h
      by_cases hstems : g.defines (.stems ((filled? r.paradigm).getD (paradigmOf c))) = true
      · by_cases hboundary : g.defines
            (.stemBoundary ((filled? r.paradigm).getD (paradigmOf c)) c) = true
        · simp only [hstems, hboundary] at h
          obtain rfl := Except.ok.inj h
          exact ⟨_, _, hstems, hboundary, rfl⟩
        · simp only [hstems, hboundary] at h
          cases h
      · simp only [hstems] at h
        cases h

/-- The entry of a word is one that the network has the place for. -/
theorem takesStem_of_stemEntry {classify : Classifier} {g : Network} {r : DictionaryRecord}
    {e : Entry} (h : stemEntry classify g r = .ok e) : g.TakesStem e := by
  obtain ⟨p, c, hstems, hboundary, rfl⟩ := exists_of_stemEntry h
  exact ⟨p, c, rfl, rfl, hstems, hboundary⟩

/-- What becomes of a word depends on which sublexicons a network has, and on nothing
else of it. -/
theorem stemEntry_congr {g h : Network} (hdefines : h.defines = g.defines)
    (classify : Classifier) (r : DictionaryRecord) :
    stemEntry classify h r = stemEntry classify g r := by
  unfold stemEntry
  rw [hdefines]

/-- The entries of the words that a network has the place for. -/
def stemEntries (classify : Classifier) (g : Network) (rs : List (Nat × DictionaryRecord)) :
    List Entry :=
  rs.filterMap fun r => (stemEntry classify g r.2).toOption

/-- The words that a network has no place for, with the reasons. -/
def refusals (name : String) (classify : Classifier) (g : Network)
    (rs : List (Nat × DictionaryRecord)) : List SkippedWord :=
  rs.filterMap fun r =>
    match stemEntry classify g r.2 with
    | .ok _ => none
    | .error reason => some ⟨name, r.1, r.2.headword, reason⟩

/-- An entry comes from words when one of them is taken as it. -/
theorem mem_stemEntries {classify : Classifier} {g : Network}
    {rs : List (Nat × DictionaryRecord)} {e : Entry} :
    e ∈ stemEntries classify g rs ↔ ∃ r ∈ rs, stemEntry classify g r.2 = .ok e := by
  rw [stemEntries, List.mem_filterMap]
  simp only [toOption_eq_some_iff]

/-- The entries of words are such that the network has the place for them. -/
theorem takesStem_of_mem_stemEntries {classify : Classifier} {g : Network}
    {rs : List (Nat × DictionaryRecord)} {e : Entry} (he : e ∈ stemEntries classify g rs) :
    g.TakesStem e := by
  obtain ⟨r, -, hr⟩ := mem_stemEntries.mp he
  exact takesStem_of_stemEntry hr

/-- **A run of words.**  Taking a word brings no sublexicon, so every word meets the
same sublexicons, those that the network had before: it is taken or refused as if it
came first. -/
theorem foldl_addRecord (name : String) (classify : Classifier) {g : Network}
    (rs : List (Nat × DictionaryRecord)) {a : Addition} (ha : a.network.defines = g.defines) :
    rs.foldl (addRecord name classify) a =
      ⟨a.network.insertAll (stemEntries classify g rs),
        a.added + (stemEntries classify g rs).length,
        a.skipped ++ refusals name classify g rs⟩ := by
  induction rs generalizing a with
  | nil => simp [stemEntries, refusals]
  | cons r rs ih =>
      rw [List.foldl_cons, addRecord, stemEntry_congr ha]
      cases hr : stemEntry classify g r.2 with
      | error reason =>
          rw [ih]
          · simp [stemEntries, refusals, hr, Except.toOption]
          · exact ha
      | ok e =>
          rw [ih]
          · simp [stemEntries, refusals, hr, Except.toOption, Nat.add_assoc, Nat.add_comm 1]
          · have hsource : a.network.defines e.source = true := by
              rw [ha]
              exact (takesStem_of_stemEntry hr).defines_source
            exact (Network.defines_insert_of_defines hsource).trans ha

/-- **Adding a dictionary** inserts the entries of the words that the network has the
place for, counts them, and refuses the other words. -/
theorem addTo_eq (d : Dictionary) (classify : Classifier) (g : Network) :
    d.addTo classify g =
      ⟨g.insertAll (stemEntries classify g d.records),
        (stemEntries classify g d.records).length, refusals d.name classify g d.records⟩ := by
  rw [addTo, foldl_addRecord d.name classify d.records rfl, Nat.zero_add, List.nil_append]

/-- A network to which a dictionary was added has more stems and is otherwise as it
was. -/
theorem hasMoreStems_addTo (d : Dictionary) (classify : Classifier) (g : Network) :
    g.HasMoreStems (d.addTo classify g).network :=
  ⟨stemEntries classify g d.records, by rw [addTo_eq],
    fun _ he => takesStem_of_mem_stemEntries he⟩

end Dictionary

end Morphotactics
