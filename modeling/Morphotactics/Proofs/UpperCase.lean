import Morphotactics.Text.Upper

/-!
# Characters of upper-case texts

What upper case can bring up.  `mem_upperChar` says where a character of an
upper-case form comes from, and the two tables are checked once for what they
lead to: no character before the capital letters, and no small letter of ASCII.
So characters before the capital letters stand in the upper-case form of a text
just where they stood in the text, and a text in upper case has no small letter.
-/

namespace Morphotactics.Text

/-- Upper case in ASCII changes small letters only, and gives capital ones. -/
theorem toNat_toUpper (c : Char) :
    c.toUpper.toNat = if 97 ≤ c.toNat ∧ c.toNat ≤ 122 then c.toNat - 32 else c.toNat := by
  delta Char.toUpper
  split
  · rename_i hletter
    have hge : 97 ≤ c.toNat := hletter.1
    have hle : c.toNat ≤ 122 := hletter.2
    have hval : c.val.toNat = c.toNat := rfl
    rw [if_pos ⟨hge, hle⟩]
    change (c.val + (65 - 97)).toNat = c.toNat - 32
    rw [UInt32.toNat_add]
    simp
    omega
  · rename_i hother
    have hother' : ¬(97 ≤ c.toNat ∧ c.toNat ≤ 122) := fun h => hother ⟨h.1, h.2⟩
    rw [if_neg hother']

/-- Upper case leaves all characters before the capital letters as they are. -/
theorem upperChar_of_lt {c : Char} (hc : c.toNat < 0x41) : upperChar c = [c] := by
  have hlow : c.toNat < 0x80 := by omega
  have hsame : c.toUpper = c := by
    apply Char.toNat_inj.mp
    rw [toNat_toUpper, if_neg]
    omega
  rw [upperChar, if_pos hlow, hsame]

/-- A valid code point is that of its character. -/
theorem toNat_ofNat {n : Nat} (hvalid : n.isValidChar) : (Char.ofNat n).toNat = n := by
  rw [Char.ofNat, dif_pos hvalid]
  rfl

/-- The characters that the table of expansions leads to. -/
theorem caseExpansions_images :
    ∀ e ∈ caseExpansions, ∀ n ∈ e.2, 0x41 ≤ n ∧ n.isValidChar ∧ (n < 0x61 ∨ 0x7A < n) := by
  decide +kernel

/-- The runs start at capital letters or later, lie on one side of the code
points that are no characters, and on one side of the small letters. -/
theorem caseRuns_targets :
    ∀ run ∈ caseRuns, 0x41 ≤ run.target ∧
      (run.image run.last < 0xD800 ∨ 0xDFFF < run.target ∧ run.image run.last < 0x110000) ∧
      (run.image run.last < 0x61 ∨ 0x7A < run.target) := by
  decide +kernel

/-- The characters that the runs lead to. -/
theorem caseRuns_images {run : CaseRun} (hrun : run ∈ caseRuns) {n : Nat}
    (hcovers : run.covers n = true) :
    0x41 ≤ run.image n ∧ (run.image n).isValidChar ∧
      (run.image n < 0x61 ∨ 0x7A < run.image n) := by
  obtain ⟨hle, hside, hsmall⟩ := caseRuns_targets run hrun
  simp only [CaseRun.covers, Bool.and_eq_true, decide_eq_true_eq] at hcovers
  have hfirst : run.target ≤ run.image n := Nat.le_add_right _ _
  have hlast : run.image n ≤ run.image run.last := by
    unfold CaseRun.image
    omega
  refine ⟨by omega, ?_, by omega⟩
  rcases hside with hbelow | ⟨habove, hlimit⟩
  · exact Or.inl (by omega)
  · exact Or.inr ⟨by omega, by omega⟩

/-- A character of an upper-case form comes from ASCII, stands for a code point
of one of the tables, or is beyond ASCII and its own upper-case form. -/
theorem mem_upperChar {c d : Char} (hd : d ∈ upperChar c) :
    (c.toNat < 0x80 ∧ d = c.toUpper) ∨
      (∃ n, d.toNat = n ∧ 0x41 ≤ n ∧ (n < 0x61 ∨ 0x7A < n)) ∨
      (0x80 ≤ c.toNat ∧ d = c) := by
  unfold upperChar at hd
  split at hd
  · rename_i hlow
    exact Or.inl ⟨hlow, List.mem_singleton.mp hd⟩
  · rename_i hhigh
    split at hd
    · rename_i hfind
      obtain ⟨n, hn, rfl⟩ := List.mem_map.mp hd
      obtain ⟨hle, hvalid, hsmall⟩ :=
        caseExpansions_images _ (List.mem_of_find?_eq_some hfind) n hn
      exact Or.inr (Or.inl ⟨n, toNat_ofNat hvalid, hle, hsmall⟩)
    · split at hd
      · rename_i run hfind
        obtain rfl := List.mem_singleton.mp hd
        have hcovers := List.find?_some hfind
        obtain ⟨hle, hvalid, hsmall⟩ :=
          caseRuns_images (List.mem_of_find?_eq_some hfind) hcovers
        exact Or.inr (Or.inl ⟨_, toNat_ofNat hvalid, hle, hsmall⟩)
      · exact Or.inr (Or.inr ⟨by omega, List.mem_singleton.mp hd⟩)

/-- Upper case brings up no character before the capital letters. -/
theorem le_of_mem_upperChar {c d : Char} (hc : 0x41 ≤ c.toNat) (hd : d ∈ upperChar c) :
    0x41 ≤ d.toNat := by
  rcases mem_upperChar hd with ⟨-, rfl⟩ | ⟨n, hn, hle, -⟩ | ⟨-, rfl⟩
  · rw [toNat_toUpper]
    split <;> omega
  · omega
  · exact hc

/-- Upper case leaves no small letter of ASCII. -/
theorem isLower_of_mem_upperChar {c d : Char} (hd : d ∈ upperChar c) : d.isLower = false := by
  have hsmall : ¬(97 ≤ d.toNat ∧ d.toNat ≤ 122) := by
    rcases mem_upperChar hd with ⟨-, rfl⟩ | ⟨n, hn, -, hside⟩ | ⟨hhigh, rfl⟩
    · rw [toNat_toUpper]
      split <;> omega
    · omega
    · omega
  delta Char.isLower
  rw [Bool.and_eq_false_iff]
  by_cases hle : 97 ≤ d.toNat
  · exact Or.inr (decide_eq_false fun h => hsmall ⟨hle, h⟩)
  · exact Or.inl (decide_eq_false hle)

/-- A character before the capital letters is in the upper-case form of a text
where it was in the text. -/
theorem mem_upper_of_lt {d : Char} (hd : d.toNat < 0x41) {s : String} :
    d ∈ (upper s).toList ↔ d ∈ s.toList := by
  rw [upper, String.toList_ofList, List.mem_flatMap]
  constructor
  · intro h
    obtain ⟨c, hc, hdc⟩ := h
    by_cases hlow : c.toNat < 0x41
    · rw [upperChar_of_lt hlow, List.mem_singleton] at hdc
      rw [hdc]
      exact hc
    · have hle := le_of_mem_upperChar (by omega) hdc
      omega
  · intro h
    exact ⟨d, h, by rw [upperChar_of_lt hd]; exact List.mem_singleton_self d⟩

/-- A text in upper case has no small letter of ASCII. -/
theorem isLower_of_mem_upper {s : String} {d : Char} (hd : d ∈ (upper s).toList) :
    d.isLower = false := by
  rw [upper, String.toList_ofList, List.mem_flatMap] at hd
  obtain ⟨c, -, hdc⟩ := hd
  exact isLower_of_mem_upperChar hdc

end Morphotactics.Text
