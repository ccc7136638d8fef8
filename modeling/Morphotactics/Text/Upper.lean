import Morphotactics.Text.CaseTable

/-!
# Upper case

The full upper-case form of a text, character by character: one character may become several, and
no mapping depends on its surroundings.
-/

namespace Morphotactics.Text

/-- The upper-case form of one character. -/
def upperChar (c : Char) : List Char :=
  if c.toNat < 0x80 then [c.toUpper]
  else
    match caseExpansions.find? (fun e => e.1 == c.toNat) with
    | some (_, image) => image.map Char.ofNat
    | none =>
      match caseRuns.find? (fun run => run.covers c.toNat) with
      | some run => [Char.ofNat (run.image c.toNat)]
      | none => [c]

/-- The upper-case form of a text. -/
def upper (s : String) : String :=
  String.ofList (s.toList.flatMap upperChar)

end Morphotactics.Text
