import Morphotactics.Disk
import Morphotactics.Json.Magnitude

/-!
# Tokens of JSON

A JSON text cut into punctuation, words, numbers and strings.  The cutting is done by a machine that
takes one byte after the other and never fails: where a text stops being JSON it leaves the token
`fault` and takes no notice of the rest, so that a reader of the tokens meets the first problem of
the text where it stands.
-/

namespace Morphotactics.Json

/-- A number, as far as readers tell numbers apart. -/
inductive Number where
  /-- Digits without sign, point and exponent, for a number of at most 64 bits. -/
  | natural (n : Nat)
  /-- Any other number. -/
  | other
  /-- A number that is too large to be held. -/
  | tooLarge
deriving DecidableEq, Repr

/-- A token. -/
inductive Token where
  | openBrace
  | closeBrace
  | openBracket
  | closeBracket
  | colon
  | comma
  | null
  | bool (b : Bool)
  | number (n : Number)
  | text (s : String)
  /-- A string that ends as it should but does not denote a text. -/
  | badText
  /-- Where the text stops being JSON. -/
  | fault
deriving DecidableEq, Repr

/-- How much of a number has been taken. -/
inductive NumberPart where
  | sign
  | zero
  | whole
  /-- Digits in front of the point that are only counted. -/
  | moreWhole
  | point
  | fraction
  /-- Digits after the point that are dropped. -/
  | moreFraction
  | exponent
  | exponentSign
  | power
deriving DecidableEq, Repr

/-- A number in the making: its digits without the exponent, and the exponent. -/
structure NumberDraft where
  part : NumberPart
  negative : Bool
  magnitude : Magnitude
  powerNegative : Bool
  power : Nat
deriving DecidableEq, Repr

/-- What the machine is in the middle of. -/
inductive Mode where
  /-- Between two tokens. -/
  | between
  /-- In a word, of which some bytes are still to come. -/
  | word (rest : Bytes) (token : Token)
  | number (draft : NumberDraft)
  /-- In a string: its bytes so far, backwards, the first half of a pair of escapes that spell one
  character, and whether all of it denotes a text. -/
  | string (bytes : Bytes) (half : Option Nat) (good : Bool)
  /-- After a backslash in a string. -/
  | escape (bytes : Bytes) (half : Option Nat) (good : Bool)
  /-- In the four digits of an escaped code: how many are missing, and their value so far. -/
  | code (bytes : Bytes) (half : Option Nat) (good : Bool) (missing value : Nat)
  /-- Past the point where the text stopped being JSON. -/
  | stopped
deriving DecidableEq, Repr

/-- The value of a byte as a decimal digit. -/
def digit? (b : UInt8) : Option Nat :=
  if 0x30 ≤ b && b ≤ 0x39 then some (b.toNat - 0x30) else none

/-- The value of a byte as a hexadecimal digit. -/
def hexDigit? (b : UInt8) : Option Nat :=
  if 0x30 ≤ b && b ≤ 0x39 then some (b.toNat - 0x30)
  else if 0x41 ≤ b && b ≤ 0x46 then some (b.toNat - 0x37)
  else if 0x61 ≤ b && b ≤ 0x66 then some (b.toNat - 0x57)
  else none

/-- From here on, exponents are not told apart. -/
def largestPower : Nat := Nat.pow 2 31

/-- The magnitude of a number, with its exponent. -/
def NumberDraft.total (d : NumberDraft) : Magnitude :=
  d.magnitude.scale (if d.powerNegative then -(d.power : Int) else d.power)

/-- The token of a number, if the number may end here. -/
def NumberDraft.token? (d : NumberDraft) : Option Token :=
  match d.part with
  | .sign | .point | .exponent | .exponentSign => none
  | .zero | .whole => some (.number (if d.negative then .other else .natural d.magnitude.digits))
  | .moreWhole | .fraction | .moreFraction | .power =>
    some (.number (if d.total.isTooLarge then .tooLarge else .other))

/-- The number with one more digit in front of the point.  From the first digit on that cannot be
held, digits only count. -/
def NumberDraft.pushWhole (d : NumberDraft) (digit : Nat) : NumberDraft :=
  if d.magnitude.hasRoom digit then
    { d with part := .whole, magnitude := d.magnitude.push digit }
  else { d with part := .moreWhole, magnitude := d.magnitude.scale 1 }

/-- The number with one more digit after the point.  From the first digit on that cannot be held,
digits are dropped. -/
def NumberDraft.pushFraction (d : NumberDraft) (digit : Nat) : NumberDraft :=
  if d.magnitude.hasRoom digit then
    { d with part := .fraction, magnitude := (d.magnitude.push digit).scale (-1) }
  else { d with part := .moreFraction }

/-- The number after one more byte: `none` where the byte does not belong to it, and `some none`
where it makes it wrong. -/
def NumberDraft.take (d : NumberDraft) (b : UInt8) : Option (Option NumberDraft) :=
  match d.part, digit? b with
  | .sign, some n =>
    some (some { d with part := if n = 0 then .zero else .whole, magnitude := .ofDigit n })
  | .sign, none => some none
  | .zero, some _ => some none
  | .whole, some n => some (some (d.pushWhole n))
  | .moreWhole, some _ => some (some { d with magnitude := d.magnitude.scale 1 })
  | .point, some n | .fraction, some n => some (some (d.pushFraction n))
  | .point, none => some none
  | .moreFraction, some _ => some (some d)
  | .exponent, some n | .exponentSign, some n | .power, some n =>
    some (some { d with part := .power, power := min (10 * d.power + n) largestPower })
  | .exponent, none =>
    if b == 0x2B then some (some { d with part := .exponentSign })
    else if b == 0x2D then some (some { d with part := .exponentSign, powerNegative := true })
    else some none
  | .exponentSign, none => some none
  | .power, none => none
  | .zero, none | .whole, none | .moreWhole, none =>
    if b == 0x2E then some (some { d with part := .point })
    else if b == 0x65 || b == 0x45 then some (some { d with part := .exponent })
    else none
  | .fraction, none | .moreFraction, none =>
    if b == 0x65 || b == 0x45 then some (some { d with part := .exponent }) else none

/-- A number that begins with a minus sign. -/
def NumberDraft.ofMinus : NumberDraft := ⟨.sign, true, .ofDigit 0, false, 0⟩

/-- A number that begins with a digit. -/
def NumberDraft.ofDigit (digit : Nat) : NumberDraft :=
  ⟨if digit = 0 then .zero else .whole, false, .ofDigit digit, false, 0⟩

/-- The tokens that a byte completes between tokens, and what the machine is then in the middle
of. -/
def start (b : UInt8) : List Token × Mode :=
  if b == 0x20 || b == 0x09 || b == 0x0A || b == 0x0D then ([], .between)
  else if b == 0x7B then ([.openBrace], .between)
  else if b == 0x7D then ([.closeBrace], .between)
  else if b == 0x5B then ([.openBracket], .between)
  else if b == 0x5D then ([.closeBracket], .between)
  else if b == 0x3A then ([.colon], .between)
  else if b == 0x2C then ([.comma], .between)
  else if b == 0x22 then ([], .string [] none true)
  else if b == 0x6E then ([], .word [0x75, 0x6C, 0x6C] .null)
  else if b == 0x74 then ([], .word [0x72, 0x75, 0x65] (.bool true))
  else if b == 0x66 then ([], .word [0x61, 0x6C, 0x73, 0x65] (.bool false))
  else if b == 0x2D then ([], .number .ofMinus)
  else
    match digit? b with
    | some n => ([], .number (.ofDigit n))
    | none => ([.fault], .stopped)

/-- The byte that an escape of one letter spells. -/
def escaped? (b : UInt8) : Option UInt8 :=
  if b == 0x22 || b == 0x5C || b == 0x2F then some b
  else if b == 0x62 then some 0x08
  else if b == 0x66 then some 0x0C
  else if b == 0x6E then some 0x0A
  else if b == 0x72 then some 0x0D
  else if b == 0x74 then some 0x09
  else none

/-- The bytes of a character, put in front of bytes that are kept backwards. -/
def pushCode (bytes : Bytes) (code : Nat) : Bytes :=
  (Bytes.ofText (String.ofList [Char.ofNat code])).reverse ++ bytes

/-- A string after the four digits of an escape.  The codes from D800 to DBFF are first halves,
which need a second half from DC00 to DFFF right after them. -/
def endCode (bytes : Bytes) (half : Option Nat) (good : Bool) (value : Nat) : Mode :=
  let first := 0xD800 ≤ value && value < 0xDC00
  let second := 0xDC00 ≤ value && value < 0xE000
  match half with
  | some h =>
    if second then
      .string (pushCode bytes (0x10000 + (h - 0xD800) * 0x400 + (value - 0xDC00))) none good
    else .string bytes none false
  | none =>
    if first then .string bytes (some value) good
    else if second then .string bytes none false
    else .string (pushCode bytes value) none good

/-- The token of a string that ends here. -/
def endString (bytes : Bytes) (half : Option Nat) (good : Bool) : Token :=
  if half.isSome || !good then .badText
  else
    match Bytes.text? bytes.reverse with
    | some s => .text s
    | none => .badText

/-- Takes one byte: the tokens that it completes, and what the machine is then in the middle of. -/
def take (mode : Mode) (b : UInt8) : List Token × Mode :=
  match mode with
  | .between => start b
  | .stopped => ([], .stopped)
  | .word [] token =>
    let (tokens, mode) := start b
    (token :: tokens, mode)
  | .word (c :: rest) token =>
    if b == c then
      match rest with
      | [] => ([token], .between)
      | _ => ([], .word rest token)
    else ([.fault], .stopped)
  | .number draft =>
    match draft.take b with
    | some (some draft) => ([], .number draft)
    | some none => ([.fault], .stopped)
    | none =>
      match draft.token? with
      | none => ([.fault], .stopped)
      | some token =>
        let (tokens, mode) := start b
        (token :: tokens, mode)
  | .string bytes half good =>
    if b == 0x22 then ([endString bytes half good], .between)
    else if b == 0x5C then ([], .escape bytes half good)
    else if b < 0x20 then ([.fault], .stopped)
    else ([], .string (b :: bytes) none (good && half.isNone))
  | .escape bytes half good =>
    if b == 0x75 then ([], .code bytes half good 4 0)
    else
      match escaped? b with
      | some c => ([], .string (c :: bytes) none (good && half.isNone))
      | none => ([.fault], .stopped)
  | .code bytes half good missing value =>
    match hexDigit? b with
    | none => ([.fault], .stopped)
    | some n =>
      let value := 16 * value + n
      if missing ≤ 1 then ([], endCode bytes half good value)
      else ([], .code bytes half good (missing - 1) value)

/-- The tokens that the end of the text completes. -/
def finish : Mode → List Token
  | .between | .stopped => []
  | .number draft => [draft.token?.getD .fault]
  | _ => [.fault]

/-- The tokens of the rest of a text. -/
def tokensFrom (mode : Mode) : Bytes → List Token
  | [] => finish mode
  | b :: rest => (take mode b).1 ++ tokensFrom (take mode b).2 rest

/-- The tokens of a text. -/
def tokens (text : Bytes) : List Token := tokensFrom .between text

end Morphotactics.Json
