import Morphotactics.Config

/-!
# Reading configurations

A configuration is a JSON object with a member for each field, or a JSON list that gives the fields
in their order.  Members of other names are passed over; no field may be given twice.
-/

namespace Morphotactics.Config

open Json (Problem Reader Token)

/-- The fields of a configuration. -/
inductive Field where
  | rootName
  | tableDir
  | regularTables
  | irregularTables
  | features
  | missingTag
  | missingForm
  | declared
  | pos
  | prefixRoot
  | dictionary
  | classMap
  | regularFile
  | irregularFile
  | maxForms
  | orderTags
deriving DecidableEq, Repr

namespace Field

/-- All fields, in the order in which a list gives them. -/
def all : List Field :=
  [rootName, tableDir, regularTables, irregularTables, features, missingTag, missingForm, declared,
    pos, prefixRoot, dictionary, classMap, regularFile, irregularFile, maxForms, orderTags]

/-- The name of a field as a member of an object. -/
def name : Field → String
  | rootName => "root_lexicon"
  | tableDir => "morphology_source_path"
  | regularTables => "regular_csv_files"
  | irregularTables => "irregular_csv_files"
  | features => "morph_features"
  | missingTag => "missing_tag_marker"
  | missingForm => "missing_form_marker"
  | declared => "multichar_symbols"
  | pos => "pos"
  | prefixRoot => "prefix_root"
  | dictionary => "lexical_database"
  | classMap => "class_map"
  | regularFile => "regular_lexc_file"
  | irregularFile => "irregular_lexc_file"
  | maxForms => "max_forms"
  | orderTags => "order_tags"

/-- The field of a given name. -/
def ofName? (s : String) : Option Field := all.find? fun f => f.name == s

/-- Whether a configuration has to give the field. -/
def isRequired : Field → Bool
  | rootName | features | regularFile => true
  | _ => false

end Field

/-- The fields that have been read so far, and the configuration that they make.  A required field
that has not been read yet is empty in it. -/
structure Draft where
  seen : List Field
  config : Config
deriving DecidableEq, Repr

/-- The draft before any field is read: every field has its default. -/
def Draft.initial : Draft where
  seen := []
  config :=
    { rootName := "", tableDir := "", regularTables := [], irregularTables := [], features := [],
      missingTag := "NONE", missingForm := "NONE", declared := [], pos := none, prefixRoot := none,
      dictionary := none, classMap := none, regularFile := "", irregularFile := none,
      maxForms := 100, orderTags := .standard }

/-- An optional name.  The empty text and the word for nothing leave it unset. -/
def readName : Reader (Option String) := fun ts =>
  (Json.readText? ts).map fun (s, rest) => (s.filter fun s => s ≠ "" ∧ s ≠ "None", rest)

/-- The tag values read so far. -/
structure TagDraft where
  independent : Option String
  conjunct : Option String
deriving DecidableEq, Repr

/-- The tag values, if both have been read. -/
def TagDraft.complete (d : TagDraft) : Except Problem OrderTags :=
  match d.independent, d.conjunct with
  | some i, some c => .ok ⟨i, c⟩
  | _, _ => .error .unfit

/-- Reads the members of the object of tag values.  The fuel bounds their number. -/
def readTagMembers : Nat → Bool → TagDraft → Reader TagDraft
  | 0, _, _, _ => .error .illFormed
  | fuel + 1, first, d, ts => do
    let some (name, ts) ← Json.nextMember first ts | return (d, ts)
    if name = "independent" then
      if d.independent.isSome then throw .unfit
      let (s, ts) ← Json.readText (← Json.afterColon ts)
      readTagMembers fuel false { d with independent := some s } ts
    else if name = "conjunct" then
      if d.conjunct.isSome then throw .unfit
      let (s, ts) ← Json.readText (← Json.afterColon ts)
      readTagMembers fuel false { d with conjunct := some s } ts
    else
      let ts ← Json.skip (← Json.afterColon ts)
      readTagMembers fuel false d ts

/-- Reads the tag values from an object or from a list of two texts. -/
def readOrderTags : Reader OrderTags
  | .openBrace :: ts => do
    let (d, ts) ← readTagMembers (ts.length + 1) true ⟨none, none⟩ ts
    let tags ← d.complete
    return (tags, ← Json.endObject ts)
  | .openBracket :: ts => do
    let some ts ← Json.nextElement true ts | throw .unfit
    let (i, ts) ← Json.readText ts
    let some ts ← Json.nextElement false ts | throw .unfit
    let (c, ts) ← Json.readText ts
    return (⟨i, c⟩, ← Json.endList ts)
  | ts => .error (Json.mismatch ts)

/-- Reads the value of a field into a configuration. -/
def readField (c : Config) : Field → Reader Config
  | .rootName, ts => (Json.readText ts).map fun (v, r) => ({ c with rootName := v }, r)
  | .tableDir, ts => (Json.readText ts).map fun (v, r) => ({ c with tableDir := v }, r)
  | .regularTables, ts => (Json.readTexts ts).map fun (v, r) => ({ c with regularTables := v }, r)
  | .irregularTables, ts =>
    (Json.readTexts ts).map fun (v, r) => ({ c with irregularTables := v }, r)
  | .features, ts => (Json.readTexts ts).map fun (v, r) => ({ c with features := v }, r)
  | .missingTag, ts => (Json.readText ts).map fun (v, r) => ({ c with missingTag := v }, r)
  | .missingForm, ts => (Json.readText ts).map fun (v, r) => ({ c with missingForm := v }, r)
  | .declared, ts => (Json.readTexts ts).map fun (v, r) => ({ c with declared := v }, r)
  | .pos, ts => (readName ts).map fun (v, r) => ({ c with pos := v }, r)
  | .prefixRoot, ts => (readName ts).map fun (v, r) => ({ c with prefixRoot := v }, r)
  | .dictionary, ts => (readName ts).map fun (v, r) => ({ c with dictionary := v }, r)
  | .classMap, ts => (readName ts).map fun (v, r) => ({ c with classMap := v }, r)
  | .regularFile, ts => (Json.readText ts).map fun (v, r) => ({ c with regularFile := v }, r)
  | .irregularFile, ts => (readName ts).map fun (v, r) => ({ c with irregularFile := v }, r)
  | .maxForms, ts => (Json.readNatural ts).map fun (v, r) => ({ c with maxForms := v }, r)
  | .orderTags, ts => (readOrderTags ts).map fun (v, r) => ({ c with orderTags := v }, r)

/-- Reads the members of an object.  The fuel bounds their number. -/
def readMembers : Nat → Bool → Draft → Reader Draft
  | 0, _, _, _ => .error .illFormed
  | fuel + 1, first, d, ts => do
    let some (name, ts) ← Json.nextMember first ts | return (d, ts)
    match Field.ofName? name with
    | some field =>
      if d.seen.contains field then throw .unfit
      let (config, ts) ← readField d.config field (← Json.afterColon ts)
      readMembers fuel false ⟨field :: d.seen, config⟩ ts
    | none =>
      let ts ← Json.skip (← Json.afterColon ts)
      readMembers fuel false d ts

/-- Reads the elements of a list into the given fields.  Where the list ends, the other fields keep
their defaults, unless one of them is required. -/
def readElements : List Field → Bool → Config → Reader Config
  | [], _, c, ts => .ok (c, ts)
  | field :: fields, first, c, ts => do
    match ← Json.nextElement first ts with
    | some ts =>
      let (c, ts) ← readField c field ts
      readElements fields false c ts
    | none => if (field :: fields).any Field.isRequired then throw .unfit else return (c, ts)

/-- Reads a configuration that is not validated yet. -/
def read : Reader Config
  | .openBrace :: ts => do
    let (d, ts) ← readMembers (ts.length + 1) true .initial ts
    if Field.all.any fun f => f.isRequired && !d.seen.contains f then throw .unfit
    return (d.config, ← Json.endObject ts)
  | .openBracket :: ts => do
    let (c, ts) ← readElements Field.all true Draft.initial.config ts
    return (c, ← Json.endList ts)
  | ts => .error (Json.mismatch ts)

/-- The configuration that a JSON text holds. -/
def parse (text : Bytes) : Except ConfigError Config :=
  match (do
    let (c, ts) ← read (Json.tokens text)
    Json.endText ts
    return c : Except Problem Config) with
  | .ok c => c.validate
  | .error problem => .error (.notAConfig problem)

/-- The configuration that a file holds. -/
def load (disk : Disk) (path : String) : Except ConfigError Config :=
  match disk.read path with
  | .ok text => parse text
  | .error .isADirectory => .error .isADirectory
  | .error _ => .error (.unreadable path)

end Morphotactics.Config
