-- SUMMARY: Loading a configuration from a YAML document.
import LogoSyntax.Config
import LogoSyntax.Text.Blank

/-!
# Loading a configuration

The document is a mapping. A field that is missing has its default value, and
fields of other names are passed over. A text without a document sets nothing,
and neither does an empty scalar. The name of a format may be written as the
tag of a scalar that stands for null.

An alias stands for the entry that it refers to. A field whose key is an alias
has no name in messages.
-/

namespace LogoSyntax

open Yaml (Document Entry LoadError Mark Mismatch)

namespace Config

/-- The values of the fields that were read so far. -/
structure Fields where
  format : Option OutputFormat := none
  logLevel : Option String := none
deriving DecidableEq, Repr

/-- The configuration that sets some fields. -/
def ofFields (fields : Fields) : Config :=
  { format := fields.format.getD standard.format
    logLevel := fields.logLevel.getD standard.logLevel }

/-! ## Values -/

/-- The key of a field, and the name that messages give to the field. -/
def readKey (d : Document) (e : Entry) : Except LoadError (String × String) := do
  let target ← d.resolve e
  match target.node with
  | .scalar _ text _ => return (text, if target = e then text else "?")
  | _ => throw (target.mismatch "field identifier" none)

/-- The text of the field for the level. -/
def readLevelName (d : Document) (field : String) (e : Entry) : Except LoadError String := do
  let target ← d.resolve e
  match target.node with
  | .scalar _ text _ => return text
  | _ => throw (target.mismatch "a string" (some field))

/-- The format of a name that stands at a mark. -/
def formatOfName (name : String) (mark : Mark) (field : Option String) :
    Except LoadError OutputFormat :=
  match OutputFormat.ofName? name with
  | some format => .ok format
  | none =>
    .error (.mismatch (.unknownVariant name (OutputFormat.all.map (·.name))) mark field)

/-- The format that the tag of an entry names. A wrong name is reported at the
    entry when it is an alias, and otherwise at the mapping that begins at `start`. -/
def formatOfTag (start : Mark) (field : String) (e : Entry) (name : String) :
    Except LoadError OutputFormat :=
  match e.node with
  | .alias _ => formatOfName name e.mark (some field)
  | _ => formatOfName name start none

/-- The format of a field of a mapping that begins at `start`. -/
def readFormat (d : Document) (start : Mark) (field : String) (e : Entry) :
    Except LoadError OutputFormat := do
  let target ← d.resolve e
  match target.node with
  | .scalar tag text style =>
    match tag.bind (·.name?) with
    | some name =>
      let format ← formatOfTag start field e name
      if style = .plain ∧ Yaml.Meaning.ofText text = .null then return format
      else
        throw (.mismatch (.invalidValue ("string " ++ Text.quoted text) "null") target.mark
          (some field))
    | none => formatOfName text target.mark (some field)
  | .sequenceStart tag | .mappingStart tag =>
    match tag.bind (·.name?) with
    | some name =>
      let _ ← formatOfTag start field e name
      throw (target.mismatch "unit" (some field))
    | none => throw (target.mismatch "a YAML tag starting with '!'" (some field))
  | _ => throw .endOfText

/-! ## Fields -/

/-- Reads the fields of a mapping that begins at `start`. -/
def readFields (d : Document) (start : Mark) (fields : Fields) (entries : List Entry) :
    Except LoadError Fields :=
  match entries with
  | [] => .error d.missing
  | key :: entries =>
    if key.node = .mappingEnd then .ok fields
    else
      match readKey d key with
      | .error e => .error e
      | .ok (name, field) =>
        if name = "format" then
          if fields.format.isSome then .error (.mismatch (.duplicateField name) start none)
          else
            match entries with
            | [] => .error d.missing
            | value :: entries =>
              match readFormat d start field value with
              | .ok format => readFields d start { fields with format := some format } entries
              | .error e => .error e
        else if name = "log_level" then
          if fields.logLevel.isSome then .error (.mismatch (.duplicateField name) start none)
          else
            match entries with
            | [] => .error d.missing
            | value :: entries =>
              match readLevelName d field value with
              | .ok level => readFields d start { fields with logLevel := some level } entries
              | .error e => .error e
        else
          match _h : d.skipValue 0 entries with
          | .ok rest => readFields d start fields rest
          | .error e => .error e
termination_by entries.length
decreasing_by
  · simp only [List.length_cons]
    omega
  · simp only [List.length_cons]
    omega
  · have := Document.length_of_skipValue _h
    simp only [List.length_cons]
    omega

/-- Reads the root of a document. -/
def readRoot (d : Document) : Except LoadError Config := do
  let (root, entries) ← d.next d.entries
  match root.node with
  | .nothing => return standard
  | .mappingStart _ => ofFields <$> readFields d root.mark {} entries
  | .scalar _ text style =>
    if style = .plain ∧ text = "" then return standard
    else throw (root.mismatch "struct Config" none)
  | _ => throw (root.mismatch "struct Config" none)

/-- The configuration that a text holds. A blank text sets nothing. -/
def ofText (text : String) : Except LoadError Config :=
  if Text.isBlankText text.toList then .ok standard
  else
    let d := Document.ofText text
    d.conclude (readRoot d)

/-- The configuration of a file: the defaults if there is none. -/
def ofFile (path : String) (file : Option (Except ReadError String)) :
    Except ConfigError Config :=
  match file with
  | none => .ok standard
  | some (.error cause) => .error (.unreadable path cause)
  | some (.ok text) =>
    match ofText text with
    | .ok config => .ok config
    | .error cause => .error (.invalid path cause)

/-- The configuration at a path of a file tree. -/
def load (t : FileTree) (path : String) : Except ConfigError Config :=
  ofFile path (if t.contains path then some (t.read path) else none)

/-- The configuration of a file that is read is what its text holds. -/
theorem load_of_read {t : FileTree} {path text : String} (h : t.read path = .ok text) :
    load t path = (ofText text).mapError (.invalid path) := by
  rw [load, if_pos (FileTree.contains_of_read h), h, ofFile]
  cases ofText text <;> rfl

end Config

end LogoSyntax
