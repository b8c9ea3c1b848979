-- SUMMARY: YAML documents as lists of entries, and why they cannot be loaded.
import LogoSyntax.Yaml.Event

/-!
# Documents

A document is the list of what stands in it from begin to end, with each alias
resolved to a number. Numbers belong to anchors: the number of an anchor is the
count of different names that were anchored before it, and an alias refers to
the last entry that was anchored under its number.

A text that ends early or has a fault still gives the entries in front of it,
together with the reason. What is loaded from the entries is checked first.
-/

namespace LogoSyntax.Yaml

/-- Why the entries of a document are not what was expected. -/
inductive Mismatch where
  | invalidType (found expected : String)
  | invalidValue (found expected : String)
  | unknownVariant (name : String) (known : List String)
  | duplicateField (name : String)
deriving DecidableEq, Repr

/-- The mismatch in words. -/
def Mismatch.message : Mismatch → String
  | invalidType found expected => "invalid type: " ++ found ++ ", expected " ++ expected
  | invalidValue found expected => "invalid value: " ++ found ++ ", expected " ++ expected
  | unknownVariant name known =>
    "unknown variant `" ++ name ++ "`, expected one of "
      ++ ", ".intercalate (known.map fun k => "`" ++ k ++ "`")
  | duplicateField name => "duplicate field `" ++ name ++ "`"

/-- Why a text cannot be loaded. -/
inductive LoadError where
  | fault (f : Fault)
  | unknownAnchor (mark : Mark)
  | endOfText
  | moreDocuments
  /-- A mismatch, and the entry and the field it was found at. -/
  | mismatch (m : Mismatch) (mark : Mark) (field : Option String)
  /-- The reading was not given enough fuel. -/
  | outOfFuel
deriving DecidableEq, Repr

namespace LoadError

/-- A place behind a message, unless it is the beginning of the text. -/
def place (mark : Mark) : String :=
  if mark.atOrigin then "" else " at " ++ mark.message

/-- The error in words. -/
def message : LoadError → String
  | fault f => f.message
  | unknownAnchor mark => "unknown anchor" ++ place mark
  | endOfText => "EOF while parsing a value"
  | moreDocuments => "deserializing from YAML containing more than one document is not supported"
  | mismatch m mark field => field.elim "" (· ++ ": ") ++ m.message ++ place mark
  | outOfFuel => "out of fuel"

end LoadError

/-- What stands at one place of a document. -/
inductive Node where
  /-- The whole of a text without a document. -/
  | nothing
  | alias (number : Nat)
  | scalar (tag : Option Tag) (text : String) (style : ScalarStyle)
  | sequenceStart (tag : Option Tag)
  | sequenceEnd
  | mappingStart (tag : Option Tag)
  | mappingEnd
deriving DecidableEq, Repr

/-- A node and where it begins. -/
structure Entry where
  node : Node
  mark : Mark
deriving DecidableEq, Repr

/-- A document, complete or up to an error. -/
structure Document where
  entries : List Entry
  /-- For each number the position of an entry that was anchored under it, the
      latest first. -/
  anchored : List (Nat × Nat)
  error : Option LoadError
  /-- Whether anything but the end of the text follows. -/
  followed : Bool
deriving DecidableEq, Repr

namespace Document

/-- A document whose entries are being read, in reverse. -/
structure Draft where
  entries : List Entry
  /-- The anchored names and their numbers. -/
  numbers : List (String × Nat)
  anchored : List (Nat × Nat)
deriving DecidableEq, Repr

/-- The document that a draft has become. -/
def Draft.finish (d : Draft) (error : Option LoadError) (followed : Bool) : Document :=
  ⟨d.entries.reverse, d.anchored, error, followed⟩

/-- Adds an entry, which may be anchored. -/
def Draft.push (d : Draft) (anchor : Option String) (node : Node) (mark : Mark) : Draft :=
  let d := match anchor with
    | none => d
    | some name =>
      let number := d.numbers.length
      { d with
        numbers := (name, number) :: d.numbers.filter (·.1 ≠ name)
        anchored := (number, d.entries.length) :: d.anchored }
  { d with entries := ⟨node, mark⟩ :: d.entries }

/-- The error that an ending stands for, if it is one. -/
def errorOfEnding : Machine.Ending → Option LoadError
  | .finished => none
  | .fault f => some (.fault f)
  | .outOfFuel => some .outOfFuel

/-- Reads the entries of a document. -/
def readEntries (ending : Machine.Ending) (d : Draft) : List Occurrence → Document
  | [] => d.finish (errorOfEnding ending) false
  | ⟨event, mark⟩ :: rest =>
    match event with
    | .documentStart => readEntries ending d rest
    | .documentEnd => d.finish none (!rest.isEmpty || ending != .finished)
    | .alias name =>
      match d.numbers.find? (·.1 == name) with
      | some (_, number) => readEntries ending (d.push none (.alias number) mark) rest
      | none => d.finish (some (.unknownAnchor mark)) true
    | .scalar anchor tag text style =>
      readEntries ending (d.push anchor (.scalar tag text style) mark) rest
    | .sequenceStart anchor tag => readEntries ending (d.push anchor (.sequenceStart tag) mark) rest
    | .sequenceEnd => readEntries ending (d.push none .sequenceEnd mark) rest
    | .mappingStart anchor tag => readEntries ending (d.push anchor (.mappingStart tag) mark) rest
    | .mappingEnd => readEntries ending (d.push none .mappingEnd mark) rest

/-- The first document of a text. A text without any is a document with nothing in it. -/
def ofText (s : String) : Document :=
  let (occurrences, ending) := occurrences s
  match occurrences, ending with
  | [], .finished => ⟨[⟨.nothing, Mark.start⟩], [], none, false⟩
  | occurrences, ending => readEntries ending ⟨[], [], []⟩ occurrences

/-- The error in place of a missing entry. -/
def missing (d : Document) : LoadError :=
  d.error.getD .endOfText

/-- The next entry and those behind it. -/
def next (d : Document) (rest : List Entry) : Except LoadError (Entry × List Entry) :=
  match rest with
  | e :: rest => .ok (e, rest)
  | [] => .error d.missing

/-- The entries from the one that an alias refers to. -/
def target (d : Document) (number : Nat) : List Entry :=
  match d.anchored.find? (·.1 == number) with
  | some (_, position) => d.entries.drop position
  | none => []

/-- The entry that an entry stands for. -/
def resolve (d : Document) (e : Entry) : Except LoadError Entry :=
  match e.node with
  | .alias number =>
    match d.target number with
    | target :: _ => .ok target
    | [] => .error d.missing
  | _ => .ok e

/-- The entries behind a value, `depth` collections of which are open. -/
def skipValue (d : Document) (depth : Nat) : List Entry → Except LoadError (List Entry)
  | [] => .error d.missing
  | e :: rest =>
    match e.node with
    | .sequenceStart _ | .mappingStart _ => d.skipValue (depth + 1) rest
    | .sequenceEnd | .mappingEnd =>
      if depth ≤ 1 then .ok rest else d.skipValue (depth - 1) rest
    | _ => if depth = 0 then .ok rest else d.skipValue depth rest

theorem length_of_skipValue {d : Document} {depth : Nat} {entries rest : List Entry}
    (h : d.skipValue depth entries = .ok rest) : rest.length < entries.length := by
  induction entries generalizing depth with
  | nil => simp [skipValue] at h
  | cons e entries ih =>
    unfold skipValue at h
    split at h
    · have := ih h
      simp only [List.length_cons]
      omega
    · have := ih h
      simp only [List.length_cons]
      omega
    · split at h
      · cases h
        simp
      · have := ih h
        simp only [List.length_cons]
        omega
    · split at h
      · cases h
        simp
      · have := ih h
        simp only [List.length_cons]
        omega
    · split at h
      · cases h
        simp
      · have := ih h
        simp only [List.length_cons]
        omega

/-- What a result that was read from the whole document comes to: the document
    has to be free of errors and the only one. -/
def conclude {α : Type} (d : Document) (result : Except LoadError α) : Except LoadError α := do
  let a ← result
  match d.error with
  | some e => throw e
  | none => if d.followed then throw .moreDocuments else return a

end Document

/-! ## Naming what was found -/

/-- A floating-point number in words. -/
def floatText (negative : Bool) (d : Decimal) : String :=
  String.ofList ((if negative then ['-'] else [])
    ++ (d.nearest?.elim [] fun b => b.shortest.positional))

/-- What a plain scalar stands for, in words. -/
def Meaning.description (s : String) : Meaning → String
  | null => "unit value"
  | bool b => "boolean `" ++ (if b then "true" else "false") ++ "`"
  | integer i =>
    let unit :=
      if (Nat.pow 2 64 : Int) ≤ i then " as u128"
      else if i < -(Nat.pow 2 63 : Int) then " as i128"
      else ""
    "integer `" ++ toString i ++ "`" ++ unit
  | infinite negative => "floating point `" ++ (if negative then "-inf" else "inf") ++ "`"
  | notANumber => "floating point `NaN`"
  | float negative d => "floating point `" ++ floatText negative d ++ "`"
  | text => "string " ++ Text.quoted s

/-- The mismatch of a scalar with another expectation. A standard tag makes the
    scalar stand for a value of its type. -/
def scalarMismatch (tag : Option Tag) (s : String) (style : ScalarStyle) (expected : String) :
    Mismatch :=
  let string := "string " ++ Text.quoted s
  let meaning := Meaning.ofText s
  let typed := fun (allowed : Meaning → Bool) (name : String) =>
    if allowed meaning then Mismatch.invalidType (meaning.description s) expected
    else .invalidValue string name
  match tag with
  | none =>
    .invalidType (if style = .plain then meaning.description s else string) expected
  | some tag =>
    match tag.text? with
    | some "tag:yaml.org,2002:bool" => typed (fun | .bool _ => true | _ => false) "a boolean"
    | some "tag:yaml.org,2002:int" => typed (fun | .integer _ => true | _ => false) "an integer"
    | some "tag:yaml.org,2002:float" =>
      match Meaning.readFloat? s.toList with
      | some float => .invalidType (float.description s) expected
      | none => .invalidValue string "a float"
    | some "tag:yaml.org,2002:null" =>
      if s ∈ ["null", "Null", "NULL", "~"] then .invalidType "unit value" expected
      else .invalidValue string "null"
    | _ =>
      .invalidType (if tag.isLocal && style = .plain then meaning.description s else string)
        expected

/-- The error that an entry is not what was expected. -/
def Entry.mismatch (e : Entry) (expected : String) (field : Option String) : LoadError :=
  match e.node with
  | .scalar tag s style => .mismatch (scalarMismatch tag s style expected) e.mark field
  | .sequenceStart _ => .mismatch (.invalidType "sequence" expected) e.mark field
  | .mappingStart _ => .mismatch (.invalidType "map" expected) e.mark field
  | _ => .endOfText

end LogoSyntax.Yaml
