-- SUMMARY: The events of a YAML text: documents, collections, scalars and aliases.
import LogoSyntax.Yaml.Lexeme.Stream

/-!
# Events

The events of a text are the begin and end of its documents and collections,
its scalars and its aliases. A machine with a stack reads them off the lexemes:
each frame of the stack says what is expected next, and each step takes the
topmost frame and gives one event. A value that is left out is an empty scalar.
-/

namespace LogoSyntax.Yaml

/-- What happens at one place of a text. -/
inductive Event where
  | documentStart
  | documentEnd
  | alias (name : String)
  | scalar (anchor : Option String) (tag : Option Tag) (text : String) (style : ScalarStyle)
  | sequenceStart (anchor : Option String) (tag : Option Tag)
  | sequenceEnd
  | mappingStart (anchor : Option String) (tag : Option Tag)
  | mappingEnd
deriving DecidableEq, Repr

/-- An event and where it begins. -/
structure Occurrence where
  event : Event
  mark : Mark
deriving DecidableEq, Repr

/-- What is expected next. Frames of collections hold the mark of their begin. -/
inductive Frame where
  /-- A document; the first one may begin without a border. -/
  | document (bare : Bool)
  | documentContent
  | documentEnd
  /-- The content of a document without a border. -/
  | blockNode
  | blockSequence (start : Mark)
  | indentlessSequence
  | blockKey (start : Mark)
  | blockValue (start : Mark)
  | flowSequence (start : Mark) (first : Bool)
  /-- The key of a pair that stands in a sequence. -/
  | pairKey
  | pairValue
  | pairEnd
  | flowKey (start : Mark) (first : Bool)
  | flowValue (start : Mark)
  /-- The missing value of a key without a mark. -/
  | flowNoValue (start : Mark)
deriving DecidableEq, Repr

/-- The machine that reads events off lexemes. -/
structure Machine where
  lexemes : List Lexeme
  /-- The fault behind the lexemes. -/
  fault : Option Fault
  frames : List Frame
  /-- The tag handles of the document and what they stand for. -/
  handles : List (String × Octets)
deriving DecidableEq, Repr

/-- The result of a step: an occurrence and the machine behind it. -/
abbrev Step := Except Fault (Occurrence × Machine)

namespace Machine

/-- The machine in front of some lexemes. -/
def ofLexemes (ls : Lexemes) : Machine :=
  ⟨ls.lexemes, ls.fault, [.document true], []⟩

/-- The next lexeme, or the fault in its place. -/
def peek (m : Machine) : Except Fault Lexeme :=
  match m.lexemes with
  | lexeme :: _ => .ok lexeme
  | [] => .error (m.fault.getD (.plain "did not find expected <stream-start>" Mark.start))

/-- The machine behind the next lexeme. -/
def skip (m : Machine) : Machine :=
  { m with lexemes := m.lexemes.drop 1 }

/-- The machine with one more frame. -/
def push (m : Machine) (frame : Frame) : Machine :=
  { m with frames := frame :: m.frames }

/-- Gives an event. -/
def give (m : Machine) (event : Event) (mark : Mark) : Step :=
  .ok (⟨event, mark⟩, m)

/-- Gives the empty scalar that stands for a missing value. -/
def giveEmpty (m : Machine) (mark : Mark) : Step :=
  m.give (.scalar none none "" .plain) mark

/-! ## Nodes -/

/-- The anchor and the tag in front of a node. -/
structure Properties where
  anchor : Option String
  /-- The handle, the suffix and the place of the tag. -/
  tag : Option (String × Octets × Mark)
deriving DecidableEq, Repr

/-- Reads an anchor and a tag in either order. -/
def properties (m : Machine) : Except Fault (Properties × Machine) := do
  let first ← m.peek
  match first.kind with
  | .anchor name =>
    let second ← m.skip.peek
    match second.kind with
    | .tag handle suffix =>
      return (⟨some name, some (handle, suffix, second.start)⟩, m.skip.skip)
    | _ => return (⟨some name, none⟩, m.skip)
  | .tag handle suffix =>
    let tag := some (handle, suffix, first.start)
    let second ← m.skip.peek
    match second.kind with
    | .anchor name => return (⟨some name, tag⟩, m.skip.skip)
    | _ => return (⟨none, tag⟩, m.skip)
  | _ => return (⟨none, none⟩, m)

/-- The full tag of a node that begins at `start`. -/
def resolveTag (m : Machine) (start : Mark) (tag : Option (String × Octets × Mark)) :
    Except Fault (Option Tag) :=
  match tag with
  | none => .ok none
  | some (handle, suffix, mark) =>
    if handle.isEmpty then .ok (some ⟨suffix⟩)
    else
      match m.handles.find? (·.1 == handle) with
      | some (_, meaning) => .ok (some ⟨meaning ++ suffix⟩)
      | none => .error (.during "while parsing a node" start "found undefined tag handle" mark)

/-- A node whose frame is on the stack already. `block` says whether it may be a
    block collection, `indentless` whether it may be a list whose dashes are not
    indented. -/
def node (m : Machine) (block indentless : Bool) : Step := do
  let first ← m.peek
  let start := first.start
  if let .alias name := first.kind then m.skip.give (.alias name) start
  else
    let (props, m) ← m.properties
    let lexeme ← m.peek
    let tag ← m.resolveTag start props.tag
    let anchor := props.anchor
    match lexeme.kind with
    | .scalar text style => m.skip.give (.scalar anchor tag text style) start
    | .flowSequenceStart =>
      (m.skip.push (.flowSequence lexeme.start true)).give (.sequenceStart anchor tag) start
    | .flowMappingStart =>
      (m.skip.push (.flowKey lexeme.start true)).give (.mappingStart anchor tag) start
    | kind =>
      if indentless && kind == .blockEntry then
        (m.push .indentlessSequence).give (.sequenceStart anchor tag) start
      else if block && kind == .blockSequenceStart then
        (m.skip.push (.blockSequence lexeme.start)).give (.sequenceStart anchor tag) start
      else if block && kind == .blockMappingStart then
        (m.skip.push (.blockKey lexeme.start)).give (.mappingStart anchor tag) start
      else if anchor.isSome || tag.isSome then m.give (.scalar anchor tag "" .plain) start
      else
        throw (.during
          (if block then "while parsing a block node" else "while parsing a flow node") start
          "did not find expected node content" lexeme.start)

/-- A node behind a frame, or an empty scalar at a mark if one of some lexemes is next. -/
def nodeOr (m : Machine) (frame : Frame) (block indentless : Bool) (stops : List LexemeKind)
    (mark : Lexeme → Mark) : Step := do
  let lexeme ← m.peek
  if lexeme.kind ∈ stops then (m.push frame).giveEmpty (mark lexeme)
  else (m.push frame).node block indentless

/-! ## Documents -/

/-- The machine behind the ends of documents. -/
def skipEnds : List Lexeme → List Lexeme
  | lexeme :: rest => if lexeme.kind == .documentEnd then skipEnds rest else lexeme :: rest
  | [] => []

/-- Reads directives. `versioned` says that one for the version was read. -/
def directives (versioned : Bool) (handles : List (String × Octets)) :
    List Lexeme → Except Fault (List (String × Octets) × List Lexeme)
  | lexeme :: rest =>
    match lexeme.kind with
    | .versionDirective major minor =>
      if versioned then .error (.plain "found duplicate %YAML directive" lexeme.start)
      else if major ≠ 1 || (minor ≠ 1 && minor ≠ 2) then
        .error (.plain "found incompatible YAML document" lexeme.start)
      else directives true handles rest
    | .tagDirective handle meaning =>
      if handles.any (·.1 == handle) then
        .error (.plain "found duplicate %TAG directive" lexeme.start)
      else directives versioned (handles ++ [(handle, meaning)]) rest
    | _ => .ok (handles, lexeme :: rest)
  | [] => .ok (handles, [])

/-- The handles that every document has unless it defines them itself. -/
def standardHandles : List (String × Octets) :=
  [("!", .ofText "!"), ("!!", .ofText "tag:yaml.org,2002:")]

/-- Whether a lexeme begins the head of a document. -/
def isHead : LexemeKind → Bool
  | .versionDirective _ _ | .tagDirective _ _ | .documentStart => true
  | _ => false

/-- The begin of a document, or nothing at the end of the text. -/
def documentStep (m : Machine) (bare : Bool) : Except Fault (Option (Occurrence × Machine)) := do
  let m := if bare then m else { m with lexemes := skipEnds m.lexemes }
  let lexeme ← m.peek
  if lexeme.kind == .streamEnd then return none
  else if bare && !isHead lexeme.kind then
    let m := { m with handles := standardHandles, frames := .blockNode :: .documentEnd :: m.frames }
    some <$> m.give .documentStart lexeme.start
  else
    let (handles, lexemes) ← directives false [] m.lexemes
    let m := { m with
      handles := handles ++ standardHandles
      lexemes
      frames := .documentContent :: .documentEnd :: m.frames }
    let border ← m.peek
    if border.kind == .documentStart then some <$> m.skip.give .documentStart lexeme.start
    else throw (.plain "did not find expected <document start>" border.start)

/-! ## Steps -/

/-- A step in a list that is indented. -/
def blockSequenceStep (m : Machine) (start : Mark) : Step := do
  let lexeme ← m.peek
  match lexeme.kind with
  | .blockEntry =>
    m.skip.nodeOr (.blockSequence start) true false [.blockEntry, .blockEnd] fun _ => lexeme.stop
  | .blockEnd => m.skip.give .sequenceEnd lexeme.start
  | _ =>
    throw (.during "while parsing a block collection" start
      "did not find expected '-' indicator" lexeme.start)

/-- A step in a list that is not indented. -/
def indentlessStep (m : Machine) : Step := do
  let lexeme ← m.peek
  match lexeme.kind with
  | .blockEntry =>
    m.skip.nodeOr .indentlessSequence true false [.blockEntry, .key, .value, .blockEnd]
      fun _ => lexeme.stop
  | _ => m.give .sequenceEnd lexeme.start

/-- A step in front of a key. -/
def blockKeyStep (m : Machine) (start : Mark) : Step := do
  let lexeme ← m.peek
  match lexeme.kind with
  | .key =>
    m.skip.nodeOr (.blockValue start) true true [.key, .value, .blockEnd] fun _ => lexeme.stop
  | .blockEnd => m.skip.give .mappingEnd lexeme.start
  | _ =>
    throw (.during "while parsing a block mapping" start "did not find expected key" lexeme.start)

/-- A step in front of the value of a key. -/
def blockValueStep (m : Machine) (start : Mark) : Step := do
  let lexeme ← m.peek
  match lexeme.kind with
  | .value =>
    m.skip.nodeOr (.blockKey start) true true [.key, .value, .blockEnd] fun _ => lexeme.stop
  | _ => (m.push (.blockKey start)).giveEmpty lexeme.start

/-- The machine behind the comma that separates elements; the first has none. -/
def separator (m : Machine) (start : Mark) (first : Bool) (close : LexemeKind)
    (context problem : String) : Except Fault Machine := do
  let lexeme ← m.peek
  if first || lexeme.kind == close then return m
  else if lexeme.kind == .flowEntry then return m.skip
  else throw (.during context start problem lexeme.start)

/-- A step between square brackets. -/
def flowSequenceStep (m : Machine) (start : Mark) (first : Bool) : Step := do
  let m ← m.separator start first .flowSequenceEnd "while parsing a flow sequence"
    "did not find expected ',' or ']'"
  let lexeme ← m.peek
  match lexeme.kind with
  | .flowSequenceEnd => m.skip.give .sequenceEnd lexeme.start
  | .key =>
    ((m.skip.push (.flowSequence start false)).push .pairKey).give (.mappingStart none none)
      lexeme.start
  | _ => (m.push (.flowSequence start false)).node false false

/-- A step in front of the key of a pair that stands in a sequence. -/
def pairKeyStep (m : Machine) : Step := do
  let lexeme ← m.peek
  if lexeme.kind ∈ [.value, .flowEntry, .flowSequenceEnd] then
    (m.skip.push .pairValue).giveEmpty lexeme.stop
  else (m.push .pairValue).node false false

/-- A step in front of the value of a pair that stands in a sequence. -/
def pairValueStep (m : Machine) : Step := do
  let lexeme ← m.peek
  if lexeme.kind == .value then
    m.skip.nodeOr .pairEnd false false [.flowEntry, .flowSequenceEnd] (·.start)
  else (m.push .pairEnd).giveEmpty lexeme.start

/-- A step between curly braces, in front of a key. -/
def flowKeyStep (m : Machine) (start : Mark) (first : Bool) : Step := do
  let m ← m.separator start first .flowMappingEnd "while parsing a flow mapping"
    "did not find expected ',' or '\x7d'"
  let lexeme ← m.peek
  match lexeme.kind with
  | .flowMappingEnd => m.skip.give .mappingEnd lexeme.start
  | .key =>
    m.skip.nodeOr (.flowValue start) false false [.value, .flowEntry, .flowMappingEnd] (·.start)
  | _ => (m.push (.flowNoValue start)).node false false

/-- A step between curly braces, in front of a value. -/
def flowValueStep (m : Machine) (start : Mark) : Step := do
  let lexeme ← m.peek
  if lexeme.kind == .value then
    m.skip.nodeOr (.flowKey start false) false false [.flowEntry, .flowMappingEnd] (·.start)
  else (m.push (.flowKey start false)).giveEmpty lexeme.start

/-- The next occurrence, or nothing at the end of the text. -/
def step (m : Machine) : Except Fault (Option (Occurrence × Machine)) :=
  match m.frames with
  | [] => .ok none
  | frame :: frames =>
    let m := { m with frames }
    match frame with
    | .document bare => m.documentStep bare
    | .documentContent => do
      let lexeme ← m.peek
      if isHead lexeme.kind || lexeme.kind ∈ [.documentEnd, .streamEnd] then
        some <$> m.giveEmpty lexeme.start
      else some <$> m.node true false
    | .documentEnd => do
      let lexeme ← m.peek
      let m := if lexeme.kind == .documentEnd then m.skip else m
      some <$> (m.push (.document false)).give .documentEnd lexeme.start
    | .blockNode => some <$> m.node true false
    | .blockSequence start => some <$> m.blockSequenceStep start
    | .indentlessSequence => some <$> m.indentlessStep
    | .blockKey start => some <$> m.blockKeyStep start
    | .blockValue start => some <$> m.blockValueStep start
    | .flowSequence start first => some <$> m.flowSequenceStep start first
    | .pairKey => some <$> m.pairKeyStep
    | .pairValue => some <$> m.pairValueStep
    | .pairEnd => do
      let lexeme ← m.peek
      some <$> m.give .mappingEnd lexeme.start
    | .flowKey start first => some <$> m.flowKeyStep start first
    | .flowValue start => some <$> m.flowValueStep start
    | .flowNoValue start => do
      let lexeme ← m.peek
      some <$> (m.push (.flowKey start false)).giveEmpty lexeme.start

/-- Why no further occurrence follows. -/
inductive Ending where
  | finished
  | fault (f : Fault)
  /-- The machine was not given enough fuel. -/
  | outOfFuel
deriving DecidableEq, Repr

/-- The occurrences that a machine gives, and why no further one follows. -/
def run : Nat → Machine → List Occurrence × Ending
  | 0, _ => ([], .outOfFuel)
  | fuel + 1, m =>
    match m.step with
    | .error f => ([], .fault f)
    | .ok none => ([], .finished)
    | .ok (some (occurrence, m)) =>
      let (rest, ending) := run fuel m
      (occurrence :: rest, ending)

/-- Fuel enough for the events of some lexemes. -/
def fuel (m : Machine) : Nat :=
  8 * (m.lexemes.length + 2)

end Machine

/-- The occurrences of a text, and why no further one follows. -/
def occurrences (s : String) : List Occurrence × Machine.Ending :=
  let m := Machine.ofLexemes (Lexemes.ofText s)
  m.run m.fuel

end LogoSyntax.Yaml
