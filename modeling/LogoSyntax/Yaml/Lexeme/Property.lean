-- SUMMARY: Anchors, aliases, tags and directives.
import LogoSyntax.Yaml.Lexeme

/-!
# Properties and directives

An anchor names a node and an alias refers to it by that name. A tag gives the
type of a node, written out between angle brackets or behind a handle that a
directive can define. Octets of a tag can be escaped by two hexadecimal digits.
Escaped octets have to look like UTF-8, but they are not decoded.
-/

namespace LogoSyntax.Yaml

/-- Letters, digits, the underscore and the hyphen. -/
def isNameChar (c : Char) : Bool :=
  ('0' ≤ c && c ≤ '9') || ('A' ≤ c && c ≤ 'Z') || ('a' ≤ c && c ≤ 'z') || c = '_' || c = '-'

/-- A space or tab. -/
def Input.skipSpaces (i : Input) : Input :=
  i.skipWhile isSpaceOrTab

/-! ## Anchors and aliases -/

/-- An anchor or alias; `context` says which of them. -/
def scanName (context : String) (kind : String → LexemeKind) (i : Input) : Scanned :=
  let (name, rest) := (i.skip 1).span isNameChar
  let ended := startsWithSeparator rest.chars
    || rest.chars.head?.any (· ∈ ['?', ':', ',', ']', '\x7d', '%', '@', '\x60'])
  if name.isEmpty || !ended then
    .error (.during context i.mark "did not find expected alphabetic or numeric character"
      rest.mark)
  else .ok (⟨kind (String.ofList name), i.mark, rest.mark⟩, rest)

/-- An alias. -/
def scanAlias (i : Input) : Scanned :=
  scanName "while scanning an alias" .alias i

/-- An anchor. -/
def scanAnchor (i : Input) : Scanned :=
  scanName "while scanning an anchor" .anchor i

/-! ## Parts of tags -/

/-- The length in octets of a character whose first octet is given. -/
def leadingWidth? (octet : UInt8) : Option Nat :=
  if octet < 0x80 then some 1
  else if octet / 0x20 = 0x6 then some 2
  else if octet / 0x10 = 0xE then some 3
  else if octet / 0x8 = 0x1E then some 4
  else none

/-- An escaped octet at the front of an input. -/
def escapedOctet? (i : Input) : Option UInt8 :=
  match i.chars with
  | '%' :: a :: b :: _ => (Meaning.readDigits? 16 [a, b]).map (·.toUInt8)
  | _ => none

/-- A number of escaped octets that continue a character, in reverse behind those
    read so far. -/
def scanTrailingOctets (fail : String → Mark → Fault) (read : Octets) :
    Nat → Input → Except Fault (Octets × Input)
  | 0, i => .ok (read, i)
  | n + 1, i =>
    match escapedOctet? i with
    | none => .error (fail "did not find URI escaped octet" i.mark)
    | some octet =>
      if octet / 0x40 ≠ 2 then
        .error (fail "found an incorrect trailing UTF-8 octet" i.mark)
      else scanTrailingOctets fail (octet :: read) n (i.skip 3)

/-- The escaped octets of a character, in reverse behind those read so far. -/
def scanEscapedChar (fail : String → Mark → Fault) (read : Octets) (i : Input) :
    Except Fault (Octets × Input) :=
  match escapedOctet? i with
  | none => .error (fail "did not find URI escaped octet" i.mark)
  | some octet =>
    match leadingWidth? octet with
    | none => .error (fail "found an incorrect leading UTF-8 octet" i.mark)
    | some width => scanTrailingOctets fail (octet :: read) (width - 1) (i.skip 3)

/-- Whether a character may stand in a tag; between angle brackets and in
    directives some more may. -/
def isUriChar (verbatim : Bool) (c : Char) : Bool :=
  isNameChar c
    || c ∈ [';', '/', '?', ':', '@', '&', '=', '+', '$', '.', '%', '!', '~', '*', '\'', '(', ')']
    || (verbatim && c ∈ [',', '[', ']'])

/-- The octets of a tag, in reverse behind those read so far. -/
def scanUriOctets (fail : String → Mark → Fault) (verbatim : Bool) (read : Octets) :
    Nat → Input → Except Fault (Octets × Input)
  | 0, i => .ok (read, i)
  | fuel + 1, i =>
    match i.chars with
    | c :: _ =>
      if !isUriChar verbatim c then .ok (read, i)
      else if c = '%' then
        match scanEscapedChar fail read i with
        | .error e => .error e
        | .ok (read, rest) => scanUriOctets fail verbatim read fuel rest
      else scanUriOctets fail verbatim (c.toUInt8 :: read) fuel (i.skip 1)
    | [] => .ok (read, i)

/-- The octets of a tag behind a head. The first character of the head is left
    out, but counts as something read. -/
def scanUri (inDirective verbatim : Bool) (head : String) (start : Mark) (i : Input) :
    Except Fault (Octets × Input) :=
  let context :=
    if inDirective then "while parsing a %TAG directive" else "while parsing a tag"
  let fail := fun problem mark => Fault.during context start problem mark
  match scanUriOctets fail verbatim [] (i.chars.length + 1) i with
  | .error e => .error e
  | .ok (read, rest) =>
    if read.isEmpty && head.isEmpty then
      .error (fail "did not find expected tag URI" rest.mark)
    else .ok (Octets.untilNull ((Octets.ofText head).drop 1 ++ read.reverse), rest)

/-- The handle of a tag: an exclamation mark, and perhaps a name and another one. -/
def scanHandle (inDirective : Bool) (start : Mark) (i : Input) :
    Except Fault (String × Input) :=
  if !i.at? '!' then
    let context := if inDirective then "while scanning a tag directive" else "while scanning a tag"
    .error (.during context start "did not find expected '!'" i.mark)
  else
    let (name, rest) := (i.skip 1).span isNameChar
    if rest.at? '!' then .ok (String.ofList ('!' :: name ++ ['!']), rest.skip 1)
    else if inDirective && !name.isEmpty then
      .error (.during "while parsing a tag directive" start "did not find expected '!'" rest.mark)
    else .ok (String.ofList ('!' :: name), rest)

/-! ## Tags -/

/-- The handle and the suffix of a tag. -/
def scanTagParts (i : Input) : Except Fault (String × Octets × Input) :=
  if (i.skip 1).at? '<' then
    match scanUri false true "" i.mark (i.skip 2) with
    | .error e => .error e
    | .ok (uri, rest) =>
      if rest.at? '>' then .ok ("", uri, rest.skip 1)
      else .error (.during "while scanning a tag" i.mark "did not find the expected '>'" rest.mark)
  else
    match scanHandle false i.mark i with
    | .error e => .error e
    | .ok (handle, rest) =>
      if 1 < handle.length && handle.toList.getLast? == some '!' then
        match scanUri false false "" i.mark rest with
        | .error e => .error e
        | .ok (suffix, rest) => .ok (handle, suffix, rest)
      else
        match scanUri false false handle i.mark rest with
        | .error e => .error e
        | .ok (suffix, rest) =>
          if suffix.isEmpty then .ok ("", .ofText "!", rest) else .ok ("!", suffix, rest)

/-- A tag. -/
def scanTag (inFlow : Bool) (i : Input) : Scanned :=
  match scanTagParts i with
  | .error e => .error e
  | .ok (handle, suffix, rest) =>
    if startsWithSeparator rest.chars || (inFlow && rest.at? ',') then
      .ok (⟨.tag handle suffix, i.mark, rest.mark⟩, rest)
    else
      .error (.during "while scanning a tag" i.mark
        "did not find expected whitespace or line break" rest.mark)

/-! ## Directives -/

/-- A number of a version: at most nine digits. -/
def scanVersionNumber (start : Mark) (i : Input) : Except Fault (Nat × Input) :=
  let (ds, rest) := i.span Decimal.isDigit
  let fail := fun problem mark => Fault.during "while scanning a %YAML directive" start problem mark
  if ds.isEmpty then .error (fail "did not find expected version number" rest.mark)
  else if 9 < ds.length then
    .error (fail "found extremely long version number" (i.skip 9).mark)
  else .ok (Decimal.ofDigits ds, rest)

/-- What a directive for the version says. -/
def scanVersion (start : Mark) (i : Input) : Except Fault (LexemeKind × Input) :=
  match scanVersionNumber start i.skipSpaces with
  | .error e => .error e
  | .ok (major, rest) =>
    if !rest.at? '.' then
      .error (.during "while scanning a %YAML directive" start
        "did not find expected digit or '.' character" rest.mark)
    else
      match scanVersionNumber start (rest.skip 1) with
      | .error e => .error e
      | .ok (minor, rest) => .ok (.versionDirective major minor, rest)

/-- What a directive for a tag handle says. -/
def scanTagDefinition (start : Mark) (i : Input) : Except Fault (LexemeKind × Input) :=
  let fail := fun problem mark => Fault.during "while scanning a %TAG directive" start problem mark
  match scanHandle true start i.skipSpaces with
  | .error e => .error e
  | .ok (handle, rest) =>
    if !rest.chars.head?.any isSpaceOrTab then
      .error (fail "did not find expected whitespace" rest.mark)
    else
      match scanUri true true "" start rest.skipSpaces with
      | .error e => .error e
      | .ok (meaning, rest) =>
        if startsWithSeparator rest.chars then .ok (.tagDirective handle meaning, rest)
        else .error (fail "did not find expected whitespace or line break" rest.mark)

/-- A directive with the rest of its line. -/
def scanDirective (i : Input) : Scanned :=
  let fail := fun problem mark => Fault.during "while scanning a directive" i.mark problem mark
  let (name, rest) := (i.skip 1).span isNameChar
  if name.isEmpty then .error (fail "could not find expected directive name" rest.mark)
  else if !startsWithSeparator rest.chars then
    .error (fail "found unexpected non-alphabetical character" rest.mark)
  else
    let scanned :=
      if name = "YAML".toList then scanVersion i.mark rest
      else if name = "TAG".toList then scanTagDefinition i.mark rest
      else .error (fail "found unknown directive name" rest.mark)
    match scanned with
    | .error e => .error e
    | .ok (kind, stop) =>
      let rest := stop.skipSpaces.skipComment
      if startsWithBreak rest.chars then .ok (⟨kind, i.mark, stop.mark⟩, rest.skipBreak)
      else .error (fail "did not find expected comment or line break" rest.mark)

end LogoSyntax.Yaml
