import ObjectModel.Limits.Document.Scalar

/-!
# Tokens

A document as a list of tokens. Where a mapping is written in block form, its beginning and its end
are tokens too, found from the columns at which its keys stand.

A scalar, an alias, an anchor or a tag may turn out to begin a key once the colon behind it is read.
It is remembered as a candidate until then; a candidate is given up at the end of its line or after
1024 characters. A candidate at the column of the block mapping cannot be given up, because only
keys stand there.

The mapping is flat. Whatever would begin a sequence or a second mapping inside it is refused.
-/

namespace ObjectModel.Limits.Document

/-! ## 1. Tokens -/

inductive Token where
  | version (major minor : Nat)
  /-- A declaration of what a tag handle stands for. -/
  | handle (name expansion : List Char)
  | documentStart
  | documentEnd
  | textEnd
  | blockStart
  | blockEnd
  | flowStart
  | flowEnd
  | comma
  | key
  | value
  | alias (name : List Char)
  | anchor (name : List Char)
  | tag (handle suffix : List Char)
  | scalar (s : Scalar)

/-! ## 2. Tags -/

/-- The octet that a percent sign and two digits give. -/
def octet? (c : Cursor) : Option (Nat × Cursor) := do
  match c.rest with
  | '%' :: high :: low :: _ => return (← unsigned? 16 [high, low], c.skip 3)
  | _ => none

/-- Number of octets behind the first one of a character. -/
def followers? (lead : Nat) : Option Nat :=
  if lead < 0x80 then some 0
  else if lead / 32 = 6 then some 1
  else if lead / 16 = 14 then some 2
  else if lead / 8 = 30 then some 3
  else none

/-- So many octets that go on with a character. -/
def followingOctets : Nat → Cursor → Option (List Char × Cursor)
  | 0, c => some ([], c)
  | n + 1, c => do
    let (octet, c) ← octet? c
    if octet / 64 ≠ 2 then none
    let (others, c) ← followingOctets n c
    return (Char.ofNat octet :: others, c)

/-- A character given by its octets. -/
def octets? (c : Cursor) : Option (List Char × Cursor) := do
  let (lead, c) ← octet? c
  let (others, c) ← followingOctets (← followers? lead) c
  return (Char.ofNat lead :: others, c)

/-- Characters of a tag. Between angle brackets, and where a handle is declared, there are a few
more. -/
def isTagChar (wide : Bool) (c : Char) : Bool :=
  isNameChar c || isOneOf ";/?:@&=+$.%!~*\x27()" c || (wide && (c == ',' || c == '[' || c == ']'))

/-- The characters of a tag from here on. -/
def tagChars (wide : Bool) : Nat → Cursor → Option (List Char × Cursor)
  | 0, _ => none
  | fuel + 1, c =>
    match c.rest with
    | [] => some ([], c)
    | char :: _ =>
      if !isTagChar wide char then some ([], c)
      else do
        let (first, c) ← if char == '%' then octets? c else some ([char], c.skip 1)
        let (others, c) ← tagChars wide fuel c
        return (first ++ others, c)

/-- At least one character of a tag. -/
def someTagChars (wide : Bool) (c : Cursor) : Option (List Char × Cursor) := do
  if !c.sees (isTagChar wide) then none
  tagChars wide (c.rest.length + 1) c

/-- A tag ends where a zero is given as an octet. -/
def upToZero (chars : List Char) : List Char := chars.takeWhile (· != '\x00')

/-- Handle and suffix of the tag that begins here. -/
def tagParts (c : Cursor) : Option (List Char × List Char × Cursor) := do
  if c.seesAt 1 (· == '<') then
    let (tag, c) ← someTagChars true (c.skip 2)
    if c.isAt '>' then return ([], upToZero tag, c.skip 1) else none
  else
    let name := (c.rest.drop 1).takeWhile isNameChar
    let c := c.skip (1 + name.length)
    if c.isAt '!' then
      let (suffix, c) ← someTagChars false (c.skip 1)
      return ('!' :: name ++ ['!'], upToZero suffix, c)
    else
      let (more, c) ← tagChars false (c.rest.length + 1) c
      let suffix := upToZero (name ++ more)
      return if suffix.isEmpty then ([], ['!'], c) else (['!'], suffix, c)

/-- The tag that begins here. -/
def scanTag (inFlow : Bool) (c : Cursor) : Option (Token × Cursor) := do
  let (handle, suffix, c) ← tagParts c
  if c.gapAt 0 || (inFlow && c.isAt ',') then return (.tag handle suffix, c) else none

/-! ## 3. Anchors and directives -/

/-- The name behind the mark of an anchor or an alias. -/
def scanName (c : Cursor) : Option (List Char × Cursor) :=
  let name := (c.rest.drop 1).takeWhile isNameChar
  let c := c.skip (1 + name.length)
  if !name.isEmpty && (c.gapAt 0 || c.sees (isOneOf "?:,]\x7d%@\x60")) then some (name, c) else none

/-- A number of at most nine digits. -/
def scanNumber (c : Cursor) : Option (Nat × Cursor) := do
  let digits := c.rest.takeWhile Char.isDigit
  if 9 < digits.length then none
  return (← unsigned? 10 digits, c.skip digits.length)

def scanVersion (c : Cursor) : Option (Token × Cursor) := do
  let (major, c) ← scanNumber (c.skipWhile isBlank)
  if !c.isAt '.' then none
  let (minor, c) ← scanNumber (c.skip 1)
  return (.version major minor, c)

def scanHandle (c : Cursor) : Option (Token × Cursor) := do
  let c := c.skipWhile isBlank
  if !c.isAt '!' then none
  let name := (c.rest.drop 1).takeWhile isNameChar
  let c := c.skip (1 + name.length)
  let (handle, c) ←
    if c.isAt '!' then some ('!' :: name ++ ['!'], c.skip 1)
    else if name.isEmpty then some (['!'], c)
    else none
  if !c.sees isBlank then none
  let (expansion, c) ← someTagChars true (c.skipWhile isBlank)
  if c.gapAt 0 then return (.handle handle (upToZero expansion), c) else none

/-- The directive that begins here. It takes the whole line. -/
def scanDirective (c : Cursor) : Option (Token × Cursor) := do
  let name := (c.rest.drop 1).takeWhile isNameChar
  let c := c.skip (1 + name.length)
  if !c.gapAt 0 then none
  let (token, c) ←
    if name == ['Y', 'A', 'M', 'L'] then scanVersion c
    else if name == ['T', 'A', 'G'] then scanHandle c
    else none
  return (token, ← c.finishLine)

/-! ## 4. The scanner -/

/-- What may turn out to begin a key. -/
structure Candidate where
  /-- Number of tokens before it. -/
  position : Nat
  index : Nat
  line : Nat
  column : Nat
  /-- Whether it must turn out to be a key. -/
  required : Bool

structure Scanner where
  cursor : Cursor
  tokens : Array Token
  /-- Column of the block mapping. -/
  indent : Option Nat
  inFlow : Bool
  /-- Whether a key may begin here. -/
  keyAllowed : Bool
  candidate : Option Candidate

namespace Scanner

def start (text : List Char) : Scanner := ⟨.start text, #[], none, false, true, none⟩

def surroundings (s : Scanner) : Surroundings := ⟨s.indent, s.inFlow⟩

def push (s : Scanner) (token : Token) (c : Cursor) : Scanner :=
  { s with tokens := s.tokens.push token, cursor := c }

/-! ## 5. Candidates -/

/-- Gives up the candidate. -/
def forget (s : Scanner) : Option Scanner :=
  if s.candidate.any (·.required) then none else some { s with candidate := none }

/-- Remembers that a key may begin here. -/
def remember (s : Scanner) : Option Scanner := do
  if !s.keyAllowed then return s
  let s ← s.forget
  let required := !s.inFlow && s.indent == some s.cursor.column
  return { s with
    candidate := some ⟨s.tokens.size, s.cursor.index, s.cursor.line, s.cursor.column, required⟩ }

/-- The number of characters after which a candidate is given up. -/
def keyReach : Nat := 1024

/-- Gives up a candidate that lies too far back. -/
def forgetStale (s : Scanner) : Option Scanner :=
  if s.candidate.any fun k => k.line < s.cursor.line || k.index + keyReach < s.cursor.index then
    s.forget
  else some s

/-! ## 6. Columns of the block mapping -/

/-- Begins the block mapping at a key in `column`, before the token at `position`. -/
def openBlock (s : Scanner) (column position : Nat) : Option Scanner :=
  if s.inFlow then some s
  else
    match s.indent with
    | none => some { s with
        indent := some column, tokens := s.tokens.insertIdxIfInBounds position .blockStart }
    | some indent => if indent < column then none else some s

/-- Ends the block mapping, if it is open. -/
def closeBlock (s : Scanner) : Scanner :=
  if s.inFlow || s.indent.isNone then s
  else { s with indent := none, tokens := s.tokens.push .blockEnd }

/-- Ends the block mapping if its keys stand further in than the cursor. -/
def closeBlockBefore (s : Scanner) : Scanner :=
  if s.indent.any (s.cursor.column < ·) then s.closeBlock else s

/-! ## 7. Reading tokens -/

/-- Goes past blanks, comments and line breaks; also answers whether a key may begin behind them. A
tab may not stand where a key may. -/
def skipGap (inFlow : Bool) : Nat → Bool → Cursor → Bool × Cursor
  | 0, keyAllowed, c => (keyAllowed, c)
  | fuel + 1, keyAllowed, c =>
    let c := if c.index == 0 && c.isAt byteOrderMark then c.skip 1 else c
    let c := c.skipWhile fun char => char == ' ' || (char == '\t' && (inFlow || !keyAllowed))
    let c := c.skipComment
    if c.sees isBreak then skipGap inFlow fuel (keyAllowed || !inFlow) c.skipBreak
    else (keyAllowed, c)

/-- Goes to the next token. -/
def advance (s : Scanner) : Option Scanner := do
  let (keyAllowed, c) := skipGap s.inFlow (s.cursor.rest.length + 1) s.keyAllowed s.cursor
  let s ← { s with keyAllowed, cursor := c }.forgetStale
  return s.closeBlockBefore

/-- A token that stands outside the mapping. -/
def outside (s : Scanner) (token : Token) (c : Cursor) : Option Scanner := do
  let s ← s.closeBlock.forget
  return { s.push token c with keyAllowed := false }

def openFlow (s : Scanner) : Option Scanner :=
  if s.inFlow then none
  else some { s.push .flowStart (s.cursor.skip 1) with
    inFlow := true, keyAllowed := true, candidate := none }

def closeFlow (s : Scanner) : Option Scanner :=
  if s.inFlow then
    some { s.push .flowEnd (s.cursor.skip 1) with
      inFlow := false, keyAllowed := false, candidate := none }
  else none

def comma (s : Scanner) : Option Scanner :=
  if s.inFlow then
    some { s.push .comma (s.cursor.skip 1) with keyAllowed := true, candidate := none }
  else none

/-- A key that a question mark announces. -/
def key (s : Scanner) : Option Scanner := do
  if !s.inFlow && !s.keyAllowed then none
  let s ← s.openBlock s.cursor.column s.tokens.size
  let s ← s.forget
  return { s.push .key (s.cursor.skip 1) with keyAllowed := !s.inFlow }

/-- A colon. The candidate in front of it is a key; without one, the key was announced. -/
def value (s : Scanner) : Option Scanner := do
  match s.candidate with
  | some k =>
    let s := { s with tokens := s.tokens.insertIdxIfInBounds k.position .key }
    let s ← s.openBlock k.column k.position
    return { s.push .value (s.cursor.skip 1) with keyAllowed := false, candidate := none }
  | none =>
    if !s.inFlow && !s.keyAllowed then none
    let s ← s.openBlock s.cursor.column s.tokens.size
    return { s.push .value (s.cursor.skip 1) with keyAllowed := !s.inFlow }

/-- A token that may begin a key. -/
def content (s : Scanner) (scan : Cursor → Option (Token × Cursor)) : Option Scanner := do
  let s ← s.remember
  let (token, c) ← scan s.cursor
  return { s.push token c with keyAllowed := false }

/-- A block scalar. A key may begin behind it. -/
def blockScalar (s : Scanner) : Option Scanner := do
  let s ← s.forget
  let (scalar, c) ← block s.surroundings s.cursor
  return { s.push (.scalar scalar) c with keyAllowed := true }

/-- A plain scalar. A key may begin behind it if it ended behind a line break. -/
def plainScalar (s : Scanner) : Option Scanner := do
  let s ← s.remember
  let (scalar, broken, c) ← plain s.surroundings s.cursor
  return { s.push (.scalar scalar) c with keyAllowed := broken }

/-- Reads the token at the cursor. -/
def fetch (s : Scanner) : Option Scanner :=
  let c := s.cursor
  let announces := s.inFlow || c.gapAt 1
  if c.isAt '%' && c.column == 0 then (scanDirective c).bind fun (token, c) => s.outside token c
  else if c.isAtMarker Cursor.startMarker then s.outside .documentStart (c.skip 3)
  else if c.isAtMarker Cursor.endMarker then s.outside .documentEnd (c.skip 3)
  else if c.isAt '\x7b' then s.openFlow
  else if c.isAt '\x7d' then s.closeFlow
  else if c.isAt ',' then s.comma
  else if c.isAt '?' && announces then s.key
  else if c.isAt ':' && announces then s.value
  else if c.isAt '*' then s.content fun c => return ((← scanName c).map Token.alias id)
  else if c.isAt '&' then s.content fun c => return ((← scanName c).map Token.anchor id)
  else if c.isAt '!' then s.content (scanTag s.inFlow)
  else if c.isAt '\x27' then s.content fun c => return ((← quoted '\x27' c).map Token.scalar id)
  else if c.isAt '\x22' then s.content fun c => return ((← quoted '\x22' c).map Token.scalar id)
  else if c.sees (isOneOf "|>") then if s.inFlow then none else s.blockScalar
  else if c.sees (isOneOf "[]#%@\x60\t") || (c.isAt '-' && c.gapAt 1) then none
  else s.plainScalar

/-- Reads on to the end of the text. -/
def finish : Nat → Scanner → Option (Array Token)
  | 0, _ => none
  | fuel + 1, s => do
    let s ← s.advance
    if s.cursor.atEnd then
      let s ← s.outside .textEnd s.cursor
      return s.tokens
    else
      finish fuel (← (← s.fetch).forgetStale)

end Scanner

/-- The tokens of a text. -/
def tokens? (text : List Char) : Option (List Token) := do
  if !text.all isAllowed then none
  return (← (Scanner.start text).finish (text.length + 1)).toList

end ObjectModel.Limits.Document
