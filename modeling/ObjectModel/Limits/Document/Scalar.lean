import ObjectModel.Limits.Document.Cursor

/-!
# Scalars

The four ways to write a text in a document.

* Plain: as it stands, up to a colon or a comment.
* Quoted: between single quotes, where a quote is written twice, or between double quotes, where a
  backslash begins an escape.
* Block: the lines below a `|` or a `>`, as far as they are indented.

Plain and quoted text may run over several lines. A single line break inside it stands for a space;
of several, all but the first are kept.
-/

namespace ObjectModel.Limits.Document

/-! ## 1. Scalars -/

inductive Style where
  | plain
  | quoted
  /-- A block whose line breaks are kept. -/
  | literal
  /-- A block whose lines are joined. -/
  | folded
  deriving DecidableEq

structure Scalar where
  text : List Char
  style : Style

/-- The state of a document's text around a scalar. -/
structure Surroundings where
  /-- Column of the block mapping that the scalar stands in. -/
  indent : Option Nat
  inFlow : Bool

/-- The least column at which a scalar goes on. -/
def Surroundings.least (around : Surroundings) : Nat :=
  match around.indent with
  | none => 0
  | some column => column + 1

/-! ## 2. Gaps -/

/-- Blanks and line breaks inside a scalar. -/
structure Gap where
  /-- The blanks of a gap within one line. -/
  blanks : List Char
  /-- Whether the gap goes over a line break. -/
  broken : Bool
  /-- The first break. An escaped one is empty. -/
  first : List Char
  /-- The breaks behind the first. -/
  others : List Char

namespace Gap

def none : Gap := ⟨[], false, [], []⟩

/-- The gap that an escaped line break begins. -/
def escaped : Gap := ⟨[], true, [], []⟩

/-- What a gap stands for. -/
def text (gap : Gap) : List Char :=
  if gap.broken then
    if gap.first == ['\n'] then (if gap.others.isEmpty then [' '] else gap.others)
    else gap.first ++ gap.others
  else gap.blanks

/-- Reads on in a gap. Behind a break, no tab may stand before column `least`. -/
def scan (least : Nat) : Nat → Gap → Cursor → Option (Gap × Cursor)
  | 0, _, _ => Option.none
  | fuel + 1, gap, c =>
    match c.rest with
    | [] => some (gap, c)
    | char :: _ =>
      if isBlank char then
        if gap.broken then
          if char == '\t' && c.column < least then Option.none else scan least fuel gap (c.skip 1)
        else scan least fuel { gap with blanks := gap.blanks ++ [char] } (c.skip 1)
      else if isBreak char then
        let (text, c) := c.readBreak
        if gap.broken then scan least fuel { gap with others := gap.others ++ text } c
        else scan least fuel ⟨[], true, text, []⟩ c
      else some (gap, c)

end Gap

/-! ## 3. Plain scalars -/

def isFlowMark (c : Char) : Bool := c == ',' || c == '[' || c == ']' || c == '\x7b' || c == '\x7d'

/-- Whether a plain scalar ends at the next character. -/
def plainEnds (inFlow : Bool) (c : Cursor) : Bool :=
  (c.isAt ':' && c.gapAt 1) || (inFlow && c.sees isFlowMark)

/-- Characters of a plain scalar up to a gap or to its end. A colon must not stand directly before a
mark of the flow form. -/
def plainRun (inFlow : Bool) : Nat → Cursor → Option (List Char × Cursor)
  | 0, _ => none
  | fuel + 1, c =>
    match c.rest with
    | [] => some ([], c)
    | char :: _ =>
      if isBlank char || isBreak char then some ([], c)
      else if inFlow && char == ':' && c.seesAt 1 (fun next => isFlowMark next || next == '?') then
        none
      else if plainEnds inFlow c then some ([], c)
      else do
        let (run, c) ← plainRun inFlow fuel (c.skip 1)
        return (char :: run, c)

/-- A plain scalar from here on, behind the text and the gap read so far. Also answers whether it
ended behind a line break. -/
def plainFrom (around : Surroundings) :
    Nat → List Char → Gap → Cursor → Option (List Char × Bool × Cursor)
  | 0, _, _, _ => none
  | fuel + 1, text, gap, c => do
    if c.isAtBoundary || c.isAt '#' then return (text, gap.broken, c)
    let (run, c) ← plainRun around.inFlow (c.rest.length + 1) c
    let (text, gap) := if run.isEmpty then (text, gap) else (text ++ gap.text ++ run, Gap.none)
    if !c.sees (fun char => isBlank char || isBreak char) then return (text, gap.broken, c)
    let (gap, c) ← gap.scan around.least (c.rest.length + 1) c
    if !around.inFlow && c.column < around.least then return (text, gap.broken, c)
    plainFrom around fuel text gap c

/-- A plain scalar that begins here. -/
def plain (around : Surroundings) (c : Cursor) : Option (Scalar × Bool × Cursor) := do
  let (text, broken, c) ← plainFrom around (c.rest.length + 1) [] Gap.none c
  return (⟨text, .plain⟩, broken, c)

/-! ## 4. Quoted scalars -/

/-- What the escapes of one character stand for. -/
def escapedChar? (c : Char) : Option Char :=
  match c with
  | '0' => some '\x00'
  | 'a' => some '\x07'
  | 'b' => some '\x08'
  | 't' => some '\t'
  | '\t' => some '\t'
  | 'n' => some '\n'
  | 'v' => some '\x0b'
  | 'f' => some '\x0c'
  | 'r' => some '\r'
  | 'e' => some '\x1b'
  | ' ' => some ' '
  | '\x22' => some '\x22'
  | '/' => some '/'
  | '\\' => some '\\'
  | 'N' => some '\u0085'
  | '_' => some '\u00a0'
  | 'L' => some '\u2028'
  | 'P' => some '\u2029'
  | _ => none

/-- Number of digits behind an escape that gives a character by its number. -/
def escapeWidth? (c : Char) : Option Nat :=
  match c with
  | 'x' => some 2
  | 'u' => some 4
  | 'U' => some 8
  | _ => none

/-- The escape that begins here with a backslash. -/
def escape? (c : Cursor) : Option (Char × Cursor) := do
  let kind ← c.rest[1]?
  match escapeWidth? kind with
  | none => return (← escapedChar? kind, c.skip 2)
  | some width =>
    let digits := (c.rest.drop 2).take width
    if digits.length < width then none
    let value ← unsigned? 16 digits
    if (0xD800 ≤ value ∧ value ≤ 0xDFFF) ∨ 0x10FFFF < value then none
    return (Char.ofNat value, c.skip (2 + width))

/-- Characters between quotes up to a gap or to the end. Also answers the gap that an escaped break
begins. -/
def quotedRun (mark : Char) : Nat → Cursor → Option (List Char × Gap × Cursor)
  | 0, _ => none
  | fuel + 1, c =>
    match c.rest with
    | [] => some ([], Gap.none, c)
    | char :: _ =>
      if isBlank char || isBreak char then some ([], Gap.none, c)
      else if char == '\x27' && mark == '\x27' && c.seesAt 1 (· == '\x27') then do
        let (run, gap, c) ← quotedRun mark fuel (c.skip 2)
        return ('\x27' :: run, gap, c)
      else if char == mark then some ([], Gap.none, c)
      else if char == '\\' && mark == '\x22' then
        if c.seesAt 1 isBreak then some ([], Gap.escaped, (c.skip 1).skipBreak)
        else do
          let (char, c) ← escape? c
          let (run, gap, c) ← quotedRun mark fuel c
          return (char :: run, gap, c)
      else do
        let (run, gap, c) ← quotedRun mark fuel (c.skip 1)
        return (char :: run, gap, c)

/-- A quoted scalar from here on, behind the text read so far. No document begins or ends inside
it. -/
def quotedFrom (mark : Char) : Nat → List Char → Cursor → Option (List Char × Cursor)
  | 0, _, _ => none
  | fuel + 1, text, c => do
    if c.isAtBoundary || c.atEnd then none
    let (run, gap, c) ← quotedRun mark (c.rest.length + 1) c
    if c.isAt mark then return (text ++ run, c.skip 1)
    let (gap, c) ← gap.scan 0 (c.rest.length + 1) c
    quotedFrom mark fuel (text ++ run ++ gap.text) c

/-- A quoted scalar that begins here with `mark`. -/
def quoted (mark : Char) (c : Cursor) : Option (Scalar × Cursor) := do
  let (text, c) ← quotedFrom mark (c.rest.length + 1) [] (c.skip 1)
  return (⟨text, .quoted⟩, c)

/-! ## 5. Block scalars -/

/-- What becomes of the line breaks that end a block. -/
inductive Chomping where
  | strip
  | clip
  | keep
  deriving DecidableEq

/-- An indentation given as a digit other than zero. -/
def indentDigit? (c : Char) : Option Nat :=
  if '1' ≤ c ∧ c ≤ '9' then some (c.toNat - '0'.toNat) else none

def chomping? (c : Char) : Option Chomping :=
  if c == '+' then some .keep else if c == '-' then some .strip else none

/-- How line breaks end and how far the lines are indented, in either order. -/
def blockHeader (c : Cursor) : Chomping × Option Nat × Cursor :=
  match c.rest.head?.bind chomping?, c.rest.head?.bind indentDigit? with
  | some chomping, _ =>
    match (c.rest[1]?).bind indentDigit? with
    | some n => (chomping, some n, c.skip 2)
    | none => (chomping, none, c.skip 1)
  | none, some n =>
    match (c.rest[1]?).bind chomping? with
    | some chomping => (chomping, some n, c.skip 2)
    | none => (.clip, some n, c.skip 1)
  | none, none => (.clip, none, c)

/-- Spaces up to column `indent`, or all of them if it is not known yet. -/
def skipIndent (indent : Option Nat) (c : Cursor) : Cursor :=
  let spaces := (c.rest.takeWhile (· == ' ')).length
  match indent with
  | none => c.skip spaces
  | some column => c.skip (min spaces (column - c.column))

/-- Empty lines of a block. Answers their breaks and the widest indentation seen. -/
def blockBreaks (indent : Option Nat) :
    Nat → List Char → Nat → Cursor → Option (List Char × Nat × Cursor)
  | 0, _, _, _ => none
  | fuel + 1, breaks, widest, c =>
    let c := skipIndent indent c
    let widest := max widest c.column
    if c.isAt '\t' && indent.all (c.column < ·) then none
    else if c.sees isBreak then
      let (text, c) := c.readBreak
      blockBreaks indent fuel (breaks ++ text) widest c
    else some (breaks, widest, c)

/-- What joins a line of a block to the text before it. -/
def blockJoint (folded afterBlank beforeBlank : Bool) (first others : List Char) : List Char :=
  if folded && first == ['\n'] && !afterBlank && !beforeBlank then
    if others.isEmpty then [' '] else others
  else first ++ others

/-- The lines of a block that stand at column `indent`. Answers the text and the breaks behind
it. -/
def blockLines (folded : Bool) (indent : Nat) :
    Nat → List Char → Bool → List Char → List Char → Cursor →
    Option (List Char × List Char × List Char × Cursor)
  | 0, _, _, _, _, _ => none
  | fuel + 1, text, afterBlank, first, others, c =>
    if c.column == indent && !c.atEnd then do
      let blank := c.sees isBlank
      let line := c.rest.takeWhile (!isBreak ·)
      let (next, behind) := (c.skip line.length).readBreak
      let (breaks, _, behind) ← blockBreaks (some indent) (behind.rest.length + 1) [] 0 behind
      blockLines folded indent fuel
        (text ++ blockJoint folded afterBlank blank first others ++ line) blank next breaks behind
    else some (text, first, others, c)

/-- A block scalar that begins here with `|` or `>`. -/
def block (around : Surroundings) (c : Cursor) : Option (Scalar × Cursor) := do
  let folded := c.isAt '>'
  let (chomping, given, c) := blockHeader (c.skip 1)
  let c ← c.finishLine
  let given := given.map (· + around.indent.getD 0)
  let (breaks, widest, c) ← blockBreaks given (c.rest.length + 1) [] 0 c
  let indent := given.getD (max (max widest around.least) 1)
  let (text, first, others, c) ← blockLines folded indent (c.rest.length + 1) [] false [] breaks c
  let ending := match chomping with
    | .strip => []
    | .clip => first
    | .keep => first ++ others
  return (⟨text ++ ending, if folded then .folded else .literal⟩, c)

end ObjectModel.Limits.Document
