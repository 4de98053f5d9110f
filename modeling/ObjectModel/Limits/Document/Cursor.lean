/-!
# Places in a document

A document is read character by character. A cursor knows what is left of the text, how many
characters stand before it, and the line and column it is at.

Five characters break lines; a carriage return and the line feed behind it count as one break.
Blanks are the space and the tab.
-/

namespace ObjectModel.Limits.Document

/-! ## 1. Characters -/

/-- Characters a document may contain: the tab, the line breaks and whatever can be printed. -/
def isAllowed (c : Char) : Bool :=
  let n := c.toNat
  n == 0x09 || n == 0x0A || n == 0x0D || (0x20 ≤ n && n ≤ 0x7E) || n == 0x85
      || (0xA0 ≤ n && n ≤ 0xD7FF)
    || (0xE000 ≤ n && n ≤ 0xFFFD) || 0x10000 ≤ n

/-- The mark of the byte order, which may stand at the beginning of a text. -/
def byteOrderMark : Char := '\ufeff'

def isBlank (c : Char) : Bool := c == ' ' || c == '\t'

def isBreak (c : Char) : Bool :=
  c == '\r' || c == '\n' || c == '\u0085' || c == '\u2028' || c == '\u2029'

def isOneOf (chars : String) (c : Char) : Bool := chars.toList.contains c

/-- Characters of names: letters, digits, the underscore and the dash. -/
def isNameChar (c : Char) : Bool := c.isAlphanum || c == '_' || c == '-'

/-- Value of a digit, up to base sixteen. -/
def digit? (c : Char) : Option Nat :=
  if '0' ≤ c ∧ c ≤ '9' then some (c.toNat - '0'.toNat)
  else if 'a' ≤ c ∧ c ≤ 'f' then some (c.toNat - 'a'.toNat + 10)
  else if 'A' ≤ c ∧ c ≤ 'F' then some (c.toNat - 'A'.toNat + 10)
  else none

/-- Value of a non-empty run of digits in base `radix`. -/
def unsigned? (radix : Nat) : List Char → Option Nat
  | [] => none
  | chars => chars.foldlM (fun value c => (digit? c).bind fun d =>
      if d < radix then some (radix * value + d) else none) 0

/-! ## 2. Cursors -/

structure Cursor where
  /-- What is left of the text. -/
  rest : List Char
  /-- Number of characters before this place. -/
  index : Nat
  line : Nat
  column : Nat

namespace Cursor

/-- The beginning of a text. -/
def start (text : List Char) : Cursor := ⟨text, 0, 0, 0⟩

def atEnd (c : Cursor) : Bool := c.rest.isEmpty

/-- Whether the character `offset` places on satisfies `p`. -/
def seesAt (c : Cursor) (offset : Nat) (p : Char → Bool) : Bool := (c.rest[offset]?).any p

/-- Whether the next character satisfies `p`. -/
def sees (c : Cursor) (p : Char → Bool) : Bool := c.seesAt 0 p

/-- Whether the next character is `char`. -/
def isAt (c : Cursor) (char : Char) : Bool := c.sees (· == char)

/-- Whether a blank, a break or the end stands `offset` places on. -/
def gapAt (c : Cursor) (offset : Nat) : Bool :=
  match c.rest[offset]? with
  | none => true
  | some char => isBlank char || isBreak char

/-- Whether the line ends here. -/
def lineEnds (c : Cursor) : Bool := c.atEnd || c.sees isBreak

/-- Whether the three characters `mark` stand here alone at the beginning of a line. -/
def isAtMarker (c : Cursor) (mark : List Char) : Bool :=
  c.column == 0 && mark.isPrefixOf c.rest && c.gapAt 3

/-- The marker with which a document begins. -/
def startMarker : List Char := ['-', '-', '-']

/-- The marker with which a document ends. -/
def endMarker : List Char := ['.', '.', '.']

/-- Whether a document begins or ends here. -/
def isAtBoundary (c : Cursor) : Bool := c.isAtMarker startMarker || c.isAtMarker endMarker

/-! ## 3. Moving on -/

/-- Goes `n` characters on within the line. -/
def skip (c : Cursor) (n : Nat) : Cursor := ⟨c.rest.drop n, c.index + n, c.line, c.column + n⟩

/-- Goes on within the line past the characters that satisfy `p`. -/
def skipWhile (c : Cursor) (p : Char → Bool) : Cursor := c.skip (c.rest.takeWhile p).length

/-- Goes past a line break; answers what it stands for. Most breaks stand for a line feed. -/
def readBreak (c : Cursor) : List Char × Cursor :=
  match c.rest with
  | '\r' :: '\n' :: rest => (['\n'], ⟨rest, c.index + 2, c.line + 1, 0⟩)
  | char :: rest =>
    if isBreak char then
      (if char == '\u2028' || char == '\u2029' then [char] else ['\n'],
        ⟨rest, c.index + 1, c.line + 1, 0⟩)
    else ([], c)
  | [] => ([], c)

/-- Goes past a line break. -/
def skipBreak (c : Cursor) : Cursor := c.readBreak.2

/-- Goes to the end of the line past a comment, if one begins here. -/
def skipComment (c : Cursor) : Cursor := if c.isAt '#' then c.skipWhile (!isBreak ·) else c

/-- Goes past the blanks and the comment that end a line, and to the next line. Nothing else may be
left on the line. -/
def finishLine (c : Cursor) : Option Cursor :=
  let c := (c.skipWhile isBlank).skipComment
  if c.lineEnds then some c.skipBreak else none

end Cursor

end ObjectModel.Limits.Document
