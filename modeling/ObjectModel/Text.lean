import ObjectModel.Arithmetic

/-!
# Operations on text

Text is indexed by character.

* `quote` writes text between single quotes, with escapes.
* `slice` picks the characters at an arithmetic progression of positions.
* `find` searches for the first place at which a text occurs.
* `digits?` reads a run of decimal digits.
* `joinWith` puts a separator between pieces.
-/

namespace ObjectModel.Text

/-! ## 1. Quoting -/

/-- How a character stands inside quotes. -/
def escape (c : Char) : List Char :=
  if c = '\x27' then ['\\', '\x27']
  else if c = '\\' then ['\\', '\\']
  else if c = '\n' then ['\\', 'n']
  else if c = '\t' then ['\\', 't']
  else [c]

/-- The characters of a text between single quotes. -/
def quoteChars (chars : List Char) : List Char := '\x27' :: chars.flatMap escape ++ ['\x27']

def quote (text : String) : String := String.ofList (quoteChars text.toList)

/-! ## 2. Slices -/

/-- Whether a slice toward `stop` still takes position `i` of `size` characters. -/
def sliceTakes (size : Nat) (stop step i : Int64) : Bool :=
  if 0 < step then i.toInt < size && i < stop else 0 ≤ i.toInt && stop < i

/-- The characters at `i`, `i + step`, and so on. No position repeats, so `fuel` need not exceed the
number of characters. Stepping past the integer range ends the slice. -/
def sliceFrom (chars : List Char) (stop step : Int64) : Nat → Int64 → List Char
  | 0, _ => []
  | fuel + 1, i =>
    if sliceTakes chars.length stop step i then
      match chars[i.toInt.toNat]? with
      | none => []
      | some c =>
        match Arithmetic.add? i step with
        | none => [c]
        | some next => c :: sliceFrom chars stop step fuel next
    else []

/-- The first position: not below the first character when stepping up, not behind the last one when
stepping down. -/
def sliceStart (size : Nat) (start step : Int64) : Int64 :=
  if 0 < step then (if start < 0 then 0 else start)
  else if (size : Int) - 1 < start.toInt then Int64.ofInt ((size : Int) - 1) else start

/-- Characters from `start` on, before `stop`, `step` apart. A step of zero gives nothing. -/
def slice (text : String) (start stop step : Int64) : String :=
  let chars := text.toList
  if step = 0 then "" else
    String.ofList (sliceFrom chars stop step chars.length (sliceStart chars.length start step))

/-! ## 3. Search -/

/-- The first of `candidates` places, counted from `position`, at which `pattern` begins; `rest` are
the characters from there on. -/
def scan (pattern : List Char) : Nat → Nat → List Char → Option Nat
  | 0, _, _ => none
  | candidates + 1, position, rest =>
    if pattern.isPrefixOf rest then some position
    else match rest with
      | [] => none
      | _ :: tail => scan pattern candidates (position + 1) tail

/-- The first place from `start` on and not behind `stop` at which `pattern` begins. It is the
beginning of the occurrence that `stop` bounds, not its end. -/
def findChars (chars pattern : List Char) (start stop : Int) : Option Nat :=
  if chars.length < pattern.length then none else
    let from_ := start.toNat
    let last := min stop ((chars.length : Int) - pattern.length)
    scan pattern (last + 1 - from_).toNat from_ (chars.drop from_)

/-- The place of `needle` in `text`, or -1. -/
def find (text needle : String) (start stop : Int64) : Int64 :=
  match findChars text.toList needle.toList start.toInt stop.toInt with
  | some position => Int64.ofNat position
  | none => -1

/-! ## 4. Numbers -/

/-- Value of a run of decimal digits, most significant first. -/
def digitsValue (chars : List Char) : Nat :=
  chars.foldl (fun value c => 10 * value + (c.toNat - '0'.toNat)) 0

/-- The integer that a non-empty run of ASCII digits spells, if it lies in the range. -/
def digits? (text : String) : Option Int64 :=
  let chars := text.toList
  if chars.isEmpty || !chars.all Char.isDigit then none else Arithmetic.fit? (digitsValue chars)

/-- Decimal spelling with a minus sign in front of negative numbers. -/
def ofInt (n : Int) : String := toString n

/-! ## 5. Joining -/

/-- The pieces with `separator` between them. -/
def joinWith (separator : String) (pieces : List String) : String := separator.intercalate pieces

/-! ## 6. Order -/

/-- Lexicographic order by code point. -/
def compare (left right : String) : Ordering := Ord.compare left right

end ObjectModel.Text
