import ObjectModel.Limits
import ObjectModel.Limits.Document.Mapping

/-!
# Limits from a document

A YAML document names the limits it changes.

    # deep recursion
    max_call_depth: 1024
    max_base_chain: 0x40

Values are unsigned integers: decimal without leading zeros, or with `0x`, `0o`, `0b` in front, each
perhaps behind a plus sign. A document without content changes nothing; unknown and repeated keys,
other values and other forms are refused.
-/

namespace ObjectModel.Limits

namespace Document

/-! ## 1. Numbers -/

/-- A number with the mark of its base in front, or a decimal one without leading zeros. -/
def magnitude? : List Char → Option Nat
  | '0' :: 'x' :: rest => unsigned? 16 rest
  | '0' :: 'o' :: rest => unsigned? 8 rest
  | '0' :: 'b' :: rest => unsigned? 2 rest
  | '0' :: _ :: _ => none
  | chars => unsigned? 10 chars

/-- Values are below this bound. -/
def valueLimit : Nat := Nat.pow 2 64

/-- A number behind an optional plus sign. -/
def number? (chars : List Char) : Option Nat := do
  let n ← magnitude? (if chars.head? == some '+' then chars.tail else chars)
  if n < valueLimit then return n else none

/-! ## 2. Entries -/

/-- The tag of integers. -/
def integerTag : List Char := "tag:yaml.org,2002:int".toList

/-- The number that a scalar stands for. Plain scalars are read as numbers whatever their tag,
literal blocks only with the tag of integers. -/
def Tagged.number? (s : Tagged) : Option Nat :=
  match s.scalar.style with
  | .plain => Document.number? s.scalar.text
  | .literal => if s.tag == some integerTag then Document.number? s.scalar.text else none
  | _ => none

/-- Keys and numbers of a mapping. -/
def Mapping.settings? (m : Mapping) : Option (List (String × Nat)) :=
  m.entries.mapM fun (key, value) => do
    let key ← key.resolve m.anchors
    let value ← value.resolve m.anchors
    return (String.ofList key.scalar.text, ← value.number?)

/-- The value of `key`, or `fallback` if no entry has that key. -/
def setting (entries : List (String × Nat)) (key : String) (fallback : Nat) : Nat :=
  (entries.lookup key).getD fallback

end Document

/-! ## 3. Limits -/

/-- The limits a document gives; those it does not name stay standard. -/
def ofDocument (text : String) : Except LimitError Limits :=
  match (Document.Mapping.parse? text.toList).bind (·.settings?) with
  | none => .error .unreadable
  | some entries =>
    let keys := entries.map (·.1)
    if keys.all (fun key => key == "max_call_depth" || key == "max_base_chain")
        && keys.eraseDups.length == keys.length then
      validate
        { callDepth := Document.setting entries "max_call_depth" standard.callDepth
          baseChain := Document.setting entries "max_base_chain" standard.baseChain }
    else .error .unreadable

end ObjectModel.Limits
