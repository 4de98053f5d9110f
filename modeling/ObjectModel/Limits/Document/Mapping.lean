import ObjectModel.Limits.Document.Token

/-!
# Mappings

A text holds one document or none, and a document holds one flat mapping or nothing. Keys and values
are scalars, or aliases of scalars that carry an anchor.
-/

namespace ObjectModel.Limits.Document

/-! ## 1. Nodes -/

/-- A scalar with its tag written out. -/
structure Tagged where
  scalar : Scalar
  tag : Option (List Char)

inductive Node where
  | scalar (s : Tagged)
  /-- Stands for the scalar whose anchor has this number. -/
  | alias (number : Nat)

/-! ## 2. Anchors -/

/-- The anchors of a document. An anchor is numbered by how many names are known before it. A name
may be used again and then has the new number, so two names can come to share a number; what is
anchored last under a number is what the number stands for. -/
structure Anchors where
  numbers : List (List Char × Nat)
  /-- What each number stands for. The mapping itself is not a scalar. -/
  targets : List (Nat × Option Tagged)

namespace Anchors

def empty : Anchors := ⟨[], []⟩

/-- Anchors `target` under `name`. -/
def declare (anchors : Anchors) (name : List Char) (target : Option Tagged) : Anchors :=
  let number := anchors.numbers.length
  ⟨(name, number) :: anchors.numbers.filter (·.1 != name), (number, target) :: anchors.targets⟩

def declare? (anchors : Anchors) (name : Option (List Char)) (target : Option Tagged) : Anchors :=
  match name with
  | some name => anchors.declare name target
  | none => anchors

def number? (anchors : Anchors) (name : List Char) : Option Nat := anchors.numbers.lookup name

end Anchors

/-- The scalar that a node stands for. -/
def Node.resolve (anchors : Anchors) : Node → Option Tagged
  | scalar s => some s
  | .alias number => (anchors.targets.lookup number).join

/-! ## 3. Directives -/

/-- What tag handles stand for. -/
abbrev Handles := List (List Char × List Char)

/-- The handles that every document knows. -/
def standardHandles : Handles := [(['!'], ['!']), (['!', '!'], "tag:yaml.org,2002:".toList)]

/-- Reads directives: at most one version, which must be 1.1 or 1.2, and every handle at most
once. -/
def directives (versioned : Bool) (handles : Handles) : List Token → Option (Handles × List Token)
  | .version major minor :: rest =>
    if versioned || major != 1 || (minor != 1 && minor != 2) then none
    else directives true handles rest
  | .handle name expansion :: rest =>
    if (handles.lookup name).isSome then none
    else directives versioned ((name, expansion) :: handles) rest
  | rest => some (handles ++ standardHandles, rest)

/-- The tag that a handle and a suffix give. -/
def wholeTag (handles : Handles) (handle suffix : List Char) : Option (List Char) :=
  if handle.isEmpty then some suffix else (handles.lookup handle).map (· ++ suffix)

/-! ## 4. Nodes in a list of tokens -/

/-- Anchor and tag of a node. -/
structure Properties where
  anchor : Option (List Char)
  tag : Option (List Char)

/-- Anchor and tag in front of a node, in either order. -/
def properties (handles : Handles) : List Token → Option (Properties × List Token)
  | .anchor name :: .tag handle suffix :: rest =>
    return (⟨some name, some (← wholeTag handles handle suffix)⟩, rest)
  | .tag handle suffix :: .anchor name :: rest =>
    return (⟨some name, some (← wholeTag handles handle suffix)⟩, rest)
  | .anchor name :: rest => some (⟨some name, none⟩, rest)
  | .tag handle suffix :: rest => return (⟨none, some (← wholeTag handles handle suffix)⟩, rest)
  | rest => some (⟨none, none⟩, rest)

/-- A key or a value. -/
def node (handles : Handles) (anchors : Anchors) : List Token → Option (Node × Anchors × List Token)
  | .alias name :: rest => return (.alias (← anchors.number? name), anchors, rest)
  | tokens => do
    let (properties, rest) ← properties handles tokens
    match rest with
    | .scalar s :: rest =>
      let tagged := ⟨s, properties.tag⟩
      return (.scalar tagged, anchors.declare? properties.anchor (some tagged), rest)
    | _ => none

/-! ## 5. Mappings -/

/-- The entries of a mapping, with the anchors of the document. -/
structure Mapping where
  entries : List (Node × Node)
  anchors : Anchors

def Mapping.empty : Mapping := ⟨[], .empty⟩

/-- A key and its value. -/
def entry (handles : Handles) (anchors : Anchors) :
    List Token → Option ((Node × Node) × Anchors × List Token)
  | .key :: rest => do
    let (key, anchors, rest) ← node handles anchors rest
    match rest with
    | .value :: rest =>
      let (value, anchors, rest) ← node handles anchors rest
      return ((key, value), anchors, rest)
    | _ => none
  | _ => none

/-- Entries up to the end of a block. -/
def blockEntries (handles : Handles) : Nat → Anchors → List Token → Option (Mapping × List Token)
  | 0, _, _ => none
  | _, anchors, .blockEnd :: rest => some (⟨[], anchors⟩, rest)
  | fuel + 1, anchors, tokens => do
    let (first, anchors, rest) ← entry handles anchors tokens
    let (others, rest) ← blockEntries handles fuel anchors rest
    return ({ others with entries := first :: others.entries }, rest)

/-- Entries up to the closing brace. A comma stands between two entries and may stand behind the
last one. -/
def flowEntries (handles : Handles) : Nat → Anchors → List Token → Option (Mapping × List Token)
  | 0, _, _ => none
  | _, anchors, .flowEnd :: rest => some (⟨[], anchors⟩, rest)
  | fuel + 1, anchors, tokens => do
    let (first, anchors, rest) ← entry handles anchors tokens
    let (others, rest) ←
      match rest with
      | .comma :: rest => flowEntries handles fuel anchors rest
      | .flowEnd :: rest => some (⟨[], anchors⟩, rest)
      | _ => none
    return ({ others with entries := first :: others.entries }, rest)

/-- The content of a document. Anchor and tag alone stand for nothing. -/
def content (handles : Handles) (tokens : List Token) : Option (Mapping × List Token) := do
  let (properties, rest) ← properties handles tokens
  let anchors := Anchors.empty.declare? properties.anchor none
  match rest with
  | .blockStart :: rest => blockEntries handles (rest.length + 1) anchors rest
  | .flowStart :: rest => flowEntries handles (rest.length + 1) anchors rest
  | rest => if properties.anchor.isSome || properties.tag.isSome then some (.empty, rest) else none

/-! ## 6. Documents -/

/-- Whether nothing but the ends of documents is left. -/
def nothingLeft : List Token → Bool
  | [.textEnd] => true
  | .documentEnd :: rest => nothingLeft rest
  | _ => false

/-- The mapping of the only document. A document without directives needs no start marker if it has
content; behind a start marker it may be empty. -/
def document (tokens : List Token) : Option Mapping := do
  let (handles, rest) ← directives false [] tokens
  match rest with
  | .documentStart :: rest =>
    if nothingLeft rest then return .empty
    let (mapping, rest) ← content handles rest
    if nothingLeft rest then return mapping else none
  | rest =>
    if rest.length < tokens.length then none
    else if rest matches [.textEnd] then return .empty
    else
      let (mapping, rest) ← content handles rest
      if nothingLeft rest then return mapping else none

/-- The mapping that a text holds. -/
def Mapping.parse? (text : List Char) : Option Mapping := (tokens? text).bind document

end ObjectModel.Limits.Document
