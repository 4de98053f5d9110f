import ObjectModel.Heap
import ObjectModel.Text

/-!
# Reading the heap

Questions about objects that are answered without running anything. An answer `none` at the outside
means that a stale handle was looked up.

* `Heap.chain` is an object followed by the types it derives from.
* `Heap.lookup` finds a member along a chain: the nearest link that has it wins.
* `Heap.typeName` is the name of a type, or of the type of another object.
* `Heap.plainRepr` and `Heap.plainMessage` render the arguments of an exception from their payloads
  alone.
-/

namespace ObjectModel.Heap

/-! ## 1. Types and chains -/

def typeOf (heap : Heap) (h : Handle) : Option Handle := do
  let object ← heap.get? h
  return object.type

/-- `h` and the bases behind it, at most `fuel` of them. -/
def chainFrom (heap : Heap) : Nat → Handle → Option (List Handle)
  | 0, _ => some []
  | fuel + 1, h => do
    let object ← heap.get? h
    match object.base with
    | none => return [h]
    | some base => return h :: (← chainFrom heap fuel base)

/-- An object followed by every type it derives from. The links are distinct, so there are no more
than slots. -/
def chain (heap : Heap) (h : Handle) : Option (List Handle) := heap.chainFrom heap.slots.size h

/-- The object's own attribute. -/
def ownAttribute (heap : Heap) (h : Handle) (name : String) : Option (Option Handle) := do
  let object ← heap.get? h
  return object.attributes.get? name

/-- The attribute `name` of the first link that has one. -/
def firstDefined (heap : Heap) (links : List Handle) (name : String) : Option Handle :=
  links.findSome? fun link => (heap.get? link).bind fun object => object.attributes.get? name

/-- The attribute `name` of the nearest link of the chain of `h` that has one. -/
def lookup (heap : Heap) (h : Handle) (name : String) : Option (Option Handle) := do
  let links ← heap.chain h
  return heap.firstDefined links name

/-- The member `name` that the type of `h` offers. -/
def hook (heap : Heap) (h : Handle) (name : String) : Option (Option Handle) := do
  let type ← heap.typeOf h
  heap.lookup type name

def isSubtype (heap : Heap) (type base : Handle) : Option Bool := do
  let links ← heap.chain type
  return links.contains base

def isInstance (heap : Heap) (h type : Handle) : Option Bool := do
  let own ← heap.typeOf h
  heap.isSubtype own type

/-! ## 2. Names -/

/-- Name of the first type among `h`, its type, the type of that, and so on. -/
def typeNameFrom (heap : Heap) : Nat → Handle → Option String
  | 0, _ => none
  | fuel + 1, h => do
    let object ← heap.get? h
    match object.payload with
    | .type name _ => return name
    | _ => typeNameFrom heap fuel object.type

/-- Name of `h` if it is a type, else of its type. -/
def typeName (heap : Heap) (h : Handle) : Option String := heap.typeNameFrom heap.slots.size h

/-- Name of the type of `h`. -/
def className (heap : Heap) (h : Handle) : Option String := do
  let type ← heap.typeOf h
  heap.typeName type

/-- Name of a function; a bound method takes that of its function. -/
def functionNameFrom (heap : Heap) : Nat → Handle → Option (Option String)
  | 0, _ => some none
  | fuel + 1, h => do
    let object ← heap.get? h
    match object.payload with
    | .function name _ => return some name
    | .bound _ function => functionNameFrom heap fuel function
    | _ => return none

def functionName (heap : Heap) (h : Handle) : Option (Option String) :=
  heap.functionNameFrom heap.slots.size h

/-! ## 3. Calls -/

/-- Functions and bound methods are callable, and whatever has a type with `__call__`. -/
def isCallable (heap : Heap) (h : Handle) : Option Bool := do
  let object ← heap.get? h
  match object.payload with
  | .function _ _ => return true
  | .bound _ _ => return true
  | _ => return (← heap.lookup object.type "__call__").isSome

/-! ## 4. Lists and exceptions -/

/-- Name of the attribute in which a list keeps its items. -/
def listCell : String := "xs"

/-- The tuple behind an attribute. -/
def tupleAttribute (heap : Heap) (h : Handle) (name : String) : Option (Option (List Handle)) := do
  match ← heap.ownAttribute h name with
  | none => return none
  | some cell => return (← heap.get? cell).tupleItems

/-- Items of an instance of `list`. -/
def listItems (heap : Heap) (h : Handle) : Option (Option (List Handle)) := do
  if ← heap.isInstance h BuiltinType.list.handle then heap.tupleAttribute h listCell
  else return none

/-- The arguments an exception was made with. -/
def exceptionArgs (heap : Heap) (h : Handle) : Option (List Handle) := do
  return (← heap.tupleAttribute h "args").getD []

/-! ## 5. Plain rendering -/

/-- Rendering of an object from its payload. -/
def plainRepr (heap : Heap) (h : Handle) : Option String := do
  let object ← heap.get? h
  match object.payload with
  | .str text => return Text.quote text
  | .int n => return Text.ofInt n.toInt
  | .bool true => return "True"
  | .bool false => return "False"
  | .none => return "None"
  | .notImplemented => return "NotImplemented"
  | _ => return "<" ++ (← heap.typeName h) ++ " object>"

/-- The message of an exception with these arguments: empty, the text of a single one, or all of
them in parentheses. -/
def plainMessage (heap : Heap) : List Handle → Option String
  | [] => some ""
  | [only] => do
    let object ← heap.get? only
    match object.payload with
    | .str text => return text
    | _ => heap.plainRepr only
  | items => do
    let rendered ← items.mapM heap.plainRepr
    return "(" ++ Text.joinWith ", " rendered ++ ")"

end ObjectModel.Heap
