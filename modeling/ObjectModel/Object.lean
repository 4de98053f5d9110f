import ObjectModel.OrderedMap
import ObjectModel.Progression
import ObjectModel.Script.Expr

/-!
# Objects

An object carries a payload, the handle of its type and a map of attributes. Everything is an
object: types, functions, bound methods and generators too.

* Code is data: a builtin member, a builtin function or a script.
* A suspended computation is data as well: a `Coroutine` says what will be yielded next and which
  objects it holds.
* `Object.references` lists every handle that an object stores; it is what the collector follows.
-/

namespace ObjectModel

/-! ## 1. Code -/

/-- What runs when a function is called. -/
inductive Code where
  | member (m : Member)
  | builtin (f : BuiltinFunction)
  | script (body : Script.Expr)

/-- Arguments and local names of a running script. -/
structure Script.Frame where
  args : List Handle
  locals : OrderedMap Handle

/-- A frame without local names. -/
def Script.Frame.ofArgs (args : List Handle) : Script.Frame := ⟨args, .empty⟩

/-! ## 2. Suspended computations -/

/-- A computation that yields values until it completes. -/
inductive Coroutine where
  /-- Yields the handles of `pending`, all of which it holds. -/
  | items (held pending : List Handle) (covered : pending ⊆ held)
  /-- Yields a pair for every entry of `pending`; it holds the values of all of them. -/
  | entries (held : List Handle) (pending : List (String × Handle))
      (covered : pending.map (·.2) ⊆ held)
  /-- Yields one text for every character. -/
  | characters (pending : List Char)
  /-- Runs through the bounds from `next` on. -/
  | progression (bounds : Progression) (next : Option Int64)
  /-- Yields `function` applied to the items of `iterator`. -/
  | mapping (function iterator : Handle)
  /-- Yields the results of `callable` until one equals `sentinel`. -/
  | callUntil (callable sentinel : Handle)
  /-- Takes the steps of a script one after another, from `position` on. -/
  | script (steps : List (Script.Step Script.Expr)) (ending : Script.Ending) (held : List Handle)
      (position : Nat) (frame : Script.Frame)

/-- The objects that a suspended computation reports to the collector. The names of a script's frame
are not among them. -/
def Coroutine.held : Coroutine → List Handle
  | items held _ _ => held
  | entries held _ _ => held
  | characters _ => []
  | progression _ _ => []
  | mapping function iterator => [function, iterator]
  | callUntil callable sentinel => [callable, sentinel]
  | script _ _ held _ _ => held

/-- State of a generator. It never leaves `stopped`. -/
inductive Generator where
  | suspended (c : Coroutine)
  | running
  /-- Completed with a final value or without one, or failed. -/
  | stopped (result : Option Handle)

/-! ## 3. Payloads and objects -/

inductive Payload where
  /-- A type with its name and the type it derives from. -/
  | type (name : String) (base : Option Handle)
  /-- An object with nothing but attributes. -/
  | plain
  | none
  | notImplemented
  | bool (b : Bool)
  | int (n : Int64)
  | str (text : String)
  | tuple (items : List Handle)
  | dict (entries : OrderedMap Handle)
  | function (name : String) (code : Code)
  /-- A function with the receiver that is put in front of its arguments. -/
  | bound (receiver function : Handle)
  | generator (g : Generator)

namespace Payload

/-- Name of the kind of payload, as internal faults give it. -/
def kindName : Payload → String
  | type _ _ => "type"
  | plain => "instance"
  | none => "none"
  | notImplemented => "not-implemented"
  | bool _ => "bool"
  | int _ => "int"
  | str _ => "str"
  | tuple _ => "tuple"
  | dict _ => "dict"
  | function _ _ => "function"
  | bound _ _ => "method"
  | generator _ => "generator"

/-- The handles stored in a payload. A running generator stores none: its computation is taken out
while it runs. -/
def references : Payload → List Handle
  | type _ base => base.toList
  | tuple items => items
  | dict entries => entries.values
  | bound receiver callee => [receiver, callee]
  | generator (.suspended c) => c.held
  | generator (.stopped result) => result.toList
  | _ => []

end Payload

structure Object where
  payload : Payload
  type : Handle
  attributes : OrderedMap Handle := .empty

namespace Object

/-- The type this one derives from. Only a type is ever given one. -/
def base (o : Object) : Option Handle :=
  match o.payload with
  | .type _ base => base
  | _ => none

def isType (o : Object) : Bool :=
  match o.payload with
  | .type _ _ => true
  | _ => false

def intValue (o : Object) : Option Int64 :=
  match o.payload with
  | .int n => some n
  | _ => none

def boolValue (o : Object) : Option Bool :=
  match o.payload with
  | .bool b => some b
  | _ => none

def textValue (o : Object) : Option String :=
  match o.payload with
  | .str text => some text
  | _ => none

def tupleItems (o : Object) : Option (List Handle) :=
  match o.payload with
  | .tuple items => some items
  | _ => none

def dictEntries (o : Object) : Option (OrderedMap Handle) :=
  match o.payload with
  | .dict entries => some entries
  | _ => none

def boundParts (o : Object) : Option (Handle × Handle) :=
  match o.payload with
  | .bound receiver function => some (receiver, function)
  | _ => none

def isGenerator (o : Object) : Bool :=
  match o.payload with
  | .generator _ => true
  | _ => false

def isFunction (o : Object) : Bool :=
  match o.payload with
  | .function _ _ => true
  | _ => false

/-- The result of a generator that has stopped. -/
def generatorResult (o : Object) : Option (Option Handle) :=
  match o.payload with
  | .generator (.stopped result) => some result
  | _ => none

/-- Every handle an object stores: its type, its attribute values and what its payload holds. -/
def references (o : Object) : List Handle := o.type :: o.attributes.values ++ o.payload.references

/-! ## 4. The ways to make an object -/

def ofInt (n : Int64) : Object := ⟨.int n, BuiltinType.int.handle, .empty⟩

def ofText (text : String) : Object := ⟨.str text, BuiltinType.str.handle, .empty⟩

def ofItems (items : List Handle) : Object := ⟨.tuple items, BuiltinType.tuple.handle, .empty⟩

/-- An empty mapping whose type is `type`. -/
def emptyDict (type : Handle) : Object := ⟨.dict .empty, type, .empty⟩

def ofCode (name : String) (code : Code) : Object :=
  ⟨.function name code, BuiltinType.function.handle, .empty⟩

def ofBound (receiver function : Handle) : Object :=
  ⟨.bound receiver function, BuiltinType.function.handle, .empty⟩

def ofCoroutine (c : Coroutine) : Object :=
  ⟨.generator (.suspended c), BuiltinType.generator.handle, .empty⟩

/-- A bare object of type `type`. -/
def bare (type : Handle) : Object := ⟨.plain, type, .empty⟩

/-- A type. Every type is an object of type `type`. -/
def ofType (name : String) (base : Option Handle) (members : OrderedMap Handle) : Object :=
  ⟨.type name base, BuiltinType.type.handle, members⟩

end Object

end ObjectModel
