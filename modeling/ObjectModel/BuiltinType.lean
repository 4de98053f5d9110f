import ObjectModel.Handle

/-!
# The builtin types and singletons

The twenty-two types and four singletons that every state starts with. They are placed into the heap
first and in a fixed order, so their handles are constants.

* `BuiltinType.all` lists the types in the order in which they are placed; `BuiltinType.handle` is
  the place of each.
* `ExceptionKind` lists the kinds of exception; each is a builtin type of its own.
* `Handle.none`, `Handle.notImplemented`, `Handle.true` and `Handle.false` are the singletons.
-/

namespace ObjectModel

/-! ## 1. Kinds of exception -/

/-- The fixed hierarchy: `exception` is the root, every other kind derives from it directly. -/
inductive ExceptionKind where
  | exception
  | attributeError
  | indexError
  | keyError
  | nameError
  | notImplementedError
  | stopIteration
  | typeError
  | valueError
  deriving DecidableEq

namespace ExceptionKind

def name : ExceptionKind → String
  | exception => "Exception"
  | attributeError => "AttributeError"
  | indexError => "IndexError"
  | keyError => "KeyError"
  | nameError => "NameError"
  | notImplementedError => "NotImplementedError"
  | stopIteration => "StopIteration"
  | typeError => "TypeError"
  | valueError => "ValueError"

def all : List ExceptionKind :=
  [exception, attributeError, indexError, keyError, nameError, notImplementedError, stopIteration,
    typeError, valueError]

def ofName? (name : String) : Option ExceptionKind := all.find? fun kind => kind.name == name

end ExceptionKind

/-! ## 2. Builtin types -/

inductive BuiltinType where
  | type
  | object
  | noneType
  | notImplementedType
  | int
  | bool
  | str
  | tuple
  | dict
  | list
  | range
  | function
  | generator
  | exception (kind : ExceptionKind)
  deriving DecidableEq

namespace BuiltinType

def name : BuiltinType → String
  | type => "type"
  | object => "object"
  | noneType => "NoneType"
  | notImplementedType => "NotImplementedType"
  | int => "int"
  | bool => "bool"
  | str => "str"
  | tuple => "tuple"
  | dict => "dict"
  | list => "list"
  | range => "range"
  | function => "function"
  | generator => "generator"
  | exception kind => kind.name

/-- All builtin types, in the order in which they are placed into the heap. -/
def all : List BuiltinType :=
  [type, object, noneType, notImplementedType, int, bool, str, tuple, dict, list, range, function,
    generator] ++ ExceptionKind.all.map exception

/-- The type a builtin type derives from. Only `object` has none. -/
def base? : BuiltinType → Option BuiltinType
  | object => none
  | exception .exception => some object
  | exception _ => some (exception .exception)
  | _ => some object

/-- Place of the type in the heap. -/
def slot : BuiltinType → Nat
  | type => 0
  | object => 1
  | noneType => 2
  | notImplementedType => 3
  | int => 4
  | bool => 5
  | str => 6
  | tuple => 7
  | dict => 8
  | list => 9
  | range => 10
  | function => 11
  | generator => 12
  | exception .exception => 13
  | exception .attributeError => 14
  | exception .indexError => 15
  | exception .keyError => 16
  | exception .nameError => 17
  | exception .notImplementedError => 18
  | exception .stopIteration => 19
  | exception .typeError => 20
  | exception .valueError => 21

def handle (t : BuiltinType) : Handle := .first t.slot

def ofName? (name : String) : Option BuiltinType := all.find? fun t => t.name == name

/-- The order in which the types stand in the global names. -/
def globalOrder : List BuiltinType :=
  [object, type, noneType, notImplementedType, bool, int, str, tuple, dict, list, range, function,
    generator] ++ ExceptionKind.all.map exception

end BuiltinType

/-- The type whose instances are the exceptions of this kind. -/
def ExceptionKind.type (kind : ExceptionKind) : Handle := (BuiltinType.exception kind).handle

/-! ## 3. Singletons -/

namespace Handle

/-- The only object of type `NoneType`. -/
def none : Handle := .first 22

/-- The sentinel by which a hook declines to answer. -/
def notImplemented : Handle := .first 23

def true : Handle := .first 24

def false : Handle := .first 25

/-- The truth values are two objects; no other object of type `bool` exists. -/
def ofBool (b : Bool) : Handle := if b then .true else .false

end Handle

end ObjectModel
