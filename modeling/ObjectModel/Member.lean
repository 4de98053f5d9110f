import ObjectModel.BuiltinType
import ObjectModel.Operator

/-!
# Builtin members and builtin functions

The members with which the builtin types are furnished and the functions of the global namespace, as
plain names. What each of them does is told in the modules of the types and of the builtin
functions.

`Member.all` lists the members in the order in which they are placed into the heap.
-/

namespace ObjectModel

/-! ## 1. Members of each type -/

inductive ObjectMember where
  | new | init | repr | str | eq | ne
  deriving DecidableEq

inductive TypeMember where
  | call | new | init | repr | str
  deriving DecidableEq

inductive FunctionMember where
  | new | call | repr
  deriving DecidableEq

inductive NoneMember where
  | new | bool | repr
  deriving DecidableEq

inductive NotImplementedMember where
  | new | repr
  deriving DecidableEq

inductive IntMember where
  | new | int | bool | neg | str | repr
  | binary (op : BinaryOp)
  | divmod
  deriving DecidableEq

inductive BoolMember where
  | new | bool | int | str | repr
  deriving DecidableEq

/-- The four orderings. -/
inductive Comparison where
  | lt | le | gt | ge
  deriving DecidableEq

inductive StrMember where
  | new | str | repr | len | bool | getItem | slice | find | int | join | add | eq
  | compare (c : Comparison)
  | iter
  deriving DecidableEq

inductive TupleMember where
  | new | len | getItem | eq | add | iter | repr
  deriving DecidableEq

inductive DictMember where
  | new | init | get | getItem | setItem | delItem | contains | len | iter | repr
  deriving DecidableEq

inductive ListMember where
  | init | append | pop | clear | copy | len | bool | getItem | setItem | iter | eq | repr
  deriving DecidableEq

inductive RangeMember where
  | init | iter | len | repr
  deriving DecidableEq

inductive GeneratorMember where
  | new | iter | next
  deriving DecidableEq

inductive ExceptionMember where
  | init | str | repr
  deriving DecidableEq

/-- A member that a builtin type starts with. -/
inductive Member where
  | object (m : ObjectMember)
  | type (m : TypeMember)
  | function (m : FunctionMember)
  | none (m : NoneMember)
  | notImplemented (m : NotImplementedMember)
  | int (m : IntMember)
  | bool (m : BoolMember)
  | str (m : StrMember)
  | tuple (m : TupleMember)
  | dict (m : DictMember)
  | list (m : ListMember)
  | range (m : RangeMember)
  | generator (m : GeneratorMember)
  | exception (m : ExceptionMember)
  | stopIterationInit
  deriving DecidableEq

/-! ## 2. Names -/

def ObjectMember.name : ObjectMember → String
  | new => "__new__"
  | init => "__init__"
  | repr => "__repr__"
  | str => "__str__"
  | eq => "__eq__"
  | ne => "__ne__"

def TypeMember.name : TypeMember → String
  | call => "__call__"
  | new => "__new__"
  | init => "__init__"
  | repr => "__repr__"
  | str => "__str__"

def FunctionMember.name : FunctionMember → String
  | new => "__new__"
  | call => "__call__"
  | repr => "__repr__"

def NoneMember.name : NoneMember → String
  | new => "__new__"
  | bool => "__bool__"
  | repr => "__repr__"

def NotImplementedMember.name : NotImplementedMember → String
  | new => "__new__"
  | repr => "__repr__"

def IntMember.name : IntMember → String
  | new => "__new__"
  | int => "__int__"
  | bool => "__bool__"
  | neg => "__neg__"
  | str => "__str__"
  | repr => "__repr__"
  | binary op => op.hooks.forward
  | divmod => divmodHooks.forward

def BoolMember.name : BoolMember → String
  | new => "__new__"
  | bool => "__bool__"
  | int => "__int__"
  | str => "__str__"
  | repr => "__repr__"

def Comparison.name : Comparison → String
  | lt => "__lt__"
  | le => "__le__"
  | gt => "__gt__"
  | ge => "__ge__"

def StrMember.name : StrMember → String
  | new => "__new__"
  | str => "__str__"
  | repr => "__repr__"
  | len => "__len__"
  | bool => "__bool__"
  | getItem => "__getitem__"
  | slice => "slice"
  | find => "find"
  | int => "__int__"
  | join => "join"
  | add => "__add__"
  | eq => "__eq__"
  | compare c => c.name
  | iter => "__iter__"

def TupleMember.name : TupleMember → String
  | new => "__new__"
  | len => "__len__"
  | getItem => "__getitem__"
  | eq => "__eq__"
  | add => "__add__"
  | iter => "__iter__"
  | repr => "__repr__"

def DictMember.name : DictMember → String
  | new => "__new__"
  | init => "__init__"
  | get => "get"
  | getItem => "__getitem__"
  | setItem => "__setitem__"
  | delItem => "__delitem__"
  | contains => "__contains__"
  | len => "__len__"
  | iter => "__iter__"
  | repr => "__repr__"

def ListMember.name : ListMember → String
  | init => "__init__"
  | append => "append"
  | pop => "pop"
  | clear => "clear"
  | copy => "copy"
  | len => "__len__"
  | bool => "__bool__"
  | getItem => "__getitem__"
  | setItem => "__setitem__"
  | iter => "__iter__"
  | eq => "__eq__"
  | repr => "__repr__"

def RangeMember.name : RangeMember → String
  | init => "__init__"
  | iter => "__iter__"
  | len => "__len__"
  | repr => "__repr__"

def GeneratorMember.name : GeneratorMember → String
  | new => "__new__"
  | iter => "__iter__"
  | next => "__next__"

def ExceptionMember.name : ExceptionMember → String
  | init => "__init__"
  | str => "__str__"
  | repr => "__repr__"

namespace Member

/-- The name under which the member stands in its type. -/
def name : Member → String
  | object m => m.name
  | type m => m.name
  | function m => m.name
  | none m => m.name
  | notImplemented m => m.name
  | int m => m.name
  | bool m => m.name
  | str m => m.name
  | tuple m => m.name
  | dict m => m.name
  | list m => m.name
  | range m => m.name
  | generator m => m.name
  | exception m => m.name
  | stopIterationInit => "__init__"

/-- The type the member belongs to. -/
def owner : Member → BuiltinType
  | object _ => .object
  | type _ => .type
  | function _ => .function
  | none _ => .noneType
  | notImplemented _ => .notImplementedType
  | int _ => .int
  | bool _ => .bool
  | str _ => .str
  | tuple _ => .tuple
  | dict _ => .dict
  | list _ => .list
  | range _ => .range
  | generator _ => .generator
  | exception _ => .exception .exception
  | stopIterationInit => .exception .stopIteration

/-- Type and member, as a function shows itself: `int.__add__`. -/
def qualifiedName (m : Member) : String := m.owner.name ++ "." ++ m.name

/-! ## 3. The order of placement -/

def all : List Member :=
  [.new, .init, .repr, .str, .eq, .ne].map object
    ++ [.call, .new, .init, .repr, .str].map type
    ++ [.new, .call, .repr].map function
    ++ [.new, .bool, .repr].map none
    ++ [.new, .repr].map notImplemented
    ++ [.new, .int, .bool, .neg, .str, .repr, .binary .eq, .binary .ne, .binary .lt, .binary .le,
        .binary .gt, .binary .ge, .binary .add, .binary .sub, .binary .mul, .binary .floorDiv,
        .binary .mod, .binary .pow, .divmod].map int
    ++ [.new, .bool, .int, .str, .repr].map bool
    ++ [.new, .str, .repr, .len, .bool, .getItem, .slice, .find, .int, .join, .add, .eq,
        .compare .lt, .compare .le, .compare .gt, .compare .ge, .iter].map str
    ++ [.new, .len, .getItem, .eq, .add, .iter, .repr].map tuple
    ++ [.new, .init, .get, .getItem, .setItem, .delItem, .contains, .len, .iter, .repr].map dict
    ++ [.init, .append, .pop, .clear, .copy, .len, .bool, .getItem, .setItem, .iter, .eq,
        .repr].map list
    ++ [.init, .iter, .len, .repr].map range
    ++ [.new, .iter, .next].map generator
    ++ [.init, .str, .repr].map exception
    ++ [stopIterationInit]

end Member

/-! ## 4. Builtin functions -/

/-- The functions of the global namespace. -/
inductive BuiltinFunction where
  | print
  | rawPrint
  | input
  | flush
  | repr
  | len
  | getattr
  | setattr
  | isinstance
  | iter
  | next
  | all
  | any
  | map
  | divmod
  | pow
  | id
  deriving DecidableEq

namespace BuiltinFunction

def name : BuiltinFunction → String
  | print => "print"
  | rawPrint => "raw_print"
  | input => "input"
  | flush => "flush"
  | repr => "repr"
  | len => "len"
  | getattr => "getattr"
  | setattr => "setattr"
  | isinstance => "isinstance"
  | iter => "iter"
  | next => "next"
  | all => "all"
  | any => "any"
  | map => "map"
  | divmod => "divmod"
  | pow => "pow"
  | id => "id"

/-- Every builtin function, in the order in which they are placed into the heap. -/
def every : List BuiltinFunction :=
  [print, rawPrint, input, flush, repr, len, getattr, setattr, isinstance, iter, next, all, any,
    map, divmod, pow, id]

def ofName? (name : String) : Option BuiltinFunction := every.find? fun f => f.name == name

end BuiltinFunction

end ObjectModel
