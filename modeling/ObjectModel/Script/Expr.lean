import ObjectModel.Member

/-!
# Scripts

The language in which a host drives the object model: the bodies of its functions, the steps of its
generators and the requests it makes are expressions of one type. An expression reaches every public
operation of the library.

Operations are sorted by the number of their operands, so an expression always has as many operands
as its operation takes. Operands are evaluated from left to right. Names, counts and kinds that are
fixed in the text of a script are part of the operation.
-/

namespace ObjectModel.Script

/-! ## 1. Operations -/

/-- Operations without operands. -/
inductive Constant where
  /-- The sentinel by which a hook declines. -/
  | notImplemented
  /-- The arguments of the running function. -/
  | arguments
  | argumentCount
  | globalNames
  | limits
  /-- The text that was written so far. -/
  | output
  /-- How often the console was flushed. -/
  | flushes
  /-- Objects beyond those that every state starts with. -/
  | objectCount
  /-- Raises `StopIteration` without a value. -/
  | stop

/-- Operations on one operand. -/
inductive UnaryOp where
  | typeOf | baseOf | isType | typeName | isCallable
  | getAttribute (name : String) | findAttribute (name : String) | deleteAttribute (name : String)
  | member (name : String) | boundParts
  | raiseValue | raiseMessage (kind : ExceptionKind) | stopWith | exceptionArgs
  | isGenerator | generatorResult | advance | iter | next | nextItem | collect
  | negate | not | truthy | length | repr | text
  | listItems | tupleItems | intValue | boolValue | textValue | isNone
  | id | slot | pin | unpin | isLive

/-- Operations on two operands. -/
inductive PairOp where
  | isSubtype | isInstance
  | attributeOr (name : String) | setAttribute (name : String)
  | nextOr
  | operator (op : BinaryOp) | equal | divmod
  | getItem | dictGet
  | identical | sameId

/-- Operations on three operands. -/
inductive TripleOp where
  | setItem | dictSet

/-- Operations on any number of operands. -/
inductive ListOp where
  | tuple | list
  /-- Keys and values in turn. -/
  | dict
  | callGlobal (name : String) | callBuiltin (function : BuiltinFunction)
  | raise (kind : ExceptionKind)
  /-- Collects with the operands as extra roots and answers the number of objects left. -/
  | collectGarbage
  /-- Collects with the operands as extra roots and answers the number of objects freed. -/
  | reclaim

/-- Operations on one operand and a list of arguments. -/
inductive ApplyOp where
  | call | callMethod (name : String) | instantiate

/-- How a generator of a script goes on behind its last step. -/
inductive Ending where
  /-- It completes without a value. -/
  | completes
  /-- It starts over. -/
  | repeats
  deriving DecidableEq

/-- One resumption of a generator: it yields, or completes with or without a value. -/
inductive Step (ε : Type) where
  | yield (e : ε)
  | complete (e : Option ε)

/-! ## 2. Expressions -/

inductive Expr where
  | null
  | bool (b : Bool)
  | int (n : Int64)
  | text (s : String)
  /-- A local name, else a shared one. -/
  | name (n : String)
  | setLocal (n : String) (e : Expr)
  | setShared (n : String) (e : Expr)
  | block (es : List Expr)
  | times (count : Nat) (e : Expr)
  | choose (condition yes no : Expr)
  /-- Evaluates `e`; a fault that is an instance of `guard` (any fault without a guard) is bound to
  `err` and handed to `handler`. -/
  | rescue (e : Expr) (guard : Option Expr) (handler : Expr)
  /-- Reports whether `e` succeeds and, if not, of which of the `types` its fault is an instance. -/
  | probe (e : Expr) (types : List Expr)
  | argument (index : Nat)
  | builtinType (t : BuiltinType)
  | global (n : String)
  | setGlobal (n : String) (e : Expr)
  | function (n : String) (body : Expr)
  | generator (steps : List (Step Expr)) (held : List Expr) (ending : Ending)
  | defineType (n : String) (base : Option Expr) (members : List (String × Expr))
  /-- Evaluates `body` for every item of `iterable`, with the item as local `it`; answers the number
  of items. -/
  | forEach (iterable body : Expr)
  | operatorInfo (op : BinaryOp)
  | exceptionInfo (kind : ExceptionKind)
  | builtinInfo (n : String)
  | constant (op : Constant)
  | unary (op : UnaryOp) (x : Expr)
  | pair (op : PairOp) (x y : Expr)
  | triple (op : TripleOp) (x y z : Expr)
  | list (op : ListOp) (xs : List Expr)
  | apply (op : ApplyOp) (x : Expr) (args : List Expr)

end ObjectModel.Script
