/-!
# Binary operators

The twelve binary operators with their spelling and the two hooks they ask: the forward hook on the
type of the left operand, then the reflected hook on the type of the right one.
-/

namespace ObjectModel

inductive BinaryOp where
  | add
  | sub
  | mul
  | floorDiv
  | mod
  | pow
  | lt
  | gt
  | le
  | ge
  | eq
  | ne
  deriving DecidableEq

/-- The names of a forward and a reflected hook. -/
structure HookPair where
  forward : String
  reflected : String

namespace BinaryOp

def all : List BinaryOp := [add, sub, mul, floorDiv, mod, pow, lt, gt, le, ge, eq, ne]

def symbol : BinaryOp → String
  | add => "+"
  | sub => "-"
  | mul => "*"
  | floorDiv => "//"
  | mod => "%"
  | pow => "**"
  | lt => "<"
  | gt => ">"
  | le => "<="
  | ge => ">="
  | eq => "=="
  | ne => "!="

def hooks : BinaryOp → HookPair
  | add => ⟨"__add__", "__radd__"⟩
  | sub => ⟨"__sub__", "__rsub__"⟩
  | mul => ⟨"__mul__", "__rmul__"⟩
  | floorDiv => ⟨"__floordiv__", "__rfloordiv__"⟩
  | mod => ⟨"__mod__", "__rmod__"⟩
  | pow => ⟨"__pow__", "__rpow__"⟩
  | lt => ⟨"__lt__", "__gt__"⟩
  | gt => ⟨"__gt__", "__lt__"⟩
  | le => ⟨"__le__", "__ge__"⟩
  | ge => ⟨"__ge__", "__le__"⟩
  | eq => ⟨"__eq__", "__eq__"⟩
  | ne => ⟨"__ne__", "__ne__"⟩

def ofSymbol? (symbol : String) : Option BinaryOp := all.find? fun op => op.symbol == symbol

end BinaryOp

/-- The hooks that answer quotient and remainder together. -/
def divmodHooks : HookPair := ⟨"__divmod__", "__rdivmod__"⟩

end ObjectModel
