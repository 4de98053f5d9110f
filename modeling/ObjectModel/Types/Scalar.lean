import ObjectModel.Protocol

/-!
# Members of `NoneType`, `NotImplementedType`, `int` and `bool`

* The types of the singletons construct their singleton.
* Integer arithmetic is checked: leaving the range and dividing by zero raise `ValueError`. A binary
  member declines if the other operand is not an integer.
* `bool` of an object is its truth.
-/

namespace ObjectModel

/-! ## 1. Singletons -/

def NoneMember.run : NoneMember → List Handle → Run Handle
  | new, _ => return .none
  | bool, [_] => return .false
  | bool, args => wrongArity "NoneType.__bool__" 1 1 args
  | repr, [_] => newText "None"
  | repr, args => wrongArity "NoneType.__repr__" 1 1 args

def NotImplementedMember.run : NotImplementedMember → List Handle → Run Handle
  | new, _ => return .notImplemented
  | repr, [_] => newText "NotImplemented"
  | repr, args => wrongArity "NotImplementedType.__repr__" 1 1 args

/-! ## 2. Integers -/

/-- The integer a member was called on. -/
def intReceiver (name : String) (h : Handle) : Run Int64 := do
  match ← intValue h with
  | some n => return n
  | none => typeError ("`" ++ name ++ "` requires an int receiver")

/-- The result of an operation, or `ValueError` if it leaves the range. -/
def inRange (symbol : String) : Option Int64 → Run Handle
  | some n => newInt n
  | none => valueError ("integer overflow in `" ++ symbol ++ "`")

def nonZero (divisor : Int64) : Run Unit :=
  if divisor = 0 then valueError "integer division or modulo by zero" else return ()

/-- A binary operator on two integers. -/
def intOp (op : BinaryOp) (l r : Int64) : Run Handle :=
  match op with
  | .eq => return .ofBool (l == r)
  | .ne => return .ofBool (l != r)
  | .lt => return .ofBool (l < r)
  | .le => return .ofBool (l ≤ r)
  | .gt => return .ofBool (r < l)
  | .ge => return .ofBool (r ≤ l)
  | .add => inRange op.symbol (Arithmetic.add? l r)
  | .sub => inRange op.symbol (Arithmetic.sub? l r)
  | .mul => inRange op.symbol (Arithmetic.mul? l r)
  | .floorDiv => do
    nonZero r
    inRange op.symbol (Arithmetic.floorDiv? l r)
  | .mod => do
    nonZero r
    inRange op.symbol (Arithmetic.floorMod? l r)
  | .pow =>
    if r < 0 then valueError "negative exponents are not supported"
    else inRange op.symbol (Arithmetic.pow? l r.toInt.toNat)

/-- Floor quotient and remainder as a pair. -/
def intDivmod (l r : Int64) : Run Handle := do
  nonZero r
  let quotient ← inRange BinaryOp.floorDiv.symbol (Arithmetic.floorDiv? l r)
  let remainder ← inRange BinaryOp.mod.symbol (Arithmetic.floorMod? l r)
  newTuple [quotient, remainder]

/-- A binary member: it declines operands that are not integers. -/
def intBinary (name : String) (op : Int64 → Int64 → Run Handle) : List Handle → Run Handle
  | [left, right] => do
    let l ← intReceiver name left
    match ← intValue right with
    | some r => op l r
    | none => return .notImplemented
  | args => wrongArity name 2 2 args

/-- The integer of `h` by its hook `__int__`. -/
def toInt (h : Handle) : Run Handle := do
  match ← findHook h "__int__" with
  | none => typeError ("cannot convert '" ++ (← className h) ++ "' to int")
  | some hook =>
    let answer ← call hook [h]
    match ← intValue answer with
    | some _ => return answer
    | none => typeError "__int__ returned non-int"

def intText : List Handle → Run Handle
  | [h] => do newText (Text.ofInt (← intReceiver "int.__str__" h).toInt)
  | args => wrongArity "int.__str__" 1 1 args

def IntMember.run : IntMember → List Handle → Run Handle
  | new, [_] => newInt 0
  | new, [_, h] => toInt h
  | new, args => wrongArity "int.__new__" 1 2 args
  | int, [h] => do
    let _ ← intReceiver "int.__int__" h
    return h
  | int, args => wrongArity "int.__int__" 1 1 args
  | bool, [h] => do return .ofBool ((← intReceiver "int.__bool__" h) != 0)
  | bool, args => wrongArity "int.__bool__" 1 1 args
  | neg, [h] => do inRange "-" (Arithmetic.neg? (← intReceiver "int.__neg__" h))
  | neg, args => wrongArity "int.__neg__" 1 1 args
  | str, args => intText args
  | repr, args => intText args
  | binary op, args => intBinary op.hooks.forward (intOp op) args
  | divmod, args => intBinary divmodHooks.forward intDivmod args

/-! ## 3. Truth values -/

def boolReceiver (h : Handle) : Run Bool := do
  match ← boolValue h with
  | some b => return b
  | none => typeError "expected a bool receiver"

def boolText : List Handle → Run Handle
  | [h] => do newText (if ← boolReceiver h then "True" else "False")
  | args => wrongArity "bool.__str__" 1 1 args

def BoolMember.run : BoolMember → List Handle → Run Handle
  | new, [_] => return .false
  | new, [_, h] => do return .ofBool (← truthy h)
  | new, args => wrongArity "bool.__new__" 1 2 args
  | bool, [h] => return h
  | bool, args => wrongArity "bool.__bool__" 1 1 args
  | int, [h] => do newInt (if ← boolReceiver h then 1 else 0)
  | int, args => wrongArity "bool.__int__" 1 1 args
  | str, args => boolText args
  | repr, args => boolText args

end ObjectModel
