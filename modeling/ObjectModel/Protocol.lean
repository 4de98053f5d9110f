import ObjectModel.Attribute

/-!
# Operators and value protocols

Operators, truth, length, rendering and subscripts all ask hooks of the operands' types.

* A binary operator asks the forward hook on the left type, then the reflected hook on the right
  type. A hook declines by answering `NotImplemented`.
* `==` falls back to identity, `!=` to the negation of `==`, `//` and `%` to the components of
  `divmod`.
* An object is true if its `__bool__` says so, else if its `__len__` is not zero, else always.
-/

namespace ObjectModel

/-! ## 1. Hooks -/

/-- Asks one hook of the type of `h`. A missing hook and one that declines give no answer. -/
def askHook (h : Handle) (name : String) (args : List Handle) : Run (Option Handle) := do
  match ← findHook h name with
  | none => return none
  | some hook =>
    let answer ← call hook args
    return if answer = .notImplemented then none else some answer

/-- Asks the forward hook, then the reflected one. -/
def askHooks (hooks : HookPair) (left right : Handle) : Run (Option Handle) := do
  match ← askHook left hooks.forward [left, right] with
  | some answer => return some answer
  | none => askHook right hooks.reflected [right, left]

/-! ## 2. Length and truth -/

def length (h : Handle) : Run Nat := do
  match ← findHook h "__len__" with
  | none => typeError ("object of type '" ++ (← className h) ++ "' has no len()")
  | some hook =>
    let answer ← call hook [h]
    match ← intValue answer with
    | some n => if 0 ≤ n then return n.toInt.toNat else valueError "__len__() should return >= 0"
    | none => typeError "__len__ should return int"

def truthy (h : Handle) : Run Bool := do
  match ← findHook h "__bool__" with
  | some hook =>
    let answer ← call hook [h]
    match ← boolValue answer with
    | some b => return b
    | none => typeError "__bool__ should return bool"
  | none =>
    match ← findHook h "__len__" with
    | some _ => return (← length h) != 0
    | none => return true

def logicalNot (h : Handle) : Run Handle := return .ofBool !(← truthy h)

/-! ## 3. Subscripts -/

def getItem (container key : Handle) : Run Handle := do
  match ← findHook container "__getitem__" with
  | none => typeError ("'" ++ (← className container) ++ "' object is not subscriptable")
  | some hook => call hook [container, key]

def setItem (container key value : Handle) : Run Unit := do
  match ← findHook container "__setitem__" with
  | none =>
    typeError ("'" ++ (← className container) ++ "' object does not support item assignment")
  | some hook =>
    let _ ← call hook [container, key, value]
    return ()

/-! ## 4. Binary operators -/

/-- `==`, with identity where no hook answers. -/
def equalsOp (left right : Handle) : Run Handle := do
  match ← askHooks BinaryOp.eq.hooks left right with
  | some answer => return answer
  | none => return .ofBool (left == right)

/-- `==` as a truth value. -/
def valuesEqual (left right : Handle) : Run Bool := do
  let answer ← equalsOp left right
  truthy answer

def notSupported {α : Type} (op : BinaryOp) : Run α :=
  typeError ("`" ++ op.symbol ++ "` is not implemented")

/-- Component `index` of what the `divmod` hooks answer. -/
def divmodComponent (op : BinaryOp) (index : Int64) (left right : Handle) : Run Handle := do
  match ← askHooks divmodHooks left right with
  | none => notSupported op
  | some both =>
    let key ← newInt index
    getItem both key

/-- What an operator does where no hook of its own answers. -/
def fallback (op : BinaryOp) (left right : Handle) : Run Handle :=
  match op with
  | .eq => return .ofBool (left == right)
  | .ne => return .ofBool !(← valuesEqual left right)
  | .floorDiv => divmodComponent op 0 left right
  | .mod => divmodComponent op 1 left right
  | _ => notSupported op

def binaryOp (op : BinaryOp) (left right : Handle) : Run Handle := do
  match ← askHooks op.hooks left right with
  | some answer => return answer
  | none => fallback op left right

/-- Quotient and remainder: what the `divmod` hooks answer, else the pair of `//` and `%`. -/
def divmod (left right : Handle) : Run Handle := do
  match ← askHooks divmodHooks left right with
  | some both => return both
  | none =>
    let quotient ← binaryOp .floorDiv left right
    let remainder ← binaryOp .mod left right
    newTuple [quotient, remainder]

/-! ## 5. Negation -/

def negate (h : Handle) : Run Handle := do
  match ← askHook h "__neg__" [h] with
  | some answer => return answer
  | none => typeError ("bad operand type for unary -: '" ++ (← className h) ++ "'")

/-! ## 6. Rendering -/

/-- The text that the hook `name` gives. -/
def renderWith (name : String) (h : Handle) : Run String := do
  match ← findHook h name with
  | none => typeError ("object has no " ++ name)
  | some hook =>
    let answer ← call hook [h]
    match ← textValue answer with
    | some text => return text
    | none => typeError (name ++ " returned non-string")

def repr (h : Handle) : Run String := renderWith "__repr__" h

/-- `str` of an object. -/
def toText (h : Handle) : Run String := renderWith "__str__" h

/-! ## 7. Raising an exception object -/

/-- Raises an object that was made before. Its message is what its `__str__` gives, or its arguments
in plain form if that fails. -/
def raiseValue {α : Type} (exception : Handle) : Run α := do
  let name ← className exception
  let message ←
    match ← Run.attempt (toText exception) with
    | .ok message => pure message
    | .error _ =>
      let args ← exceptionArgs exception
      inspectHeap fun heap => heap.plainMessage args
  throw (.raised exception (rendered name message))

end ObjectModel
