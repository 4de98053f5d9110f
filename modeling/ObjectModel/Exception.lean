import ObjectModel.Program

/-!
# Raising exceptions

An exception is an ordinary object whose attribute `args` holds the arguments it was made with; a
`StopIteration` also shows its first argument as `value`.

Raising an exception of a builtin kind runs no code: the object is made and rendered from payloads
alone, so it works at any call depth and whatever was done to the members of the exception types.
-/

namespace ObjectModel

/-! ## 1. Making the object -/

def storeArgs (exception : Handle) (args : List Handle) : Run Unit := do
  let tuple ← newTuple args
  setAttribute exception "args" tuple

/-- The value of a `StopIteration` is its first argument or `None`. -/
def storeStopValue (exception : Handle) (args : List Handle) : Run Unit :=
  setAttribute exception "value" (args.head?.getD .none)

/-- Name and message of an exception, or the name alone if there is no message. -/
def rendered (name message : String) : String :=
  if message.isEmpty then name else name ++ ": " ++ message

/-! ## 2. Raising -/

/-- Raises an exception of this kind with these arguments. -/
def raise {α : Type} (kind : ExceptionKind) (args : List Handle) : Run α := do
  let exception ← allocate (.bare kind.type)
  storeArgs exception args
  if kind = .stopIteration then
    storeStopValue exception args
  let message ← inspectHeap fun heap => heap.plainMessage args
  throw (.raised exception (rendered kind.name message))

/-- Raises an exception of this kind whose only argument is a text. -/
def raiseMessage {α : Type} (kind : ExceptionKind) (message : String) : Run α := do
  let text ← newText message
  raise kind [text]

def typeError {α : Type} (message : String) : Run α := raiseMessage .typeError message

def valueError {α : Type} (message : String) : Run α := raiseMessage .valueError message

def keyError {α : Type} (message : String) : Run α := raiseMessage .keyError message

def indexError {α : Type} (message : String) : Run α := raiseMessage .indexError message

def nameError {α : Type} (name : String) : Run α := raiseMessage .nameError name

def attributeError {α : Type} (name : String) : Run α := raiseMessage .attributeError name

def notImplementedError {α : Type} (message : String) : Run α :=
  raiseMessage .notImplementedError message

/-- Raises `StopIteration`, with the final value of a computation if there is one. -/
def stopIteration {α : Type} (value : Option Handle) : Run α := raise .stopIteration value.toList

/-! ## 3. Matching -/

/-- Whether a fault is a raised instance of `type`. -/
def isException (fault : Fault) (type : Handle) : Run Bool :=
  match fault.exception with
  | some exception => isInstance exception type
  | none => return false

def isStopIteration (fault : Fault) : Run Bool := isException fault ExceptionKind.stopIteration.type

/-! ## 4. Arities -/

/-- Refuses a list of arguments that is not between `least` and `most` long. -/
def wrongArity {α : Type} (name : String) (least most : Nat) (args : List Handle) : Run α :=
  let expected := if least = most then toString least else toString least ++ " to " ++ toString most
  typeError ("`" ++ name ++ "` expected " ++ expected ++ " arguments, got " ++ toString args.length)

end ObjectModel
