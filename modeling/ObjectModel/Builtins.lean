import ObjectModel.Iteration

/-!
# The builtin functions

Printing and reading, attributes, iteration, and the operators that have no spelling of their own.
-/

namespace ObjectModel

/-! ## 1. Parts -/

def writeText (text : String) : Run Unit := .ask (.write text)

def flushConsole : Run Unit := .ask .flush

def readLine : Run (Option String) := .ask .readLine

/-- The texts of the objects one after another. -/
def textItems : List Handle → Run (List String)
  | [] => return []
  | h :: rest => do
    let first ← toText h
    return first :: (← textItems rest)

/-- Writes a prompt and reads a line. `None` is no prompt. -/
def promptedLine (prompt : Option Handle) : Run Handle := do
  match prompt with
  | none => pure ()
  | some prompt =>
    if prompt = .none then pure ()
    else
      writeText (← toText prompt)
      flushConsole
  match ← readLine with
  | some line => newText line
  | none => valueError "EOF when reading a line"

def attributeName (function : BuiltinFunction) (h : Handle) : Run String := do
  match ← textValue h with
  | some name => return name
  | none => typeError ("`" ++ function.name ++ "` requires the attribute name to be str")

/-- Takes items until one has the wanted truth; answers whether there was one. -/
def searchTruth (wanted : Bool) (iterable : Handle) : Run Bool := do
  let iterator ← iter iterable
  Run.loop () fun _ => do
    match ← nextItem iterator with
    | none => return .inr false
    | some item => if (← truthy item) == wanted then return .inr true else return .inl ()

/-! ## 2. The functions -/

def BuiltinFunction.run : BuiltinFunction → List Handle → Run Handle
  | print, args => do
    let pieces ← textItems args
    writeText (Text.joinWith " " pieces ++ "\n")
    return .none
  | rawPrint, [h] => do
    writeText (← toText h)
    return .none
  | rawPrint, args => wrongArity rawPrint.name 1 1 args
  | input, [] => promptedLine none
  | input, [prompt] => promptedLine (some prompt)
  | input, args => wrongArity input.name 0 1 args
  | flush, [] => do
    flushConsole
    return .none
  | flush, args => wrongArity flush.name 0 0 args
  | repr, [h] => do newText (← ObjectModel.repr h)
  | repr, args => wrongArity repr.name 1 1 args
  | len, [h] => do newInt (Int64.ofNat (← length h))
  | len, args => wrongArity len.name 1 1 args
  | getattr, [h, name] => do
    let key ← attributeName getattr name
    getAttribute h key
  | getattr, [h, name, fallback] => do
    let key ← attributeName getattr name
    getAttributeOr h key fallback
  | getattr, args => wrongArity getattr.name 2 3 args
  | setattr, [h, name, value] => do
    let key ← attributeName setattr name
    setAttribute h key value
    return .none
  | setattr, args => wrongArity setattr.name 3 3 args
  | isinstance, [h, type] => do
    if ← isType type then return .ofBool (← isInstance h type)
    else typeError "isinstance() arg 2 must be a type"
  | isinstance, args => wrongArity isinstance.name 2 2 args
  | iter, [h] => ObjectModel.iter h
  | iter, [callable, sentinel] => newGenerator (.callUntil callable sentinel)
  | iter, args => wrongArity iter.name 1 2 args
  | next, [h] => ObjectModel.next h
  | next, [h, fallback] => nextOr h fallback
  | next, args => wrongArity next.name 1 2 args
  | all, [iterable] => return .ofBool !(← searchTruth false iterable)
  | all, args => wrongArity all.name 1 1 args
  | any, [iterable] => return .ofBool (← searchTruth true iterable)
  | any, args => wrongArity any.name 1 1 args
  | map, [function, iterable] => do
    let iterator ← ObjectModel.iter iterable
    newGenerator (.mapping function iterator)
  | map, args => wrongArity map.name 2 2 args
  | divmod, [l, r] => ObjectModel.divmod l r
  | divmod, args => wrongArity divmod.name 2 2 args
  | pow, [l, r] => binaryOp .pow l r
  | pow, args => wrongArity pow.name 2 2 args
  | id, [h] => newInt (Int64.ofNat h.id)
  | id, args => wrongArity id.name 1 1 args

end ObjectModel
