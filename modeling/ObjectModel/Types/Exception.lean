import ObjectModel.Types.Sequence

/-!
# Members of `Exception` and `StopIteration`

An exception keeps the arguments it was made with and shows them as its message.
-/

namespace ObjectModel

/-- The message: empty, the text of a single argument, or the rendered tuple of all. -/
def exceptionText (args : List Handle) : Run String := do
  match args with
  | [] => return ""
  | [only] => toText only
  | items => repr (← newTuple items)

def ExceptionMember.run : ExceptionMember → List Handle → Run Handle
  | init, [] => typeError "`Exception.__init__` needs a receiver"
  | init, h :: args => do
    storeArgs h args
    return .none
  | str, [h] => do newText (← exceptionText (← exceptionArgs h))
  | str, args => wrongArity "Exception.__str__" 1 1 args
  | repr, [h] => do
    let name ← className h
    let pieces ← renderItems (← exceptionArgs h)
    newText (name ++ "(" ++ Text.joinWith ", " pieces ++ ")")
  | repr, args => wrongArity "Exception.__repr__" 1 1 args

def stopIterationInit : List Handle → Run Handle
  | [] => typeError "`StopIteration.__init__` needs a receiver"
  | h :: args => do
    storeArgs h args
    storeStopValue h args
    return .none

end ObjectModel
