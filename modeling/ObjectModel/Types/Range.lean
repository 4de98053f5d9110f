import ObjectModel.Exception

/-!
# Members of `range`

A range keeps its bounds in the attributes `start`, `end` and `step`. They may be assigned; the
members use what is there as long as it is three integers with a step other than zero.
-/

namespace ObjectModel

/-- An attribute that holds an integer. -/
def intAttribute (h : Handle) (name : String) : Run (Option Int64) := do
  match (← object h).attributes.get? name with
  | none => return none
  | some value => intValue value

/-- The bounds of the range a member was called on. -/
def rangeReceiver (name : String) (h : Handle) : Run Progression := do
  match ← intAttribute h "start", ← intAttribute h "end", ← intAttribute h "step" with
  | some start, some stop, some step =>
    if step = 0 then typeError ("`" ++ name ++ "` requires an initialized range")
    else return ⟨start, stop, step⟩
  | _, _, _ => typeError ("`" ++ name ++ "` requires an initialized range")

def rangeBound (field : String) (h : Handle) : Run Int64 := do
  match ← intValue h with
  | some n => return n
  | none => typeError ("`range` " ++ field ++ " should be int")

/-- Stores the bounds, once all of them are known to be fit for a range. -/
def rangeInit (h start stop step : Handle) : Run Handle := do
  let _ ← rangeBound "start" start
  let _ ← rangeBound "end" stop
  let width ← rangeBound "step" step
  if width = 0 then valueError "`range` step cannot be zero"
  setAttribute h "start" start
  setAttribute h "end" stop
  setAttribute h "step" step
  return .none

/-- Bounds in parentheses; a step of one is left out. -/
def Progression.text (p : Progression) : String :=
  let ends := Text.ofInt p.start.toInt ++ ", " ++ Text.ofInt p.stop.toInt
  if p.step = 1 then "range(" ++ ends ++ ")"
  else "range(" ++ ends ++ ", " ++ Text.ofInt p.step.toInt ++ ")"

def RangeMember.run : RangeMember → List Handle → Run Handle
  | init, [h, stop] => do
    let start ← newInt 0
    let step ← newInt 1
    rangeInit h start stop step
  | init, [h, start, stop] => do
    let step ← newInt 1
    rangeInit h start stop step
  | init, [h, start, stop, step] => rangeInit h start stop step
  | init, args => wrongArity "range.__init__" 2 4 args
  | iter, [h] => do
    let bounds ← rangeReceiver "range.__iter__" h
    newGenerator (.progression bounds (some bounds.start))
  | iter, args => wrongArity "range.__iter__" 1 1 args
  | len, [h] => do
    let bounds ← rangeReceiver "range.__len__" h
    match Arithmetic.fit? bounds.length with
    | some n => newInt n
    | none => valueError "range length does not fit in an int"
  | len, args => wrongArity "range.__len__" 1 1 args
  | repr, [h] => do newText (← rangeReceiver "range.__repr__" h).text
  | repr, args => wrongArity "range.__repr__" 1 1 args

end ObjectModel
