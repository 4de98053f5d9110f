import ObjectModel.Script.Eval

/-!
# Resuming suspended computations

One resumption of each kind of computation: how it comes back and what is left of it.
-/

namespace ObjectModel

/-- How a resumption came back, with the computation that is left. -/
structure Resumed where
  resumption : Resumption
  rest : Coroutine

/-- Comes back with a value; `rest` is left. -/
def Resumed.yield (value : Handle) (rest : Coroutine) : Resumed := ⟨.yielded value, rest⟩

/-- Runs a computation up to its next yield or to its end. -/
def Coroutine.resume (c : Coroutine) : Run Resumed :=
  match c with
  | items held (h :: rest) covered =>
    return .yield h (.items held rest (List.subset_of_cons_subset covered))
  | items _ [] _ => return ⟨.completed none, c⟩
  | entries held ((key, value) :: rest) covered => do
    let name ← newText key
    return .yield (← newTuple [name, value])
      (.entries held rest (List.subset_of_cons_subset covered))
  | entries _ [] _ => return ⟨.completed none, c⟩
  | characters (char :: rest) =>
    return .yield (← newText (String.singleton char)) (.characters rest)
  | characters [] => return ⟨.completed none, c⟩
  | progression bounds (some current) => do
    if bounds.admits current then
      return .yield (← newInt current) (.progression bounds (bounds.after current))
    else return ⟨.completed none, c⟩
  | progression _ none => return ⟨.completed none, c⟩
  | mapping function iterator => do
    match ← nextItem iterator with
    | some item => return .yield (← call function [item]) c
    | none => return ⟨.completed none, c⟩
  | callUntil callable sentinel => do
    let value ← call callable []
    if ← valuesEqual value sentinel then return ⟨.completed none, c⟩ else return .yield value c
  | script steps ending held position frame => do
    let (resumption, frame) ← Script.Step.run (Script.stepAt? steps ending position) frame
    return ⟨resumption, .script steps ending held (position + 1) frame⟩

end ObjectModel
