import ObjectModel.Protocol

/-!
# Iteration and generators

An iterable answers `__iter__` with an iterator; an iterator answers `__next__` with its next item
or raises `StopIteration`. A generator wraps a suspended computation and turns its completion into
`StopIteration`.
-/

namespace ObjectModel

/-! ## 1. Generators -/

/-- How a resumed computation came back. -/
inductive Resumption where
  | yielded (value : Handle)
  | completed (result : Option Handle)

/-- The answer to a request whose computation came back: the yielded value, `StopIteration` with the
final value, or the fault of the computation. -/
def conclude : Except Fault Resumption → Run Handle
  | .ok (.yielded value) => return value
  | .ok (.completed result) => stopIteration result
  | .error fault => throw fault

/-- The answer to a request that resumes nothing: a stopped generator raises `StopIteration`, a
running one `ValueError`. -/
def refusal : Payload → Run Handle
  | .generator (.stopped _) => stopIteration none
  | .generator .running => valueError "generator already executing"
  | payload => throw (.intrinsic (.advance payload.kindName))

/-- The result of a generator, once it has stopped. -/
def generatorResult (h : Handle) : Run (Option (Option Handle)) :=
  return (← object h).generatorResult

/-! ## 2. Iterators -/

def iter (iterable : Handle) : Run Handle := do
  match ← findHook iterable "__iter__" with
  | none => typeError "Call `iter` on non-iterable type"
  | some hook => call hook [iterable]

def next (iterator : Handle) : Run Handle := do
  match ← findHook iterator "__next__" with
  | none => typeError "Call `next` on non-iterator type"
  | some hook => call hook [iterator]

/-- The next item, or none where `next` raises `StopIteration`. -/
def nextItem (iterator : Handle) : Run (Option Handle) := do
  match ← Run.attempt (next iterator) with
  | .ok item => return some item
  | .error fault => if ← isStopIteration fault then return none else throw fault

def nextOr (iterator fallback : Handle) : Run Handle := return (← nextItem iterator).getD fallback

/-! ## 3. Consuming an iterable -/

/-- Folds `body` over the items of an iterable. -/
def forEach {σ : Type} (iterable : Handle) (start : σ) (body : σ → Handle → Run σ) : Run σ := do
  let iterator ← iter iterable
  Run.loop start fun acc => do
    match ← nextItem iterator with
    | none => return .inr acc
    | some item => return .inl (← body acc item)

/-- All items of an iterable. -/
def collect (iterable : Handle) : Run (List Handle) := do
  let items ← forEach iterable #[] fun items item => return items.push item
  return items.toList

end ObjectModel
