import ObjectModel.Coroutine
import ObjectModel.Engine
import ObjectModel.Types.Basic
import ObjectModel.Types.Exception
import ObjectModel.Types.Generator
import ObjectModel.Types.List
import ObjectModel.Types.Range
import ObjectModel.Types.Scalar
import ObjectModel.Types.Str
import ObjectModel.Types.Tuple

/-!
# The machine

The engine that runs the code of the objects.

* A call is refused at the depth limit. Below it, a function runs its code, a bound method passes
  the call on with its receiver in front, and any other object passes it on to the `__call__` of its
  type with itself in front.
* A request to a suspended generator takes the computation out of it, runs it one level deeper and
  puts back what is left of it. A stopped or running generator answers without being resumed.

Calls and requests nest. `engine n` answers those that nest no deeper than `n`; the call depth alone
does not bound them, because a request is not refused at the limit.
-/

namespace ObjectModel

/-! ## 1. Code -/

def Member.run : Member → List Handle → Run Handle
  | object m, args => m.run args
  | type m, args => m.run args
  | function m, args => m.run args
  | none m, args => m.run args
  | notImplemented m, args => m.run args
  | int m, args => m.run args
  | bool m, args => m.run args
  | str m, args => m.run args
  | tuple m, args => m.run args
  | dict m, args => m.run args
  | list m, args => m.run args
  | range m, args => m.run args
  | generator m, args => m.run args
  | exception m, args => m.run args
  | stopIterationInit, args => ObjectModel.stopIterationInit args

def Code.run : Code → List Handle → Run Handle
  | member m, args => m.run args
  | builtin f, args => f.run args
  | script body, args => body.applyTo args

/-! ## 2. Calls -/

/-- What a call does once it was admitted. -/
def dispatch (callee : Handle) (args : List Handle) : Run Handle := do
  match (← object callee).payload with
  | .function _ code => code.run args
  | .bound receiver function => call function (receiver :: args)
  | _ =>
    match ← findHook callee "__call__" with
    | some hook => call hook (callee :: args)
    | none => typeError "Call to uncallable object"

/-- Runs one level deeper. -/
def nested {α : Type} (run : State → Outcome α) (s : State) : Outcome α :=
  match run s.enter with
  | .done value s => .done value s.leave
  | .aborted reason s => .aborted reason s.leave

/-- Admits a call below the depth limit. -/
def belowLimit (run : State → Outcome (Except Fault Handle)) (s : State) :
    Outcome (Except Fault Handle) :=
  if s.limits.callDepth ≤ s.callDepth then .done (.error (.callDepthExceeded s.limits.callDepth)) s
  else nested run s

/-! ## 3. Requests to generators -/

/-- Puts back what a resumption left of its generator: the rest behind a yield, else nothing. -/
def settle (generator : Handle) : Except Fault Resumed → State → Outcome (Except Fault Resumption)
  | .ok ⟨.yielded value, rest⟩, s =>
    .done (.ok (.yielded value)) (s.setGenerator generator (.suspended rest))
  | .ok ⟨.completed result, _⟩, s =>
    .done (.ok (.completed result)) (s.setGenerator generator (.stopped result))
  | .error fault, s => .done (.error fault) (s.setGenerator generator (.stopped none))

/-- Runs the computation of a generator, which counts as running meanwhile. -/
def resumeWith (run : State → Outcome (Except Fault Resumed)) (generator : Handle) (s : State) :
    Outcome (Except Fault Resumption) :=
  (nested run (s.setGenerator generator .running)).andThen (settle generator)

/-- Resumes the computation of a suspended generator; any other object answers for itself. -/
def advanceWith (engine : Engine) (generator : Handle) (s : State) :
    Outcome (Except Fault Handle) :=
  match s.heap.get? generator with
  | none => .aborted .stale s
  | some object =>
    match object.payload with
    | .generator (.suspended computation) =>
      (resumeWith (computation.resume.run.run engine) generator s).andThen fun back s =>
        (conclude back).run.run engine s
    | payload => (refusal payload).run.run engine s

/-! ## 4. The engine -/

/-- Answers calls and requests that nest no deeper than the bound, and loops of no more rounds. -/
def engine : Nat → Engine
  | 0 =>
    { call := fun _ _ s => .aborted .unfinished s
      advance := fun _ s => .aborted .unfinished s
      rounds := 0 }
  | n + 1 =>
    { call := fun callee args => belowLimit ((dispatch callee args).run.run (engine n))
      advance := fun generator s => advanceWith (engine n) generator s
      rounds := n + 1 }

/-- Runs a program from a state, with `n` as the bound on nesting and rounds. -/
def Run.exec {α : Type} (x : Run α) (n : Nat) (s : State) : Outcome (Except Fault α) :=
  x.run.run (engine n) s

end ObjectModel
