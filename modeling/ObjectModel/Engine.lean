import ObjectModel.Program

/-!
# Running programs

An `Engine` answers the calls and the requests to generators that programs ask for. Given one,
`Program.run` performs the actions of a program in order. Nothing is assumed of the engine here; the
module `Machine` builds the one that runs the code of the objects.

A run ends in one of three ways: with the program's answer, by looking up a stale handle, or without
having finished in the number of rounds that the engine allows.
-/

namespace ObjectModel

/-- Why a run ended without an answer. -/
inductive Abort where
  /-- A handle was looked up whose object is gone. -/
  | stale
  /-- The bound on nested calls or on rounds of a loop was reached. -/
  | unfinished
  deriving DecidableEq

/-- How a run ended, with the state it left behind. -/
inductive Outcome (α : Type) where
  | done (value : α) (state : State)
  | aborted (reason : Abort) (state : State)

namespace Outcome

variable {α β : Type}

def state : Outcome α → State
  | done _ s => s
  | aborted _ s => s

/-- Goes on where a run came to an answer. -/
def andThen (o : Outcome α) (f : α → State → Outcome β) : Outcome β :=
  match o with
  | done value s => f value s
  | aborted reason s => aborted reason s

end Outcome

/-- Answers the calls of programs and their requests to generators. -/
structure Engine where
  call : Handle → List Handle → State → Outcome (Except Fault Handle)
  advance : Handle → State → Outcome (Except Fault Handle)
  /-- Bound on the rounds of a loop. -/
  rounds : Nat

/-- Changes the object `h` names, unless it is stale. -/
def whenLive (s : State) (h : Handle) (change : State → State) : Outcome Unit :=
  if s.heap.contains h then .done () (change s) else .aborted .stale s

/-- Performs one action. -/
def Action.perform (engine : Engine) {β : Type} : Action β → State → Outcome β
  | inspect look, s =>
    match look s with
    | some answer => .done answer s
    | none => .aborted .stale s
  | allocate object, s =>
    let (h, s) := s.allocate object
    .done h s
  | setAttribute target name value, s => whenLive s target fun s => s.setAttribute target name value
  | eraseAttribute target name, s => whenLive s target fun s => s.eraseAttribute target name
  | setEntry dict key value, s =>
    whenLive s dict fun s => s.modifyEntries dict fun entries => entries.insert key value
  | eraseEntry dict key, s =>
    whenLive s dict fun s => s.modifyEntries dict fun entries => entries.erase key
  | setGlobal name value, s => .done () { s with globals := s.globals.insert name value }
  | setShared name value, s => .done () { s with shared := s.shared.insert name value }
  | pin h, s => .done () { s with pins := s.pins.pin h }
  | unpin h, s => .done () { s with pins := s.pins.unpin h }
  | collect extra, s =>
    let (answer, s) := s.collect extra
    .done answer s
  | handOver _, s => .done () s
  | write text, s =>
    let (answer, s) := s.write text
    .done answer s
  | flush, s =>
    let (answer, s) := s.flush
    .done answer s
  | readLine, s =>
    let (answer, s) := s.readLine
    .done answer s
  | call callee args, s => engine.call callee args s
  | advance generator, s => engine.advance generator s

/-- Repeats `body` until it answers on the right, for at most the given number of rounds. -/
def repeatUntil {σ β : Type} (body : σ → State → Outcome (σ ⊕ β)) : Nat → σ → State → Outcome β
  | 0, _, s => .aborted .unfinished s
  | rounds + 1, acc, s =>
    match body acc s with
    | .done (.inl next) s => repeatUntil body rounds next s
    | .done (.inr answer) s => .done answer s
    | .aborted reason s => .aborted reason s

/-- Performs the actions of a program in order. -/
def Program.run (engine : Engine) {α : Type} (p : Program α) (s : State) : Outcome α :=
  match p with
  | pure value => .done value s
  | perform action next =>
    match action.perform engine s with
    | .done answer s => (next answer).run engine s
    | .aborted reason s => .aborted reason s
  | iterate body start next =>
    match repeatUntil (fun acc s => (body acc).run engine s) engine.rounds start s with
    | .done answer s => (next answer).run engine s
    | .aborted reason s => .aborted reason s

/-! ## Composed programs -/

namespace Program

variable {α β : Type}

@[simp] theorem run_pure (engine : Engine) (value : α) (s : State) :
    (Pure.pure value : Program α).run engine s = .done value s := rfl

@[simp] theorem run_act (engine : Engine) (action : Action β) (s : State) :
    (act action).run engine s = action.perform engine s := by
  simp only [act, run]
  split <;> simp_all

/-- A composed program runs its first part and goes on from the state it left. -/
@[simp] theorem run_bind (engine : Engine) (p : Program α) (f : α → Program β) (s : State) :
    (p >>= f).run engine s = (p.run engine s).andThen fun value s => (f value).run engine s := by
  change (p.bind f).run engine s = _
  induction p generalizing s with
  | pure value => rfl
  | perform action next ih =>
    simp only [bind, run]
    split
    · exact ih _ f _
    · rfl
  | iterate body start next _ ih =>
    simp only [bind, run]
    split
    · exact ih _ f _
    · rfl

end Program

end ObjectModel
