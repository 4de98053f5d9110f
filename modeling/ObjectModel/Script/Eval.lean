import ObjectModel.Builtins
import ObjectModel.Script.View
import ObjectModel.Types.Dict

/-!
# Evaluating scripts

An expression is evaluated in a frame, which keeps its local names also where the expression fails.
The result is an `Answer`; where an object is needed, `Answer.toValue` makes one of it.

An expression marks the handles that it gives to an operation, right before the operation, and those
that it gives back as the result of a function or of a step of a generator.
-/

namespace ObjectModel.Script

/-! ## 1. Answers -/

/-- What an operation answers. -/
inductive Answer where
  | value (h : Handle)
  | bool (b : Bool)
  | int (n : Int64)
  | text (s : String)
  | optional (h : Option Handle)
  | items (hs : List Handle)
  | nothing
  | report (r : Report)

namespace Answer

/-- The object that stands for an answer. -/
def toValue : Answer → Run Handle
  | value h => return h
  | bool b => return .ofBool b
  | int n => newInt n
  | text s => newText s
  | optional h => return h.getD .none
  | items hs => do
    handOver hs
    newTuple hs
  | nothing => return .none
  | report _ => return .none

/-- What a host sees of an answer; `none` means that a stale handle was looked up. -/
def toReport (heap : Heap) : Answer → Option Report
  | value h => return .value (← shown heap h)
  | bool b => some (.bool b)
  | int n => some (.int n.toInt)
  | text s => some (.text s)
  | optional none => some (.optional none)
  | optional (some h) => return .optional (← shown heap h)
  | items hs => return .items (← hs.mapM fun h => shown heap h)
  | nothing => some .nothing
  | report r => some r

/-- A result that may be missing. -/
def ofOption {α : Type} (make : α → Answer) : Option α → Answer
  | some x => make x
  | none => .nothing

end Answer

/-! ## 2. Evaluation in a frame -/

/-- A computation in a frame. The frame is kept where the computation fails. -/
abbrev Eval (α : Type) : Type 1 := ExceptT Fault (StateT Frame Program) α

namespace Eval

/-- A computation that does not look at the frame. -/
def ofRun {α : Type} (x : Run α) : Eval α := ExceptT.mk fun frame => do return (← x.run, frame)

instance : MonadLift (ExceptT Fault Program) (ExceptT Fault (StateT Frame Program)) := ⟨ofRun⟩

def frame : Eval Frame := ExceptT.mk fun frame => return (.ok frame, frame)

def setLocal (name : String) (value : Handle) : Eval Unit :=
  ExceptT.mk fun frame => return (.ok (), { frame with locals := frame.locals.insert name value })

/-- Turns the outcome of `x` into a value. -/
def attempt {α : Type} (x : Eval α) : Eval (Except Fault α) :=
  ExceptT.mk fun frame => do
    let (outcome, frame) ← x.run.run frame
    return (.ok outcome, frame)

/-- Repeats `body` until it answers on the right; a fault of `body` ends the loop. -/
def loop {σ β : Type} (start : σ) (body : σ → Eval (σ ⊕ β)) : Eval β :=
  ExceptT.mk fun frame => Program.loop (start, frame) fun (acc, frame) => do
    let (outcome, frame) ← (body acc).run.run frame
    match outcome with
    | .ok (.inl next) => return .inl (next, frame)
    | .ok (.inr answer) => return .inr (.ok answer, frame)
    | .error fault => return .inr (.error fault, frame)

/-- Evaluates `x` so many times; answers what it answered last. -/
def times (x : Eval Answer) : Nat → Answer → Eval Answer
  | 0, last => return last
  | n + 1, _ => do times x n (← x)

end Eval

/-! ## 3. Operations -/

def Constant.run : Constant → Eval Answer
  | notImplemented => return .value .notImplemented
  | arguments => return .items (← Eval.frame).args
  | argumentCount => return .int (Int64.ofNat (← Eval.frame).args.length)
  | globalNames => do
    let names ← inspect fun s => some s.globals.keys
    return .report (.texts names)
  | limits => do
    let limits ← inspect fun s => some s.limits
    return .report (.numbers [limits.callDepth, limits.baseChain])
  | output => do
    let text ← inspect fun s => some s.console.output
    return .text text
  | flushes => do
    let n ← inspect fun s => some s.console.flushes
    return .int (Int64.ofNat n)
  | objectCount => do
    let n ← inspect fun s => some s.objectCount
    return .int (Int64.ofInt n)
  | stop => Eval.ofRun (stopIteration none)

def UnaryOp.run (h : Handle) : UnaryOp → Run Answer
  | typeOf => return .value (← ObjectModel.typeOf h)
  | baseOf => return .optional (← object h).base
  | isType => return .bool (← ObjectModel.isType h)
  | typeName => return .text (← ObjectModel.typeName h)
  | isCallable => return .bool (← ObjectModel.isCallable h)
  | getAttribute name => return .value (← ObjectModel.getAttribute h name)
  | findAttribute name => return .optional (← ObjectModel.findAttribute h name)
  | deleteAttribute name => do
    ObjectModel.deleteAttribute h name
    return .nothing
  | member name => return .optional (← lookupMember h name)
  | boundParts =>
    return Answer.ofOption (fun (receiver, function) => .items [receiver, function])
      (← object h).boundParts
  | raiseValue => ObjectModel.raiseValue h
  | raiseMessage kind => do ObjectModel.raiseMessage kind ((← ObjectModel.textValue h).getD "")
  | stopWith => stopIteration (some h)
  | exceptionArgs => return .items (← ObjectModel.exceptionArgs h)
  | isGenerator => return .bool (← object h).isGenerator
  | generatorResult => return Answer.ofOption .optional (← ObjectModel.generatorResult h)
  | advance => return .value (← ObjectModel.advance h)
  | iter => return .value (← ObjectModel.iter h)
  | next => return .value (← ObjectModel.next h)
  | nextItem => return .optional (← ObjectModel.nextItem h)
  | collect => return .items (← ObjectModel.collect h)
  | negate => return .value (← ObjectModel.negate h)
  | not => return .value (← logicalNot h)
  | truthy => return .bool (← ObjectModel.truthy h)
  | length => return .int (Int64.ofNat (← ObjectModel.length h))
  | repr => return .text (← ObjectModel.repr h)
  | text => return .text (← toText h)
  | listItems => return Answer.ofOption .items (← ObjectModel.listItems h)
  | tupleItems => return Answer.ofOption .items (← ObjectModel.tupleItems h)
  | intValue => return Answer.ofOption .int (← ObjectModel.intValue h)
  | boolValue => return Answer.ofOption .bool (← ObjectModel.boolValue h)
  | textValue => return Answer.ofOption .text (← ObjectModel.textValue h)
  | isNone => return .bool (h == .none)
  | id => return .int (Int64.ofNat h.id)
  | slot => do
    let start ← inspect fun s => some s.foundation
    return .report (.numbers [(h.slot : Int) - start, h.generation])
  | pin => do
    Run.act (.pin h)
    return .nothing
  | unpin => do
    Run.act (.unpin h)
    return .nothing
  | isLive => return .bool (← inspectHeap fun heap => some (heap.contains h))

def PairOp.run (x y : Handle) : PairOp → Run Answer
  | isSubtype => return .bool (← ObjectModel.isSubtype x y)
  | isInstance => return .bool (← ObjectModel.isInstance x y)
  | attributeOr name => return .value (← getAttributeOr x name y)
  | setAttribute name => do
    ObjectModel.setAttribute x name y
    return .nothing
  | nextOr => return .value (← ObjectModel.nextOr x y)
  | operator op => return .value (← binaryOp op x y)
  | equal => return .bool (← valuesEqual x y)
  | divmod => return .value (← ObjectModel.divmod x y)
  | getItem => return .value (← ObjectModel.getItem x y)
  | dictGet => return .optional (← ObjectModel.dictGet x y)
  | identical => return .bool (x == y)
  | sameId => return .bool (x.id == y.id)

def TripleOp.run (x y z : Handle) : TripleOp → Run Answer
  | setItem => do
    ObjectModel.setItem x y z
    return .nothing
  | dictSet => do
    ObjectModel.dictSet x y z
    return .nothing

/-- Stores keys and values in turn. -/
def fillDict (dict : Handle) : List Handle → Run Unit
  | key :: value :: rest => do
    ObjectModel.dictSet dict key value
    fillDict dict rest
  | _ => return ()

def ListOp.run (xs : List Handle) : ListOp → Run Answer
  | tuple => return .value (← newTuple xs)
  | list => return .value (← newList xs)
  | dict => do
    let made ← newDict
    fillDict made xs
    return .value made
  | callGlobal name => return .value (← ObjectModel.callGlobal name xs)
  | callBuiltin function => return .value (← function.run xs)
  | raise kind => ObjectModel.raise kind xs
  | collectGarbage => do
    let _ ← ObjectModel.collectGarbage xs
    let n ← inspect fun s => some s.objectCount
    return .int (Int64.ofInt n)
  | reclaim => return .int (Int64.ofNat (← ObjectModel.collectGarbage xs))

def ApplyOp.run (x : Handle) (args : List Handle) : ApplyOp → Run Answer
  | call => return .value (← ObjectModel.call x args)
  | callMethod name => return .value (← ObjectModel.callMethod x name args)
  | instantiate => return .value (← ObjectModel.instantiate x args)

/-! ## 4. Names and faults -/

/-- A local name, else a shared one. -/
def nameValue (name : String) : Eval Handle := do
  match (← Eval.frame).locals.get? name with
  | some value => return value
  | none =>
    match ← inspect fun s => some (s.shared.get? name) with
    | some value => return value
    | none => Eval.ofRun (nameError name)

/-- The argument at `index`. -/
def argument (index : Nat) : Eval Handle := do
  match (← Eval.frame).args[index]? with
  | some value => return value
  | none => Eval.ofRun (typeError ("missing argument " ++ toString index))

/-- What a host sees of an expression that may have failed. -/
def probeReport (fault : Fault) (types : List Handle) : Run Answer := do
  let matched ← types.mapM fun type => isException fault type
  let stop ← isStopIteration fault
  let seen ← inspectHeap fun heap => FaultView.ofFault heap fault
  return .report (.failed seen matched stop)

/-! ## 5. Expressions -/

mutual

/-- Evaluates an expression. -/
def Expr.eval : Expr → Eval Answer
  | null => return .value .none
  | bool b => return .value (.ofBool b)
  | int n => return .value (← newInt n)
  | text s => return .value (← newText s)
  | name n => return .value (← nameValue n)
  | setLocal n e => do
    let value ← (← e.eval).toValue
    Eval.setLocal n value
    return .value value
  | setShared n e => do
    let value ← (← e.eval).toValue
    Run.act (.setShared n value)
    return .value value
  | block es => Expr.evalBlock es (.value .none)
  | times count e => Eval.times e.eval count (.value .none)
  | choose condition yes no => do
    let value ← (← condition.eval).toValue
    handOver [value]
    if ← ObjectModel.truthy value then yes.eval else no.eval
  | rescue e guard handler => do
    match ← Eval.attempt e.eval with
    | .ok answer => return answer
    | .error fault =>
      match guard with
      | none => pure ()
      | some type =>
        let type ← (← type.eval).toValue
        handOver [type]
        if !(← isException fault type) then
          throw fault
      Eval.setLocal "err" (fault.exception.getD .none)
      handler.eval
  | probe e types => do
    match ← Eval.attempt e.eval with
    | .ok answer =>
      let seen ← inspectHeap fun heap => answer.toReport heap
      return .report (.succeeded seen)
    | .error fault =>
      let types ← Expr.evalAll types
      handOver types
      probeReport fault types
  | argument index => return .value (← Script.argument index)
  | builtinType t => return .value t.handle
  | global n => return .value (← globalValue n)
  | setGlobal n e => do
    let value ← (← e.eval).toValue
    handOver [value]
    Run.act (.setGlobal n value)
    return .value value
  | function n body => return .value (← allocate (.ofCode n (.script body)))
  | generator steps held ending => do
    let held ← Expr.evalAll held
    handOver held
    return .value (← newGenerator (.script steps ending held 0 (.ofArgs [])))
  | defineType n base members => do
    let base ← match base with
      | none => pure none
      | some e => some <$> (do (← e.eval).toValue : Eval Handle)
    let members ← Expr.evalMembers members
    handOver (base.toList ++ members.map (·.2))
    return .value (← ObjectModel.defineType n base members)
  | forEach iterable body => do
    let iterable ← (← iterable.eval).toValue
    handOver [iterable]
    let iterator ← ObjectModel.iter iterable
    let count ← Eval.loop 0 fun count => do
      match ← ObjectModel.nextItem iterator with
      | none => return .inr count
      | some item =>
        Eval.setLocal "it" item
        let _ ← body.eval
        return .inl (count + 1)
    return .int count
  | operatorInfo op =>
    return .report (.texts [op.symbol, op.hooks.forward, op.hooks.reflected, op.symbol])
  | exceptionInfo kind => do
    let shown ← ObjectModel.typeName kind.type
    return .report (.texts [kind.name, kind.name, shown])
  | builtinInfo n => return .report (.known ((BuiltinFunction.ofName? n).map (·.name)))
  | constant op => op.run
  | unary op x => do
    let x ← (← x.eval).toValue
    handOver [x]
    op.run x
  | pair op x y => do
    let x ← (← x.eval).toValue
    let y ← (← y.eval).toValue
    handOver [x, y]
    op.run x y
  | triple op x y z => do
    let x ← (← x.eval).toValue
    let y ← (← y.eval).toValue
    let z ← (← z.eval).toValue
    handOver [x, y, z]
    op.run x y z
  | list op xs => do
    let xs ← Expr.evalAll xs
    handOver xs
    op.run xs
  | apply op x args => do
    let x ← (← x.eval).toValue
    let args ← Expr.evalAll args
    handOver (x :: args)
    op.run x args
termination_by structural e => e

/-- Evaluates operands from left to right. -/
def Expr.evalAll : List Expr → Eval (List Handle)
  | [] => return []
  | e :: es => do
    let value ← (← e.eval).toValue
    return value :: (← Expr.evalAll es)
termination_by structural es => es

/-- Evaluates one expression after another; answers what the last one answers. -/
def Expr.evalBlock : List Expr → Answer → Eval Answer
  | [], last => return last
  | e :: es, _ => do Expr.evalBlock es (← e.eval)
termination_by structural es => es

/-- Evaluates the members of a type in order. -/
def Expr.evalMembers : List (String × Expr) → Eval (List (String × Handle))
  | [] => return []
  | (member, e) :: es => do
    let value ← (← e.eval).toValue
    return (member, value) :: (← Expr.evalMembers es)
termination_by structural es => es

end

/-- The object that an expression gives back. -/
def Expr.value (e : Expr) : Eval Handle := do
  let value ← (← e.eval).toValue
  handOver [value]
  return value

/-- Runs the body of a function on its arguments. -/
def Expr.applyTo (body : Expr) (args : List Handle) : Run Handle := ExceptT.mk do
  let (outcome, _) ← body.value.run.run (.ofArgs args)
  return outcome

/-! ## 6. Generators -/

/-- The step that a script takes at `position`. -/
def stepAt? (steps : List (Step Expr)) (ending : Ending) (position : Nat) : Option (Step Expr) :=
  match ending with
  | .completes => steps[position]?
  | .repeats => steps[position % steps.length]?

/-- Takes one step of a script in its frame; answers how it came back and the frame. -/
def Step.run (step : Option (Step Expr)) (frame : Frame) : Run (Resumption × Frame) :=
  let take (e : Expr) (make : Handle → Resumption) : Run (Resumption × Frame) := ExceptT.mk do
    let (outcome, frame) ← e.value.run.run frame
    return outcome.map fun h => (make h, frame)
  match step with
  | some (.yield e) => take e .yielded
  | some (.complete (some e)) => take e fun h => .completed (some h)
  | some (.complete none) => return (.completed none, frame)
  | none => return (.completed none, frame)

end ObjectModel.Script
