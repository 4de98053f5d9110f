import ObjectModel.Bootstrap
import ObjectModel.Limits.Document
import ObjectModel.Machine

/-!
# Sessions

A host sets up a state and sends it expressions, which are evaluated one after another in one frame.
An expression that fails does not keep the next one from being evaluated; one that looks up a stale
handle ends the session, and so does a result that cannot be described without looking one up.
-/

namespace ObjectModel.Session

open Script

/-! ## 1. Setup -/

/-- Where the limits of a session come from. -/
inductive LimitSource where
  | standard
  | document (text : String)
  | explicit (limits : Limits)

def LimitSource.limits : LimitSource → Except LimitError Limits
  | standard => .ok .standard
  | document text => Limits.ofDocument text
  | explicit limits => limits.validate

/-! ## 2. Steps -/

/-- Bound on the nesting of calls and on the rounds of a loop. -/
def patience : Nat := Nat.pow 10 12

/-- What the host sees of an outcome, read off the heap that the outcome left. -/
def report (heap : Heap) : Except Fault Answer → Option Report
  | .ok answer => answer.toReport heap
  | .error fault => return .fault (← FaultView.ofFault heap fault)

/-- Evaluates one expression; answers what the host sees of it and, unless the session ended, the
frame and the state behind it. -/
def step (e : Expr) (frame : Frame) (s : State) : Report × Option Frame × State :=
  match (e.eval.run.run frame).run (engine patience) s with
  | .done (outcome, frame) s =>
    match report s.heap outcome with
    | some seen => (seen, some frame, s)
    | none => (.stale, none, s)
  | .aborted .stale s => (.stale, none, s)
  | .aborted .unfinished s => (.unfinished, none, s)

/-- Evaluates expressions in order up to the end of the session. -/
def steps : List Expr → Frame → State → List Report × State
  | [], _, s => ([], s)
  | e :: es, frame, s =>
    match step e frame s with
    | (report, some frame, s) =>
      let (reports, s) := steps es frame s
      (report :: reports, s)
    | (report, none, s) => ([report], s)

/-- Evaluates expressions from the first state on. -/
def run (limits : Limits) (console : Console) (es : List Expr) : List Report × State :=
  steps es (.ofArgs []) (.initial limits console)

end ObjectModel.Session
