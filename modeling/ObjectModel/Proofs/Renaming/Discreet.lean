import ObjectModel.Proofs.Run.Log

/-!
# Code that asks for no numbers

Slots, identity numbers and counts of objects are all that a script can learn about where objects
stand. Code is discreet if it does nothing with them but drop them.

* `Code.Discreet`, `Coroutine.Discreet` -- functions and computations that are discreet.
* `Entry.Discreet` -- an entry of a log that runs discreet code only and hands over no dead handle.
-/

namespace ObjectModel

namespace Script

/-! ## 1. Operations -/

/-- What becomes of an answer. -/
inductive Use where
  | dropped
  /-- A host notes it, and expects no particular number. -/
  | noted
  /-- It is stored under a name or handed over. -/
  | stored
  /-- A host sees what it names. -/
  | shown
  deriving DecidableEq

/-- The use of a value that is stored and answered. -/
def Use.orStored : Use → Use
  | shown => shown
  | _ => stored

/-- Whether any number will do that is used so. -/
def Use.anyNumber : Use → Bool
  | dropped => true
  | noted => true
  | _ => false

/-- Whether an operation without operands may be used so. The arguments of a function may mention
dead handles. -/
def Constant.discreet : Constant → Use → Bool
  | objectCount, use => use.anyNumber
  | arguments, use => use ≠ .shown
  | _, _ => true

def UnaryOp.discreet : UnaryOp → Use → Bool
  | id, use => use.anyNumber
  | slot, use => use.anyNumber
  | _, _ => true

def PairOp.discreet : PairOp → Use → Bool
  | sameId, use => use.anyNumber
  | _, _ => true

def ListOp.discreet : ListOp → Use → Bool
  | collectGarbage, use => use.anyNumber
  | reclaim, use => use.anyNumber
  | callBuiltin .id, use => use = .dropped
  | _, _ => true

/-! ## 2. Expressions -/

mutual

/-- Whether an expression whose answer is used so learns no number, and shows no name that may be
dead. -/
def Expr.discreet : Expr → Use → Bool
  | name _, use => use ≠ .shown
  | argument _, use => use ≠ .shown
  | setLocal _ e, use => e.discreet use.orStored
  | setShared _ e, use => e.discreet use.orStored
  | setGlobal _ e, _ => e.discreet .stored
  | block es, use => Expr.discreetBlock es use
  | times _ e, use => e.discreet use
  | choose condition yes no, use =>
    condition.discreet .stored && yes.discreet use && no.discreet use
  | rescue e none handler, use => e.discreet use && handler.discreet use
  | rescue e (some type) handler, use =>
    e.discreet use && type.discreet .stored && handler.discreet use
  | probe e types, _ => e.discreet .shown && Expr.discreetAll types
  | generator _ held _, _ => Expr.discreetAll held
  | defineType _ none members, _ => Expr.discreetMembers members
  | defineType _ (some base) members, _ => base.discreet .stored && Expr.discreetMembers members
  | forEach iterable body, _ => iterable.discreet .stored && body.discreet .dropped
  | constant op, use => op.discreet use
  | unary op x, use => x.discreet .stored && op.discreet use
  | pair op x y, use => x.discreet .stored && y.discreet .stored && op.discreet use
  | triple _ x y z, _ => x.discreet .stored && y.discreet .stored && z.discreet .stored
  | list op xs, use => Expr.discreetAll xs && op.discreet use
  | apply _ x args, _ => x.discreet .stored && Expr.discreetAll args
  | _, _ => true
termination_by structural e => e

/-- Operands are handed over. -/
def Expr.discreetAll : List Expr → Bool
  | [] => true
  | e :: es => e.discreet .stored && Expr.discreetAll es
termination_by structural es => es

/-- All answers but the last one are dropped. -/
def Expr.discreetBlock : List Expr → Use → Bool
  | [], _ => true
  | [e], use => e.discreet use
  | e :: es, use => e.discreet .dropped && Expr.discreetBlock es use
termination_by structural es => es

def Expr.discreetMembers : List (String × Expr) → Bool
  | [] => true
  | (_, e) :: es => e.discreet .stored && Expr.discreetMembers es
termination_by structural es => es

end

/-- What a step of a generator gives back is handed over. -/
def Step.discreet : Step Expr → Bool
  | .yield e => e.discreet .stored
  | .complete (some e) => e.discreet .stored
  | .complete none => true

end Script

/-! ## 3. Runs -/

def Code.Discreet : Code → Prop
  | member _ => True
  | builtin f => f ≠ .id
  | script body => body.discreet .stored = true

def Coroutine.Discreet : Coroutine → Prop
  | script steps _ _ _ _ => ∀ step ∈ steps, step.discreet = true
  | _ => True

/-- Scripts hand over no dead handle, and functions that are called are discreet. -/
def Action.Discreet {β : Type} (dead : Handle → Prop) : Action β → State → Prop
  | handOver handles, _ => ∀ h ∈ handles, ¬ dead h
  | call callee _, s => ∀ o name code, s.heap.get? callee = some o →
      o.payload = .function name code → code.Discreet
  | _, _ => True

/-- **A discreet entry of a log**: no dead handle is handed over, and the code that is run asks for
no numbers. -/
def Entry.Discreet (dead : Handle → Prop) (x : Entry) : Prop :=
  match x.event with
  | .performed action before _ => action.Discreet dead before
  | .resumed _ computation _ _ => computation.Discreet

end ObjectModel
