import ObjectModel.Proofs.Faults.Candid

/-!
# Builtin code leaves faults alone

* `Run.Composed.candid` -- **all that is composed leaves faults alone**, and so does all builtin
  code.
-/

namespace ObjectModel

open Run (Candid)

/-- **What is composed leaves faults alone.** -/
theorem Run.Composed.candid {α : Type} [HasHandles α] {iterates : Prop} {K : List Handle}
    {x : Run α} (hx : x.Composed iterates K) : x.Candid iterates := by
  have hlook : ∀ {β : Type} (look : State → Option β), Candid iterates (inspect look) :=
    fun look => .act fun _ => rfl
  have hallocate : ∀ object, Candid iterates (ObjectModel.allocate object) :=
    fun object => .act fun _ => rfl
  have hisType : ∀ type, Candid iterates (isType type) :=
    fun type => (hlook _).bind fun _ => .pure _
  induction hx with
  | pure _ => exact .pure _
  | throw fault => exact .throw fault
  | act _ hfault _ => exact .act hfault
  | ask _ hfault _ => exact .ask hfault
  | allocate _ _ => exact hallocate _
  | bind _ _ ihx ihf => exact .bind ihx ihf
  | loop _ _ ih => exact .loop ih
  | nextItem hi _ _ => exact .nextItem _ hi
  | plain _ _ ih =>
    refine (hisType _).bind fun isType => ?_
    split
    · exact hallocate _
    · exact ih
  | derived name _ _ _ ih =>
    refine (hisType _).bind fun isType => ?_
    split
    · exact ih
    · refine (hlook _).bind fun links => (hlook _).bind fun limit => ?_
      split
      · exact .throw _
      · exact (hallocate _).bind fun _ => hallocate _

/-- The operations that a host can ask for, with their operands. -/
inductive Operation where
  | unary (op : Script.UnaryOp) (x : Handle)
  | pair (op : Script.PairOp) (x y : Handle)
  | triple (op : Script.TripleOp) (x y z : Handle)
  | list (op : Script.ListOp) (xs : List Handle)
  | apply (op : Script.ApplyOp) (x : Handle) (args : List Handle)
  | defineType (name : String) (base : Option Handle) (members : List (String × Handle))
  | global (name : String)
  /-- A builtin member is run on these arguments. -/
  | member (m : Member) (args : List Handle)

namespace Operation

def run : Operation → Run Script.Answer
  | unary op x => op.run x
  | pair op x y => op.run x y
  | triple op x y z => op.run x y z
  | list op xs => op.run xs
  | apply op x args => op.run x args
  | defineType name base members => return .value (← ObjectModel.defineType name base members)
  | global name => return .value (← globalValue name)
  | member m args => return .value (← m.run args)

/-- The operation raises an object, whatever its `__str__` does. -/
def raises : Operation → Bool
  | unary .raiseValue _ => true
  | _ => false

/-- Whether an operation takes a `StopIteration` for the end. -/
def takesItems : Operation → Bool
  | unary .nextItem _ => true
  | unary .collect _ => true
  | pair .nextOr _ _ => true
  | list (.callBuiltin f) xs => f.takesItems xs
  | member m _ => m.takesItems
  | _ => false

/-- **Every operation** but the raising of an object leaves faults alone. -/
theorem candid_run (op : Operation) (hop : op.raises = false) :
    Candid (op.takesItems = true) op.run := by
  cases op with
  | unary op x =>
    refine (op.composed_run x ?_ ?_).candid
    · rintro rfl
      cases hop
    · rintro (rfl | rfl) <;> rfl
  | pair op x y => exact (op.composed_run x y fun h => h ▸ rfl).candid
  | triple op x y z => exact (op.composed_run x y z).candid
  | list op xs =>
    cases op with
    | collectGarbage =>
      exact .bind (.ask fun _ => rfl) fun _ => .bind (.act fun _ => rfl) fun _ => .pure _
    | reclaim => exact .bind (.ask fun _ => rfl) fun _ => .pure _
    | callBuiltin f =>
      exact (Script.ListOp.composed_run xs (.callBuiltin f) rfl
        fun | _, rfl, hitems => hitems).candid
    | tuple => exact (Script.ListOp.composed_run xs .tuple rfl nofun).candid
    | list => exact (Script.ListOp.composed_run xs .list rfl nofun).candid
    | dict => exact (Script.ListOp.composed_run xs .dict rfl nofun).candid
    | callGlobal name => exact (Script.ListOp.composed_run xs (.callGlobal name) rfl nofun).candid
    | raise kind => exact (Script.ListOp.composed_run xs (.raise kind) rfl nofun).candid
  | apply op x args => exact (op.composed_run x args).candid
  | defineType name base members =>
    exact (composed_defineType name (K := base.toList ++ members.map (·.2)) (by grind)
      (by grind)).candid.bind fun _ => .pure _
  | global name =>
    exact (paired_globalValue (ρ := .known []) name).composed_known.candid.bind fun _ => .pure _
  | member m args => exact (m.composed_run args id).candid.bind fun _ => .pure _

end Operation

end ObjectModel
