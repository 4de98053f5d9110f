import ObjectModel.Proofs.Generators.Snapshot

/-!
# Making an instance of a builtin type

To call a type is to make a new object and to run `__init__` on it.

* `Heap.Constructs.run_construct` -- **a call of a builtin type** runs `__init__` on a new object,
  three levels down.
-/

namespace ObjectModel

/-! ## 1. Calling a type -/

section

variable {s t : State} {type made f i : Handle} {ty : Object} {args : List Handle} {e : Engine}

/-- **A call of a builtin type makes an instance**, two levels down. -/
theorem run_callType {b : BuiltinType} (hs : s.Orderly)
    (hcall : Bootstrap.Offers s.heap BuiltinType.type.handle "__call__"
      (.function (Member.type .call).qualifiedName (.member (.type .call))))
    (hproper : b.handle ≠ BuiltinType.type.handle)
    (hroom : s.callDepth + 2 ≤ s.limits.callDepth) (args : List Handle) (n : Nat) :
    (call b.handle args).exec (n + 2) s
      = ((instantiate b.handle args).run.run (engine n) s.enter.enter).onState fun t =>
        t.leave.leave := by
  obtain ⟨ty, htype, hp⟩ := hs.heap.builtin b
  have hkind : ty.type = BuiltinType.type.handle := hs.heap.kind htype (by rw [hp]; rfl)
  -- the type of `b` answers the call
  obtain ⟨c, co, clabel, hchook, hcget, hcp⟩ : s.heap.Answers b.handle "__call__" (.type .call) :=
    .of_offers hs.heap htype (hkind ▸ hs.heap.isType_builtin .type) (hkind ▸ hcall)
  have hdispatch : (dispatch b.handle args).run.run (engine (n + 1)) s.enter
      = (call c (b.handle :: args)).run.run (engine (n + 1)) s.enter := by
    refine (run_object_bind (s := s.enter) htype).trans ?_
    rw [hp]
    refine (@Run.run_inspect_bind _ _ _ s.enter (fun s => s.heap.hook b.handle "__call__") _ _
      hchook).trans ?_
    rfl
  have hmember : (Code.member (.type .call)).run (b.handle :: args)
      = instantiate b.handle args := by
    cases args with
    | nil => rfl
    | cons first rest =>
      cases rest with
      | nil => exact if_neg hproper
      | cons => rfl
  refine (run_call_dispatch (by omega)).trans ?_
  rw [hdispatch, run_call (s := s.enter) (by change s.callDepth + 1 < s.limits.callDepth; omega)
    hcget hcp, hmember]
  exact Outcome.onState_onState _ _ _

theorem run_instantiate (htype : s.heap.get? type = some ty) (hisType : ty.isType = true)
    (hlookup : s.heap.lookup type "__new__" = some (some f))
    (hnew : (call f (type :: args)).run.run e s = .done (.ok made) t)
    (hhook : t.heap.hook made "__init__" = some (some i)) :
    (instantiate type args).run.run e s
      = (call i (made :: args) >>= fun _ => return made).run.run e t := by
  unfold instantiate
  rw [Run.run_isType_bind htype, hisType]
  refine (@Run.run_inspect_bind _ _ _ s (fun s => s.heap.lookup type "__new__") _ _ hlookup).trans
    ?_
  refine (Run.run_bind_ok hnew).trans ?_
  exact @Run.run_inspect_bind _ _ _ t (fun t => t.heap.hook made "__init__") _ _ hhook

theorem run_instantiate_error {fault : Fault} (htype : s.heap.get? type = some ty)
    (hisType : ty.isType = true) (hlookup : s.heap.lookup type "__new__" = some (some f))
    (hnew : (call f (type :: args)).run.run e s = .done (.error fault) t) :
    (instantiate type args).run.run e s = .done (.error fault) t := by
  unfold instantiate
  rw [Run.run_isType_bind htype, hisType]
  refine (@Run.run_inspect_bind _ _ _ s (fun s => s.heap.lookup type "__new__") _ _ hlookup).trans
    ?_
  exact Run.run_bind_error hnew

end

/-- A builtin type finds its own members first. -/
theorem Heap.Orderly.lookup_offered {heap : Heap} {bound : Nat} {b : BuiltinType}
    {name label : String} {m : Member} (ho : heap.Orderly bound)
    (h : Bootstrap.Offers heap b.handle name (.function label (.member m))) :
    ∃ f fo, heap.lookup b.handle name = some (some f) ∧ heap.get? f = some fo ∧
      fo.payload = .function label (.member m) := by
  obtain ⟨links, hl, _⟩ := ho.lineage (ho.isType_builtin b)
  exact h.lookup hl

/-! ## 2. Making -/

/-- **The builtin type `b` makes the object `first`**, and initializes it with its own member. -/
structure Heap.Constructs (heap : Heap) (b : BuiltinType) (first : Object) (init : Member) :
    Prop where
  typeCall : Bootstrap.Offers heap BuiltinType.type.handle "__call__"
    (.function (Member.type .call).qualifiedName (.member (.type .call)))
  new : ∃ f fo label member, heap.lookup b.handle "__new__" = some (some f) ∧
    heap.get? f = some fo ∧
    fo.payload = .function label (.member member) ∧
      ∀ (args : List Handle) (e : Engine) (s : State), s.heap = heap →
      (member.run (b.handle :: args)).run.run e s
        = .done (.ok (s.allocate first).1) (s.allocate first).2
  init : Bootstrap.Offers heap b.handle "__init__" (.function init.qualifiedName (.member init))
  type : first.type = b.handle
  fits : ∀ limit, heap.Fits limit first
  proper : b.handle ≠ BuiltinType.type.handle

section

variable {s : State} {bound : Nat} {b : BuiltinType} {first : Object} {init : Member}

namespace Heap.Constructs

/-- An instance of `b` is a new object, and it is initialized. -/
theorem run_instance (hm : s.heap.Constructs b first init) (hs : s.Orderly)
    (hroom : s.callDepth + 3 ≤ s.limits.callDepth) (args : List Handle) (n : Nat) :
    (instantiate b.handle args).run.run (engine (n + 1)) s.enter.enter
      = ((init.run ((s.allocate first).1 :: args) >>= fun _ => return (s.allocate first).1).run.run
        (engine n)
          (s.allocate first).2.enter.enter.enter).onState State.leave := by
  have hw := hs.regular.heap
  obtain ⟨ty, htype, hp⟩ := hs.heap.builtin b
  have hisType : ty.isType = true := by rw [Object.isType, hp]
  let made : Handle := (s.allocate first).1
  let inside : State := (s.allocate first).2.enter.enter
  obtain ⟨f, fo, flabel, member, hlookup, hfget, hfp, hmember⟩ := hm.new
  have hnew : (call f (b.handle :: args)).run.run (engine (n + 1)) s.enter.enter
      = .done (.ok made) inside := by
    refine (run_call (s := s.enter.enter) (by change s.callDepth + 2 < s.limits.callDepth; omega)
      hfget hfp).trans ?_
    exact congrArg (Outcome.onState State.leave) (hmember args _ s.enter.enter.enter rfl)
  -- the type of the new object answers `__init__`
  have horderly : inside.heap.Orderly (max s.limits.baseChain 3) := hs.heap.allocate hw (hm.fits _)
  have hget : inside.heap.get? made = some first := Heap.get?_allocate_self hw _
  have hoffers : Bootstrap.Offers inside.heap b.handle "__init__"
      (.function init.qualifiedName (.member init)) := hm.init.allocate hw _
  obtain ⟨i, io, ilabel, hihook, higet, hip⟩ : inside.heap.Answers made "__init__" init :=
    .of_offers horderly hget (hm.type ▸ horderly.isType_builtin b) (hm.type ▸ hoffers)
  have hinit : (call i (made :: args)).run.run (engine (n + 1)) inside
      = ((init.run (made :: args)).run.run (engine n) inside.enter).onState State.leave :=
    run_call (by change s.callDepth + 2 < s.limits.callDepth; omega) higet hip
  rw [run_instantiate (s := s.enter.enter) htype hisType hlookup hnew hihook, ExceptT.run_bind,
    Program.run_bind, hinit, ExceptT.run_bind, Program.run_bind]
  change _ = Outcome.onState State.leave
    (((init.run (made :: args)).run.run (engine n) inside.enter).andThen _)
  cases (init.run (made :: args)).run.run (engine n) inside.enter with
  | aborted reason t => rfl
  | done r t => cases r <;> rfl

/-- **A call of a builtin type initializes a new object**, three levels down. -/
theorem run_construct (hm : s.heap.Constructs b first init) (hs : s.Orderly)
    (hroom : s.callDepth + 3 ≤ s.limits.callDepth) (args : List Handle) (n : Nat) :
    (call b.handle args).exec (n + 3) s
      = ((init.run ((s.allocate first).1 :: args) >>= fun _ => return (s.allocate first).1).run.run
        (engine n)
          (s.allocate first).2.enter.enter.enter).onState fun t => t.leave.leave.leave := by
  refine (run_callType hs hm.typeCall hm.proper (by omega) args (n + 1)).trans ?_
  rw [hm.run_instance hs hroom]
  exact Outcome.onState_onState _ _ _

end Heap.Constructs

end

/-! ## 3. Instances without a payload of their own -/

/-- **The builtin type `b` makes its instances as `object` does**, and initializes them with its own
member. -/
structure Heap.Makes (heap : Heap) (b : BuiltinType) (init : Member) : Prop where
  typeCall : Bootstrap.Offers heap BuiltinType.type.handle "__call__"
    (.function (Member.type .call).qualifiedName (.member (.type .call)))
  objectNew : Bootstrap.Offers heap BuiltinType.object.handle "__new__"
    (.function (Member.object .new).qualifiedName (.member (.object .new)))
  init : Bootstrap.Offers heap b.handle "__init__" (.function init.qualifiedName (.member init))
  bare : ∀ o, heap.get? b.handle = some o → o.attributes.get? "__new__" = none
  base : b.base? = some .object
  proper : b.handle ≠ BuiltinType.type.handle

/-- The object that a call of `b` makes. -/
def State.made (s : State) (b : BuiltinType) : Handle := (s.allocate (.bare b.handle)).1

/-- The state in which it is initialized. -/
def State.inInit (s : State) (b : BuiltinType) : State :=
  (s.allocate (.bare b.handle)).2.enter.enter.enter

section

variable {s : State} {bound : Nat} {b : BuiltinType} {init : Member}

theorem run_objectNew {type : Handle} {object : Object} (args : List Handle) (e : Engine)
    (hget : s.heap.get? type = some object) (ht : object.isType = true) :
    ((Member.object .new).run (type :: args)).run.run e s
      = .done (.ok (s.allocate (.bare type)).1) (s.allocate (.bare type)).2 := by
  have heq : (Member.object .new).run (type :: args)
      = isType type >>= fun b => if b = true then allocate (.bare type)
          else typeError "`object.__new__` needs a type" := rfl
  rw [heq, Run.run_isType_bind hget, if_pos ht]
  rfl

namespace Heap.Makes

/-- `__new__` is found on `object`. -/
theorem constructs {heap : Heap} (hm : heap.Makes b init) (ho : heap.Orderly bound) :
    heap.Constructs b (.bare b.handle) init where
  typeCall := hm.typeCall
  new := by
    obtain ⟨ty, htype, hp⟩ := ho.builtin b
    have hisType : ty.isType = true := by rw [Object.isType, hp]
    rw [hm.base] at hp
    obtain ⟨oo, f, fo, hobject, hmember, hget, hfp⟩ := hm.objectNew
    have hlineage : heap.Lineage b.handle [b.handle, BuiltinType.object.handle] :=
      .derived htype hp ho.lineage_object
    refine ⟨f, fo, _, _, ?_, hget, hfp, fun args e s hs => run_objectNew args e
      (hs ▸ htype) hisType⟩
    rw [hlineage.lookup_eq, Heap.firstDefined_cons htype, hm.bare ty htype,
      Heap.firstDefined_cons hobject, hmember]
    rfl
  init := hm.init
  type := rfl
  fits _ := .plain .empty (ho.isType_builtin b) .empty
  proper := hm.proper

theorem run_construct (hm : s.heap.Makes b init) (hs : s.Orderly)
    (hroom : s.callDepth + 3 ≤ s.limits.callDepth) (args : List Handle) (n : Nat) :
    (call b.handle args).exec (n + 3) s
      = ((init.run (s.made b :: args) >>= fun _ => return s.made b).run.run (engine n)
        (s.inInit b)).onState
          fun t => t.leave.leave.leave :=
  (hm.constructs hs.heap).run_construct hs hroom args n

end Heap.Makes

end

end ObjectModel
