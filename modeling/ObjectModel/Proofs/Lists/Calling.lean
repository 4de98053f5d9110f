import ObjectModel.Proofs.Lists.Member
import ObjectModel.Proofs.Types.Making

/-!
# Calling the members of `list`

A member of a list is found on its type, bound to the list and called; a list is made by calling its
type.

* `run_construct` -- `list(iterable)` runs `list.__init__` on a new object three levels down.
-/

namespace ObjectModel

/-! ## 1. Builtin members -/

/-- **The builtin members are where they were placed**, and `list` makes its instances as `object`
does. -/
structure Heap.Furnished (heap : Heap) : Prop where
  offers : ∀ m ∈ Member.all, Bootstrap.Offers heap m.owner.handle m.name
    (.function m.qualifiedName (.member m))
  bare : ∀ o, heap.get? BuiltinType.list.handle = some o → o.attributes.get? "__new__" = none

theorem ListMember.mem_all (m : ListMember) : Member.list m ∈ Member.all := by
  cases m <;> decide

/-- The handles of the builtin types. -/
def Handle.IsBuiltin (k : Handle) : Prop := ∃ t : BuiltinType, k = t.handle

section

variable {keep : Handle → Prop} {s t : State} {bound : Nat} {h : Handle} {o : Object}

theorem State.Spares.furnished (hs : s.Spares keep t) (hk : ∀ k : Handle, k.IsBuiltin → keep k)
    (ho : s.heap.Orderly bound) (hf : s.heap.Furnished) : t.heap.Furnished where
  offers m hm := hs.offers (hk _ ⟨_, rfl⟩) (hf.offers m hm)
  bare o' hget' := by
    obtain ⟨o, hget, _⟩ := ho.builtin .list
    obtain ⟨o₁, hget₁, _, hattr⟩ := hs.kept hget
    cases hget₁.symm.trans hget'
    rw [hattr (hk _ ⟨_, rfl⟩)]
    exact hf.bare o hget

namespace Heap.IsList

theorem answers (hl : s.heap.IsList h o) (ho : s.heap.Orderly bound) (hf : s.heap.Furnished)
    (m : ListMember) : s.heap.Answers h m.name (.list m) := by
  have htype : s.heap.IsType o.type := hl.type_eq ▸ ho.isType_builtin .list
  have hoffers : Bootstrap.Offers s.heap o.type m.name
      (.function (Member.list m).qualifiedName (.member (.list m))) :=
    hl.type_eq ▸ hf.offers (.list m) m.mem_all
  exact .of_offers ho hl.get?_eq htype hoffers

/-- The list itself has none of them. -/
theorem lookup_eq (hl : s.heap.IsList h o) (m : ListMember) :
    s.heap.lookup h m.name = some none := by
  have hbase : o.base = none := by rw [Object.base, hl.payload_eq]
  rw [Heap.lookup_of_base_none hl.get?_eq hbase, hl.bare m]

end Heap.IsList

/-! ## 2. Method calls -/

/-- The state in which the code of a method runs that was found on the type of `h`. -/
def State.inMethod (s : State) (h : Handle) (name : String) : State :=
  match s.heap.hook h name with
  | some (some function) => (s.allocate (.ofBound h function)).2.enter.enter
  | _ => s

/-- A function that is found on the type comes back bound. -/
theorem run_getAttribute_bound {name label : String} {f : Handle} {fo : Object}
    {code : Code} (e : Engine) (hlookup : s.heap.lookup h name = some none)
    (hhook : s.heap.hook h name = some (some f)) (hget : s.heap.get? f = some fo)
    (hp : fo.payload = .function label code) :
    (getAttribute h name).run.run e s = .done (.ok (s.allocate (.ofBound h f)).1)
      (s.allocate (.ofBound h f)).2 := by
  have hfunction : fo.isFunction = true := by rw [Object.isFunction, hp]
  unfold getAttribute findAttribute
  simp only [bind_assoc]
  refine (Run.run_inspect_bind hlookup).trans ?_
  rw [bind_assoc]
  refine (Run.run_inspect_bind hhook).trans ?_
  rw [bind_assoc]
  refine (run_object_bind hget).trans ?_
  rw [if_pos hfunction]
  rfl

/-- A bound method passes the call on with its receiver in front. -/
theorem run_call_bound {b f : Handle} {bo fo : Object} {label : String} {m : Member}
    (args : List Handle) (n : Nat) (hb : s.heap.get? b = some bo) (hbp : bo.payload = .bound h f)
    (hf : s.heap.get? f = some fo) (hfp : fo.payload = .function label (.member m))
    (hroom : s.callDepth + 2 ≤ s.limits.callDepth) :
    (call b args).run.run (engine (n + 2)) s
      = ((m.run (h :: args)).run.run (engine n) s.enter.enter).onState fun t => t.leave.leave := by
  have hdispatch : (dispatch b args).run.run (engine (n + 1)) s.enter
      = (call f (h :: args)).run.run (engine (n + 1)) s.enter := by
    refine (run_object_bind (s := s.enter) hb).trans ?_
    rw [hbp]
  rw [run_call_dispatch (by omega), hdispatch,
    run_call (s := s.enter) (by change s.callDepth + 1 < s.limits.callDepth; omega) hf hfp]
  exact Outcome.onState_onState _ _ _

/-- **A method call on a list runs the member two levels down.** -/
theorem Heap.IsList.run_callMethod (hl : s.heap.IsList h o) (hs : s.Orderly) (hf : s.heap.Furnished)
    (hroom : s.callDepth + 2 ≤ s.limits.callDepth) (m : ListMember) (args : List Handle) (n : Nat) :
    (callMethod h m.name args).exec (n + 2) s
      = ((m.run (h :: args)).run.run (engine n) (s.inMethod h m.name)).onState fun t =>
        t.leave.leave := by
  obtain ⟨f, fo, label, hhook, hget, hp⟩ := hl.answers hs.heap hf m
  have hin : s.inMethod h m.name
      = (s.allocate (.ofBound h f)).2.enter.enter := by rw [State.inMethod, hhook]
  have hw := hs.regular.heap
  rw [hin]
  refine (Run.run_bind_ok (run_getAttribute_bound _ (hl.lookup_eq m) hhook hget hp)).trans ?_
  exact run_call_bound (s := (s.allocate (.ofBound h f)).2) args n
    (Heap.get?_allocate_self hw _) rfl (Heap.get?_allocate_of_live hw hget) hp hroom

/-! ## 3. Making a list -/

/-- The object that `list(iterable)` fills. -/
def State.madeList (s : State) : Handle := (s.allocate (.bare BuiltinType.list.handle)).1

/-- The state in which it is filled. -/
def State.inMaking (s : State) : State :=
  (s.allocate (.bare BuiltinType.list.handle)).2.enter.enter.enter

theorem State.isList_madeList (hw : s.heap.WellFormed) :
    s.inMaking.heap.IsList s.madeList (.bare BuiltinType.list.handle) where
  get?_eq := Heap.get?_allocate_self hw _
  payload_eq := rfl
  type_eq := rfl
  coherent := .empty
  bare _ := rfl

theorem Heap.Furnished.makes (hf : s.heap.Furnished) : s.heap.Makes .list (.list .init) where
  typeCall := hf.offers (.type .call) (by decide)
  objectNew := hf.offers (.object .new) (by decide)
  init := hf.offers (.list .init) (by decide)
  bare := hf.bare
  base := rfl
  proper := by decide

/-- **`list(iterable)` fills a new object**, three levels down. -/
theorem run_construct (hs : s.Orderly) (hf : s.heap.Furnished)
    (hroom : s.callDepth + 3 ≤ s.limits.callDepth) (iterable : Handle) (n : Nat) :
    (call BuiltinType.list.handle [iterable]).exec (n + 3) s
      = ((ListMember.init.run [s.madeList, iterable] >>= fun _ => return s.madeList).run.run
        (engine n) s.inMaking).onState
          fun t => t.leave.leave.leave :=
  hf.makes.run_construct hs hroom [iterable] n

end

end ObjectModel
