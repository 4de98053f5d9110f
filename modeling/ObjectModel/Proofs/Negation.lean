import ObjectModel.Proofs.Data.Hooks
import ObjectModel.Proofs.Integers.Operator
import ObjectModel.Proofs.Types.Shadowing

/-!
# `!=` and the negation of `==`

`!=` asks the `__ne__` of both operands first and only then negates `==`. Where nobody but `object`
has a `__ne__`, it is `object.__ne__` that is asked: it declines two different operands, and answers
`False` for an operand and itself.

* `State.ne_negates_eq` -- **for different operands `!=` is the negation of `==`**, whatever the
  `__eq__` of their types do, that of `object` included; for an operand and itself it is `False`.
-/

namespace ObjectModel

/-! ## 1. Names that are left to `object` -/

/-- **The chain of the type of `h`, none of whose links but `object` defines `name`.** -/
structure Heap.Inherits (heap : Heap) (h : Handle) (name : String) (links : List Handle) :
    Prop where
  chain : ∃ type, heap.typeOf h = some type ∧ heap.chain type = some links
  undefined : ∀ k ∈ links, k ≠ BuiltinType.object.handle →
    ∀ value, heap.ownAttribute k name ≠ some (some value)

namespace Heap

variable {heap : Heap} {h : Handle} {name label : String} {links : List Handle} {m : Member}

/-- Whether the chain is this one, and what its links define, can be looked up. -/
theorem inherits_iff :
    heap.Inherits h name links ↔ (∃ type ∈ heap.typeOf h, heap.chain type = some links) ∧
    ∀ k ∈ links, k ≠ BuiltinType.object.handle → (heap.ownAttribute k name).join = none := by
  refine ⟨fun ⟨hchain, hundefined⟩ => ⟨hchain, fun k hk hne => ?_⟩,
    fun ⟨hchain, hundefined⟩ => ⟨hchain, fun k hk hne value hv => ?_⟩⟩
  · rw [Option.eq_none_iff_forall_ne_some]
    exact fun value hv => hundefined k hk hne value (Option.join_eq_some_iff.mp hv)
  · have hnone := hundefined k hk hne
    rw [hv] at hnone
    cases hnone

instance : Decidable (heap.Inherits h name links) := decidable_of_iff _ inherits_iff.symm

theorem Inherits.hook_eq (hi : heap.Inherits h name links) (other : String) :
    heap.hook h other = some (heap.firstDefined links other) := by
  obtain ⟨type, htype, hchain⟩ := hi.chain
  rw [hook, htype]
  exact lookup_of_chain hchain other

/-- What is found along the chain is what `object` offers, if the chain gets there. -/
theorem Inherits.hook_cases (hi : heap.Inherits h name links)
    (ho : Bootstrap.Offers heap BuiltinType.object.handle name (.function label (.member m))) :
    (heap.hook h name = some none ∧ BuiltinType.object.handle ∉ links) ∨
      (heap.Answers h name m ∧ BuiltinType.object.handle ∈ links) := by
  obtain ⟨root, f, fo, hroot, hf, hfo, hp⟩ := ho
  have hown := (ownAttribute_of_get? hroot name).trans (congrArg some hf)
  have hhook := hi.hook_eq name
  cases hfirst : heap.firstDefined links name with
  | none =>
    rw [hfirst] at hhook
    exact Or.inl ⟨hhook, fun hmem => firstDefined_eq_none_iff.mp hfirst _ hmem f hown⟩
  | some v =>
    rw [hfirst] at hhook
    obtain ⟨k, front, back, hlinks, _, hk⟩ := firstDefined_eq_some_iff.mp hfirst
    have hmem : k ∈ links := hlinks ▸ List.mem_append_right _ List.mem_cons_self
    have hobject : k = BuiltinType.object.handle := by
      by_contra hne
      exact hi.undefined k hmem hne v hk
    subst hobject
    rw [hown] at hk
    cases hk
    exact Or.inr ⟨⟨f, fo, label, hhook, hfo, hp⟩, hmem⟩

end Heap

/-! ## 2. Levels for a call -/

section

variable {s t u : State} {a b h v : Handle} {n : Nat} {name : String}
  {args links links' : List Handle}

theorem Run.ok_of_bind {α β : Type} {x : Run α} {f : α → Run β} {e : Engine} {r : β}
    (hrun : (x >>= f).run.run e s = .done (.ok r) t) : ∃ a u, x.run.run e s = .done (.ok a) u := by
  rw [ExceptT.run_bind, Program.run_bind] at hrun
  cases hx : x.run.run e s with
  | aborted reason u =>
    rw [hx] at hrun
    cases hrun
  | done answer u =>
    cases answer with
    | ok a => exact ⟨a, u, rfl⟩
    | error fault =>
      rw [hx] at hrun
      cases hrun

theorem run_askHook_missing (hhook : s.heap.hook h name = some none) (e : Engine) :
    (askHook h name args).run.run e s = .done (.ok none) s :=
  @Run.run_inspect_bind _ _ _ s (fun s => s.heap.hook h name) _ _ hhook

/-- A hook that comes to an answer had a level to run in. -/
theorem room_of_askHook {f : Handle} {r : Option Handle}
    (hhook : s.heap.hook h name = some (some f))
    (hrun : (askHook h name args).run.run (engine n) s = .done (.ok r) t) : n ≠ 0 ∧ s.Room := by
  have hcall :=
    (@Run.run_inspect_bind _ _ _ s (fun s => s.heap.hook h name) _ _ hhook).symm.trans hrun
  obtain ⟨a, u, hcall⟩ := Run.ok_of_bind hcall
  cases n with
  | zero => cases hcall
  | succ k =>
    refine ⟨Nat.succ_ne_zero k, Nat.lt_of_not_le fun hle => ?_⟩
    rw [run_call_refused (Nat.sub_eq_zero_of_le hle)] at hcall
    cases hcall

/-- So had `==`, if one of the operands has an `__eq__`. -/
theorem room_of_eq {x y : Option Handle} (hx : s.heap.hook a "__eq__" = some x)
    (hy : s.heap.hook b "__eq__" = some y) (hsome : x ≠ none ∨ y ≠ none)
    (hrun : (binaryOp .eq a b).run.run (engine n) s = .done (.ok v) t) : n ≠ 0 ∧ s.Room := by
  obtain ⟨r, _, hasks⟩ := Run.ok_of_bind hrun
  cases x with
  | some f =>
    obtain ⟨_, _, hleft⟩ := Run.ok_of_bind hasks
    exact room_of_askHook hx hleft
  | none =>
    have hasks : (askHook b "__eq__" [b, a]).run.run (engine n) s = .done (.ok r) _ :=
      (Run.run_bind_ok (run_askHook_missing hx (engine n))).symm.trans hasks
    obtain ⟨g, rfl⟩ := Option.ne_none_iff_exists'.mp (hsome.resolve_left fun hne => hne rfl)
    exact room_of_askHook hy hasks

/-! ## 3. Asking for `__ne__` -/

section

variable (hne : Bootstrap.OffersMember s.heap (.object .ne)) (ha : s.heap.Inherits a "__ne__" links)

include hne ha

/-- Different operands are declined. -/
theorem run_askHook_ne (hroom : BuiltinType.object.handle ∈ links → n ≠ 0 ∧ s.Room) (hab : a ≠ b) :
    (askHook a "__ne__" [a, b]).run.run (engine n) s = .done (.ok none) s := by
  rcases ha.hook_cases hne with ⟨hhook, _⟩ | ⟨hm, hmem⟩
  · exact run_askHook_missing hhook _
  · obtain ⟨hn, hlevel⟩ := hroom hmem
    obtain ⟨k, rfl⟩ := Nat.exists_eq_succ_of_ne_zero hn
    have hmember : ((Member.object .ne).run [a, b]).run.run (engine k) s.enter
        = .done (.ok (if a = b then .false else .notImplemented)) s.enter := rfl
    rw [if_neg hab] at hmember
    exact run_askHook hm hlevel hmember

/-- An object that is asked about itself. -/
theorem run_ne_self (hmem : BuiltinType.object.handle ∈ links) (hn : n ≠ 0) (hroom : s.Room) :
    (binaryOp .ne a a).run.run (engine n) s = .done (.ok .false) s := by
  rcases ha.hook_cases hne with ⟨_, hnot⟩ | ⟨hm, _⟩
  · exact absurd hmem hnot
  · obtain ⟨k, rfl⟩ := Nat.exists_eq_succ_of_ne_zero hn
    have hmember : ((Member.object .ne).run [a, a]).run.run (engine k) s.enter
        = .done (.ok (if a = a then .false else .notImplemented)) s.enter := rfl
    rw [if_pos rfl] at hmember
    have hask : (askHook a "__ne__" [a, a]).run.run (engine (k + 1)) s
        = .done (.ok (some .false)) s := run_askHook hm hroom hmember
    have hasks : (askHooks BinaryOp.ne.hooks a a).run.run (engine (k + 1)) s
        = .done (.ok (some .false)) s := Run.run_bind_ok hask
    exact Run.run_bind_ok hasks

end

/-- Where both operands decline, `==` is negated. -/
theorem run_ne_of_declined {x : Bool}
    (hleft : (askHook a "__ne__" [a, b]).run.run (engine n) s = .done (.ok none) s)
    (hright : (askHook b "__ne__" [b, a]).run.run (engine n) s = .done (.ok none) s)
    (heq : (binaryOp .eq a b).run.run (engine n) s = .done (.ok v) t)
    (htruth : (truthy v).run.run (engine n) t = .done (.ok x) u) :
    (binaryOp .ne a b).run.run (engine n) s = .done (.ok (.ofBool !x)) u := by
  have hasks : (askHooks BinaryOp.ne.hooks a b).run.run (engine n) s = .done (.ok none) s :=
    (Run.run_bind_ok hleft).trans hright
  have hequal : (valuesEqual a b).run.run (engine n) s = .done (.ok x) u :=
    (Run.run_bind_ok heq).trans htruth
  exact (Run.run_bind_ok hasks).trans (Run.run_bind_ok hequal)

/-- **`!=` negates `==`.** Let the `__ne__` of `object` be the builtin one, and let no other type of
the operands define it. Whenever `a == b` comes to a value of truth `x`, then `a != b` comes to the
truth value of `not x`, for any operands that are not the same object; an object that has `object`
among its types is never `!=` to itself. A level has to be left for `object.__ne__`; it is left in
any case if one of the operands has an `__eq__`, since `==` took a level too. -/
theorem State.ne_negates_eq {x : Bool} (hne : Bootstrap.OffersMember s.heap (.object .ne))
    (ha : s.heap.Inherits a "__ne__" links) (hb : s.heap.Inherits b "__ne__" links')
    (hlevel : BuiltinType.object.handle ∈ links ++ links' → s.heap.hook a "__eq__" = some none →
      s.heap.hook b "__eq__" = some none → n ≠ 0 ∧ s.Room)
    (heq : (binaryOp .eq a b).exec n s = .done (.ok v) t)
    (htruth : (truthy v).exec n t = .done (.ok x) u) :
    (a ≠ b ∨ BuiltinType.object.handle ∉ links →
      (binaryOp .ne a b).exec n s = .done (.ok (.ofBool !x)) u) ∧
    (a = b → BuiltinType.object.handle ∈ links →
      (binaryOp .ne a b).exec n s = .done (.ok .false) s) := by
  have hroom : BuiltinType.object.handle ∈ links ++ links' → n ≠ 0 ∧ s.Room := by
    intro hmem
    by_cases hnone : s.heap.firstDefined links "__eq__" = none ∧
        s.heap.firstDefined links' "__eq__" = none
    · exact hlevel hmem (hnone.1 ▸ ha.hook_eq _) (hnone.2 ▸ hb.hook_eq _)
    · exact room_of_eq (ha.hook_eq _) (hb.hook_eq _) (Decidable.not_and_iff_not_or_not.mp hnone) heq
  constructor
  · intro hcase
    by_cases hab : a = b
    · -- an object without `object` among its types has no `__ne__` at all
      subst hab
      have hnot := hcase.resolve_left fun hne => hne rfl
      have hmissing : s.heap.hook a "__ne__" = some none := by
        rcases ha.hook_cases hne with ⟨hhook, _⟩ | ⟨_, hmem⟩
        · exact hhook
        · exact absurd hmem hnot
      have hasks : (askHook a "__ne__" [a, a]).run.run (engine n) s = .done (.ok none) s :=
        run_askHook_missing hmissing _
      exact run_ne_of_declined hasks hasks heq htruth
    · exact run_ne_of_declined
        (run_askHook_ne hne ha (fun hmem => hroom (List.mem_append_left _ hmem)) hab)
        (run_askHook_ne hne hb (fun hmem => hroom (List.mem_append_right _ hmem)) (Ne.symm hab))
        heq htruth
  · rintro rfl hmem
    obtain ⟨hn, hlevel⟩ := hroom (List.mem_append_left _ hmem)
    exact run_ne_self hne ha hmem hn hlevel

end

/-! ## 4. Names that builtin types have not -/

section

variable {bound : Nat} {h : Handle} {o : Object} {b c : BuiltinType} {name : String}

/-- An object of a builtin type that has not the name itself. -/
theorem Heap.Orderly.inherits {heap : Heap} (ho : heap.Orderly bound)
    (hget : heap.get? h = some o) (ht : o.type = b.handle) (hb : b.base? = some .object)
    (hlacks : ∀ value, heap.ownAttribute b.handle name ≠ some (some value)) :
    heap.Inherits h name [b.handle, BuiltinType.object.handle] := by
  obtain ⟨type, htype, hp⟩ := ho.builtin b
  rw [hb] at hp
  refine ⟨⟨b.handle, ?_, (Heap.Lineage.derived htype hp ho.lineage_object).chain_eq⟩,
    fun k hk hne value => ?_⟩
  · rw [Heap.typeOf, hget, ← ht]
    rfl
  · rw [(List.mem_pair.mp hk).resolve_right hne]
    exact hlacks value

/-- A name that neither the type nor `object` has is not found. -/
theorem Heap.Orderly.hook_eq_none {heap : Heap} (ho : heap.Orderly bound)
    (hget : heap.get? h = some o) (ht : o.type = b.handle) (hb : b.base? = some .object)
    (hlacks : ∀ k ∈ [b, .object], ∀ value, heap.ownAttribute k.handle name ≠ some (some value)) :
    heap.hook h name = some none := by
  rw [(ho.inherits hget ht hb (hlacks b List.mem_cons_self)).hook_eq,
    firstDefined_eq_none_iff.mpr fun k hk value => ?_]
  obtain ⟨k, hmem, rfl⟩ := List.mem_map.mp (show k ∈ [b, .object].map BuiltinType.handle from hk)
  exact hlacks k hmem value

/-- Of the names of builtin members, a type has its own ones. -/
theorem Heap.Unaltered.ownAttribute_ne {heap : Heap} {m : Member} (hu : heap.Unaltered)
    (ho : heap.Orderly bound) (hm : m ∈ Member.all) (hlacks : c.ownMember? m.name = none)
    (value : Handle) : heap.ownAttribute c.handle m.name ≠ some (some value) := by
  obtain ⟨type, htype, _⟩ := ho.builtin c
  rw [ownAttribute, htype]
  intro hvalue
  cases (Option.some.inj hvalue).symm.trans
    (hu.lacks c type htype m hm (BuiltinType.ownMember?_eq_none hlacks))

end

/-! ## 5. An `__eq__` of the program's own -/

/-- Gives a type an `__eq__` that always answers `b`. -/
def patchEq (type : BuiltinType) (b : Bool) : List Script.Expr :=
  [.pair (.setAttribute "__eq__") (.builtinType type) (.function "eq" (.bool b))]

/-- There `object` has an `__eq__` of the program's own that answers `True`: `None == True` is
`True`, and `None != True` is `False`. -/
theorem State.ne_negates_eq_of_patched :
    ∃ s : State, s.Reachable ∧ ¬ Bootstrap.OffersMember s.heap (.object .eq) ∧
      Bootstrap.OffersMember s.heap (.object .ne) ∧ s.Room ∧
      s.heap.Inherits .none "__ne__" [BuiltinType.noneType.handle, BuiltinType.object.handle] ∧
      s.heap.Inherits .true "__ne__" [BuiltinType.bool.handle, BuiltinType.object.handle] ∧
      (binaryOp .eq .none .true).exec 1 s = .done (.ok .true) s ∧
      (truthy .true).exec 1 s = .done (.ok true) s ∧
      (binaryOp .ne .none .true).exec 1 s = .done (.ok .false) s := by
  obtain ⟨_, s, hs, hother, hne, hroom, hnone, htrue, heq, htruth⟩ :=
    Session.exists_reached (fun _ => True) .standard 0 (patchEq .object true)
      (fun _ s => ¬ Bootstrap.OffersMember s.heap (.object .eq) ∧
        Bootstrap.OffersMember s.heap (.object .ne) ∧ s.Room ∧
        s.heap.Inherits .none "__ne__" [BuiltinType.noneType.handle, BuiltinType.object.handle] ∧
        s.heap.Inherits .true "__ne__" [BuiltinType.bool.handle, BuiltinType.object.handle] ∧
        (binaryOp .eq .none .true).Finds 1 s .true ∧
        (truthy .true).Finds 1 s true) (by decide +kernel)
  exact ⟨s, hs, hother, hne, hroom, hnone, htrue, heq.exec_eq, htruth.exec_eq,
    (State.ne_negates_eq hne hnone htrue (fun _ _ _ => ⟨by decide, hroom⟩) heq.exec_eq
      htruth.exec_eq).1
      (Or.inl (by decide))⟩

/-- **An object that is not equal to itself**: `None == None` is `False` there, and so is
`None != None`. -/
theorem State.ne_false_of_unequal_itself :
    ∃ s : State, s.Reachable ∧ s.heap.Provides .object ∧
      s.heap.Inherits .none "__ne__" [BuiltinType.noneType.handle, BuiltinType.object.handle] ∧
      (binaryOp .eq .none .none).exec 1 s = .done (.ok .false) s ∧
      (truthy .false).exec 1 s = .done (.ok false) s ∧
      (binaryOp .ne .none .none).exec 1 s = .done (.ok .false) s := by
  obtain ⟨_, s, hs, hprovides, hnone, heq, htruth, hne⟩ :=
    Session.exists_reached (fun _ => True) .standard 0 (patchEq .noneType false)
      (fun _ s => s.heap.Provides .object ∧
        s.heap.Inherits .none "__ne__" [BuiltinType.noneType.handle, BuiltinType.object.handle] ∧
        (binaryOp .eq .none .none).Finds 1 s .false ∧ (truthy .false).Finds 1 s false ∧
          (binaryOp .ne .none .none).Finds 1 s .false)
      (by decide +kernel)
  exact ⟨s, hs, hprovides, hnone, heq.exec_eq, htruth.exec_eq, hne.exec_eq⟩

end ObjectModel
