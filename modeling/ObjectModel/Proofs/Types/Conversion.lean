import ObjectModel.Proofs.Data.Hooks

/-!
# Converting a value by a call of its new type

The types of numbers, texts and tuples have a `__new__` that makes the whole object, and are
initialized as any object is.

* `State.Native.run_convert` -- **a call of such a type runs its `__new__`**, three levels down.
-/

namespace ObjectModel

variable {s u : State} {b : BuiltinType} {m : Member} {args : List Handle} {n : Nat} {h : Handle}

/-- **A conversion**: what `__new__` answers is what the call answers, if it is initialized as any
object is. -/
theorem State.Native.run_convert {r : Except Fault Handle}
    (hs : s.Native) (hm : b.ownMember? "__new__" = some m)
    (hproper : b.handle ≠ BuiltinType.type.handle) (hlevels : 3 ≤ s.levels)
    (hnew : (m.run (b.handle :: args)).run.run (engine n) s.enter.enter.enter = .done r u)
    (hinit : ∀ made, r = .ok made → s.enter.enter.enter.Grows u ∧ u.heap.Answers made "__init__"
      (.object .init)) : (call b.handle args).exec (n + 3) s = .done r u.leave.leave.leave := by
  have hroom : s.callDepth + 3 ≤ s.limits.callDepth := by
    unfold levels at hlevels
    omega
  obtain ⟨hmem, rfl, hname⟩ := BuiltinType.ownMember?_eq_some hm
  obtain ⟨ty, htype, hp⟩ := hs.orderly.heap.builtin m.owner
  have hisType : ty.isType = true := by rw [Object.isType, hp]
  obtain ⟨f, fo, hlookup, hf, hfp⟩ := hs.orderly.heap.lookup_offered (hs.unaltered.offers m hmem)
  rw [hname] at hlookup
  have hcalled : (call f (m.owner.handle :: args)).run.run (engine (n + 1)) s.enter.enter
      = .done r u.leave := by
    refine (run_call (s := s.enter.enter) (by change s.callDepth + 2 < s.limits.callDepth; omega) hf
      hfp).trans ?_
    exact congrArg (Outcome.onState State.leave) hnew
  refine (run_callType hs.orderly (hs.unaltered.offers (.type .call) (by decide)) hproper
    (by omega) args (n + 1)).trans ?_
  cases r with
  | error fault =>
    rw [run_instantiate_error (s := s.enter.enter) htype hisType hlookup hcalled]
    rfl
  | ok made =>
    obtain ⟨hgrows, i, io, label, hhook, hget, hip⟩ := hinit made rfl
    have hdepth : u.leave.callDepth < u.leave.limits.callDepth := by
      have hd : u.callDepth = s.callDepth + 3 := hgrows.callDepth_eq
      have hl : u.limits = s.limits := hgrows.limits_eq
      change u.callDepth - 1 < u.limits.callDepth
      rw [hd, hl]
      omega
    have hinitialized : (call i (made :: args)).run.run (engine (n + 1)) u.leave
        = .done (.ok .none) u.leave :=
      run_call (s := u.leave) hdepth hget hip
    rw [run_instantiate (s := s.enter.enter) htype hisType hlookup hcalled hhook,
      Run.run_bind_ok hinitialized]
    rfl

/-- **The integer that the hook `__int__` gives.** -/
theorem run_toInt {a : Handle} {i : Int64} (hm : s.heap.Answers h "__int__" m) (hroom : s.Room)
    (hrun : (m.run [h]).run.run (engine n) s.enter = .done (.ok a) u)
    (hget : u.heap.get? a = some (.ofInt i)) :
    (toInt h).run.run (engine (n + 1)) s = .done (.ok a) u.leave := by
  refine (run_hook_bind (fun _ => rfl) hm hroom hrun).trans ?_
  have hvalue : (intValue a).run.run (engine (n + 1)) u.leave = .done (.ok (some i)) u.leave :=
    run_intValue_layer (s := u.leave) (Heap.layer?_eq_some_iff.mpr ⟨_, hget, .int rfl⟩)
  exact (Run.run_bind_ok hvalue).trans rfl

end ObjectModel
