import ObjectModel.Proofs.Calls.Resolution
import ObjectModel.Proofs.Integers.Operator
import ObjectModel.Proofs.Renaming.Transparency

/-!
# Method calls

A method call that finds a function on the type of its receiver binds it first and calls the bound
method, which passes the call on. So the function runs one level deeper than if it had been called
directly, and one more object is there.

* `State.method_call_deeper` -- **up to the bound method, both calls come out alike and do the
  same**.
-/

namespace ObjectModel

open List (Forall₂)

/-! ## 1. The bound method -/

section

variable {s : State} {x f : Handle} {fo : Object} {name label : String} {code : Code} {n : Nat}

/-- An object whose type was asked for a hook is there. -/
theorem Heap.live_of_hook {heap : Heap} {found : Option Handle}
    (hhook : heap.hook x name = some found) : heap.contains x = true := by
  obtain ⟨type, htype, _⟩ := Option.bind_eq_some_iff.mp hhook
  obtain ⟨o, ho, _⟩ := Option.bind_eq_some_iff.mp htype
  exact contains_of_get? ho

theorem State.leave_enter (s : State) : s.enter.leave = s := rfl

/-- A bound method passes a call on one level deeper, at the limit too: there both are refused. -/
theorem run_call_method {method : Handle} {mo : Object} (hget : s.heap.get? method = some mo)
    (hp : mo.payload = .bound x f) (args : List Handle) :
    (call method args).exec (n + 2) s
      = ((call f (x :: args)).exec (n + 1) s.enter).onState State.leave := by
  by_cases hroom : 0 < s.levels
  · refine (State.run_call_admitted hroom method args).trans ?_
    rw [Heap.reception_bound hget hp]
    rfl
  · have hfull : s.levels = 0 := Nat.eq_zero_of_not_pos hroom
    have hdeeper : s.enter.levels = 0 := by rw [State.levels_enter, hfull]
    refine (run_call_refused hfull method args).trans ?_
    rw [Run.exec, run_call_refused hdeeper, Outcome.onState_done, State.leave_enter]
    rfl

/-- **A method call is the call of the function one level deeper**, in the state with the bound
method. -/
theorem run_callMethod_bound (hw : s.heap.WellFormed) (hlookup : s.heap.lookup x name = some none)
    (hhook : s.heap.hook x name = some (some f)) (hget : s.heap.get? f = some fo)
    (hp : fo.payload = .function label code) (args : List Handle) :
    (callMethod x name args).exec (n + 2) s
      = ((call f (x :: args)).exec (n + 1) (s.allocate (.ofBound x f)).2.enter).onState
        State.leave :=
  (Run.run_bind_ok (run_getAttribute_bound _ hlookup hhook hget hp)).trans
    (run_call_method (Heap.get?_allocate_self hw _) rfl args)

end

/-! ## 2. States up to handles -/

/-- What is asked of states that may differ in handles and in objects that nothing refers to. -/
def Mode.renamed : Mode := ⟨False, fun _ => False, fun h => h.elim⟩

section

variable {s s' : State} {ρ : Renaming}

theorem State.Similar.renamed (hs : s.Similar .identical ρ s') : s.Similar .renamed ρ s' := by
  have hmode : Mode.identical.losing (fun _ => False) = .renamed := by
    simp only [Mode.losing, Mode.identical, Mode.renamed, or_self]
  exact hmode ▸ hs.losing fun _ => False

/-- **Calls of related objects one level deeper** come out alike. -/
theorem State.Similar.call_deeper (hs : s.Similar .renamed ρ s') {callee callee' : Handle}
    {args args' : List Handle} (hc : ρ callee callee') (ha : Forall₂ ρ args args') {n : Nat}
    (hlog : ∀ e ∈ (call callee args).run.log n s.enter, e.Discreet fun _ => False) :
    (((call callee args).exec n s.enter).onState State.leave).Agrees .renamed
      (Answers Renaming.rel) ρ s s'
      (((call callee' args').exec n s'.enter).onState State.leave) := by
  have hcall : Run.Lockstep (Mode.renamed.setting n) ρ (call callee args)
      (call callee' args') Renaming.rel :=
    lockstep_call hc ha
  have hagree := (hcall s.enter s'.enter hs.enter fun e he => Or.inr (hlog e he)).1
  rw [← nested_eq, ← nested_eq]
  exact hagree.nested

end

/-! ## 3. Both calls -/

/-- **A method call and the call of its function one level deeper come out alike and do the same.**
The method call makes one object, the bound method, and from there it is that call, whatever the
function does. Without the bound method, the call answers the same or fails with the same fault and
leaves the same behind, up to the handles of objects that were made on the way, if nobody asks for
numbers. So at the last level the method call is refused, while the function could still be called
directly. -/
theorem State.method_call_deeper {s : State} (hs : s.Reachable) {x f : Handle}
    {fo : Object} {name label : String} {code : Code} {args : List Handle}
    (hlookup : s.heap.lookup x name = some none) (hhook : s.heap.hook x name = some (some f))
    (hget : s.heap.get? f = some fo) (hp : fo.payload = .function label code)
    (hargs : ∀ a ∈ args, s.heap.Taken a) (n : Nat) :
    ∃ method t, s.allocate (.ofBound x f) = (method, t) ∧ s.Placed (.ofBound x f) method t ∧
      (callMethod x name args).exec (n + 2) s
        = ((call f (x :: args)).exec (n + 1) t.enter).onState State.leave ∧
      ((∀ e ∈ (call f (x :: args)).run.log (n + 1) s.enter, e.Discreet fun _ => False) →
        ∃ ρ : Renaming, (∀ a b, ρ a b ↔ a = b ∧ s.heap.Taken a) ∧
          (((call f (x :: args)).exec (n + 1) s.enter).onState State.leave).Agrees .renamed
            (Answers Renaming.rel) ρ s t
            ((callMethod x name args).exec (n + 2) s)) ∧
      (s.levels ≤ 1 → (callMethod x name args).exec (n + 2) s
        = .done (.error (.callDepthExceeded s.limits.callDepth)) t) ∧
      (s.levels = 1 → (call f (x :: args)).exec (n + 2) s
        = ((code.run (x :: args)).run.run (engine (n + 1)) s.enter).onState State.leave) := by
  have hw := hs.regular.heap
  have hmethod := run_callMethod_bound (n := n) hw hlookup hhook hget hp args
  obtain ⟨method, t, ht, hplaced⟩ := exists_placed hw (.ofBound x f)
  rw [ht] at hmethod
  refine ⟨method, t, ht, hplaced, hmethod, fun hlog => ?_, fun hlast => ?_, fun hlast => ?_⟩
  · obtain ⟨ρ, hself⟩ := hs.tidy
    have hkept : ∀ h, s.heap.Taken h → ρ h h := fun h htaken => hself.complete trivial htaken
    have hx : s.heap.Taken x := hw.taken (Heap.live_of_hook hhook)
    have hsim : s.Similar .renamed ρ t := by
      have h := hself.renamed.allocate_right (fun hn => hn.elim) (.ofBound x f)
      rwa [ht] at h
    refine ⟨ρ, fun a b => ⟨fun hab => ⟨hself.eq_of_numbers trivial hab, hself.heap.taken_left hab⟩,
      fun h => h.1 ▸ hkept a h.2⟩, ?_⟩
    rw [hmethod]
    exact hsim.call_deeper (hkept f (hw.taken (Heap.contains_of_get? hget)))
      (.cons (hkept x hx) (List.forall₂_same.mpr fun a ha => hkept a (hargs a ha))) hlog
  · have hfull : t.enter.levels = 0 := by rw [levels_enter, hplaced.levels_eq]; omega
    rw [hmethod, Run.exec, run_call_refused hfull, Outcome.onState_done, leave_enter]
    obtain ⟨_, rfl⟩ := hplaced.rest
    rfl
  · refine (run_call_admitted (by rw [hlast]; exact Nat.one_pos) f (x :: args)).trans ?_
    rw [Heap.reception_function hget hp]
    rfl

/-- Where one level is left, `5 .__neg__()` is refused, while `int.__neg__` can be called. -/
theorem State.method_call_deeper_refused :
    ∃ (s t : State) (x f : Handle) (fo : Object) (label : String), s.Reachable ∧ s.levels = 1 ∧
      s.heap.lookup x "__neg__" = some none ∧
      s.heap.hook x "__neg__" = some (some f) ∧ s.heap.get? f = some fo ∧
      fo.payload = .function label (.member (.int .neg)) ∧
      (callMethod x "__neg__" []).exec 2 s = .done (.error (.callDepthExceeded 1)) t ∧
      (call f [x]).exec 2 s = (((Member.int .neg).run [x]).run.run (engine 1) s.enter).onState
        State.leave := by
  obtain ⟨_, s, hreach, x, -, hone, hlimit, hlookup, f, fo, label, hhook, hget, hp⟩ :=
    Session.exists_reached (fun _ => True) ⟨1, 256⟩ 0 [.setLocal "x" (.int 5)]
      (fun frame s => ∃ x ∈ frame.locals.get? "x", s.levels = 1 ∧ s.limits.callDepth = 1 ∧
        s.heap.lookup x "__neg__" = some none ∧ s.heap.Answers x "__neg__" (.int .neg))
      (by decide +kernel)
  have hnone : ∀ a ∈ ([] : List Handle), s.heap.Taken a := List.forall_mem_nil _
  obtain ⟨method, t, _, _, _, _, hrefused, hdirect⟩ :=
    State.method_call_deeper hreach hlookup hhook hget hp hnone 0
  refine ⟨s, t, x, f, fo, label, hreach, hone, hlookup, hhook, hget, hp, ?_, hdirect hone⟩
  rw [← hlimit]
  exact hrefused (Nat.le_of_eq hone)

end ObjectModel
