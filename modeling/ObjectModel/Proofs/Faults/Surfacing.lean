import ObjectModel.Proofs.Faults.Operation
import ObjectModel.Proofs.Types.WellTyped

/-!
# Faults come up unchanged

A fault that comes up anywhere in a nest of calls and requests passes through the code of all of
them. Builtin code hands it on as it is; only where items are taken from an iterator, a
`StopIteration` of `__next__` is the end. The code of scripts decides for itself.

* `Fault.Arises.ends` -- **the program ends with that fault**, by induction on the nesting.
-/

namespace ObjectModel

variable {α β σ : Type}

/-! ## 1. Conduct -/

/-- How code treats the faults that it sees. -/
inductive Conduct where
  /-- Every fault is handed on. -/
  | relays
  /-- Every fault but a `StopIteration` of `__next__` is handed on. -/
  | iterates
  /-- Nothing is known: the code may catch what it sees. -/
  | decides

namespace Conduct

/-- What need not be handed on. -/
def Exempts : Conduct → Event → Fault → Prop
  | relays, _, _ => False
  | iterates, y, fault => y.Ends fault
  | decides, _, _ => True

/-- The conduct of builtin code. -/
def builtin (takesItems : Bool) : Conduct := if takesItems then iterates else relays

theorem exempts_builtin {takesItems : Bool} {y : Event} {fault : Fault}
    (h : takesItems = true ∧ y.Ends fault) : (builtin takesItems).Exempts y fault := by
  obtain ⟨rfl, h⟩ := h
  exact h

end Conduct

def Code.conduct : Code → List Handle → Conduct
  | member m, _ => .builtin m.takesItems
  | builtin f, args => .builtin (f.takesItems args)
  | script _, _ => .decides

/-- The conduct of what a call runs: of the code of a function; a bound method or another callable
object calls something else. -/
def State.conduct (s : State) (callee : Handle) (args : List Handle) : Conduct :=
  match (s.heap.get? callee).map Object.payload with
  | some (.function _ code) => code.conduct args
  | _ => .relays

def Coroutine.conduct (c : Coroutine) : Conduct :=
  if c.isBuiltin then .builtin c.takesItems else .decides

def Operation.conduct (op : Operation) : Conduct :=
  if op.raises then .decides else .builtin op.takesItems

section

variable {e : Engine} {s : State} {x : Run α}

theorem Run.RelaysAt.mono {exempt exempt' : Event → Fault → Prop} (hx : x.RelaysAt exempt e s)
    (hex : ∀ y fault, exempt y fault → exempt' y fault) : x.RelaysAt exempt' e s :=
  fun y hy fault hf hno => hx y hy fault hf fun h => hno (hex y fault h)

/-- Candid code keeps to its conduct. -/
theorem Run.Candid.keeps {takesItems : Bool} (hx : x.Candid (takesItems = true)) (e : Engine)
    (s : State) : x.RelaysAt (Conduct.builtin takesItems).Exempts e s :=
  (hx.relays e s).mono fun _ _ => Conduct.exempts_builtin

/-- Code that takes no items hands every fault on. -/
theorem Run.Candid.strict {exempt : Event → Fault → Prop} (hx : x.Candid False) (e : Engine)
    (s : State) : x.RelaysAt exempt e s :=
  (hx.relays e s).mono fun _ _ h => absurd h.1 id

/-- Of code that decides for itself nothing is asked. -/
theorem Run.RelaysAt.decides : x.RelaysAt Conduct.decides.Exempts e s :=
  fun _ _ _ _ h => absurd trivial h

theorem Code.relaysAt_run (code : Code) (args : List Handle) (e : Engine) (s : State) :
    (code.run args).RelaysAt (code.conduct args).Exempts e s := by
  cases code with
  | member m => exact (m.composed_run args id).candid.keeps e s
  | builtin f => exact (f.composed_run args id).candid.keeps e s
  | script body => exact .decides

/-- **What a call runs keeps to its conduct.** -/
theorem relaysAt_dispatch (callee : Handle) (args : List Handle) (e : Engine) (s : State) :
    (dispatch callee args).RelaysAt (s.conduct callee args).Exempts e s.enter := by
  refine Run.RelaysAt.bind ((composed_object (K := []) callee).candid.strict e _) fun o t hrun => ?_
  obtain ⟨rfl, hget⟩ := inspect_ends hrun
  have hget : s.heap.get? callee = some o := hget
  cases hp : o.payload with
  | function label code =>
    have hconduct : s.conduct callee args = code.conduct args := by
      rw [State.conduct, hget, Option.map_some, hp]
    rw [hconduct]
    exact code.relaysAt_run args e _
  | bound receiver function => exact Run.Candid.strict (.ask fun _ => rfl) e _
  | _ =>
    refine Run.Candid.strict ((composed_findHook (K := []) callee _).candid.bind fun hook => ?_) e _
    cases hook with
    | some hook => exact .ask fun _ => rfl
    | none => exact (paired_typeError (ρ := .known []) _).composed_known.candid

theorem Coroutine.relaysAt_resume (c : Coroutine) (e : Engine) (s : State) :
    c.resume.RelaysAt c.conduct.Exempts e s := by
  unfold conduct
  split
  · rename_i hc
    exact (c.composed_resume hc id).candid.keeps e s
  · exact .decides

theorem Operation.relaysAt_run (op : Operation) (e : Engine) (s : State) :
    op.run.RelaysAt op.conduct.Exempts e s := by
  unfold conduct
  split
  · exact .decides
  · rename_i hop
    exact (op.candid_run (Bool.eq_false_iff.mpr hop)).keeps e s

end

/-! ## 2. Faults on their way up -/

/-- **A fault comes up** in `x`, or at any nesting in the functions that it calls and the
computations that it asks for a value, and everything on the way up hands it on: what the conduct of
a code exempts, the code ended with nevertheless. -/
inductive Fault.Arises (fault : Fault) : Nat → Conduct → {α : Type} → Run α → State → Prop where
  /-- A function, a request or a primitive action fails with it. -/
  | seen {n : Nat} {c : Conduct} {α : Type} {x : Run α} {s : State} {y : Event} :
      y ∈ x.run.own (engine n) s → y.fault? = some fault → (c.Exempts y fault →
      ∃ t, x.run.run (engine n) s = .done (.error fault) t) → Arises fault n c x s
  /-- It comes up inside of a function. -/
  | called {n : Nat} {c : Conduct} {α : Type} {x : Run α} {s s' : State} {callee : Handle}
    {args : List Handle} :
      .performed (.call callee args) s' ((Action.call callee args).perform (engine (n + 1)) s')
        ∈ x.run.own (engine (n + 1)) s →
      s'.callDepth < s'.limits.callDepth →
      Arises fault n (s'.conduct callee args) (dispatch callee args) s'.enter →
      (c.Exempts (.performed (.call callee args) s'
        ((Action.call callee args).perform (engine (n + 1)) s')) fault →
        ∃ t, x.run.run (engine (n + 1)) s = .done (.error fault) t) → Arises fault (n + 1) c x s
  /-- The computation of a generator fails with it. -/
  | failed {n : Nat} {c : Conduct} {α : Type} {x : Run α} {s s' t : State} {g : Handle}
    {object : Object} {computation : Coroutine} :
      .performed (.advance g) s' ((Action.advance g).perform (engine (n + 1)) s')
        ∈ x.run.own (engine (n + 1)) s →
      s'.heap.get? g = some object → object.payload = .generator (.suspended computation) →
      computation.resume.run.run (engine n) (s'.setGenerator g .running).enter
        = .done (.error fault) t →
      (c.Exempts (.performed (.advance g) s' ((Action.advance g).perform (engine (n + 1)) s')) fault
        →
        ∃ t, x.run.run (engine (n + 1)) s = .done (.error fault) t) → Arises fault (n + 1) c x s
  /-- It comes up inside of the computation of a generator. -/
  | resumed {n : Nat} {c : Conduct} {α : Type} {x : Run α} {s s' : State} {g : Handle}
    {object : Object} {computation : Coroutine} :
      .performed (.advance g) s' ((Action.advance g).perform (engine (n + 1)) s')
        ∈ x.run.own (engine (n + 1)) s →
      s'.heap.get? g = some object → object.payload = .generator (.suspended computation) →
      Arises fault n computation.conduct computation.resume (s'.setGenerator g .running).enter →
      (c.Exempts (.performed (.advance g) s' ((Action.advance g).perform (engine (n + 1)) s')) fault
        →
        ∃ t, x.run.run (engine (n + 1)) s = .done (.error fault) t) → Arises fault (n + 1) c x s

section

variable {fault : Fault} {n : Nat} {s s' t : State} {x : Run α} {c : Conduct}

/-- What is seen is handed on or exempt. -/
theorem Run.RelaysAt.ends {e : Engine} {y : Event} (hx : x.RelaysAt c.Exempts e s)
    (hy : y ∈ x.run.own e s) (hf : y.fault? = some fault)
    (hpass : c.Exempts y fault → ∃ t, x.run.run e s = .done (.error fault) t) :
    ∃ t, x.run.run e s = .done (.error fault) t := by
  by_cases hex : c.Exempts y fault
  · exact hpass hex
  · exact ⟨y.behind, hx y hy fault hf hex⟩

/-- **A call hands the fault of its function on.** -/
theorem fault?_call {callee : Handle} {args : List Handle} (hd : s.Room)
    (hrun : (dispatch callee args).run.run (engine n) s.enter = .done (.error fault) t) :
    (Event.performed (.call callee args) s
      ((Action.call callee args).perform (engine (n + 1)) s)).fault? = some fault := by
  have hperform : (Action.call callee args).perform (engine (n + 1)) s
      = .done (.error fault) t.leave := by
    change belowLimit ((dispatch callee args).run.run (engine n)) s = _
    rw [belowLimit, if_neg (Nat.not_le.mpr hd), nested_eq, hrun]
    rfl
  rw [hperform]
  rfl

/-- **A request hands the fault of the computation on.** -/
theorem fault?_advance {g : Handle} {object : Object} {computation : Coroutine}
    (hget : s.heap.get? g = some object) (hp : object.payload = .generator (.suspended computation))
    (hrun : computation.resume.run.run (engine n) (s.setGenerator g .running).enter = .done
      (.error fault) t) :
    (Event.performed (.advance g) s ((Action.advance g).perform (engine (n + 1)) s)).fault?
      = some fault := by
  have hperform : (Action.advance g).perform (engine (n + 1)) s
      = .done (.error fault) (t.leave.setGenerator g (.stopped none)) := by
    change advanceWith (engine n) g s = _
    rw [advanceWith_suspended _ hget hp, resumeWith, nested_eq, hrun]
    rfl
  rw [hperform]
  rfl

/-- **A program in which a fault comes up ends with it**, by induction on the nesting. -/
theorem Fault.Arises.ends (h : fault.Arises n c x s) (hx : x.RelaysAt c.Exempts (engine n) s) :
    ∃ t, x.run.run (engine n) s = .done (.error fault) t := by
  induction h with
  | seen hy hf hpass => exact hx.ends hy hf hpass
  | called hy hd _ hpass ih =>
    obtain ⟨t, hrun⟩ := ih (relaysAt_dispatch _ _ _ _)
    exact hx.ends hy (fault?_call hd hrun) hpass
  | failed hy hget hp hrun hpass => exact hx.ends hy (fault?_advance hget hp hrun) hpass
  | resumed hy hget hp _ hpass ih =>
    obtain ⟨t, hrun⟩ := ih (Coroutine.relaysAt_resume _ _ _)
    exact hx.ends hy (fault?_advance hget hp hrun) hpass

end

/-! ## 3. Loops over an iterable -/

/-- A fault of `__next__` that is no `StopIteration` ends a round. -/
theorem run_takeOne_of_next {e : Engine} {iterator : Handle} {body : σ → Handle → Run σ} {acc : σ}
    {t u : State} {fault : Fault} (hnext : (next iterator).run.run e t = .done (.error fault) u)
    (hf : ¬ fault.Stops u) : (takeOne iterator body acc).run.run e t = .done (.error fault) u := by
  rw [takeOne, ExceptT.run_bind, Program.run_bind, Run.run_nextItem_of_not_stops hnext hf]
  rfl

/-- **An exception that is there is seen to be a `StopIteration` or to be none.** -/
theorem Fault.stops_iff {s : State} {fault : Fault} (hs : s.Orderly)
    (hf : ∀ exception, fault.exception = some exception → ∃ o, s.heap.get? exception = some o ∧
      s.heap.IsType o.type) : fault.Stops s ↔ fault.IsStop s := by
  constructor
  · rintro ⟨exception, hx, hseen⟩
    obtain ⟨o, hget, htype⟩ := hf exception hx
    obtain ⟨links, hlineage, _⟩ := hs.heap.lineage htype
    have htold := Heap.isInstance_eq hget ExceptionKind.stopIteration.type
    rw [hlineage.chain_eq, Option.map_some] at htold
    cases hc : links.contains ExceptionKind.stopIteration.type with
    | true => exact ⟨exception, hx, hc ▸ htold⟩
    | false => exact absurd (hc ▸ htold) hseen
  · rintro ⟨exception, hx, hseen⟩
    refine ⟨exception, hx, ?_⟩
    rw [hseen]
    decide

/-! ## 4. All operations -/

/-- **Faults come up unchanged.** An operation in which a fault comes up, at any nesting, ends with
this very fault. A loop over an iterable ends with the fault of the request for its iterator, with
every fault of `__next__` that is no `StopIteration`, and with every fault of its callback; a
`StopIteration` of `__next__` is the end of the loop. Whether a fault is one can be told as long as
its exception is there. -/
theorem Operation.faults_surface :
    (∀ (op : Operation) (n : Nat) (s : State) (fault : Fault), fault.Arises n op.conduct op.run s →
      ∃ t, op.run.exec n s = .done (.error fault) t) ∧
    (∀ {σ : Type} (iterable : Handle) (start : σ) (body : σ → Handle → Run σ) (n : Nat) (s : State)
      (fault : Fault),
      (∀ t, (iter iterable).exec n s = .done (.error fault) t →
        (forEach iterable start body).exec n s = .done (.error fault) t) ∧
      ∀ (iterator : Handle) (k : Nat) (acc : σ) (s₀ t : State),
        (iter iterable).exec n s = .done (.ok iterator) s₀ →
        Taken (engine n) iterator body k start s₀ acc t → k < n →
          (∀ u, (next iterator).exec n t = .done (.error fault) u →
            (fault.IsStop u → (forEach iterable start body).exec n s = .done (.ok acc) u) ∧
            (¬ fault.Stops u → (forEach iterable start body).exec n s = .done (.error fault) u)) ∧
          ∀ item u v, (nextItem iterator).exec n t = .done (.ok (some item)) u →
            (body acc item).exec n u = .done (.error fault) v →
            (forEach iterable start body).exec n s = .done (.error fault) v) ∧
    ∀ (s : State) (fault : Fault), s.Orderly →
      (∀ exception, fault.exception = some exception →
        ∃ o, s.heap.get? exception = some o ∧ s.heap.IsType o.type) →
        (fault.Stops s ↔ fault.IsStop s) := by
  refine ⟨fun op n s fault h => h.ends (op.relaysAt_run _ s), fun iterable start body n s fault =>
    ⟨fun t hiter => ?_, ?_⟩, fun s fault hs hf => Fault.stops_iff hs hf⟩
  · have hiter : (iter iterable).run.run (engine n) s = .done (.error fault) t := hiter
    rw [Run.exec, forEach_eq, ExceptT.run_bind, Program.run_bind, hiter]
    rfl
  · intro iterator k acc s₀ t hiter htaken hk
    have hrounds : k < (engine n).rounds := by rw [rounds_engine]; exact hk
    refine ⟨fun u hnext => ⟨fun hf => ?_, fun hf => htaken.ends hrounds hiter ?_⟩,
      fun item u v hitem hbody => ?_⟩
    · exact htaken.ended hk hiter (Run.run_nextItem_of_isStop hnext hf)
    · exact run_takeOne_of_next hnext hf
    · exact htaken.failed hk hiter hitem hbody

/-- A bound method of `len` is called with one argument, so the function gets two: the fault comes
up two calls deep. -/
theorem arises_boundLen {s : State} (hw : s.heap.WellFormed)
    (hd : s.callDepth + 2 ≤ s.limits.callDepth) :
    let function := s.allocate (.ofCode "len" (.builtin .len))
    let method := function.2.allocate (.ofBound .none function.1)
    ∃ fault : Fault, fault.Arises 2 (Operation.apply .call method.1 [.none]).conduct
        (Operation.apply .call method.1 [.none]).run method.2 := by
  intro function method
  have hfunction : method.2.heap.get? function.1 = some (.ofCode "len" (.builtin .len)) :=
    Heap.get?_allocate_of_live (hw.allocate _) (Heap.get?_allocate_self hw _)
  have hmethod : method.2.heap.get? method.1 = some (.ofBound .none function.1) :=
    Heap.get?_allocate_self (hw.allocate _) _
  have hw' : method.2.heap.WellFormed := (hw.allocate _).allocate _
  have hroom : method.2.callDepth + 2 ≤ method.2.limits.callDepth := hd
  generalize method.2 = t at *
  obtain ⟨fault, u, _, hrun, _⟩ := run_raiseMessage (α := Handle)
      (s := t.enter.enter) hw' .typeError "`len` expected 1 arguments, got 2" (engine 0)
  have hinner : (dispatch function.1 [.none, .none]).run.run (engine 0) t.enter.enter
      = .done (.error fault) u := by
    refine (run_object_bind (s := t.enter.enter) hfunction).trans ?_
    exact hrun
  have hconduct : t.conduct method.1 [.none] = .relays := by
    rw [State.conduct, hmethod]
    rfl
  have hinside : fault.Arises 1 (t.conduct method.1 [.none])
      (dispatch method.1 [.none]) t.enter := by
    have hown : (call function.1 [.none, .none]).run.own (engine 1) t.enter
        = [.performed (.call function.1 [.none, .none]) t.enter
            ((Action.call function.1 [.none, .none]).perform (engine 1) t.enter)] :=
      Program.own_act _
    refine .seen (Run.mem_own_right (Run.run_inspect hmethod) ?_)
      (fault?_call (s := t.enter) ?_ hinner) ?_
    · exact hown ▸ List.mem_singleton_self _
    · change t.callDepth + 1 < t.limits.callDepth
      omega
    · rw [hconduct]
      exact fun h => absurd h id
  have hown : (call method.1 [.none]).run.own (engine 2) t
      = [.performed (.call method.1 [.none]) t
          ((Action.call method.1 [.none]).perform (engine 2) t)] := Program.own_act _
  refine ⟨fault, .called (Run.mem_own_left ?_) (by omega) hinside fun h => absurd h id⟩
  exact hown ▸ List.mem_singleton_self _

/-- A fault that comes up two calls deep, and a loop over a pinned tuple whose callback raises
`StopIteration`. -/
theorem Operation.faults_surface_nested :
    (∃ (op : Operation) (s : State) (fault : Fault), fault.Arises 2 op.conduct op.run s ∧
      ∃ t, op.run.exec 2 s = .done (.error fault) t) ∧
    ∃ (iterable iterator item : Handle) (s s₀ u v : State) (fault : Fault),
      (iter iterable).exec 2 s = .done (.ok iterator) s₀ ∧
      (nextItem iterator).exec 2 s₀ = .done (.ok (some item)) u ∧
      (raiseMessage .stopIteration "enough" : Run Unit).exec 2 u = .done (.error fault) v ∧
      (forEach iterable () fun _ _ => raiseMessage .stopIteration "enough").exec 2 s
        = .done (.error fault) v ∧
      (fault.Stops v ↔ fault.IsStop v) := by
  constructor
  · obtain ⟨fault, harises⟩ := arises_boundLen (State.regular_initial .standard (.ofLines [])).heap
        (State.room_initial _ _ (by decide))
    exact ⟨_, _, fault, harises, Operation.faults_surface.1 _ 2 _ fault harises⟩
  · obtain ⟨hs, hd, hroom, _, hiter, hnext⟩ := State.pinnedSingleton_initial
    have hget := State.get?_pinnedSingleton (State.regular_initial .standard (.ofLines [])).heap 5
    obtain ⟨g, rest, t, hrun, hready, _⟩ :=
      (Heap.Contents.tuple hiter hget rfl).ready hs.orderly (hd ▸ hroom) hnext 1
    obtain ⟨u, hitem, hready', _⟩ := hready.run_nextItem (n := 0)
    obtain ⟨fault, v, _, hraise, _, _, hcarries⟩ :=
      run_raiseMessage (α := Unit) hready'.orderly.regular.heap .stopIteration "enough" (engine 2)
    have hloop := (Operation.faults_surface.2.1 _ () (fun _ _ =>
        raiseMessage .stopIteration "enough") 2 _ fault).2 g 0 () t t hrun (.none () t) (by decide)
    refine ⟨_, g, _, _, t, u, v, fault, hrun, hitem, hraise, hloop.2 _ u v hitem hraise, ?_⟩
    have hv : v.Orderly :=
      (builds_raiseMessage .stopIteration "enough").orderly_done hready'.orderly hraise
    refine Operation.faults_surface.2.2 v fault hv fun exception hx => ?_
    cases hcarries with
    | raised found type_eq =>
      cases hx
      exact ⟨_, found, type_eq ▸ hv.heap.isType_builtin (.exception .stopIteration)⟩

end ObjectModel
