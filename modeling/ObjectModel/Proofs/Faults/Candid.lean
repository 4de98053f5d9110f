import ObjectModel.Proofs.Generators.Loop
import ObjectModel.Proofs.Pairing.Operation

/-!
# Programs that leave faults alone

A program gets to see the faults of the functions it calls and of the computations it asks for a
value. One that is composed by sequence and loop alone never looks at them; the only way to look is
to attempt something.

* `Run.Candid.relays` -- **the first fault that such a program sees is the one it ends with**, right
  where it came up; only a `StopIteration` that comes from `__next__` may be the end of an iteration
  instead.
-/

namespace ObjectModel

variable {α β σ : Type}

/-! ## 1. What a program does itself -/

/-- The fault that an event ended with. -/
def Event.fault? : Event → Option Fault
  | performed a _ (.done answer _) => a.fault? answer
  | _ => none

/-- What a program does itself. -/
def Program.own (p : Program α) (e : Engine) (s : State) : List Event :=
  (p.record e (recorder 0) [] s).map Entry.event

section

variable {e : Engine} {s : State} {y : Event}

theorem Program.mem_own {p : Program α} :
    y ∈ p.own e s ↔ ∃ x ∈ p.record e (recorder 0) [] s, x.event = y :=
  List.mem_map

/-- An action runs none of the code inside of it itself. -/
theorem Program.own_act (a : Action β) :
    (Program.act a).own e s = [.performed a s (a.perform e s)] := by
  have hinside : a.inside (recorder 0) [] s = [] := by
    cases a <;> rfl
  have hrecord : (Program.act a).record e (recorder 0) [] s
      = [⟨[], .performed a s (a.perform e s)⟩] := by
    rw [act, record_perform, hinside]
    cases a.perform e s <;> rfl
  rw [own, hrecord]
  rfl

namespace Run

theorem own_act (a : Action β) : (Run.act a).run.own e s = [.performed a s (a.perform e s)] := by
  rw [Program.own, record_act, ← Program.record_act]
  exact Program.own_act a

/-- A composed program does what its first part does, and then what comes behind an answer of it. -/
theorem mem_own_bind {x : Run α} {f : α → Run β} (hy : y ∈ (x >>= f).run.own e s) :
    y ∈ x.run.own e s ∨ ∃ a t, x.run.run e s = .done (.ok a) t ∧ y ∈ (f a).run.own e t := by
  obtain ⟨z, hz, rfl⟩ := Program.mem_own.mp hy
  refine forall_record_bind (P := fun z => z.event ∈ x.run.own e s ∨ ∃ a t, x.run.run e s
    = .done (.ok a) t ∧ z.event ∈ (f a).run.own e t) (fun z hz => ?_) (fun a t hrun z hz => ?_) z hz
  · exact Or.inl (Program.mem_own.mpr ⟨z, hz, rfl⟩)
  · exact Or.inr ⟨a, t, hrun, Program.mem_own.mpr ⟨z, hz, rfl⟩⟩

theorem mem_own_left {x : Run α} {f : α → Run β} (hy : y ∈ x.run.own e s) :
    y ∈ (x >>= f).run.own e s := by
  obtain ⟨z, hz, rfl⟩ := Program.mem_own.mp hy
  exact Program.mem_own.mpr ⟨z, Program.mem_record_bind hz, rfl⟩

theorem mem_own_right {x : Run α} {f : α → Run β} {a : α} {t : State}
    (hrun : x.run.run e s = .done (.ok a) t) (hy : y ∈ (f a).run.own e t) :
    y ∈ (x >>= f).run.own e s := by
  obtain ⟨z, hz, rfl⟩ := Program.mem_own.mp hy
  refine Program.mem_own.mpr ⟨z, ?_, rfl⟩
  rw [ExceptT.run_bind, Program.record_bind, hrun]
  exact List.mem_append_right _ hz

theorem mem_own_attempt {x : Run α} (hy : y ∈ (Run.attempt x).run.own e s) : y ∈ x.run.own e s := by
  obtain ⟨z, hz, rfl⟩ := Program.mem_own.mp hy
  exact forall_record_attempt (P := fun z => z.event ∈ x.run.own e s)
    (fun z hz => Program.mem_own.mpr ⟨z, hz, rfl⟩) z hz

end Run

end

/-! ## 2. Requests to iterators -/

/-- A call of the `__next__` of its only argument. -/
def Event.IsRequest : Event → Prop
  | performed (.call callee [iterator]) s _ => s.heap.hook iterator "__next__" = some (some callee)
  | _ => False

/-- The fault is a raised `StopIteration`. -/
def Fault.IsStop (s : State) (fault : Fault) : Prop :=
  ∃ exception, fault.exception = some exception ∧
    s.heap.isInstance exception ExceptionKind.stopIteration.type = some true

/-- The fault may be a raised `StopIteration`: the exception that it carries is not seen to be
another one. -/
def Fault.Stops (s : State) (fault : Fault) : Prop :=
  ∃ exception, fault.exception = some exception ∧
    s.heap.isInstance exception ExceptionKind.stopIteration.type ≠ some false

/-- The fault may be taken for the end of an iteration: it is a `StopIteration` that comes from
`__next__`. -/
def Event.Ends (y : Event) (fault : Fault) : Prop := y.IsRequest ∧ fault.Stops y.behind

/-- What is no `StopIteration` is seen to be none. -/
theorem run_isStopIteration {fault : Fault} {s : State} (hf : ¬ fault.Stops s) (e : Engine) :
    (isStopIteration fault).run.run e s = .done (.ok false) s := by
  unfold isStopIteration isException
  cases hx : fault.exception with
  | none => rfl
  | some exception =>
    have hseen : s.heap.isInstance exception ExceptionKind.stopIteration.type = some false :=
      Classical.byContradiction fun hne => hf ⟨exception, hx, hne⟩
    exact Run.run_inspect hseen

theorem run_isStopIteration_of_isStop {fault : Fault} {s : State} (hf : fault.IsStop s)
    (e : Engine) : (isStopIteration fault).run.run e s = .done (.ok true) s := by
  obtain ⟨exception, hx, hseen⟩ := hf
  unfold isStopIteration isException
  rw [hx]
  exact Run.run_inspect hseen

/-! ## 3. Programs that relay faults -/

/-- Every fault that `x` sees, but for those that are exempt, is what it ends with, and nothing
happens in between. -/
def Run.RelaysAt (exempt : Event → Fault → Prop) (x : Run α) (e : Engine) (s : State) : Prop :=
  ∀ y ∈ x.run.own e s, ∀ fault, y.fault? = some fault → ¬ exempt y fault →
    x.run.run e s = .done (.error fault) y.behind

namespace Run.RelaysAt

variable {exempt : Event → Fault → Prop} {e : Engine} {s : State} {x : Run α} {f : α → Run β}

theorem of_silent (h : ∀ y ∈ x.run.own e s, y.fault? = none) : x.RelaysAt exempt e s := by
  intro y hy fault hf
  cases (h y hy).symm.trans hf

/-- **A sequence of two programs**: a fault of the first one ends both. -/
theorem bind (hx : x.RelaysAt exempt e s)
    (hf : ∀ a t, x.run.run e s = .done (.ok a) t → (f a).RelaysAt exempt e t) :
    (x >>= f).RelaysAt exempt e s := by
  intro y hy fault hfault hex
  rcases mem_own_bind hy with hy | ⟨a, t, hrun, hy⟩
  · rw [ExceptT.run_bind, Program.run_bind, hx y hy fault hfault hex]
    rfl
  · rw [run_bind_ok hrun]
    exact hf a t hrun y hy fault hfault hex

theorem act {a : Action β} (ha : ∀ answer, a.fault? answer = none) :
    (Run.act a).RelaysAt exempt e s := by
  refine of_silent fun y hy => ?_
  rw [own_act] at hy
  cases List.mem_singleton.mp hy
  cases ho : a.perform e s with
  | done answer t => exact ha answer
  | aborted => rfl

theorem ask {a : Action (Except Fault β)} (ha : ∀ answer, a.fault? answer = faultOf answer) :
    (Run.ask a).RelaysAt exempt e s := by
  intro y hy fault hf _
  have hown : (Run.ask a).run.own e s = [.performed a s (a.perform e s)] := Program.own_act a
  rw [hown] at hy
  cases List.mem_singleton.mp hy
  refine (Program.run_act e a s).trans ?_
  cases ho : a.perform e s with
  | done answer t =>
    rw [ho] at hf
    rw [faultOf_eq_some ((ha answer).symm.trans hf)]
    rfl
  | aborted reason t =>
    rw [ho] at hf
    cases hf

/-- The rounds of a loop: a fault of one of them is the answer of the loop. -/
theorem rounds {round : σ → Program (σ ⊕ Except Fault β)}
    (hround : ∀ acc t, ∀ y ∈ (round acc).own e t, ∀ fault, y.fault? = some fault → ¬ exempt y
      fault → (round acc).run e t = .done (.inr (.error fault)) y.behind) (rounds : Nat) (acc : σ)
    (s : State) {z : Entry} {fault : Fault} (hz : z ∈ recordUntil (fun acc s => (round acc).run e s)
      (fun acc s => (round acc).record e (recorder 0) [] s) rounds acc s)
    (hf : z.event.fault? = some fault) (hex : ¬ exempt z.event fault) :
    repeatUntil (fun acc s => (round acc).run e s) rounds acc s
      = .done (.error fault) z.event.behind := by
  induction rounds generalizing acc s with
  | zero => exact absurd hz List.not_mem_nil
  | succ rounds ih =>
    rw [recordUntil_succ] at hz
    rw [repeatUntil_succ]
    dsimp only at hz ⊢
    rcases List.mem_append.mp hz with hz | hz
    · rw [hround acc s z.event (Program.mem_own.mpr ⟨z, hz, rfl⟩) fault hf hex]
      rfl
    · cases ho : (round acc).run e s with
      | aborted reason t =>
        rw [ho] at hz
        exact absurd hz List.not_mem_nil
      | done answer t =>
        rw [ho] at hz
        cases answer with
        | inr answer => exact absurd hz List.not_mem_nil
        | inl next => exact ih next t hz

/-- **Loops**: a fault of any round ends the loop. -/
theorem loop {start : σ} {body : σ → Run (σ ⊕ β)}
    (hbody : ∀ acc t, (body acc).RelaysAt exempt e t) :
    (Run.loop start body).RelaysAt exempt e s := by
  have hround : ∀ acc t, ∀ y ∈ ((body acc).run >>= fun outcome => Pure.pure (turn outcome)).own e t,
    ∀ fault, y.fault? = some fault →
      ¬ exempt y fault →
        ((body acc).run >>= fun outcome => Pure.pure (turn outcome)).run e t
            = .done (.inr (.error fault)) y.behind := by
    intro acc t y hy fault hf hex
    have hown : y ∈ (body acc).run.own e t := by
      obtain ⟨z, hz, rfl⟩ := Program.mem_own.mp hy
      rw [Program.record_bind] at hz
      rcases List.mem_append.mp hz with hz | hz
      · exact Program.mem_own.mpr ⟨z, hz, rfl⟩
      · cases ho : (body acc).run.run e t <;> rw [ho] at hz <;> exact absurd hz List.not_mem_nil
    rw [Program.run_bind, hbody acc t y hown fault hf hex]
    rfl
  intro y hy fault hf hex
  obtain ⟨z, hz, rfl⟩ := Program.mem_own.mp hy
  rw [loop_eq, Program.loop, Program.record_iterate] at hz
  rw [loop_eq, Program.loop, Program.run_iterate]
  rcases List.mem_append.mp hz with hz | hz
  · rw [rounds hround e.rounds start s hz hf hex]
    rfl
  · generalize repeatUntil _ e.rounds start s = o at hz
    cases o <;> exact absurd hz List.not_mem_nil

end Run.RelaysAt

/-! ## 4. Raising -/

section

variable {e : Engine}

theorem silent_raise (kind : ExceptionKind) (args : List Handle) (s : State) :
    ∀ z ∈ (raise kind args : Run α).run.record e (recorder 0) [] s, z.event.fault? = none := by
  have hwritten : ∀ (target : Handle) (name : String) (value : Handle) (s : State),
      (Event.performed (.setAttribute target name value) s
      ((Action.setAttribute target name value).perform e s)).fault? = none := by
    intro target name value s
    cases (Action.setAttribute target name value).perform e s <;> rfl
  have hmade : ∀ exception s, ∀ z ∈ (raiseMade kind args exception : Program
      (Except Fault α)).record e (recorder 0) [] s, z.event.fault? = none := by
    intro exception s
    refine Program.forall_record_perform rfl ?_ fun _ _ => List.forall_mem_nil _
    simp only [Action.perform]
    cases s.heap.plainMessage args <;> rfl
  rw [raise_eq]
  refine Program.forall_record_perform rfl rfl fun exception s₁ => ?_
  refine Program.forall_record_perform rfl rfl fun tuple s₂ => ?_
  refine Program.forall_record_perform rfl (hwritten _ _ _ _) fun _ s₃ => ?_
  split
  · exact Program.forall_record_perform rfl (hwritten _ _ _ _) fun _ s₄ => hmade exception s₄
  · exact hmade exception s₃

theorem silent_raiseMessage (kind : ExceptionKind) (message : String) (s : State) :
    ∀ y ∈ (raiseMessage kind message : Run α).run.own e s, y.fault? = none := by
  have hrecord : ∀ z ∈ (raiseMessage kind message : Run α).run.record e (recorder 0) [] s,
      z.event.fault? = none :=
    Program.forall_record_perform rfl rfl fun text t => silent_raise kind [text] t
  intro y hy
  obtain ⟨z, hz, rfl⟩ := Program.mem_own.mp hy
  exact hrecord z hz

theorem silent_look (look : State → Option β) (s : State) :
    ∀ y ∈ (inspect look).run.own e s, y.fault? = none := by
  intro y hy
  have hown : (inspect look).run.own e s
      = [.performed (.inspect look) s ((Action.inspect look).perform e s)] := Run.own_act _
  rw [hown] at hy
  cases List.mem_singleton.mp hy
  cases (Action.inspect look).perform e s <;> rfl

theorem silent_isStopIteration (fault : Fault) (s : State) :
    ∀ y ∈ (isStopIteration fault).run.own e s, y.fault? = none := by
  unfold isStopIteration isException
  cases fault.exception with
  | none => exact List.forall_mem_nil _
  | some exception => exact silent_look _ s

end

/-! ## 5. Requests to iterators -/

namespace Run

variable {e : Engine} {s : State} {y : Event} {fault : Fault}

/-- The only fault that `next` sees is the one of the hook. -/
theorem isRequest_of_next {iterator : Handle} (hy : y ∈ (next iterator).run.own e s)
    (hf : y.fault? = some fault) :
    y.IsRequest ∧ (next iterator).run.run e s = .done (.error fault) y.behind := by
  rcases mem_own_bind hy with hy | ⟨hook, t, hrun, hy⟩
  · cases (silent_look _ s y hy).symm.trans hf
  · obtain ⟨rfl, hseen⟩ := inspect_ends hrun
    cases hook with
    | none => cases (silent_raiseMessage _ _ _ y hy).symm.trans hf
    | some hook =>
      have hown : (call hook [iterator]).run.own e t
          = [.performed (.call hook [iterator]) t ((Action.call hook [iterator]).perform e t)] :=
        Program.own_act _
      have hrelays : (call hook [iterator]).RelaysAt (fun _ _ => False) e t := .ask fun _ => rfl
      have hrest := hrelays y hy fault hf id
      rw [hown] at hy
      cases List.mem_singleton.mp hy
      refine ⟨hseen, ?_⟩
      exact (run_bind_ok hrun).trans hrest

/-- How a request for the next item goes on where `__next__` failed. -/
theorem run_nextItem_of_fault {iterator : Handle} {t : State}
    (hnext : (next iterator).run.run e s = .done (.error fault) t) :
    (nextItem iterator).run.run e s
      = (isStopIteration fault >>= fun stop => if stop = true then pure none
        else throw fault : Run (Option Handle)).run.run e t :=
  run_bind_ok (run_attempt_done hnext)

/-- A `StopIteration` of `__next__` is the end. -/
theorem run_nextItem_of_isStop {iterator : Handle} {t : State}
    (hnext : (next iterator).run.run e s = .done (.error fault) t) (hf : fault.IsStop t) :
    (nextItem iterator).run.run e s = .done (.ok none) t :=
  (run_nextItem_of_fault hnext).trans (run_bind_ok (run_isStopIteration_of_isStop hf e))

/-- Any other fault is handed on. -/
theorem run_nextItem_of_not_stops {iterator : Handle} {t : State}
    (hnext : (next iterator).run.run e s = .done (.error fault) t) (hf : ¬ fault.Stops t) :
    (nextItem iterator).run.run e s = .done (.error fault) t :=
  (run_nextItem_of_fault hnext).trans (run_bind_ok (run_isStopIteration hf e))

/-- **A request to an iterator**: what is taken for the end is a `StopIteration` of `__next__`, and
nothing else. -/
theorem relaysAt_nextItem (iterator : Handle) : (nextItem iterator).RelaysAt Event.Ends e s := by
  intro y hy fault hf hex
  rcases mem_own_bind hy with hy | ⟨outcome, t, hrun, hy⟩
  · obtain ⟨hrequest, hnext⟩ := isRequest_of_next (mem_own_attempt hy) hf
    exact run_nextItem_of_not_stops hnext fun h => hex ⟨hrequest, h⟩
  · cases outcome with
    | ok item => exact absurd hy List.not_mem_nil
    | error raised =>
      rcases mem_own_bind hy with hy | ⟨stop, u, _, hy⟩
      · cases (silent_isStopIteration raised t y hy).symm.trans hf
      · cases stop <;> exact absurd hy List.not_mem_nil

end Run

/-! ## 6. Candid programs -/

/-- **A program that leaves faults alone**: it is composed by sequence and loop, and looks at a
fault of what it runs at most where it asks an iterator for the next item, if it `iterates`. -/
inductive Run.Candid (iterates : Prop) : {α : Type} → Run α → Prop where
  | pure {α : Type} (a : α) : Candid iterates (Pure.pure a : Run α)
  | throw {α : Type} (fault : Fault) : Candid iterates (MonadExcept.throw fault : Run α)
  | act {β : Type} {a : Action β} : (∀ answer, a.fault? answer = none) → Candid iterates (Run.act a)
  | ask {β : Type} {a : Action (Except Fault β)} : (∀ answer, a.fault? answer = faultOf answer) →
      Candid iterates (Run.ask a)
  | bind {α β : Type} {x : Run α} {f : α → Run β} : Candid iterates x →
      (∀ a, Candid iterates (f a)) → Candid iterates (x >>= f)
  | loop {σ β : Type} {start : σ} {body : σ → Run (σ ⊕ β)} : (∀ acc, Candid iterates (body acc)) →
      Candid iterates (Run.loop start body)
  | nextItem (iterator : Handle) : iterates → Candid iterates (ObjectModel.nextItem iterator)

/-- **The first fault that a candid program sees is the one it ends with**, but for the end of an
iteration. -/
theorem Run.Candid.relays {iterates : Prop} {x : Run α} (hx : x.Candid iterates) (e : Engine)
    (s : State) : x.RelaysAt (fun y fault => iterates ∧ y.Ends fault) e s := by
  induction hx generalizing s with
  | pure a => exact List.forall_mem_nil _
  | throw fault => exact List.forall_mem_nil _
  | act ha => exact .act ha
  | ask ha => exact .ask ha
  | bind _ _ ihx ihf => exact (ihx s).bind fun a t _ => ihf a t
  | loop _ ih => exact .loop fun acc t => ih acc t
  | nextItem iterator hi =>
    intro y hy fault hf hex
    exact relaysAt_nextItem iterator y hy fault hf fun h => hex ⟨hi, h⟩

end ObjectModel
