import ObjectModel.Session

/-!
# Logs of runs

The log of a run notes every action that was performed, at any nesting: those of a program itself
and those of the functions it calls and the computations it resumes. An action is noted when it is
over, so what happened inside a call stands before the call.

* `Passage.of_run` -- **every run is a passage**: what primitive actions, calls and requests have
  and what can be chained, a run has, by induction over its passage.
-/

namespace ObjectModel

/-! ## 1. What is noted -/

inductive Event : Type 1 where
  /-- An action was performed. -/
  | performed {β : Type} (action : Action β) (before : State) (outcome : Outcome β)
  /-- The computation of a generator was resumed. -/
  | resumed (generator : Handle) (computation : Coroutine) (before : State)
      (outcome : Outcome (Except Fault Resumed))

namespace Event

def before : Event → State
  | performed _ s _ => s
  | resumed _ _ s _ => s

/-- The state that the event left behind. -/
def behind : Event → State
  | performed _ _ outcome => outcome.state
  | resumed _ _ _ outcome => outcome.state

end Event

/-- An event with the generators whose computations were running meanwhile, the innermost first. -/
structure Entry where
  within : List Handle
  event : Event

/-! ## 2. Recording -/

/-- Notes what happens inside calls and requests. -/
structure Recorder where
  call : List Handle → Handle → List Handle → State → List Entry
  advance : List Handle → Handle → State → List Entry

/-- What happens inside an action. -/
def Action.inside (recorder : Recorder) (within : List Handle) {β : Type} :
    Action β → State → List Entry
  | .call callee args, s => recorder.call within callee args s
  | .advance generator, s => recorder.advance within generator s
  | _, _ => []

/-- What happens in the rounds of a loop. -/
def recordUntil {σ β : Type} (body : σ → State → Outcome (σ ⊕ β))
    (inside : σ → State → List Entry) : Nat → σ → State → List Entry
  | 0, _, _ => []
  | rounds + 1, acc, s =>
    inside acc s ++
      match body acc s with
      | .done (.inl next) s => recordUntil body inside rounds next s
      | _ => []

/-- What happens after a part that came to an answer. -/
def recordAfter {β : Type} (o : Outcome β) (next : β → State → List Entry) : List Entry :=
  match o with
  | .done answer s => next answer s
  | .aborted _ _ => []

/-- What happens in a run. -/
def Program.record (engine : Engine) (recorder : Recorder) (within : List Handle) {α : Type}
    (p : Program α) (s : State) : List Entry :=
  match p with
  | pure _ => []
  | perform action next =>
    action.inside recorder within s ++ ⟨within, .performed action s (action.perform engine s)⟩
      :: recordAfter (action.perform engine s) fun answer s =>
      (next answer).record engine recorder within s
  | iterate body start next =>
    recordUntil (fun acc s => (body acc).run engine s)
      (fun acc s => (body acc).record engine recorder within s)
        engine.rounds start s ++
      recordAfter (repeatUntil (fun acc s => (body acc).run engine s) engine.rounds start s)
          fun answer s =>
        (next answer).record engine recorder within s

/-- What happens inside a call that is not refused. -/
def recordCall (engine : Engine) (recorder : Recorder) (within : List Handle) (callee : Handle)
    (args : List Handle) (s : State) : List Entry :=
  if s.limits.callDepth ≤ s.callDepth then []
  else (dispatch callee args).run.record engine recorder within s.enter

/-- What happens inside a request: the computation of a suspended generator runs within the
generator, the answer is made outside of it. -/
def recordAdvance (engine : Engine) (recorder : Recorder) (within : List Handle)
    (generator : Handle) (s : State) : List Entry :=
  match s.heap.get? generator with
  | none => []
  | some object =>
    match object.payload with
    | .generator (.suspended c) =>
      let inner := (s.setGenerator generator .running).enter
      c.resume.run.record engine recorder (generator :: within) inner ++
        ⟨within, .resumed generator c inner (c.resume.run.run engine inner)⟩ ::
          recordAfter (resumeWith (c.resume.run.run engine) generator s) fun back s =>
            (conclude back).run.record engine recorder within s
    | payload => (refusal payload).run.record engine recorder within s

/-- Notes what happens inside the calls and requests that `engine` answers. -/
def recorder : Nat → Recorder
  | 0 => ⟨fun _ _ _ _ => [], fun _ _ _ => []⟩
  | n + 1 => ⟨recordCall (engine n) (recorder n), recordAdvance (engine n) (recorder n)⟩

/-- The log of a program that is run with `n` as the bound on nesting and rounds. -/
def Program.log {α : Type} (p : Program α) (n : Nat) (s : State) : List Entry :=
  p.record (engine n) (recorder n) [] s

/-! ## 3. States that are passed through -/

/-- The frame and the state between two expressions of a session whose logs have only entries that
`admits` lets pass. -/
inductive Session.Reaches (admits : Entry → Prop) (limits : Limits) (console : Console) :
    Script.Frame → State → Prop where
  | start : Reaches admits limits console (.ofArgs []) (.initial limits console)
  | step {frame frame' : Script.Frame} {s s' : State} (n : Nat) (e : Script.Expr)
      (outcome : Except Fault Script.Answer) : Reaches admits limits console frame s →
      (∀ x ∈ (e.eval.run.run frame).log n s, admits x) → (e.eval.run.run frame).run (engine n) s
      = .done (outcome, frame') s' → Reaches admits limits console frame' s'

/-- A state that such a session passes through: between two expressions, or anywhere in the
evaluation of one. -/
inductive State.ReachableBy (admits : Entry → Prop) : State → Prop where
  | between {limits : Limits} {console : Console} {frame : Script.Frame} {s : State} :
      Session.Reaches admits limits console frame s → ReachableBy admits s
  | before {limits : Limits} {console : Console} {frame : Script.Frame} {s : State}
      {n : Nat} {e : Script.Expr} {x : Entry} : Session.Reaches admits limits console frame s →
      (∀ x ∈ (e.eval.run.run frame).log n s, admits x) → x ∈ (e.eval.run.run frame).log n s →
      ReachableBy admits x.event.before
  | behind {limits : Limits} {console : Console} {frame : Script.Frame} {s : State}
      {n : Nat} {e : Script.Expr} {x : Entry} : Session.Reaches admits limits console frame s →
      (∀ x ∈ (e.eval.run.run frame).log n s, admits x) → x ∈ (e.eval.run.run frame).log n s →
      ReachableBy admits x.event.behind

theorem Session.Reaches.mono {admits admits' : Entry → Prop} {limits : Limits} {console : Console}
    {frame : Script.Frame} {s : State} (h : Reaches admits limits console frame s)
    (himp : ∀ x, admits x → admits' x) : Reaches admits' limits console frame s := by
  induction h with
  | start => exact .start
  | step n e outcome _ ha hrun ih => exact .step n e outcome ih (fun x hx => himp x (ha x hx)) hrun

theorem State.ReachableBy.mono {admits admits' : Entry → Prop} {s : State}
    (h : s.ReachableBy admits) (himp : ∀ x, admits x → admits' x) : s.ReachableBy admits' := by
  cases h with
  | between h => exact .between (h.mono himp)
  | before h ha hx => exact .before (h.mono himp) (fun x hx => himp x (ha x hx)) hx
  | behind h ha hx => exact .behind (h.mono himp) (fun x hx => himp x (ha x hx)) hx

/-- A state that any session passes through. -/
abbrev State.Reachable : State → Prop := State.ReachableBy fun _ => True

/-! ## 4. Outcomes -/

namespace Outcome

variable {α β : Type}

/-- Whether a run came to an answer. -/
def finished : Outcome α → Bool
  | done _ _ => true
  | aborted _ _ => false

/-- Changes the state that a run left behind. -/
def onState (f : State → State) : Outcome α → Outcome α
  | done value s => done value (f s)
  | aborted reason s => aborted reason (f s)

@[simp] theorem finished_done (value : α) (s : State) : (done value s).finished = true := rfl

@[simp] theorem finished_aborted (reason : Abort) (s : State) :
    (aborted reason s : Outcome α).finished = false :=
  rfl

@[simp] theorem state_done (value : α) (s : State) : (done value s).state = s := rfl

@[simp] theorem state_aborted (reason : Abort) (s : State) :
    (aborted reason s : Outcome α).state = s :=
  rfl

@[simp] theorem andThen_done (value : α) (s : State) (f : α → State → Outcome β) :
    (done value s).andThen f = f value s :=
  rfl

@[simp] theorem andThen_aborted (reason : Abort) (s : State) (f : α → State → Outcome β) :
    (aborted reason s : Outcome α).andThen f = aborted reason s := rfl

@[simp] theorem onState_done (f : State → State) (value : α) (s : State) :
    (done value s).onState f = done value (f s) :=
  rfl

theorem onState_onState (o : Outcome α) (f g : State → State) :
    (o.onState f).onState g = o.onState fun s => g (f s) := by
  cases o <;> rfl

@[simp] theorem onState_aborted (f : State → State) (reason : Abort) (s : State) :
    (aborted reason s : Outcome α).onState f = aborted reason (f s) := rfl

@[simp] theorem finished_onState (f : State → State) (o : Outcome α) :
    (o.onState f).finished = o.finished := by
  cases o <;> rfl

@[simp] theorem state_onState (f : State → State) (o : Outcome α) :
    (o.onState f).state = f o.state := by
  cases o <;> rfl

end Outcome

theorem nested_eq {α : Type} (run : State → Outcome α) (s : State) :
    nested run s = (run s.enter).onState State.leave := by
  unfold nested
  cases run s.enter <;> rfl

/-- Whether an action runs no code of objects. -/
def Action.isPrimitive {β : Type} : Action β → Bool
  | call _ _ => false
  | advance _ => false
  | _ => true

theorem mem_recordAfter_mono {β : Type} {o : Outcome β} {next next' : β → State → List Entry}
    {x : Entry} (h : ∀ answer s, x ∈ next answer s → x ∈ next' answer s)
    (hx : x ∈ recordAfter o next) : x ∈ recordAfter o next' := by
  cases o with
  | done answer s => exact h answer s hx
  | aborted reason s => exact hx

namespace Program

variable {α β σ : Type} (e : Engine) (r : Recorder) (w : List Handle)

theorem run_perform (a : Action β) (next : β → Program α) (s : State) :
    (perform a next).run e s = (a.perform e s).andThen fun answer s => (next answer).run e s := by
  rw [run]
  cases a.perform e s <;> rfl

theorem run_iterate (body : σ → Program (σ ⊕ β)) (start : σ) (next : β → Program α) (s : State) :
    (iterate body start next).run e s
      = (repeatUntil (fun acc s => (body acc).run e s) e.rounds start s).andThen fun answer s =>
        (next answer).run e s := by
  rw [run]
  cases repeatUntil (fun acc s => (body acc).run e s) e.rounds start s <;> rfl

theorem record_perform (a : Action β) (next : β → Program α) (s : State) :
    (perform a next).record e r w s = (a.inside r w s ++ [⟨w, .performed a s (a.perform e s)⟩]) ++
      recordAfter (a.perform e s) fun answer s => (next answer).record e r w s := by
  rw [record, List.append_assoc]
  rfl

theorem record_iterate (body : σ → Program (σ ⊕ β)) (start : σ) (next : β → Program α) (s : State) :
    (iterate body start next).record e r w s
      = recordUntil (fun acc s => (body acc).run e s) (fun acc s => (body acc).record e r w s)
        e.rounds start s ++
        recordAfter (repeatUntil (fun acc s => (body acc).run e s) e.rounds start s) fun answer s =>
          (next answer).record e r w s := by
  rw [record]

variable {e r w}

theorem mem_record_bind {p : Program α} {f : α → Program β} {s : State} {x : Entry}
    (hx : x ∈ p.record e r w s) : x ∈ (p >>= f).record e r w s := by
  change x ∈ (p.bind f).record e r w s
  induction p generalizing s with
  | pure value => exact absurd hx List.not_mem_nil
  | perform action next ih =>
    rw [record_perform, List.mem_append] at hx
    rw [bind, record_perform, List.mem_append]
    exact hx.imp_right (mem_recordAfter_mono fun answer _ => ih answer)
  | iterate body start next _ ih =>
    rw [record_iterate, List.mem_append] at hx
    rw [bind, record_iterate, List.mem_append]
    exact hx.imp_right (mem_recordAfter_mono fun answer _ => ih answer)

theorem forall_recordAfter {β : Type} {P : Entry → Prop} {o : Outcome β}
    {next : β → State → List Entry} (hnext : ∀ answer s, ∀ x ∈ next answer s, P x) :
    ∀ x ∈ recordAfter o next, P x := by
  cases o with
  | done answer s => exact hnext answer s
  | aborted reason s => exact List.forall_mem_nil _

theorem forall_recordUntil {σ β : Type} {P : Entry → Prop} {body : σ → State → Outcome (σ ⊕ β)}
    {inside : σ → State → List Entry} (hinside : ∀ acc s, ∀ x ∈ inside acc s, P x) (rounds : Nat)
    (acc : σ) (s : State) : ∀ x ∈ recordUntil body inside rounds acc s, P x := by
  induction rounds generalizing acc s with
  | zero => exact List.forall_mem_nil _
  | succ rounds ih =>
    intro x hx
    unfold recordUntil at hx
    rcases List.mem_append.mp hx with hx | hx
    · exact hinside acc s x hx
    · split at hx
      · exact ih _ _ x hx
      · exact absurd hx List.not_mem_nil

end Program

namespace Run

variable {α β : Type} {e : Engine} {s : State}

theorem run_inspect_bind {look : State → Option α} {f : α → Run β} {a : α} (h : look s = some a) :
    (inspect look >>= f).run.run e s = (f a).run.run e s := by
  change (Program.perform (.inspect look) _).run e s = _
  rw [Program.run_perform]
  simp only [Action.perform, h]
  rfl

/-- A stale handle ends everything. -/
theorem run_inspect_bind_stale {look : State → Option α} {f : α → Run β} (h : look s = none) :
    (inspect look >>= f).run.run e s = .aborted .stale s := by
  change (Program.perform (.inspect look) _).run e s = _
  rw [Program.run_perform]
  simp only [Action.perform, h]
  rfl

theorem run_inspect {look : State → Option α} {a : α} (h : look s = some a) :
    (inspect look).run.run e s = .done (.ok a) s := by
  have hbind := run_inspect_bind (e := e) (f := fun a => (pure a : Run α)) h
  rw [bind_pure] at hbind
  exact hbind

theorem run_inspect_stale {look : State → Option α} (h : look s = none) :
    (inspect look).run.run e s = .aborted .stale s := by
  have hbind := run_inspect_bind_stale (e := e) (f := fun a => (pure a : Run α)) h
  rw [bind_pure] at hbind
  exact hbind

theorem run_bind_ok {x : Run α} {f : α → Run β} {t : State} {a : α}
    (hx : x.run.run e s = .done (.ok a) t) : (x >>= f).run.run e s = (f a).run.run e t := by
  rw [ExceptT.run_bind, Program.run_bind, hx]
  rfl

theorem run_bind_error {x : Run α} {f : α → Run β} {t : State} {fault : Fault}
    (hx : x.run.run e s = .done (.error fault) t) :
    (x >>= f).run.run e s = .done (.error fault) t := by
  rw [ExceptT.run_bind, Program.run_bind, hx]
  rfl

/-- Whether an object is a type is read off the object. -/
theorem isType_bind (h : Handle) (f : Bool → Run β) :
    isType h >>= f = object h >>= fun o => f o.isType :=
  bind_assoc _ _ _

theorem run_isType_bind {h : Handle} {f : Bool → Run β} {o : Object}
    (hget : s.heap.get? h = some o) : (isType h >>= f).run.run e s = (f o.isType).run.run e s := by
  rw [isType_bind]
  exact run_inspect_bind hget

theorem run_isType_bind_stale {h : Handle} {f : Bool → Run β} (hget : s.heap.get? h = none) :
    (isType h >>= f).run.run e s = .aborted .stale s := by
  rw [isType_bind]
  exact run_inspect_bind_stale hget

end Run

section Advance

variable {s : State} {g : Handle} {object : Object} {c : Coroutine} (e : Engine) (r : Recorder)
  (w : List Handle)

theorem advanceWith_suspended (hget : s.heap.get? g = some object)
    (hc : object.payload = .generator (.suspended c)) :
    advanceWith e g s
      = (resumeWith (c.resume.run.run e) g s).andThen fun back s =>
        (conclude back).run.run e s := by
  unfold advanceWith
  rw [hget]
  simp only [hc]

theorem recordAdvance_suspended (hget : s.heap.get? g = some object)
    (hc : object.payload = .generator (.suspended c)) :
    recordAdvance e r w g s
      = c.resume.run.record e r (g :: w) (s.setGenerator g .running).enter ++
        ⟨w, .resumed g c (s.setGenerator g .running).enter
          (c.resume.run.run e (s.setGenerator g .running).enter)⟩ ::
          recordAfter (resumeWith (c.resume.run.run e) g s) fun back s =>
            (conclude back).run.record e r w s := by
  unfold recordAdvance
  rw [hget]
  simp only [hc]

theorem advanceWith_refusal (hget : s.heap.get? g = some object)
    (hne : ∀ c, object.payload ≠ .generator (.suspended c)) :
    advanceWith e g s = (refusal object.payload).run.run e s := by
  unfold advanceWith
  rw [hget]
  dsimp only
  split
  · rename_i c h
    exact absurd h (hne c)
  · rfl

theorem recordAdvance_refusal (hget : s.heap.get? g = some object)
    (hne : ∀ c, object.payload ≠ .generator (.suspended c)) :
    recordAdvance e r w g s = (refusal object.payload).run.record e r w s := by
  unfold recordAdvance
  rw [hget]
  dsimp only
  split
  · rename_i c h
    exact absurd h (hne c)
  · rfl

end Advance

/-- What a computation came back with is put into its generator, and nothing else happens. -/
theorem exists_settle (g : Handle) (r : Except Fault Resumed) (s : State) :
    ∃ back x, settle g r s = .done back (s.setGenerator g x) := by
  unfold settle
  split <;> exact ⟨_, _, rfl⟩

theorem exists_settled {g : Handle} {r : Except Fault Resumed} {s u : State}
    {back : Except Fault Resumption} (h : settle g r s = .done back u) :
    ∃ x, u = s.setGenerator g x := by
  obtain ⟨_, x, hx⟩ := exists_settle g r s
  exact ⟨x, (Outcome.done.inj (h.symm.trans hx)).2⟩

/-! ## 5. Passages -/

/-- **How a run goes**: the running computations, the state before it, its log, whether it came to
an answer, and the state behind it. What is to hold of every run is proved by induction over its
passage. -/
inductive Passage : List Handle → State → List Entry → Bool → State → Prop where
  | idle (w : List Handle) (s : State) (finished : Bool) : Passage w s [] finished s
  | append {w : List Handle} {s t u : State} {l l' : List Entry} {finished : Bool} :
      Passage w s l true t → Passage w t l' finished u → Passage w s (l ++ l') finished u
  | primitive {w : List Handle} {β : Type} (a : Action β) (e : Engine) (s : State) :
      a.isPrimitive = true → Passage w s [⟨w, .performed a s (a.perform e s)⟩]
      (a.perform e s).finished (a.perform e s).state
  /-- The bound on nesting was reached. -/
  | cut {w : List Handle} {β : Type} (a : Action β) (s : State) : a.isPrimitive = false →
      Passage w s [⟨w, .performed a s (.aborted .unfinished s)⟩] false s
  | refused {w : List Handle} {s : State} (callee : Handle) (args : List Handle) :
      s.limits.callDepth ≤ s.callDepth → Passage w s [⟨w, .performed (.call callee args) s
      (.done (.error (.callDepthExceeded s.limits.callDepth)) s)⟩] true s
  | called {w : List Handle} {s : State} {l : List Entry} (callee : Handle) (args : List Handle)
      (r : Outcome (Except Fault Handle)) : s.callDepth < s.limits.callDepth →
      Passage w s.enter l r.finished r.state → Passage w s (l
      ++ [⟨w, .performed (.call callee args) s (r.onState State.leave)⟩]) r.finished r.state.leave
  /-- A request to an object that is gone. -/
  | stale {w : List Handle} {s : State} (g : Handle) : s.heap.get? g = none →
      Passage w s [⟨w, .performed (.advance g) s (.aborted .stale s)⟩] false s
  /-- A request to an object that is no suspended generator. -/
  | answered {w : List Handle} {s : State} {l : List Entry} {object : Object} (g : Handle)
      (o : Outcome (Except Fault Handle)) : s.heap.get? g = some object →
      (∀ c, object.payload ≠ .generator (.suspended c)) →
      (∃ e r, o = (refusal object.payload).run.run e s ∧
      l = (refusal object.payload).run.record e r w s) → Passage w s l o.finished o.state →
      Passage w s (l ++ [⟨w, .performed (.advance g) s o⟩]) o.finished o.state
  /-- A request whose computation did not come back. -/
  | lost {w : List Handle} {s : State} {l : List Entry} {object : Object} {c : Coroutine}
    (g : Handle) (reason : Abort) (t : State) :
      s.heap.get? g = some object → object.payload = .generator (.suspended c) →
      Passage (g :: w) (s.setGenerator g .running).enter l false t →
      Passage w s (l ++ [⟨w, .resumed g c (s.setGenerator g .running).enter (.aborted reason t)⟩,
        ⟨w, .performed (.advance g) s (.aborted reason t.leave)⟩]) false t.leave
  /-- A request whose computation came back with `r`. -/
  | resumed {w : List Handle} {s : State} {l l' : List Entry} {object : Object} {c : Coroutine}
    (g : Handle) (r : Except Fault Resumed)
      (t : State) (o : Outcome (Except Fault Handle)) : s.heap.get? g = some object →
      object.payload = .generator (.suspended c) →
      Passage (g :: w) (s.setGenerator g .running).enter l true t →
      ∀ back u, settle g r t.leave = .done back u →
      (∃ e r, o = (conclude back).run.run e u ∧ l' = (conclude back).run.record e r w u) →
      Passage w u l' o.finished o.state →
      Passage w s (l ++ ⟨w, .resumed g c (s.setGenerator g .running).enter (.done r t)⟩ ::
        (l' ++ [⟨w, .performed (.advance g) s o⟩])) o.finished o.state

namespace Passage

variable {α β σ : Type}

theorem of_rounds {w : List Handle} {body : σ → State → Outcome (σ ⊕ β)}
    {inside : σ → State → List Entry} (hbody : ∀ acc s, Passage w s (inside acc s)
      (body acc s).finished (body acc s).state) (rounds : Nat) (acc : σ) (s : State) :
    Passage w s (recordUntil body inside rounds acc s) (repeatUntil body rounds acc s).finished
      (repeatUntil body rounds acc s).state := by
  induction rounds generalizing acc s with
  | zero => exact .idle w s false
  | succ rounds ih =>
    have h := hbody acc s
    unfold recordUntil repeatUntil
    cases hb : body acc s with
    | aborted reason t =>
      rw [hb] at h
      simpa using h
    | done answer t =>
      rw [hb] at h
      cases answer with
      | inl next => exact .append h (ih next t)
      | inr answer => simpa using h

/-- **A run is a passage if its actions are.** -/
theorem of_record {e : Engine} {r : Recorder} {w : List Handle}
    (hact : ∀ {β : Type} (a : Action β) (s : State), Passage w s (a.inside r w
      s ++ [⟨w, .performed a s (a.perform e s)⟩]) (a.perform e s).finished (a.perform e s).state)
    (p : Program α) (s : State) :
    Passage w s (p.record e r w s) (p.run e s).finished (p.run e s).state := by
  induction p generalizing s with
  | pure value => exact .idle w s true
  | perform action next ih =>
    have h := hact action s
    rw [Program.record_perform, Program.run_perform]
    cases ho : action.perform e s with
    | aborted reason t =>
      rw [ho] at h
      simpa [recordAfter] using h
    | done answer t =>
      rw [ho] at h
      exact .append h (ih answer t)
  | iterate body start next ihb ihn =>
    have h := of_rounds (fun acc s => ihb acc s) e.rounds start s
    rw [Program.record_iterate, Program.run_iterate]
    cases ho : repeatUntil (fun acc s => (body acc).run e s) e.rounds start s with
    | aborted reason t =>
      rw [ho] at h
      simpa [recordAfter] using h
    | done answer t =>
      rw [ho] at h
      exact .append h (ihn answer t)

theorem of_call {n : Nat} {w : List Handle} (ih : ∀ (p : Program (Except Fault Handle)) (s : State),
      Passage w s (p.record (engine n) (ObjectModel.recorder n) w s) (p.run (engine n) s).finished
      (p.run (engine n) s).state) (callee : Handle) (args : List Handle) (s : State) :
    Passage w s (recordCall (engine n) (ObjectModel.recorder n) w callee args s ++
      [⟨w, .performed (.call callee args) s
        (belowLimit ((dispatch callee args).run.run (engine n)) s)⟩])
      (belowLimit ((dispatch callee args).run.run (engine n)) s).finished
      (belowLimit ((dispatch callee args).run.run (engine n)) s).state := by
  unfold recordCall belowLimit
  by_cases hl : s.limits.callDepth ≤ s.callDepth
  · rw [if_pos hl, if_pos hl]
    exact .refused callee args hl
  · rw [if_neg hl, if_neg hl, nested_eq, Outcome.finished_onState, Outcome.state_onState]
    exact .called callee args _ (Nat.lt_of_not_le hl) (ih _ _)

theorem of_advance {n : Nat} {w : List Handle} (ih : ∀ {γ : Type} (w : List Handle) (p : Program γ)
      (s : State), Passage w s (p.record (engine n) (ObjectModel.recorder n) w s)
      (p.run (engine n) s).finished (p.run (engine n) s).state) (g : Handle) (s : State) :
    Passage w s (recordAdvance (engine n) (ObjectModel.recorder n) w g s ++
      [⟨w, .performed (.advance g) s (advanceWith (engine n) g s)⟩])
      (advanceWith (engine n) g s).finished (advanceWith (engine n) g s).state := by
  cases hget : s.heap.get? g with
  | none =>
    unfold recordAdvance advanceWith
    rw [hget]
    exact .stale g hget
  | some object =>
    by_cases hc : ∃ c, object.payload = .generator (.suspended c)
    · obtain ⟨c, hc⟩ := hc
      have hin := ih (g :: w) c.resume.run (s.setGenerator g .running).enter
      rw [recordAdvance_suspended _ _ _ hget hc, advanceWith_suspended _ hget hc]
      unfold resumeWith
      rw [nested_eq]
      cases ho : c.resume.run.run (engine n) (s.setGenerator g .running).enter with
      | aborted reason t =>
        rw [ho] at hin
        simpa [recordAfter] using Passage.lost g reason t hget hc hin
      | done r t =>
        rw [ho] at hin
        rw [Outcome.onState_done, Outcome.andThen_done]
        obtain ⟨back, _, hs⟩ := exists_settle g r t.leave
        have hout := Passage.resumed g r t _ hget hc hin back _ hs ⟨engine n, _, rfl, rfl⟩
            (ih w (conclude back).run _)
        rw [hs, Outcome.andThen_done, List.append_assoc, List.cons_append]
        exact hout
    · have hne : ∀ c, object.payload ≠ .generator (.suspended c) := fun c h => hc ⟨c, h⟩
      rw [recordAdvance_refusal _ _ _ hget hne, advanceWith_refusal _ hget hne]
      exact .answered g _ hget hne ⟨engine n, _, rfl, rfl⟩ (ih w (refusal object.payload).run s)

/-- **Every run of the machine is a passage.** -/
theorem of_run (n : Nat) (w : List Handle) (p : Program α) (s : State) :
    Passage w s (p.record (engine n) (ObjectModel.recorder n) w s) (p.run (engine n) s).finished
      (p.run (engine n) s).state := by
  induction n generalizing α w p s with
  | zero =>
    refine of_record (fun a s => ?_) p s
    cases a with
    | call callee args => exact .cut _ s rfl
    | advance g => exact .cut _ s rfl
    | _ => exact .primitive _ _ s rfl
  | succ n ih =>
    refine of_record (fun a s => ?_) p s
    cases a with
    | call callee args => exact of_call (ih w) callee args s
    | advance g => exact of_advance ih g s
    | _ => exact .primitive _ _ s rfl

end Passage

/-! ## 6. Logs of composed programs -/

section

variable {α β : Type} {P : Entry → Prop} {e : Engine} {r : Recorder} {w : List Handle} {s t : State}

namespace Program

/-- The log of a composed program is that of its parts, one after the other. -/
theorem record_bind (p : Program α) (f : α → Program β) (s : State) :
    (p >>= f).record e r w s = p.record e r w s ++ recordAfter (p.run e s) fun value s =>
      (f value).record e r w s := by
  change (p.bind f).record e r w s = _
  induction p generalizing s with
  | pure value => rfl
  | perform action next ih =>
    rw [bind, record_perform, record_perform, run_perform]
    generalize action.inside r w s ++ [(⟨w, .performed action s (action.perform e s)⟩ : Entry)]
      = front
    rw [List.append_assoc]
    refine congrArg (front ++ ·) ?_
    cases action.perform e s with
    | done answer t => exact ih answer f t
    | aborted reason t => rfl
  | iterate body start next _ ih =>
    rw [bind, record_iterate, record_iterate, run_iterate, List.append_assoc]
    refine congrArg _ ?_
    cases repeatUntil (fun acc s => (body acc).run e s) e.rounds start s with
    | done answer t => exact ih answer f t
    | aborted reason t => rfl

theorem record_act (a : Action β) (s : State) :
    (act a).record e r w s = a.inside r w s ++ [⟨w, .performed a s (a.perform e s)⟩] := by
  unfold act
  rw [record_perform]
  cases a.perform e s with
  | done answer t => exact List.append_nil _
  | aborted reason t => exact List.append_nil _

/-- What holds of the entry of a primitive action and behind it. -/
theorem forall_record_perform {a : Action β} {next : β → Program α}
    (ha : a.isPrimitive = true) (hentry : P ⟨w, .performed a s (a.perform e s)⟩)
    (hnext : ∀ answer t, ∀ x ∈ (next answer).record e r w t, P x) :
    ∀ x ∈ (perform a next).record e r w s, P x := by
  have hinside : a.inside r w s = [] := by
    cases a with
    | call callee args => cases ha
    | advance generator => cases ha
    | _ => rfl
  intro x hx
  rw [record_perform, hinside, List.nil_append] at hx
  rcases List.mem_append.mp hx with hx | hx
  · rw [List.mem_singleton.mp hx]
    exact hentry
  · exact forall_recordAfter (fun answer t => hnext answer t) x hx

end Program

namespace Run

theorem record_bind_ok {x : Run α} {f : α → Run β} {a : α} (hx : x.run.run e s = .done (.ok a) t) :
    (x >>= f).run.record e r w s = x.run.record e r w s ++ (f a).run.record e r w t := by
  rw [ExceptT.run_bind, Program.record_bind, hx]
  rfl

theorem record_act (a : Action β) (s : State) :
    (Run.act a).run.record e r w s = a.inside r w s ++ [⟨w, .performed a s (a.perform e s)⟩] := by
  have hrecord : (Run.act a).run.record e r w s
      = (Program.act a).record e r w s ++ recordAfter ((Program.act a).run e s) fun _ _ => [] :=
    Program.record_bind (Program.act a) _ s
  have hrest : recordAfter ((Program.act a).run e s) (fun _ _ => []) = [] := by
    cases (Program.act a).run e s <;> rfl
  rw [hrecord, hrest, List.append_nil, Program.record_act]

theorem record_inspect (look : State → Option β) (s : State) :
    (inspect look).run.record e r w s
      = [⟨w, .performed (.inspect look) s ((Action.inspect look).perform e s)⟩] :=
  record_act _ s

/-- What holds of the first part and behind it. -/
theorem forall_record_bind {x : Run α} {f : α → Run β} (hx : ∀ y ∈ x.run.record e r w s, P y)
    (hf : ∀ a t, x.run.run e s = .done (.ok a) t → ∀ y ∈ (f a).run.record e r w t, P y) :
    ∀ y ∈ (x >>= f).run.record e r w s, P y := by
  intro y hy
  rw [ExceptT.run_bind, Program.record_bind] at hy
  rcases List.mem_append.mp hy with hy | hy
  · exact hx y hy
  · generalize hrun : x.run.run e s = o at hy
    cases o with
    | aborted reason t => exact absurd hy List.not_mem_nil
    | done answer t =>
      cases answer with
      | error fault => exact absurd hy List.not_mem_nil
      | ok a => exact hf a t hrun y hy

theorem forall_record_attempt {x : Run α} (hx : ∀ y ∈ x.run.record e r w s, P y) :
    ∀ y ∈ (Run.attempt x).run.record e r w s, P y := by
  intro y hy
  have hrecord : (Run.attempt x).run.record e r w s
      = x.run.record e r w s ++ recordAfter (x.run.run e s) fun _ _ => [] :=
    Program.record_bind x.run _ s
  rw [hrecord] at hy
  rcases List.mem_append.mp hy with hy | hy
  · exact hx y hy
  · cases hrun : x.run.run e s <;> rw [hrun] at hy <;> exact absurd hy List.not_mem_nil

end Run

/-- What holds of a call of a function, of what its code does and of the look at it. -/
theorem forall_record_call {n : Nat} {f : Handle} {args : List Handle}
    {object : Object} {label : String} {code : Code}
    (hget : s.heap.get? f = some object) (hp : object.payload = .function label code)
    (hlook : ∀ o, P ⟨w, .performed (.inspect fun s => s.heap.get? f) s.enter o⟩)
    (hcode : ∀ x ∈ (code.run args).run.record (engine n) (recorder n) w s.enter, P x) (hcalled : P
      ⟨w, .performed (.call f args) s ((Action.call f args).perform (engine (n + 1)) s)⟩) :
    ∀ x ∈ (call f args).run.record (engine (n + 1)) (recorder (n + 1)) w s, P x := by
  have hobject : (ObjectModel.object f).run.run (engine n) s.enter = .done (.ok object) s.enter :=
    Run.run_inspect hget
  have hdispatch : ∀ x ∈ (dispatch f args).run.record (engine n) (recorder n) w s.enter, P x := by
    intro x hx
    rw [dispatch, Run.record_bind_ok hobject, hp] at hx
    rcases List.mem_append.mp hx with hx | hx
    · exact Program.forall_record_perform rfl (hlook _) (fun _ _ => List.forall_mem_nil _) x hx
    · exact hcode x hx
  have hrecord : (call f args).run.record (engine (n + 1)) (recorder (n + 1)) w s
      = recordCall (engine n) (recorder n) w f args s ++
        [⟨w, .performed (.call f args) s ((Action.call f args).perform (engine (n + 1)) s)⟩] :=
    Program.record_act _ _
  intro x hx
  rw [hrecord] at hx
  rcases List.mem_append.mp hx with hx | hx
  · unfold recordCall at hx
    split at hx
    · exact absurd hx List.not_mem_nil
    · exact hdispatch x hx
  · rw [List.mem_singleton.mp hx]
    exact hcalled

end

end ObjectModel
