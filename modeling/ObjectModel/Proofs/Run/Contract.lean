import ObjectModel.Proofs.Run.Log

/-!
# Contracts

A contract says what a program owes before each of its actions and what it may rely on behind it.
Calls and requests are actions too, so a program is judged by the contract of what it calls and
never by its code.

* `Contract.Upheld.run` -- **a program that keeps to an upheld contract is run as it promises**, and
  the invariant holds in every state that its run passes through.
-/

namespace ObjectModel

/-! ## 1. Contracts -/

structure Contract where
  /-- Holds in every state. -/
  inv : State → Prop
  /-- What a program owes before an action. -/
  may : {β : Type} → Action β → State → Prop
  /-- What a program may rely on behind an action. -/
  gives : {β : Type} → Action β → State → β → State → Prop

variable {C : Contract} {α β σ : Type}

/-- A round of a loop goes on as `I` says or ends as `post` says. -/
def Round (I : σ → State → Prop) (post : β → State → Prop) : σ ⊕ β → State → Prop
  | .inl acc, s => I acc s
  | .inr answer, s => post answer s

/-- From `s` on, `p` owes nothing that it does not have, and ends as `post` says. -/
def Program.Ensures (C : Contract) {α : Type} (p : Program α) (post : α → State → Prop)
    (s : State) : Prop :=
  match p with
  | pure value => post value s
  | perform action next => C.may action s ∧ ∀ answer t, C.inv t → C.gives action s answer t →
      (next answer).Ensures C post t
  | iterate body start next =>
    ∃ I : _ → State → Prop, I start s ∧ ∀ acc t, C.inv t → I acc t →
      (body acc).Ensures C (Round I fun answer u => (next answer).Ensures C post u) t

namespace Program.Ensures

variable {s : State}

theorem mono {p : Program α} {P Q : α → State → Prop} (hs : C.inv s) (hp : p.Ensures C P s)
    (hPQ : ∀ a t, C.inv t → P a t → Q a t) : p.Ensures C Q s := by
  induction p generalizing s with
  | pure value => exact hPQ value s hs hp
  | perform action next ih =>
    exact ⟨hp.1, fun answer t ht hg => ih answer ht (hp.2 answer t ht hg) hPQ⟩
  | iterate body start next ihb ihn =>
    obtain ⟨I, hI, hbody⟩ := hp
    refine ⟨I, hI, fun acc t ht hacc => ihb acc ht (hbody acc t ht hacc) fun r u hu hr => ?_⟩
    cases r with
    | inl acc => exact hr
    | inr answer => exact ihn answer hu hr hPQ

/-- **Composed programs**: what the first part ensures is what the second one starts from. -/
theorem bind {p : Program α} {f : α → Program β} {P : α → State → Prop} {Q : β → State → Prop}
    (hs : C.inv s) (hp : p.Ensures C P s) (hf : ∀ a t, C.inv t → P a t → (f a).Ensures C Q t) :
    (p >>= f).Ensures C Q s := by
  change (p.bind f).Ensures C Q s
  induction p generalizing s with
  | pure value => exact hf value s hs hp
  | perform action next ih =>
    exact ⟨hp.1, fun answer t ht hg => ih answer ht (hp.2 answer t ht hg) hf⟩
  | iterate body start next _ ihn =>
    obtain ⟨I, hI, hbody⟩ := hp
    refine ⟨I, hI, fun acc t ht hacc => (hbody acc t ht hacc).mono ht fun r u hu hr => ?_⟩
    cases r with
    | inl acc => exact hr
    | inr answer => exact ihn answer hu hr hf

theorem act {a : Action β} {Q : β → State → Prop} (hmay : C.may a s)
    (hQ : ∀ answer t, C.inv t → C.gives a s answer t → Q answer t) :
    (Program.act a).Ensures C Q s :=
  ⟨hmay, hQ⟩

/-- **Loops**: every round keeps the invariant `I` or ends as `Q` says. -/
theorem loop {start : σ} {body : σ → Program (σ ⊕ β)} {Q : β → State → Prop} (I : σ → State → Prop)
    (hstart : I start s) (hbody : ∀ acc t, C.inv t → I acc t → (body acc).Ensures C (Round I Q) t) :
    (Program.loop start body).Ensures C Q s :=
  ⟨I, hstart, hbody⟩

end Program.Ensures

/-! ## 2. Programs that may fail -/

namespace Run

variable {s : State} {Q : Except Fault β → State → Prop}

theorem ensures_act {a : Action β} (hs : C.inv s) (hmay : C.may a s)
    (hQ : ∀ answer t, C.inv t → C.gives a s answer t → Q (.ok answer) t) :
    (Run.act a).run.Ensures C Q s := by
  change (Except.ok <$> Program.act a).Ensures C Q s
  rw [map_eq_pure_bind]
  have hact : (Program.act a).Ensures C (fun answer t => Q (.ok answer) t) s := .act hmay hQ
  exact hact.bind hs fun answer t _ h => h

theorem ensures_ask {a : Action (Except Fault β)} (hmay : C.may a s)
    (hQ : ∀ answer t, C.inv t → C.gives a s answer t → Q answer t) :
    (Run.ask a).run.Ensures C Q s :=
  .act hmay hQ

/-- A composed program goes on where its first part did not fail. -/
theorem ensures_bind {x : Run α} {f : α → Run β} {P : Except Fault α → State → Prop} (hs : C.inv s)
    (hx : x.run.Ensures C P s) (hok : ∀ a t, C.inv t → P (.ok a) t → (f a).run.Ensures C Q t)
    (herror : ∀ fault t, C.inv t → P (.error fault) t → Q (.error fault) t) :
    (x >>= f).run.Ensures C Q s := by
  rw [ExceptT.run_bind]
  refine hx.bind hs fun r t ht hr => ?_
  cases r with
  | ok a => exact hok a t ht hr
  | error fault => exact herror fault t ht hr

theorem ensures_attempt {x : Run α} {P : Except Fault (Except Fault α) → State → Prop}
    (hs : C.inv s) (hx : x.run.Ensures C (fun r t => P (.ok r) t) s) :
    (Run.attempt x).run.Ensures C P s := by
  change (Except.ok <$> x.run).Ensures C P s
  rw [map_eq_pure_bind]
  exact hx.bind hs fun r t _ h => h

theorem ensures_loop {start : σ} {body : σ → Run (σ ⊕ β)} (I : σ → State → Prop)
    (hstart : I start s) (hbody : ∀ acc t, C.inv t → I acc t → (body acc).run.Ensures C (fun
      | .ok r, u => Round I (fun answer => Q (.ok answer)) r u
      | .error fault, u => Q (.error fault) u) t) : (Run.loop start body).run.Ensures C Q s := by
  refine Program.Ensures.loop I hstart fun acc t ht hacc => (hbody acc t ht hacc).bind ht
    fun r u _ hr => ?_
  match r, hr with
  | .ok (.inl _), hr => exact hr
  | .ok (.inr _), hr => exact hr
  | .error _, hr => exact hr

end Run

/-! ## 3. Runs that pass -/

/-- A run with this log and this outcome kept the invariant, and ended as `post` says if it came to
an answer. -/
structure Contract.Passes (C : Contract) (log : List Entry) (o : Outcome α)
    (post : α → State → Prop) : Prop where
  visited : ∀ x ∈ log, C.inv x.event.before ∧ C.inv x.event.behind
  inv : C.inv o.state
  ends : ∀ a t, o = .done a t → post a t

namespace Contract.Passes

variable {admits : Entry → Prop} {log : List Entry} {o : Outcome α}

theorem done {a : α} {s : State} {Q : α → State → Prop} (hs : C.inv s) (hQ : Q a s) :
    C.Passes [] (.done a s) Q where
  visited := by simp
  inv := hs
  ends := by
    rintro _ _ ⟨⟩
    exact hQ

theorem aborted {reason : Abort} {s : State} {Q : α → State → Prop} (hs : C.inv s) :
    C.Passes [] (.aborted reason s : Outcome α) Q where
  visited := by simp
  inv := hs
  ends := by simp

theorem andThen {P : α → State → Prop} {Q : β → State → Prop}
    {next : α → State → Outcome β} {after : α → State → List Entry} (h : C.Passes log o P)
    (ha : ∀ x ∈ log ++ recordAfter o after, admits x) (hnext : ∀ a t, C.inv t → P a t →
      (∀ x ∈ after a t, admits x) → C.Passes (after a t) (next a t) Q) :
    C.Passes (log ++ recordAfter o after) (o.andThen next) Q := by
  cases o with
  | aborted reason t =>
    refine ⟨fun x hx => h.visited x (by simpa [recordAfter] using hx), h.inv, by simp⟩
  | done a t =>
    have hrest := hnext a t h.inv (h.ends a t rfl) fun x hx => ha x (List.mem_append_right _ hx)
    refine ⟨fun x hx => ?_, hrest.inv, hrest.ends⟩
    rcases List.mem_append.mp hx with hx | hx
    · exact h.visited x hx
    · exact hrest.visited x hx

theorem note {Q : α → State → Prop} (h : C.Passes log o Q) (x : Entry)
    (hbefore : C.inv x.event.before) (hbehind : x.event.behind = o.state) :
    C.Passes (log ++ [x]) o Q where
  visited := by
    intro y hy
    rcases List.mem_append.mp hy with hy | hy
    · exact h.visited y hy
    · rw [List.mem_singleton.mp hy]
      exact ⟨hbefore, hbehind ▸ h.inv⟩
  inv := h.inv
  ends := h.ends

theorem rounds {body : σ → State → Outcome (σ ⊕ β)} {inside : σ → State → List Entry}
    {I : σ → State → Prop} {Q : β → State → Prop} (hbody : ∀ acc s, C.inv s →
      I acc s → (∀ x ∈ inside acc s, admits x) → C.Passes (inside acc s) (body acc s) (Round I Q))
    (bound : Nat) (acc : σ) (s : State) (hs : C.inv s) (hacc : I acc s)
    (ha : ∀ x ∈ recordUntil body inside bound acc s, admits x) :
    C.Passes (recordUntil body inside bound acc s) (repeatUntil body bound acc s) Q := by
  induction bound generalizing acc s with
  | zero => exact aborted hs
  | succ bound ih =>
    unfold recordUntil at ha ⊢
    unfold repeatUntil
    have h := hbody acc s hs hacc fun x hx => ha x (List.mem_append_left _ hx)
    cases hb : body acc s with
    | aborted reason t =>
      rw [hb] at h
      exact ⟨by simpa using h.visited, h.inv, by simp⟩
    | done r t =>
      rw [hb] at h ha
      cases r with
      | inr answer =>
        exact ⟨by simpa using h.visited, h.inv, by rintro _ _ ⟨⟩; exact h.ends _ _ rfl⟩
      | inl next =>
        have hrest := ih next t h.inv (h.ends _ _ rfl) fun x hx => ha x (List.mem_append_right _ hx)
        refine ⟨fun x hx => ?_, hrest.inv, hrest.ends⟩
        rcases List.mem_append.mp hx with hx | hx
        · exact h.visited x hx
        · exact hrest.visited x hx

end Contract.Passes

/-! ## 4. The machine upholds a contract -/

/-- The machine answers every action as the contract says, as long as `admits` lets the entries of
the log pass. -/
structure Contract.Upheld (C : Contract) (admits : Entry → Prop) : Prop where
  leave : ∀ s, C.inv s → C.inv s.leave
  primitive : ∀ {β : Type} (a : Action β) (e : Engine) (w : List Handle) (s : State),
    a.isPrimitive = true → C.inv s →
    C.may a s → admits ⟨w, .performed a s (a.perform e s)⟩ →
      C.inv (a.perform e s).state ∧ ∀ answer t, a.perform e s = .done answer t →
        C.gives a s answer t
  refused : ∀ callee args s, C.inv s → C.may (.call callee args) s →
    C.gives (.call callee args) s (.error (.callDepthExceeded s.limits.callDepth)) s
  called : ∀ callee args s, C.inv s → C.may (.call callee args) s →
    C.inv s.enter ∧ (dispatch callee args).run.Ensures C
      (fun answer t => C.gives (.call callee args) s answer t.leave) s.enter
  answered : ∀ g s object, C.inv s → C.may (.advance g) s → s.heap.get? g = some object →
    (refusal object.payload).run.Ensures C (C.gives (.advance g) s) s
  resumed : ∀ g s object c, C.inv s → C.may (.advance g) s → s.heap.get? g = some object →
    object.payload = .generator (.suspended c) → C.inv (s.setGenerator g .running).enter ∧
      c.resume.run.Ensures C (fun r t => ∀ back u, settle g r t.leave = .done back u → C.inv u ∧
        (conclude back).run.Ensures C (C.gives (.advance g) s) u) (s.setGenerator g .running).enter

namespace Contract.Upheld

variable {admits : Entry → Prop}

/-- **A program passes if its actions do.** -/
theorem record {e : Engine} {r : Recorder} {w : List Handle}
    (hact : ∀ {β : Type} (a : Action β) (s : State), C.inv s → C.may a s →
      (∀ x ∈ a.inside r w s ++ [⟨w, .performed a s (a.perform e s)⟩], admits x) → C.Passes
      (a.inside r w s ++ [⟨w, .performed a s (a.perform e s)⟩]) (a.perform e s) (C.gives a s))
    (p : Program α) (s : State) (Q : α → State → Prop) (hs : C.inv s) (hp : p.Ensures C Q s)
    (ha : ∀ x ∈ p.record e r w s, admits x) : C.Passes (p.record e r w s) (p.run e s) Q := by
  induction p generalizing s with
  | pure value => exact .done hs hp
  | perform action next ih =>
    rw [Program.record_perform] at ha ⊢
    rw [Program.run_perform]
    refine (hact action s hs hp.1 fun x hx => ha x (List.mem_append_left _ hx)).andThen ha
      fun answer t ht hg hrest => ?_
    exact ih answer t Q ht (hp.2 answer t ht hg) hrest
  | iterate body start next ihb ihn =>
    obtain ⟨I, hI, hbody⟩ := hp
    rw [Program.record_iterate] at ha ⊢
    rw [Program.run_iterate]
    refine (Passes.rounds (fun acc t ht hacc hin => ihb acc t _ ht (hbody acc t ht hacc) hin)
      e.rounds start s hs hI fun x hx => ha x (List.mem_append_left _ hx)).andThen ha
      fun answer t ht hq hrest => ?_
    exact ihn answer t Q ht hq hrest

variable (hC : C.Upheld admits)

include hC

theorem call {n : Nat} {w : List Handle}
    (ih : ∀ (p : Program (Except Fault Handle)) (s : State)
      (Q : Except Fault Handle → State → Prop), C.inv s → p.Ensures C Q s →
      (∀ x ∈ p.record (engine n) (recorder n) w s, admits x) →
      C.Passes (p.record (engine n) (recorder n) w s) (p.run (engine n) s) Q) (callee : Handle)
    (args : List Handle) (s : State) (hs : C.inv s) (hmay : C.may (.call callee args) s)
    (ha : ∀ x ∈ recordCall (engine n) (recorder n) w callee args s, admits x) :
    C.Passes (recordCall (engine n) (recorder n) w callee args s)
      (belowLimit ((dispatch callee args).run.run (engine n)) s)
      (C.gives (.call callee args) s) := by
  unfold recordCall at ha ⊢
  unfold belowLimit
  by_cases hl : s.limits.callDepth ≤ s.callDepth
  · rw [if_pos hl, if_pos hl]
    exact .done hs (hC.refused callee args s hs hmay)
  · rw [if_neg hl] at ha ⊢
    rw [if_neg hl, nested_eq]
    obtain ⟨henter, hens⟩ := hC.called callee args s hs hmay
    have h := ih _ _ _ henter hens ha
    refine ⟨h.visited, ?_, fun a t heq => ?_⟩
    · rw [Outcome.state_onState]
      exact hC.leave _ h.inv
    · cases ho : (dispatch callee args).run.run (engine n) s.enter with
      | aborted reason u =>
        rw [ho] at heq
        cases heq
      | done answer u =>
        rw [ho] at heq
        cases heq
        exact h.ends _ _ ho

/-- A computation that came back, and what it left put into its generator. -/
theorem back {log : List Entry} {run : State → Outcome (Except Fault Resumed)}
    {g : Handle} {s : State} {P : Except Fault Resumption → State → Prop}
    (h : C.Passes log (run (s.setGenerator g .running).enter) (fun r t => ∀ back u, settle g r
      t.leave = .done back u → C.inv u ∧ P back u)) : C.Passes log (resumeWith run g s) P := by
  unfold resumeWith
  rw [nested_eq]
  cases ho : run (s.setGenerator g .running).enter with
  | aborted reason t =>
    rw [ho] at h
    exact ⟨h.visited, hC.leave _ h.inv, by simp⟩
  | done r t =>
    rw [ho] at h
    obtain ⟨back, _, hsettle⟩ := exists_settle g r t.leave
    obtain ⟨hu, hP⟩ := h.ends r t rfl back _ hsettle
    rw [Outcome.onState_done, Outcome.andThen_done, hsettle]
    exact ⟨h.visited, hu, by rintro _ _ ⟨⟩; exact hP⟩

theorem advance {n : Nat} {w : List Handle}
    (ih : ∀ {γ : Type} (w : List Handle) (p : Program γ) (s : State) (Q : γ → State → Prop),
      C.inv s → p.Ensures C Q s → (∀ x ∈ p.record (engine n) (recorder n) w s, admits x) →
      C.Passes (p.record (engine n) (recorder n) w s) (p.run (engine n) s) Q)
    (g : Handle) (s : State) (hs : C.inv s) (hmay : C.may (.advance g) s)
    (ha : ∀ x ∈ recordAdvance (engine n) (recorder n) w g s, admits x) :
    C.Passes (recordAdvance (engine n) (recorder n) w g s) (advanceWith (engine n) g s)
      (C.gives (.advance g) s) := by
  cases hget : s.heap.get? g with
  | none =>
    unfold recordAdvance advanceWith
    rw [hget]
    exact .aborted hs
  | some object =>
    by_cases hc : ∃ c, object.payload = .generator (.suspended c)
    · obtain ⟨c, hc⟩ := hc
      obtain ⟨hinner, hens⟩ := hC.resumed g s object c hs hmay hget hc
      rw [recordAdvance_suspended _ _ _ hget hc] at ha ⊢
      rw [advanceWith_suspended _ hget hc]
      have hres := ih (g :: w) _ _ _ hinner hens fun x hx => ha x (List.mem_append_left _ hx)
      have hback :=
        hC.back (hres.note ⟨w, .resumed g c (s.setGenerator g .running).enter _⟩ hinner rfl)
      rw [List.append_cons] at ha ⊢
      exact hback.andThen ha fun back u hu hens hrest => ih w _ _ _ hu hens hrest
    · have hne : ∀ c, object.payload ≠ .generator (.suspended c) := fun c h => hc ⟨c, h⟩
      rw [recordAdvance_refusal _ _ _ hget hne] at ha ⊢
      rw [advanceWith_refusal _ hget hne]
      exact ih w _ _ _ hs (hC.answered g s object hs hmay hget) ha

/-- **Programs are run as they promise.** -/
theorem run (n : Nat) (w : List Handle) (p : Program α) (s : State)
    (Q : α → State → Prop) (hs : C.inv s) (hp : p.Ensures C Q s)
    (ha : ∀ x ∈ p.record (engine n) (recorder n) w s, admits x) :
    C.Passes (p.record (engine n) (recorder n) w s) (p.run (engine n) s) Q := by
  induction n generalizing α w p s with
  | zero =>
    refine record (fun a s hs hmay ha => ?_) p s Q hs hp ha
    cases a with
    | call callee args => exact Passes.note (.aborted hs) _ hs rfl
    | advance g => exact Passes.note (.aborted hs) _ hs rfl
    | _ =>
      obtain ⟨hinv, hgives⟩ :=
        hC.primitive _ (engine 0) w s rfl hs hmay (ha _ (by simp [Action.inside]))
      exact Passes.note ⟨by simp [Action.inside], hinv, hgives⟩ _ hs rfl
  | succ n ih =>
    refine record (fun a s hs hmay ha => ?_) p s Q hs hp ha
    cases a with
    | call callee args =>
      exact (hC.call (ih w) callee args s hs hmay fun x hx =>
        ha x (List.mem_append_left _ hx)).note _ hs rfl
    | advance g =>
      exact (hC.advance ih g s hs hmay fun x hx => ha x (List.mem_append_left _ hx)).note _ hs rfl
    | _ =>
      obtain ⟨hinv, hgives⟩ :=
        hC.primitive _ (engine (n + 1)) w s rfl hs hmay (ha _ (by simp [Action.inside]))
      exact Passes.note ⟨by simp [Action.inside], hinv, hgives⟩ _ hs rfl

end Contract.Upheld

/-! ## 5. Sessions -/

/-- An upheld contract that every expression keeps to, from the first state on. -/
structure Contract.Governs (C : Contract) (admits : Entry → Prop) : Prop where
  upheld : C.Upheld admits
  initial : ∀ limits console, C.inv (.initial limits console)
  eval : ∀ (e : Script.Expr) (frame : Script.Frame) (s : State), C.inv s →
    (e.eval.run.run frame).Ensures C (fun _ _ => True) s

namespace Contract.Governs

variable {admits : Entry → Prop} {limits : Limits} {console : Console} {frame : Script.Frame}
  {s : State}

theorem reaches (hC : C.Governs admits) (h : Session.Reaches admits limits console frame s) :
    C.inv s := by
  induction h with
  | start => exact hC.initial limits console
  | @step frame _ s _ n e outcome _ ha hrun ih =>
    have hpasses := (hC.upheld.run n [] _ s _ ih (hC.eval e frame s ih) ha).inv
    rw [hrun] at hpasses
    exact hpasses

/-- **The invariant holds in every state that a session passes through.** -/
theorem reachable (hC : C.Governs admits) (h : s.ReachableBy admits) : C.inv s := by
  cases h with
  | between h => exact hC.reaches h
  | before h ha hx =>
    have hs := hC.reaches h
    exact ((hC.upheld.run _ [] _ _ _ hs (hC.eval _ _ _ hs) ha).visited _ hx).1
  | behind h ha hx =>
    have hs := hC.reaches h
    exact ((hC.upheld.run _ [] _ _ _ hs (hC.eval _ _ _ hs) ha).visited _ hx).2

end Contract.Governs

/-! ## 6. Further invariants -/

/-- The contract with a further invariant. -/
def Contract.also (C : Contract) (J : State → Prop) : Contract where
  inv s := C.inv s ∧ J s
  may := C.may
  gives := C.gives

/-- A program that may rely on more keeps to the contract as before. -/
theorem Program.Ensures.also {p : Program α} {post : α → State → Prop} {s : State}
    (h : p.Ensures C post s) (J : State → Prop) : p.Ensures (C.also J) post s := by
  induction p generalizing s with
  | pure value => exact h
  | perform action next ih => exact ⟨h.1, fun answer t ht hg => ih answer (h.2 answer t ht.1 hg)⟩
  | iterate body start next ihb ihn =>
    obtain ⟨I, hI, hbody⟩ := h
    refine ⟨I, hI, fun acc t ht hacc => (ihb acc (hbody acc t ht.1 hacc)).mono ht
      fun r u _ hr => ?_⟩
    cases r with
    | inl acc => exact hr
    | inr answer => exact ihn answer hr

/-- **An invariant that primitive actions keep within the contract** holds besides it. -/
theorem Contract.Governs.also {admits : Entry → Prop} {J : State → Prop} (hC : C.Governs admits)
    (hinitial : ∀ limits console, J (.initial limits console)) (henter : ∀ s, J s → J s.enter)
    (hleave : ∀ s, J s → J s.leave) (hset : ∀ s g x, J s → J (s.setGenerator g x))
    (hprimitive : ∀ {β : Type} (a : Action β) (e : Engine) (s : State), a.isPrimitive = true →
      C.inv s → J s → C.may a s → J (a.perform e s).state) : (C.also J).Governs admits where
  upheld :=
    { leave := fun s hs => ⟨hC.upheld.leave s hs.1, hleave s hs.2⟩
      primitive := by
        intro β a e w s hp hs hmay ha
        obtain ⟨hinv, hgives⟩ := hC.upheld.primitive a e w s hp hs.1 hmay ha
        exact ⟨⟨hinv, hprimitive a e s hp hs.1 hs.2 hmay⟩, hgives⟩
      refused := fun callee args s hs hmay => hC.upheld.refused callee args s hs.1 hmay
      called := by
        intro callee args s hs hmay
        obtain ⟨hinv, hens⟩ := hC.upheld.called callee args s hs.1 hmay
        exact ⟨⟨hinv, henter s hs.2⟩, hens.also J⟩
      answered :=
        fun g s object hs hmay hget => (hC.upheld.answered g s object hs.1 hmay hget).also J
      resumed := by
        intro g s object c hs hmay hget hc
        obtain ⟨hinv, hens⟩ := hC.upheld.resumed g s object c hs.1 hmay hget hc
        have hinner : (C.also J).inv (s.setGenerator g .running).enter :=
          ⟨hinv, henter _ (hset s g .running hs.2)⟩
        refine ⟨hinner, (hens.also J).mono hinner fun r t ht hr back u hsettle => ?_⟩
        obtain ⟨hu, hrest⟩ := hr back u hsettle
        obtain ⟨x, rfl⟩ := exists_settled hsettle
        exact ⟨⟨hu, hset _ g x (hleave t ht.2)⟩, hrest.also J⟩ }
  initial := fun limits console => ⟨hC.initial limits console, hinitial limits console⟩
  eval e frame s hs := (hC.eval e frame s hs.1).also J

/-! ## 7. Invariants that every program keeps -/

/-- The contract that asks for nothing but an invariant. -/
def Contract.keeping (inv : State → Prop) : Contract where
  inv := inv
  may _ _ := True
  gives _ _ _ _ := True

theorem Program.ensures_keeping (inv : State → Prop) (p : Program α) {s : State} (hs : inv s) :
    p.Ensures (.keeping inv) (fun _ _ => True) s := by
  induction p generalizing s with
  | pure value => exact trivial
  | perform action next ih => exact ⟨trivial, fun answer t ht _ => ih answer ht⟩
  | iterate body start next ihb ihn =>
    refine ⟨fun _ _ => True, trivial, fun acc t ht _ => (ihb acc ht).mono ht fun r u hu _ => ?_⟩
    cases r with
    | inl acc => exact trivial
    | inr answer => exact ihn answer hu

/-- **An invariant that every admitted primitive action keeps** holds in every state of a
session. -/
theorem Contract.keeping_governs {inv : State → Prop} {admits : Entry → Prop}
    (hinitial : ∀ limits console, inv (.initial limits console)) (henter : ∀ s, inv s → inv s.enter)
    (hleave : ∀ s, inv s → inv s.leave) (hset : ∀ s g x, inv s → inv (s.setGenerator g x))
    (hprimitive : ∀ {β : Type} (a : Action β) (e : Engine) (w : List Handle) (s : State),
      a.isPrimitive = true → inv s → admits ⟨w, .performed a s (a.perform e s)⟩ →
      inv (a.perform e s).state) : (Contract.keeping inv).Governs admits where
  upheld :=
    { leave := hleave
      primitive := fun a e w s hp hs _ ha => ⟨hprimitive a e w s hp hs ha, fun _ _ _ => trivial⟩
      refused := fun _ _ _ _ _ => trivial
      called := fun callee args s hs _ => ⟨henter s hs, Program.ensures_keeping inv _ (henter s hs)⟩
      answered := fun g s object hs _ _ => Program.ensures_keeping inv _ hs
      resumed := by
        intro g s object c hs _ _ _
        have hinner := henter _ (hset s g .running hs)
        refine ⟨hinner, (Program.ensures_keeping inv _ hinner).mono hinner
          fun r t ht _ back u hsettle => ?_⟩
        obtain ⟨x, rfl⟩ := exists_settled hsettle
        have hu : inv (t.leave.setGenerator g x) := hset _ g x (hleave t ht)
        exact ⟨hu, Program.ensures_keeping inv _ hu⟩ }
  initial := hinitial
  eval _ _ _ hs := Program.ensures_keeping inv _ hs

end ObjectModel
