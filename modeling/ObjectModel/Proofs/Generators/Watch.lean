import ObjectModel.Proofs.Generators.Request

/-!
# Watching a generator

Whatever a run does at any nesting, a generator takes its course.

* `Generator.course_of_run` -- **the state machine of a generator**.
-/

namespace ObjectModel.Generator

variable {g : Handle} {x y : Generator} {w : List Handle} {l l' : List Entry}

/-! ## 1. Making a generator -/

/-- Whether an event makes the generator `g` in the state `x`. -/
def Makes (g : Handle) (x : Generator) : Event → Prop
  | .performed (.allocate object) _ (.done h _) => h = g ∧ object.payload = .generator x
  | _ => False

theorem Makes.eq_performed {e : Event} (h : Makes g x e) :
    ∃ object s t, e = .performed (.allocate object) s (.done g t) ∧
      object.payload = .generator x := by
  unfold Makes at h
  split at h
  · obtain ⟨rfl, hx⟩ := h
    exact ⟨_, _, _, rfl, hx⟩
  · exact h.elim

/-- A handle that was given out is not given out again. -/
theorem not_makes_of_taken {s t : State} {finished : Bool} (h : Passage w s l finished t)
    (hw : s.heap.WellFormed) (ht : s.heap.Taken g) : ∀ e ∈ l, ¬ Makes g x e.event := by
  intro e he hmakes
  obtain ⟨object, b, u, heq, _⟩ := hmakes.eq_performed
  have hb : s.Steps b := by
    have hbefore := (h.steps_of_mem e he).1
    rw [heq] at hbefore
    exact hbefore
  have htruth := (h.truthful e he).2
  rw [heq] at htruth
  obtain ⟨engine, hperform⟩ := htruth rfl
  have hnew : g = (b.heap.allocate object).1 := (Outcome.done.inj hperform).1
  exact (State.Steps.taken hb ht).ne_allocate (State.Steps.wellFormed hb hw) object hnew

/-- `P` holds of what stands behind the making of `g`. -/
def Born (g : Handle) (P : Generator → List Entry → Prop) (log : List Entry) : Prop :=
  ∀ l e l' x, log = l ++ e :: l' → Makes g x e.event → x ≠ running → P x l'

theorem Born.of_not_makes {P : Generator → List Entry → Prop}
    (h : ∀ x, ∀ e ∈ l, ¬ Makes g x e.event) : Born g P l := by
  rintro m e m' x rfl hm
  exact absurd hm (h x e (List.mem_append_right _ List.mem_cons_self))

theorem Born.append {P Q : Generator → List Entry → Prop} (h : Born g P l) (h' : Born g Q l')
    (hPQ : ∀ x m, P x m → Q x (m ++ l')) : Born g Q (l ++ l') := by
  intro m e m' x hm hmakes hx
  rcases List.append_eq_append_iff.mp hm with ⟨k, rfl, rfl⟩ | ⟨k, rfl, hk⟩
  · exact h' k e m' x rfl hmakes hx
  · cases k with
    | nil => exact h' [] e m' x hk.symm hmakes hx
    | cons e' k =>
      obtain ⟨rfl, rfl⟩ := List.cons.inj hk
      exact hPQ x k (h m e k x rfl hmakes hx)

/-! ## 2. Moves -/

/-- **What a run does to the generator `g`**, within its computation or not: nothing, but for
requests to it. -/
inductive Moves (g : Handle) (within : Prop) : State → List Entry → Bool → State → Prop where
  | idle (s : State) (finished : Bool) : Moves g within s [] finished s
  | append {s t u : State} {l l' : List Entry} {finished : Bool} : s.Steps t →
      s.callDepth ≤ t.callDepth → Moves g within s l true t →
      Moves g within t l' finished u → Moves g within s (l ++ l') finished u
  | primitive {w : List Handle} {β : Type} (a : Action β) (e : Engine) (s : State) :
      (g ∈ w ↔ within) → a.isPrimitive = true → Moves g within s
      [⟨w, .performed a s (a.perform e s)⟩] (a.perform e s).finished (a.perform e s).state
  | turn {s t : State} : State.Turns g s t → Moves g within s [] true t
  /-- An entry that does not concern the generator. -/
  | note {s t u : State} {l : List Entry} {e : Entry} {finished : Bool} :
      Moves g within s l finished t → (g ∈ e.within ↔ within) → concerns g e.event = false →
      (∀ x, ¬ Makes g x e.event) → e.event.behind.heap = t.heap → u.heap = t.heap →
      Moves g within s (l ++ [e]) finished u
  /-- A request that comes to nothing at once. -/
  | unanswered {w : List Handle} {s : State} {reason : Abort} : (g ∈ w ↔ within) →
      reason = .unfinished ∨ (reason = .stale ∧ s.heap.get? g = none) →
      Moves g within s [⟨w, .performed (.advance g) s (.aborted reason s)⟩] false s
  | answered {w : List Handle} {s : State} {l : List Entry} {object : Object}
      {o : Outcome (Except Fault Handle)} : (g ∈ w ↔ within) →
      s.heap.get? g = some object → (∀ c, object.payload ≠ .generator (.suspended c)) → (∃ e r,
      o = (refusal object.payload).run.run e s ∧ l = (refusal object.payload).run.record e r w s) →
      Passage w s l o.finished o.state → Moves g within s l o.finished o.state →
      Moves g within s (l ++ [⟨w, .performed (.advance g) s o⟩]) o.finished o.state
  | lost {w : List Handle} {s t : State} {l : List Entry} {object : Object} {c : Coroutine}
    {reason : Abort} : (g ∈ w ↔ within) →
      s.heap.get? g = some object → object.payload = .generator (.suspended c) →
      Passage (g :: w) (s.setGenerator g .running).enter l false t →
      Moves g within s
        (l ++ [⟨w, .resumed g c (s.setGenerator g .running).enter (.aborted reason t)⟩,
          ⟨w, .performed (.advance g) s (.aborted reason t.leave)⟩]) false t.leave
  | resumed {w : List Handle} {s t u : State} {l l' : List Entry} {object : Object} {c : Coroutine}
    {r : Except Fault Resumed}
      {back : Except Fault Resumption} {o : Outcome (Except Fault Handle)} : (g ∈ w ↔ within) →
      s.heap.get? g = some object → object.payload = .generator (.suspended c) →
      Passage (g :: w) (s.setGenerator g .running).enter l true t →
      settle g r t.leave = .done back u →
      (∃ e r, o = (conclude back).run.run e u ∧ l' = (conclude back).run.record e r w u) →
      Passage w u l' o.finished o.state → Moves g within u l' o.finished o.state →
      Moves g within s (l ++ ⟨w, .resumed g c (s.setGenerator g .running).enter (.done r t)⟩ ::
        (l' ++ [⟨w, .performed (.advance g) s o⟩])) o.finished o.state

variable {s t : State} {finished : Bool}

/-- The computation of another generator. -/
theorem Moves.beside {h : Handle} {c : Coroutine} {o : Outcome (Except Fault Resumed)} (hne : g ≠ h)
    (hl : Moves g (g ∈ h :: w) (s.setGenerator h .running).enter l o.finished o.state) :
    Moves g (g ∈ w) s (l ++ [⟨w, .resumed h c (s.setGenerator h .running).enter o⟩]) o.finished
      o.state := by
  have hin : Moves g (g ∈ w) s ([] ++ l) o.finished o.state :=
    .append (s.steps_running h) (Nat.le_succ _) (.turn (Or.inr ⟨h, .running, hne, rfl⟩))
      (by simpa [hne] using hl)
  exact hin.note Iff.rfl (decide_eq_false hne.symm) (fun _ => id) rfl rfl

/-- What happens to other generators are turns and notes. -/
theorem Moves.of_passage (g : Handle) (h : Passage w s l finished t) :
    Moves g (g ∈ w) s l finished t := by
  -- a request is one to `g`, which is kept apart, or it is noted as something beside it
  induction h with
  | idle w s finished => exact .idle s finished
  | append h _ ih ih' => exact .append h.steps h.callDepth_eq.ge ih ih'
  | primitive a e s hp => exact .primitive a e s Iff.rfl hp
  | cut a s ha =>
    by_cases hc : concerns g (.performed a s (.aborted .unfinished s)) = true
    · cases a with
      | advance h =>
        obtain rfl : h = g := of_decide_eq_true hc
        exact .unanswered Iff.rfl (Or.inl rfl)
      | _ => cases hc
    · refine .note (.idle s false) Iff.rfl (by simpa using hc) (fun x => ?_) rfl rfl
      cases a with
      | allocate object => cases ha
      | _ => exact id
  | @refused _ s => exact .note (.idle s true) Iff.rfl rfl (fun _ => id) rfl rfl
  | @called w s _ _ _ r _ _ ih =>
    have hin : Moves g (g ∈ w) s _ r.finished r.state :=
      .append (State.Step.enter s).steps (Nat.le_succ _) (.turn (Or.inl rfl)) ih
    exact hin.note Iff.rfl rfl (fun _ => id) (by simp [Event.behind, State.leave]) rfl
  | @stale _ s h hnone =>
    by_cases he : h = g
    · subst he
      exact .unanswered Iff.rfl (Or.inr ⟨rfl, hnone⟩)
    · exact .note (.idle s false) Iff.rfl (decide_eq_false he) (fun _ => id) rfl rfl
  | answered h o hget hne hrun hl ih =>
    by_cases he : h = g
    · subst he
      exact .answered Iff.rfl hget hne hrun hl ih
    · exact ih.note Iff.rfl (decide_eq_false he) (fun _ => id) rfl rfl
  | @lost w s l _ c h reason t hget hc hl ih =>
    by_cases he : h = g
    · subst he
      exact .lost Iff.rfl hget hc hl
    · have hin := beside (c := c) (o := .aborted reason t) (fun e => he e.symm) ih
      rw [List.append_cons]
      exact hin.note Iff.rfl (decide_eq_false he) (fun _ => id) rfl rfl
  | @resumed w s l _ _ c h r t o hget hc hl back u hsettle hrun hl' ih ih' =>
    by_cases he : h = g
    · subst he
      exact .resumed Iff.rfl hget hc hl hsettle hrun hl' ih'
    · have hne : g ≠ h := fun e => he e.symm
      obtain ⟨settled, rfl⟩ := exists_settled hsettle
      have hdepth : t.callDepth = s.callDepth + 1 := hl.callDepth_eq
      have hsteps : s.Steps t := (s.steps_running h).trans hl.steps
      have hin := beside (c := c) (o := .done r t) hne ih
      have hback := hin.append hsteps (by omega)
          (.turn (t := t.leave.setGenerator h settled) (Or.inr ⟨h, settled, hne, rfl⟩))
      have hmade := hback.append ((hsteps.tail (.leave t)).tail (.setGenerator _ h settled))
          (Nat.le_sub_one_of_lt (by omega)) ih'
      rw [List.append_nil] at hmade
      rw [List.append_cons, ← List.append_assoc]
      exact hmade.note Iff.rfl (decide_eq_false he) (fun _ => id) rfl rfl

namespace Moves

variable {within : Prop}

/-- While the computation of the generator is running, nothing touches the generator. -/
theorem inside (h : Moves g within s l finished t) :
    s.heap.WellFormed → within → 0 < s.callDepth → s.Stands g running →
    t.Stands g running ∧ ∀ e ∈ l, Inside g e := by
  induction h with
  | idle => exact fun _ _ _ hs => ⟨hs, List.forall_mem_nil _⟩
  | append hsteps hdepth _ _ ih ih' =>
    intro hw hin hd hs
    obtain ⟨ht, hl⟩ := ih hw hin hd hs
    obtain ⟨hu, hl'⟩ := ih' (hsteps.wellFormed hw) hin (hd.trans_le hdepth) ht
    exact ⟨hu, List.forall_mem_append.mpr ⟨hl, hl'⟩⟩
  | primitive a e s _ hp =>
    intro hw _ hd hs
    have ht := Action.stands_of_perform e hp hw hd hs
    exact ⟨ht, List.forall_mem_singleton.mpr (.of_other ht (not_concerns_of_primitive hp))⟩
  | turn ht => exact fun _ _ _ hs => ⟨hs.turns ht, List.forall_mem_nil _⟩
  | note _ _ hc _ hb hu ih =>
    intro hw hin hd hs
    obtain ⟨ht, hl⟩ := ih hw hin hd hs
    exact ⟨ht.congr hu, List.forall_mem_append.mpr
      ⟨hl, List.forall_mem_singleton.mpr (.of_other (ht.congr hb) hc)⟩⟩
  | unanswered _ hreason =>
    intro _ _ _ hs
    refine ⟨hs, List.forall_mem_singleton.mpr ⟨hs, rfl, ?_⟩⟩
    rintro b o ⟨⟩
    rcases hreason with rfl | ⟨_, hnone⟩
    · exact ⟨hs, Or.inl rfl⟩
    · exact absurd hs.live (Heap.not_contains_iff.mpr hnone)
  | answered _ hget _ hrun _ _ ih =>
    -- re-entered
    intro hw hin hd hs
    obtain ⟨ht, hl⟩ := ih hw hin hd hs
    refine ⟨ht, List.forall_mem_append.mpr ⟨hl, List.forall_mem_singleton.mpr ⟨ht, rfl, ?_⟩⟩⟩
    rintro b o ⟨⟩
    obtain ⟨e, r, ho, _⟩ := hrun
    rw [hs.payload hget] at ho
    obtain ⟨fault, u, text, hdone, _, htext, hcarries⟩ :=
      run_raiseMessage (α := Handle) hw .valueError "generator already executing" e
    exact ⟨hs, Or.inr ⟨fault, u, text, ho.trans hdone, htext, hcarries⟩⟩
  | lost _ hget hc | resumed _ hget hc =>
    intro _ _ _ hs
    cases hs.unique ⟨_, hget, hc⟩

/-- Else the generator takes its course. -/
theorem course (h : Moves g within s l finished t) :
    s.heap.WellFormed → ¬ within → ∀ x, x ≠ running → s.Keeps g x →
    Course g x l finished t := by
  induction h with
  | idle => exact fun _ _ _ hx hs => .nil hx hs
  | append hsteps _ _ _ ih ih' =>
    exact fun hw hout x hx hs => (ih hw hout x hx hs).append (ih' (hsteps.wellFormed hw) hout)
  | primitive a e s hg hp =>
    exact fun hw hout x hx hs =>
      (Course.nil hx (Action.keeps_of_perform e hp hw hs)).snoc (mt hg.mp hout)
        (not_concerns_of_primitive hp) rfl rfl
  | turn ht => exact fun _ _ _ hx hs => .nil hx (hs.turns ht)
  | note _ hg hc _ hb hu ih =>
    exact fun hw hout x hx hs => (ih hw hout x hx hs).snoc (mt hg.mp hout) hc hb hu
  | unanswered hg hreason =>
    intro _ hout x _ hs
    refine .unanswered (mt hg.mp hout) hs ?_
    rcases hreason with rfl | ⟨rfl, hnone⟩
    · exact .unreached
    · exact .gone hnone
  | answered hg hget hne hrun _ _ ih =>
    -- asked after its end
    intro hw hout x hx hs
    obtain ⟨e, r, ho, hlog⟩ := hrun
    have hstands := hs.stands hget
    have hp := hstands.payload hget
    cases x with
    | suspended c => exact absurd hp (hne c)
    | running => exact absurd rfl hx
    | stopped result =>
      rw [hp] at ho hlog
      exact .exhausted (mt hg.mp hout) hw hstands ho hlog (ih hw hout _ hx hs)
  | lost hg hget hc hl =>
    intro hw hout x hx hs
    have hsuspended : State.Stands _ g (suspended _) := ⟨_, hget, hc⟩
    obtain rfl := (hs.stands hget).unique hsuspended
    obtain ⟨ht, hin⟩ :=
      (of_passage g hl).inside (hw.modify g _) List.mem_cons_self (Nat.succ_pos _)
        (State.stands_setGenerator hsuspended running)
    exact .lost (mt hg.mp hout) hsuspended hin
      (fun e he => (hl.truthful e he).1 List.mem_cons_self) ht
  | resumed hg hget hc hl hsettle hrun hl' _ ih' =>
    intro hw hout x hx hs
    have hsuspended : State.Stands _ g (suspended _) := ⟨_, hget, hc⟩
    obtain rfl := (hs.stands hget).unique hsuspended
    obtain ⟨ht, hin⟩ :=
      (of_passage g hl).inside (hw.modify g _) List.mem_cons_self (Nat.succ_pos _)
        (State.stands_setGenerator hsuspended running)
    obtain ⟨e, recorder, ho, hlog⟩ := hrun
    have hback : State.Steps _ _ :=
      (((State.steps_running _ g).trans hl.steps).tail (.leave _)).tail (step_settle hsettle)
    exact .resumed (mt hg.mp hout) hsuspended hin (fun e he => (hl.truthful e he).1
      List.mem_cons_self) ht hsettle (hback.wellFormed hw) ho hlog (ih' (hback.wellFormed hw) hout)

/-- It takes it from its making on. -/
theorem born (h : Moves g within s l finished t) :
    s.heap.WellFormed → ¬ within → Born g (fun x l => Course g x l finished t) l := by
  -- where the generator is there already, it is not made
  have hold : ∀ {w : List Handle} {s t : State} {l : List Entry} {finished : Bool} {object : Object}
      {P : Generator → List Entry → Prop}, Passage w s l finished t → s.heap.WellFormed →
      s.heap.get? g = some object → Born g P l :=
    fun h hw hget => .of_not_makes fun _ => not_makes_of_taken h hw
      (hw.taken (Heap.contains_of_get? hget))
  induction h with
  | idle | turn => exact fun _ _ => .of_not_makes fun _ => List.forall_mem_nil _
  | append hsteps _ _ h' ih ih' =>
    intro hw hout
    have ht := hsteps.wellFormed hw
    exact (ih hw hout).append (ih' ht hout) fun x m hm => hm.append (h'.course ht hout)
  | primitive a e s _ hp =>
    intro hw _ m e' m' x hm hmakes hx
    cases m with
    | nil =>
      obtain ⟨rfl, rfl⟩ := List.cons.inj hm
      cases a with
      | allocate object =>
        obtain ⟨rfl, hp⟩ := hmakes
        exact .nil hx (State.stands_allocate hw hp).keeps
      | _ => exact hmakes.elim
    | cons _ m => simp at hm
  | note _ hg hc hmakes hb hu ih =>
    exact fun hw hout => (ih hw hout).append
        (.of_not_makes fun x => List.forall_mem_singleton.mpr (hmakes x)) fun x m hm =>
      hm.snoc (mt hg.mp hout) hc hb hu
  | unanswered => exact fun _ _ => .of_not_makes fun x => List.forall_mem_singleton.mpr id
  | answered _ hget hne hrun hl => exact fun hw _ => hold (.answered g _ hget hne hrun hl) hw hget
  | lost _ hget hc hl => exact fun hw _ => hold (.lost g _ _ hget hc hl) hw hget
  | resumed _ hget hc hl hsettle hrun hl' =>
    exact fun hw _ => hold (.resumed g _ _ _ hget hc hl _ _ hsettle hrun hl') hw hget

end Moves

/-- A generator that is there or was collected takes its course over every run. -/
theorem course_of_keeps {α : Type} (p : Program α) (n : Nat) {s : State} (hs : s.heap.WellFormed)
    (hx : x ≠ running) (hk : s.Keeps g x) :
    Course g x (p.log n s) (p.run (engine n) s).finished (p.run (engine n) s).state :=
  (Moves.of_passage g (.of_run n [] p s)).course hs List.not_mem_nil x hx hk

/-! ## 3. The state machine -/

/-- The part of a log in which the generator `g` lives, from the state `x` on: all of it if `g` is
there before the run, else what stands behind its making. -/
inductive Begins (g : Handle) (x : Generator) (s : State) (log : List Entry) :
    List Entry → Prop where
  | there : s.Stands g x → Begins g x s log log
  | made {l l' : List Entry} {e : Entry} : log = l ++ e :: l' → Makes g x e.event →
      Begins g x s log l'

/-- A call at the depth limit is refused and changes nothing. -/
def RefusedAtLimit (e : Event) : Prop :=
  ∀ callee args s o, e = .performed (.call callee args) s o → s.limits.callDepth ≤ s.callDepth →
    o = .done (.error (.callDepthExceeded s.limits.callDepth)) s ∨ o = .aborted .unfinished s

/-- **The state machine of a generator**: in every run of every program, a generator that is not
running takes its course, whatever is asked of it from outside and from inside of its own
computation, and calls at the depth limit do not touch it. -/
theorem course_of_run {α : Type} (p : Program α) (n : Nat) {s : State} (hs : s.heap.WellFormed)
    (hx : x ≠ running) (hl : Begins g x s (p.log n s) l) :
    Course g x l (p.run (engine n) s).finished (p.run (engine n) s).state ∧
    ∀ e ∈ p.log n s, RefusedAtLimit e.event := by
  have hpassage := Passage.of_run n [] p s
  have hmoves := Moves.of_passage g hpassage
  constructor
  · cases hl with
    | there hstands => exact hmoves.course hs List.not_mem_nil x hx hstands.keeps
    | made hlog hmakes => exact hmoves.born hs List.not_mem_nil _ _ _ x hlog hmakes hx
  · rintro e he callee args b o heq
    have htruth := (hpassage.truthful e he).2
    rw [heq] at htruth
    exact htruth

/-- Asks a generator three times. -/
def askThrice (g : Handle) : Program (Except Fault Handle) := do
  let _ ← (advance g).run
  let _ ← (advance g).run
  (advance g).run

/-- A generator that was just made. -/
theorem begins_ofCoroutine {s : State} (hs : s.heap.WellFormed) (c : Coroutine) (log : List Entry) :
    (s.allocate (.ofCoroutine c)).2.heap.WellFormed ∧
      Begins (s.allocate (.ofCoroutine c)).1 (suspended c)
        (s.allocate (.ofCoroutine c)).2 log log :=
  ⟨hs.allocate _, .there (State.stands_allocate hs rfl)⟩

/-- A generator over one character: it yields, stops and stays stopped. -/
theorem course_of_one_character :
    let made := (State.initial .standard (.ofLines [])).allocate (.ofCoroutine (.characters ['a']))
    made.2.heap.WellFormed ∧
      Begins made.1 (suspended (.characters ['a'])) made.2 ((askThrice made.1).log 2 made.2)
        ((askThrice made.1).log 2 made.2) ∧
      Course made.1 (suspended (.characters ['a'])) ((askThrice made.1).log 2 made.2)
        ((askThrice made.1).run (engine 2) made.2).finished
          ((askThrice made.1).run (engine 2) made.2).state ∧
      ∀ e ∈ (askThrice made.1).log 2 made.2, RefusedAtLimit e.event := by
  have hbegins :=
    begins_ofCoroutine (State.regular_initial .standard (.ofLines [])).heap (.characters ['a'])
  exact ⟨(hbegins []).1, (hbegins _).2, course_of_run _ 2 (hbegins []).1 nofun (hbegins _).2⟩

end ObjectModel.Generator
