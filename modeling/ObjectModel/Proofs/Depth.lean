import ObjectModel.Proofs.Types.Script

/-!
# The call depth

* `Program.depth_balanced` -- **every run ends as deep as it began**: a session comes back to depth
  zero with no generator running, and inside of calls and computations a collection is refused.
* `Script.Expr.depth_bounded` -- **how deep a run gets**: calls stay within the limit, but a request
  to a generator is counted and not refused, so the depth exceeds the limit by the running
  computations at most.
-/

namespace ObjectModel

/-! ## 1. Balance -/

section

variable {admits : Entry → Prop} {limits : Limits} {console : Console} {frame : Script.Frame}
  {s : State} {x : Entry} {n : Nat}

/-- Between two expressions nothing is running. -/
theorem Session.Reaches.callDepth_eq (h : Reaches admits limits console frame s) :
    s.callDepth = 0 := by
  induction h with
  | start => exact State.callDepth_initial limits console
  | @step frame _ s t n e outcome _ _ hrun ih =>
    have hdepth := (e.eval.run.run frame).callDepth_run n s
    rw [hrun] at hdepth
    exact hdepth.trans ih

/-- What happens inside a call happens at least one level deep. -/
theorem Entry.guarded_of_mem_recordCall {w : List Handle} {callee : Handle} {args : List Handle}
    (hx : x ∈ recordCall (engine n) (recorder n) w callee args s) : x.Guarded := by
  unfold recordCall at hx
  split at hx
  · exact absurd hx List.not_mem_nil
  · obtain ⟨v, hv⟩ := (Passage.of_run n w (dispatch callee args).run s.enter).deeper x hx
    have hdepth : s.callDepth + 1 + v.length ≤ x.event.before.callDepth := hv.least
    exact guarded_of_deep ((Passage.of_run n w (dispatch callee args).run s.enter).truthful x hx).2
      (by omega)

theorem Entry.running_ne_nil (hw : x.within ≠ []) : x.running ≠ [] := by
  unfold running
  split
  · exact hw
  · exact List.cons_ne_nil _ _

/-- So does what happens while the computation of a generator is running. -/
theorem Entry.guarded_of_within {α : Type} {p : Program α} (hx : x ∈ p.log n s)
    (hw : x.within ≠ []) : x.Guarded := by
  obtain ⟨v, hv⟩ := (Passage.of_run n [] p s).deeper x hx
  have hdepth : s.callDepth + v.length ≤ x.event.before.callDepth := hv.least
  have hrunning : x.running = v := hv.running_eq.trans (List.append_nil v)
  have hpos : 0 < v.length := List.length_pos_iff.mpr (hrunning ▸ running_ne_nil hw)
  exact guarded_of_deep ((Passage.of_run n [] p s).truthful x hx).2 (by omega)

end

/-- **The depth is balanced**: every program ends as deep as it began, whatever it calls and however
it ends. Hence nothing is running between two expressions of a session, no matter how many failed;
and inside of a call or a computation the depth is positive, so that a collection is refused there
and changes nothing. -/
theorem Program.depth_balanced :
    (∀ {α : Type} (p : Program α) (n : Nat) (s : State), (p.run (engine n) s).state.callDepth
      = s.callDepth) ∧
    (∀ (limits : Limits) (console : Console) (frame : Script.Frame) (s : State),
      Session.Reaches (fun _ => True) limits console frame s →
        s.callDepth = 0 ∧ ∀ g, ¬ s.Stands g .running) ∧
    (∀ (n : Nat) (w : List Handle) (callee : Handle) (args : List Handle) (s : State),
      ∀ x ∈ recordCall (engine n) (recorder n) w callee args s, x.Guarded) ∧
    (∀ {α : Type} (p : Program α) (n : Nat) (s : State), ∀ x ∈ p.log n s, x.within ≠ [] →
      x.Guarded) :=
  ⟨fun p n s => p.callDepth_run n s, fun _ _ _ _ h => ⟨h.callDepth_eq, h.still⟩, fun _ _ _ _ _ _
    hx => Entry.guarded_of_mem_recordCall hx, fun _ _ _ _ hx hw => Entry.guarded_of_within hx hw⟩

/-- A function that asks for a collection. -/
def Object.collector : Object := .ofCode "f" (.script (.list .collectGarbage []))

/-- It does so inside of its call. -/
theorem exists_mem_recordCall (n : Nat) (w : List Handle) {s : State} (hw : s.heap.WellFormed)
    (hd : s.Room) :
    ∃ o, (⟨w, .performed (.collect []) (s.allocate .collector).2.enter o⟩ : Entry) ∈
      recordCall (engine n) (recorder n) w (s.allocate .collector).1 []
        (s.allocate .collector).2 := by
  have hdepth : (s.allocate .collector).2.callDepth < (s.allocate .collector).2.limits.callDepth :=
    hd
  have hget : (s.allocate .collector).2.enter.heap.get? (s.allocate .collector).1
      = some .collector := Heap.get?_allocate_self hw _
  unfold recordCall
  rw [if_neg (Nat.not_le_of_lt hdepth)]
  change ∃ o, _ ∈ (Program.perform (.inspect fun t => t.heap.get? (s.allocate .collector).1)
    _).record (engine n) (recorder n) w _
  simp only [Program.record_perform, Action.perform, hget, recordAfter]
  exact ⟨_, List.mem_append_right _ (List.mem_cons_of_mem _ List.mem_cons_self)⟩

/-- Called in the first state, it is refused. -/
theorem Program.depth_balanced_inside_call :
    let made := (State.initial .standard (.ofLines [])).allocate .collector
    ∃ o, (⟨[], .performed (.collect []) made.2.enter o⟩ : Entry)
        ∈ recordCall (engine 1) (recorder 1) [] made.1 [] made.2 ∧
        o = .done (.error (.intrinsic .collectInsideCall)) made.2.enter := by
  intro made
  have hd := State.room_initial .standard (.ofLines []) (show 1 ≤ _ by decide)
  obtain ⟨o, ho⟩ :=
    exists_mem_recordCall 1 [] (State.regular_initial .standard (.ofLines [])).heap hd
  exact ⟨o, ho, (Program.depth_balanced.2.2.1 1 [] made.1 [] made.2 _ ho).refused
    [] made.2.enter o rfl⟩

/-! ## 2. Generators that ask each other -/

section

open Script

variable {x : Entry} {e : Engine} {r : Recorder} {w : List Handle} {s : State} {frame : Frame}

/-- An expression that makes a generator of one step and asks it for its value. -/
def Script.Expr.askNew (step : Expr) : Expr :=
  .unary .advance (.generator [.yield step] [] .completes)

/-- The computation of that generator. -/
def Script.Expr.yieldOnce (step : Expr) : Coroutine :=
  .script [.yield step] .completes [] 0 (.ofArgs [])

/-- So many generators, each of which asks the next one. -/
def Script.Expr.asking : Nat → Expr
  | 0 => .null
  | d + 1 => .askNew (asking d)

theorem mem_record_askNew (step : Expr) (hx : x ∈ r.advance w
      (s.allocate (.ofCoroutine step.yieldOnce)).1 (s.allocate (.ofCoroutine step.yieldOnce)).2) :
    x ∈ ((Expr.askNew step).eval.run.run frame).record e r w s := by
  -- the generator is made, handed over and asked
  refine List.mem_cons_of_mem _
    (List.mem_cons_of_mem _ (List.mem_cons_of_mem _ (List.mem_append_left _ ?_)))
  exact hx

/-- What happens in the step happens while its generator is running. -/
theorem mem_record_yieldOnce {step : Expr}
    (hx : x ∈ (step.eval.run.run (.ofArgs [])).record e r w s) :
    x ∈ step.yieldOnce.resume.run.record e r w s := by
  have hvalue : x ∈ (step.value.run.run (.ofArgs [])).record e r w s := by
    rw [Expr.value_eq, Eval.run_bind]
    exact Program.mem_record_bind hx
  have hstep : x ∈ (Step.run (some (.yield step)) (.ofArgs [])).run.record e r w s :=
    Program.mem_record_bind hvalue
  exact Program.mem_record_bind hstep

/-- **Every generator adds one level.** -/
theorem exists_mem_advance (d : Nat) (w : List Handle) {s : State} (hw : s.heap.WellFormed) :
    ∃ x ∈ (recorder (d + 1)).advance w (s.allocate (.ofCoroutine (Expr.asking d).yieldOnce)).1
        (s.allocate (.ofCoroutine (Expr.asking d).yieldOnce)).2,
      x.event.before.callDepth = s.callDepth + d + 1 ∧ x.event.before.limits = s.limits := by
  induction d generalizing w s with
  | zero =>
    have hget := Heap.get?_allocate_self hw (.ofCoroutine (Expr.asking 0).yieldOnce)
    change ∃ x ∈ recordAdvance (engine 0) (recorder 0) w _ _, _
    rw [recordAdvance_suspended _ _ _ hget rfl]
    exact ⟨_, List.mem_append_right _ List.mem_cons_self, rfl, rfl⟩
  | succ d ih =>
    have hget := Heap.get?_allocate_self hw (.ofCoroutine (Expr.asking (d + 1)).yieldOnce)
    change ∃ x ∈ recordAdvance (engine (d + 1)) (recorder (d + 1)) w _ _, _
    rw [recordAdvance_suspended _ _ _ hget rfl]
    obtain ⟨x, hx, hdepth, hlimits⟩ :=
      ih ((s.allocate (.ofCoroutine (Expr.asking (d + 1)).yieldOnce)).1 :: w)
      (s := ((s.allocate (.ofCoroutine (Expr.asking (d + 1)).yieldOnce)).2.setGenerator _
        .running).enter)
      ((hw.allocate _).modify _ _)
    refine ⟨x, List.mem_append_left _ (mem_record_yieldOnce (mem_record_askNew _ hx)), ?_, hlimits⟩
    rw [hdepth]
    change s.callDepth + 1 + d + 1 = s.callDepth + (d + 1) + 1
    omega

end

/-- So many generators reach that depth. -/
theorem exists_mem_log_asking (limits : Limits) (console : Console) (d : Nat) :
    ∃ x ∈ ((Script.Expr.asking (d + 1)).eval.run.run (.ofArgs [])).log (d + 1)
        (.initial limits console),
      x.event.before.callDepth = d + 1 ∧ x.event.before.limits = limits := by
  obtain ⟨x, hx, hdepth, hlimits⟩ :=
    exists_mem_advance d [] (State.regular_initial limits console).heap
  rw [State.callDepth_initial, Nat.zero_add] at hdepth
  rw [State.limits_initial] at hlimits
  exact ⟨x, mem_record_askNew _ hx, hdepth, hlimits⟩

/-! ## 3. Bounds -/

section

variable {limits : Limits} {console : Console} {frame : Script.Frame} {s : State}

/-- **How deep an expression gets.** Its run stays within the limit exactly if no computation is
resumed above it. In any case the depth exceeds the limit by the running computations at most, which
are distinct, and every call at the limit or above is refused. -/
theorem Script.Expr.depth_bounded (h : Session.Reaches (fun _ => True) limits console frame s)
    (e : Script.Expr) (n : Nat) :
    ((∀ x ∈ (e.eval.run.run frame).log n s,
        x.event.before.callDepth ≤ s.limits.callDepth ∧
          x.event.behind.callDepth ≤ s.limits.callDepth) ↔
      ∀ x ∈ (e.eval.run.run frame).log n s, x.ResumesWithin s.limits.callDepth) ∧
    ∀ x ∈ (e.eval.run.run frame).log n s, x.event.before.callDepth
      ≤ s.limits.callDepth + x.running.length ∧
      x.event.behind.callDepth = x.event.before.callDepth ∧ x.running.Nodup ∧
        Generator.RefusedAtLimit x.event := by
  have hpassage := Passage.of_run n [] (e.eval.run.run frame) s
  have hdepth : s.callDepth = 0 := h.callDepth_eq
  have hbehind : ∀ x ∈ (e.eval.run.run frame).log n s, x.event.behind.callDepth
      = x.event.before.callDepth := by
    intro x hx
    obtain ⟨v, hv⟩ := hpassage.deeper x hx
    exact hv.behind
  refine ⟨⟨fun hall x hx g c b o heq => ?_, fun hresumes x hx => ?_⟩,
    fun x hx => ⟨?_, hbehind x hx, ?_, ?_⟩⟩
  · have hb := (hall x hx).1
    rw [heq] at hb
    exact hb
  · have hb := hpassage.bounded rfl (by omega) hresumes x hx
    exact ⟨hb, (hbehind x hx).trans_le hb⟩
  · obtain ⟨v, hv⟩ := hpassage.deeper x hx
    have hmost := hv.most
    rw [hv.running_eq, List.append_nil]
    omega
  · have hruns : s.Runs [] :=
      ⟨h.orderly.regular.heap, List.nodup_nil, List.forall_mem_nil _, fun hne => absurd rfl hne⟩
    exact hpassage.nodup hruns x hx
  · intro callee args b o heq
    have htruth := (hpassage.truthful x hx).2
    rw [heq] at htruth
    exact htruth

end

/-- With room for one call, two generators that ask each other resume a computation above the
limit. -/
theorem Script.Expr.depth_bounded_by_two_generators :
    let s := State.initial ⟨1, 256⟩ (.ofLines [])
    Session.Reaches (fun _ => True) ⟨1, 256⟩ (.ofLines []) (.ofArgs []) s ∧
        ¬ (∀ x ∈ ((asking 2).eval.run.run (.ofArgs [])).log 2 s, x.ResumesWithin s.limits.callDepth)
        ∧ ∀ x ∈ ((asking 2).eval.run.run (.ofArgs [])).log 2 s,
        x.event.before.callDepth ≤ s.limits.callDepth + x.running.length := by
  intro s
  have hstart : Session.Reaches (fun _ => True) ⟨1, 256⟩ (.ofLines []) (.ofArgs []) s := .start
  have hbounded := depth_bounded hstart (asking 2) 2
  refine ⟨hstart, fun hresumes => ?_, fun x hx => (hbounded.2 x hx).1⟩
  obtain ⟨x, hx, hdepth, _⟩ := exists_mem_log_asking ⟨1, 256⟩ (.ofLines []) 1
  have hle := (hbounded.1.mpr hresumes x hx).1
  rw [hdepth, State.limits_initial] at hle
  exact absurd hle (by decide)

/-- **Any depth is reached**, whatever the limits are. -/
theorem State.exists_depth (limits : Limits) (console : Console) (d : Nat) :
    ∃ s : State, s.Reachable ∧ s.limits = limits ∧ s.callDepth = d + 1 := by
  obtain ⟨x, hx, hdepth, hlimits⟩ := exists_mem_log_asking limits console d
  exact ⟨x.event.before, .before .start (fun _ _ => trivial) hx, hlimits, hdepth⟩

/-- Two generators pass a limit of one call. -/
theorem State.depth_above_limit : ∃ s : State, s.Reachable ∧ s.limits.callDepth < s.callDepth := by
  obtain ⟨s, hs, hlimits, hdepth⟩ := State.exists_depth ⟨1, 256⟩ (.ofLines []) 1
  refine ⟨s, hs, ?_⟩
  rw [hlimits, hdepth]
  decide

end ObjectModel
