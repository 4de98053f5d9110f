import ObjectModel.Proofs.References.Session
import ObjectModel.Proofs.Renaming.Collection
import ObjectModel.Proofs.Renaming.Reachable

/-!
# Collections are transparent

A session cannot tell whether a collection took place before it, unless it asks for numbers or goes
on using handles that the collection freed.

* `State.collect_transparent` -- **a session goes the same with and without a collection before
  it**.
-/

namespace ObjectModel

open List (Forall₂)
open Script

variable {M : Mode} {ρ σ : Renaming} {s s' : State} {frame frame' : Frame} {e : Expr}
  {es : List Expr} {lost : Handle → Prop}

/-! ## 1. What a host sees -/

namespace Script

/-- The handles that an answer names. -/
def Answer.handles : Answer → List Handle
  | value h => [h]
  | optional h => h.toList
  | items hs => hs
  | _ => []

theorem Answer.Matches.strict {a a' : Answer} (h : a.Matches (M.Loose ρ) a')
    (ha : ∀ h ∈ a.handles, ¬ M.dead h) : a.Matches ρ a' := by
  cases h with
  | value hh => exact .value (hh.strict (ha _ List.mem_cons_self))
  | optional hh =>
    cases hh with
    | none => exact .optional .none
    | some hh => exact .optional (.some (hh.strict (ha _ List.mem_cons_self)))
  | items hh => exact .items (Mode.strict_all hh ha)
  | _ => constructor

theorem Answer.toReport_number {a : Answer} (ha : a.isNumber = true) (heap : Heap) :
    ∃ r : Report, a.toReport heap = some r ∧ r.isNumber = true := by
  cases a with
  | bool b => exact ⟨_, rfl, rfl⟩
  | int n => exact ⟨_, rfl, rfl⟩
  | report r => exact ⟨r, rfl, ha⟩
  | _ => cases ha

/-- Reports on one expression that are equal, or numbers that it asks for. -/
def Expr.Agrees (e : Expr) (r r' : Report) : Prop :=
  r = r' ∨ e.discreet .stored = false ∧ r.isNumber = true ∧ r'.isNumber = true

end Script

namespace Session

/-- **Reports that agree**, expression by expression, up to the end of the session. -/
inductive Agree : List Expr → List Report → List Report → Prop where
  | nil {es : List Expr} : Agree es [] []
  | cons {e : Expr} {es : List Expr} {r r' : Report} {rs rs' : List Report} : e.Agrees r r' →
      Agree es rs rs' → Agree (e :: es) (r :: rs) (r' :: rs')

/-! ## 2. Sessions in similar states -/

/-- **A session spares the lost handles**: none is handed to an operation or answered to the host,
and the functions and generators that run on the way ask for no numbers. -/
def Spares (lost : Handle → Prop) : List Expr → Frame → State → Prop
  | [], _, _ => True
  | e :: es, frame, s =>
    (∀ x ∈ (e.eval.run.run frame).log patience s, x.Discreet lost) ∧
      match (e.eval.run.run frame).run (engine patience) s with
      | .done (outcome, frame) s =>
        (∀ answer, outcome = .ok answer → ∀ h ∈ answer.handles, ¬ lost h) ∧ Spares lost es frame s
      | .aborted _ _ => True

/-- How far the answers of an expression agree whose numbers may differ. -/
def Comparable (M : Mode) (e : Expr) (σ : Renaming) (a a' : Answer) : Prop :=
  a.Matches (M.Loose σ) a' ∨ e.discreet .stored = false ∧ a.isNumber = true ∧ a'.isNumber = true

/-- An expression is evaluated alike, and its answers can be compared unless they are numbers. -/
theorem eval_agrees (he : e.discreet .noted = true)
    (hs : s.Similar M ρ s') (hframe : frame.Matches (M.Loose ρ) frame')
    (hlog : ∀ x ∈ (e.eval.run.run frame).log patience s, x.Discreet M.dead) :
    ((e.eval.run.run frame).run (engine patience) s).Agrees M
      (fun σ r r' => Answers (Comparable M e) σ r.1 r'.1 ∧ r.2.Matches (M.Loose σ) r'.2) ρ s s'
      ((e.eval.run.run frame').run (engine patience) s') := by
  obtain ⟨use, hd, hcompare⟩ : ∃ use : Use, e.discreet use = true ∧ ∀ σ a a', use.Relates M σ a a' →
      Comparable M e σ a a' := by
    by_cases hstored : e.discreet .stored = true
    · exact ⟨.stored, hstored, fun _ _ _ ha => Or.inl ha⟩
    · exact ⟨.noted, he, fun _ _ _ ha => ha.imp_right fun hn => ⟨Bool.eq_false_iff.mpr hstored, hn⟩⟩
  have hx := e.lockstep_eval (S := M.setting patience) use (Or.inr hd) ρ frame frame' hframe
  exact (hx.imp (fun σ _ _ _ hr => ⟨hr.1.imp (hcompare σ), hr.2⟩) s s' hs fun x hx =>
    Or.inr (hlog x hx)).1

/-- What a host sees of comparable outcomes. -/
theorem report_agrees {heap heap' : Heap} (hs : heap.Similar M σ heap')
    {r r' : Except Fault Answer} (hr : Answers (Comparable M e) σ r r')
    (hspared : ∀ answer, r = .ok answer → ∀ h ∈ answer.handles, ¬ M.dead h) :
    Option.Rel e.Agrees (report heap r) (report heap' r') := by
  have hsame : ∀ {x y : Option Report}, x = y → Option.Rel e.Agrees x y := by
    rintro x _ rfl
    cases x with
    | none => exact .none
    | some r => exact .some (Or.inl rfl)
  cases hr with
  | error hf =>
    refine hsame ?_
    simp only [report, hs.faultView hf]
  | ok ha =>
    rcases ha with ha | ⟨hd, hn, hn'⟩
    · exact hsame ((ha.strict (hspared _ rfl)).toReport_eq hs)
    · obtain ⟨r, hr, hrn⟩ := Answer.toReport_number hn heap
      obtain ⟨r', hr', hrn'⟩ := Answer.toReport_number hn' heap'
      simp only [report, hr, hr']
      exact .some (Or.inr ⟨hd, hrn, hrn'⟩)

/-- **Sessions in similar states go alike**, by induction on the expressions. -/
theorem steps_agree (hes : ∀ e ∈ es, e.discreet .noted = true) (hs : s.Similar M ρ s')
    (hframe : frame.Matches (M.Loose ρ) frame') (hrun : Spares M.dead es frame s) :
    Agree es (steps es frame s).1 (steps es frame' s').1 ∧
      ∃ σ, ρ.Grows s s' σ (steps es frame s).2 (steps es frame' s').2 ∧
        (steps es frame s).2.Similar M σ (steps es frame' s').2 := by
  induction es generalizing ρ frame frame' s s' with
  | nil => exact ⟨.nil, ρ, .refl ρ s s', hs⟩
  | cons e es ih =>
    obtain ⟨hlog, hrest⟩ := hrun
    have ho := eval_agrees (hes e List.mem_cons_self) hs hframe hlog
    unfold steps step
    generalize (e.eval.run.run frame).run (engine patience) s = o at ho hrest ⊢
    generalize (e.eval.run.run frame').run (engine patience) s' = o' at ho ⊢
    cases ho with
    | aborted reason hg ht =>
      cases reason with
      | stale => exact ⟨.cons (Or.inl rfl) .nil, _, hg, ht⟩
      | unfinished => exact ⟨.cons (Or.inl rfl) .nil, _, hg, ht⟩
    | @done σ r r' t t' hg ht hr =>
      obtain ⟨outcome, next⟩ := r
      obtain ⟨outcome', next'⟩ := r'
      obtain ⟨hspared, hrest⟩ := hrest
      have hreport := report_agrees ht.heap hr.1 hspared
      dsimp only
      generalize report t.heap outcome = x at hreport ⊢
      generalize report t'.heap outcome' = x' at hreport ⊢
      cases hreport with
      | none => exact ⟨.cons (Or.inl rfl) .nil, _, hg, ht⟩
      | some hseen =>
        obtain ⟨hagree, τ, hg', hu⟩ :=
          ih (fun e hm => hes e (List.mem_cons_of_mem _ hm)) ht hr.2 hrest
        exact ⟨.cons hseen hagree, τ, hg.trans hg', hu⟩

end Session

/-! ## 3. Collections -/

/-- The handles that a frame names. -/
def Script.Frame.handles (frame : Frame) : List Handle := frame.args ++ frame.locals.values

theorem Script.Frame.Matches.refl {R : Handle → Handle → Prop} (hr : ∀ h ∈ frame.handles, R h h) :
    frame.Matches R frame where
  args := List.forall₂_same.mpr fun h hm => hr h (List.mem_append_left _ hm)
  locals := .refl fun h hm => hr h (List.mem_append_right _ hm)

namespace State

theorem taken_collect (hd : s.callDepth = 0) (extra : List Handle) {h : Handle}
    (ht : s.heap.Taken h) : (s.collect extra).2.heap.Taken h := by
  rw [collect_eq hd]
  exact ht.sweep _

/-- **A collection is transparent.** Whatever comes behind it is reported and written as without it,
apart from numbers, and ends in the same state up to a renaming of handles. The renaming keeps all
handles that had been given out before. Operations may be given any handle but those that the
collection freed, and it frees nothing that its roots lead to. -/
theorem collect_transparent (hs : s.Reachable) (hd : s.callDepth = 0) (extra : List Handle)
    (hframe : ∀ h ∈ frame.handles, s.heap.Taken h) (hes : ∀ e ∈ es, e.discreet .noted = true)
    (hrun : Session.Spares (s.Frees extra) es frame (s.collect extra).2) :
    let swept := Session.steps es frame (s.collect extra).2
    let plain := Session.steps es frame s
    Session.Agree es swept.1 plain.1 ∧ swept.2.console = plain.2.console ∧
      ∃ σ : Renaming, swept.2.Similar (Mode.identical.losing (s.Frees extra)) σ plain.2 ∧
        (∀ a b, σ a b → a = b ∨ ¬ s.heap.Taken a ∧ ¬ s.heap.Taken b) ∧
        ∀ h, s.heap.Taken h → ¬ s.Frees extra h → σ h h := by
  obtain ⟨ρ, hself⟩ := hs.tidy
  have hdead : (Mode.identical.losing (s.Frees extra)).dead = s.Frees extra :=
    funext fun h => false_or _
  have hkept : ∀ h, s.heap.Taken h → ρ h h := fun h ht => hself.complete trivial ht
  have hmatch : frame.Matches ((Mode.identical.losing (s.Frees extra)).Loose
      (Similar.surviving ρ hd extra)) frame :=
    .refl fun h hm => (Mode.Loose.of (M := .identical) (hkept h (hframe h hm))).keeping
  obtain ⟨hagree, σ, hgrows, hend⟩ :=
    Session.steps_agree hes (hself.collect_left hd extra) hmatch (by rw [hdead]; exact hrun)
  refine ⟨hagree, hend.console, σ, hend, fun a b hab => ?_,
    fun h ht hf => hgrows.le ⟨hf, hkept h ht⟩⟩
  rcases hgrows.fresh hab with hab | ⟨ha, hb⟩
  · exact Or.inl (hself.eq_of_numbers trivial hab.2)
  · exact Or.inr ⟨mt (taken_collect hd extra) ha, hb⟩

end State

namespace Session

theorem eval_reclaim (frame : Frame) (freed : Nat) :
    ∃ next, (Expr.list .reclaim []).eval.run.run frame
        = .perform (.handOver []) (fun _ => .perform (.collect []) next) ∧
      next (.ok freed) = .pure (.ok (.int (Int64.ofNat freed)), frame) :=
  ⟨_, rfl, rfl⟩

/-- A collection is given no handles here and answers a number. -/
theorem spares_reclaim (hd : s.callDepth = 0) : Spares lost [.list .reclaim []] frame s := by
  have hperform : Action.perform (engine patience) (.collect []) s
      = .done (.ok (s.heap.collect (s.roots [])).1) (s.collect []).2 := by
    simp only [Action.perform, State.collect_eq hd]
  obtain ⟨next, heval, hnext⟩ := eval_reclaim frame (s.heap.collect (s.roots [])).1
  have hrun : ((Expr.list .reclaim []).eval.run.run frame).run (engine patience) s
      = .done (.ok (.int (Int64.ofNat (s.heap.collect (s.roots [])).1)), frame)
          (s.collect []).2 := by
    rw [heval, Program.run_perform]
    change (Program.perform (.collect []) next).run (engine patience) s = _
    rw [Program.run_perform, hperform]
    change (next (.ok _)).run (engine patience) _ = _
    rw [hnext]
    rfl
  have hlog : ((Expr.list .reclaim []).eval.run.run frame).log patience s
      = [⟨[], .performed (.handOver []) s (.done () s)⟩,
        ⟨[], .performed (.collect []) s
            (.done (.ok (s.heap.collect (s.roots [])).1) (s.collect []).2)⟩] := by
    rw [heval, Program.log, Program.record_perform]
    change _ ++ (Program.perform (.collect []) next).record (engine patience)
      (recorder patience) [] s = _
    rw [Program.record_perform, hperform]
    change _ ++ (_ ++ (next (.ok _)).record (engine patience) (recorder patience) [] _) = _
    rw [hnext]
    rfl
  unfold Spares
  rw [hlog, hrun]
  refine ⟨fun x hx => ?_, fun answer ha h hm => ?_, trivial⟩
  · simp only [List.mem_cons, List.not_mem_nil, or_false] at hx
    rcases hx with rfl | rfl
    · exact List.forall_mem_nil _
    · trivial
  · cases ha
    exact absurd hm List.not_mem_nil

/-- A session that makes a tuple of one number behind a collection and asks how much a second one
frees. -/
theorem spares_singleton (n : Int64) (hs : s.Regular) (hd : s.callDepth = 0) (extra : List Handle) :
    Spares (s.Frees extra) [.list .tuple [.int n], .list .reclaim []] frame
      (s.collect extra).2 := by
  have hw : (s.collect extra).2.heap.WellFormed := by
    rw [State.collect_eq hd]
    exact hs.heap.collect _
  have hlost : ∀ h, s.Frees extra h → (s.collect extra).2.heap.Taken h :=
    fun h hf => State.taken_collect hd extra (hs.heap.taken hf.1)
  have hdepth : (s.collect extra).2.callDepth = 0 := by
    rw [State.collect_eq hd]
    exact hd
  generalize (s.collect extra).2 = t at hw hlost hdepth ⊢
  have hitem : ∀ o, ¬ s.Frees extra (t.allocate o).1 :=
    fun o hl => (hlost _ hl).ne_allocate hw o rfl
  have hmade : ∀ o o', ¬ s.Frees extra ((t.allocate o).2.allocate o').1 := fun o o' hl =>
    ((hlost _ hl).allocate o).ne_allocate (hw.allocate o) o' rfl
  unfold Spares
  rw [log_singleton, run_singleton]
  refine ⟨fun x hx => ?_, fun answer ha h hm => ?_, spares_reclaim hdepth⟩
  · simp only [List.mem_cons, List.not_mem_nil, or_false] at hx
    rcases hx with rfl | rfl | rfl
    · trivial
    · intro h hm
      rw [List.mem_singleton.mp hm]
      exact hitem _
    · trivial
  · cases ha
    rw [List.mem_singleton.mp hm]
    exact hmade _ _

end Session

namespace State

/-- Behind the evaluation of a literal, whose object the collection frees: the tuple is made in its
slot on one side only. -/
theorem collect_transparent_behind_literal :
    let s := ((State.initial .standard (.ofLines [])).allocate (.ofInt 5)).2
    let es := [Expr.list .tuple [.int 7], .list .reclaim []]
    s.Reachable ∧ s.callDepth = 0 ∧ Session.Spares (s.Frees []) es (.ofArgs []) (s.collect []).2 ∧
        Session.Agree es (Session.steps es (.ofArgs []) (s.collect []).2).1
        (Session.steps es (.ofArgs []) s).1 := by
  intro s es
  have hs : s.Reachable :=
    .between (.step 0 (.int 5) _ .start (fun _ _ => trivial) (run_literal 5 0 _ _))
  have hd : s.callDepth = 0 :=
    (callDepth_allocate _ _).trans (callDepth_initial .standard (.ofLines []))
  have hrun : Session.Spares (s.Frees []) es (.ofArgs []) (s.collect []).2 :=
    Session.spares_singleton 7 hs.regular hd []
  have hdiscreet : ∀ e ∈ es, e.discreet .noted = true := by
    intro e he
    rcases List.mem_cons.mp he with rfl | he
    · rfl
    · rw [List.mem_singleton.mp he]
      rfl
  exact ⟨hs, hd, hrun, (collect_transparent hs hd [] (List.forall_mem_nil _) hdiscreet hrun).1⟩

end State

end ObjectModel
