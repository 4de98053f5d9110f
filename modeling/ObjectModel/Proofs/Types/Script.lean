import ObjectModel.Proofs.Composition.Script
import ObjectModel.Proofs.Types.Bootstrap
import ObjectModel.Proofs.Types.Construction

/-!
# Scripts make fitting objects only

A script is a composition of the operations of the library, so it keeps to the contract
`construction` with them.

* `Script.Expr.builds_eval` -- **every expression keeps to it**, and so do generators
  (`Coroutine.builds_resume`) and calls (`builds_dispatch`).
* `State.ReachableBy.orderly`, `Session.Reaches.still` -- **every state of a session is orderly**,
  and between its expressions no generator is running.
-/

namespace ObjectModel

open Run (Builds)

variable {α : Type}

/-! ## 1. Expressions -/

namespace Script

variable {β : Type} {frame frame' : Frame} {e : Engine} {s t : State}

theorem Eval.run_bind_ok {x : Eval α} {f : α → Eval β} {a : α}
    (hx : (x.run.run frame).run e s = .done (.ok a, frame') t) :
    ((x >>= f).run.run frame).run e s = ((f a).run.run frame').run e t := by
  rw [run_bind, Program.run_bind, hx]
  rfl

theorem run_answer {x : Run α} {a : α} (make : α → Answer) (hx : x.run.run e s = .done (.ok a) t) :
    ((do return make (← x) : Eval Answer).run.run frame).run e s
      = .done (.ok (make a), frame) t := by
  change ((Eval.ofRun x >>= fun a => pure (make a)).run.run frame).run e s = _
  rw [Eval.run_ofRun_bind, Program.run_bind, hx]
  rfl

end Script

/-- **What is composed keeps to the contract**, and of handles nothing need be known. -/
theorem construction_carries : construction.Carries State.Settles fun _ _ => True where
  refl := .refl
  trans h h' := h.trans h'
  run hx s hs _ := (hx.builds s hs).mono hs fun _ _ _ hr => ⟨hr, fun _ _ _ _ => trivial⟩
  raised hs _ := builds_raiseValue _ _ hs
  collected extra s hs := Builds.ask (a := .collect extra) rfl s hs

theorem Script.Expr.builds_eval (e : Expr) (frame : Frame) (s : State) (hs : s.Orderly) :
    (e.eval.run.run frame).Ensures construction (fun _ t => s.Settles t) s :=
  (e.composed_eval []).ensures construction_carries frame hs fun _ _ => trivial

/-! ## 2. Calls and requests -/

theorem Coroutine.builds_resume (c : Coroutine) : Builds c.resume := fun _ hs =>
  (construction_carries.resume c hs (fun _ _ => trivial) fun _ _ _ => trivial).mono hs
    fun _ _ _ hr => hr.1

theorem builds_dispatch (callee : Handle) (args : List Handle) : Builds (dispatch callee args) :=
  fun _ hs =>
  (construction_carries.dispatch callee args hs fun _ _ => trivial).mono hs fun _ _ _ hr => hr.1

/-- A generator that was put back is not running, and nothing else has begun to run. -/
theorem State.Orderly.settle {g : Handle} {r : Except Fault Resumed}
    {s u : State} {back : Except Fault Resumption} (hs : s.Orderly)
    (h : ObjectModel.settle g r s = .done back u) :
    u.Orderly ∧ ∀ k, u.Stands k .running → k ≠ g ∧ s.Stands k .running := by
  have hset : ∀ state : Generator, state ≠ .running → (s.setGenerator g state).Orderly ∧
      ∀ k, (s.setGenerator g state).Stands k .running → k ≠ g ∧ s.Stands k .running := by
    intro state hne
    refine ⟨hs.setGenerator g state, fun k hk => ?_⟩
    rcases hk.of_setGenerator with ⟨_, he⟩ | hold
    · exact absurd he.symm hne
    · exact hold
  unfold ObjectModel.settle at h
  split at h
  · cases h
    exact hset _ nofun
  · cases h
    exact hset _ nofun
  · cases h
    exact hset _ nofun

/-- **The machine upholds the contract.** -/
theorem construction_upheld (admits : Entry → Prop) : construction.Upheld admits where
  leave s hs := hs.leave
  primitive := by
    intro β a e w s hp hs hmay _
    refine ⟨hs.perform e hp hmay, fun answer t ht => ⟨?_, fun _ => ⟨e, ht⟩⟩⟩
    have hsettles := State.settles_of_effect hs.regular.heap hmay (a.effect_of_perform e s hp)
    rw [ht] at hsettles
    exact hsettles
  refused callee args s _ _ := ⟨.refl s, nofun⟩
  called := by
    intro callee args s hs _
    refine ⟨hs.enter, (builds_dispatch callee args s.enter hs.enter).mono hs.enter fun r t _ hr =>
      ⟨?_, nofun⟩⟩
    intro g hg
    exact (hr g (hg.congr rfl)).congr rfl
  answered := by
    intro g s object hs _ _
    exact ((composed_refusal (K := []) object.payload).builds s hs).mono hs fun r t _ hr =>
      ⟨hr, nofun⟩
  resumed := by
    intro g s object c hs _ _ _
    have hinner : (s.setGenerator g .running).enter.Orderly := (hs.setGenerator g .running).enter
    refine ⟨hinner, (c.builds_resume _ hinner).mono hinner fun r t ht hr back u hsettle => ?_⟩
    obtain ⟨hu, hrunning⟩ := ht.leave.settle hsettle
    refine ⟨hu, ((composed_conclude back).builds u hu).mono hu fun r v _ hv =>
      ⟨fun k hk => ?_, nofun⟩⟩
    obtain ⟨hne, hk⟩ := hrunning k (hv k hk)
    have hbegan : (s.setGenerator g .running).Stands k .running := (hr k (hk.congr rfl)).congr rfl
    rcases hbegan.of_setGenerator with ⟨he, _⟩ | ⟨_, hold⟩
    · exact absurd he hne
    · exact hold

theorem Run.Builds.orderly {α : Type} {x : Run α} {s : State} (hx : x.Builds) (hs : s.Orderly)
    (n : Nat) : (x.run.run (engine n) s).state.Orderly :=
  ((construction_upheld fun _ => True).run n [] _ s _ hs (hx s hs) fun _ _ => trivial).inv

theorem Run.Builds.orderly_done {α : Type} {x : Run α} {s t : State} {n : Nat} {r : Except Fault α}
    (hx : x.Builds) (hs : s.Orderly) (hrun : x.run.run (engine n) s = .done r t) : t.Orderly := by
  have horderly := hx.orderly hs n
  rwa [hrun] at horderly

/-! ## 3. Sessions -/

section

variable {admits : Entry → Prop} {limits : Limits} {console : Console} {frame : Script.Frame}
  {s : State}

theorem construction_governs (admits : Entry → Prop) : construction.Governs admits where
  upheld := construction_upheld admits
  initial := State.orderly_initial
  eval e frame s hs := (e.builds_eval frame s hs).mono hs fun _ _ _ _ => trivial

/-- **Every state of a session is orderly.** -/
theorem State.ReachableBy.orderly (h : s.ReachableBy admits) : s.Orderly :=
  (construction_governs admits).reachable h

theorem Session.Reaches.orderly (h : Reaches admits limits console frame s) : s.Orderly :=
  (construction_governs admits).reaches h

/-- **Between two expressions no generator is running**, whatever has failed so far. -/
theorem Session.Reaches.still (h : Reaches admits limits console frame s) (g : Handle) :
    ¬ s.Stands g .running := by
  induction h with
  | start => exact State.still_initial limits console g
  | @step frame _ s t n e outcome h ha hrun ih =>
    have hpasses :=
      (construction_upheld admits).run n [] _ s _ h.orderly (e.builds_eval frame s h.orderly) ha
    exact fun hg => ih (hpasses.ends _ _ hrun g hg)

end

end ObjectModel
