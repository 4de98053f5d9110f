import ObjectModel.Proofs.Data.Hooks

/-!
# Literals

A session may evaluate a tuple of numbers and texts. Their objects are there at the end, and the
builtin types are as before.
-/

namespace ObjectModel

open Script (Expr Frame)

/-- A number or a text, as an expression may have it. -/
inductive Literal where
  | int (n : Int64)
  | text (text : String)

namespace Literal

def object : Literal → Object
  | int n => .ofInt n
  | text t => .ofText t

def expr : Literal → Expr
  | int n => .int n
  | text t => .text t

/-- **Literals are evaluated one after another**: an object is made for each. -/
theorem exists_evalAll (frame : Frame) (literals : List Literal) :
    ∀ {s : State}, s.heap.WellFormed →
    ∃ (items : List Handle) (t : State), ((Expr.evalAll (literals.map expr)).run.run frame).run
      (engine 0) s = .done (.ok items, frame) t ∧
      t.heap.WellFormed ∧ s.heap.KeptIn t.heap ∧ t.levels = s.levels ∧
      List.Forall₂ (fun l h => t.heap.get? h = some l.object) literals items := by
  induction literals with
  | nil => exact fun {s} hw => ⟨[], s, rfl, hw, id, rfl, .nil⟩
  | cons l literals ih =>
    intro s hw
    obtain ⟨h, s₁, hs₁, hp⟩ := State.exists_placed hw l.object
    obtain ⟨items, t, hrun, ht, hkept, hlevels, hall⟩ := ih hp.wellFormed
    refine ⟨h :: items, t, ?_, ht, fun hget => hkept (hp.kept hget), hlevels.trans hp.levels_eq,
      .cons (hkept hp.found) hall⟩
    have hfirst : (l.expr.eval.run.run frame).run (engine 0) s
        = .done (.ok (.value h), frame) s₁ := by
      cases hs₁
      cases l <;> rfl
    exact (Script.Eval.run_bind_ok hfirst).trans ((Script.Eval.run_bind_ok hrun).trans rfl)

end Literal

/-- **A state of a session that has these literals**, behind the evaluation of a tuple of them. -/
theorem State.exists_literals (literals : List Literal) :
    ∃ (s : State) (handles : List Handle), s.Reachable ∧ s.heap.Unaltered ∧
    s.levels = Limits.standard.callDepth ∧
    List.Forall₂ (fun l h => s.heap.get? h = some l.object) literals handles := by
  have hfirst := State.orderly_initial .standard (.ofLines [])
  obtain ⟨handles, t, hitems, hw, hkept, hlevels, hall⟩ :=
    Literal.exists_evalAll (.ofArgs []) literals hfirst.regular.heap
  obtain ⟨c, s, hs, hp⟩ := State.exists_placed hw (.ofItems handles)
  have hrun : ((Expr.list .tuple (literals.map Literal.expr)).eval.run.run (.ofArgs [])).run
      (engine 0) (.initial .standard (.ofLines []))
      = .done (.ok (.value c), .ofArgs []) s := by
    refine (Script.Eval.run_bind_ok hitems).trans ?_
    cases hs
    rfl
  have hspares : (State.initial .standard (.ofLines [])).Spares (fun _ => True) s :=
    .of_kept fun hget => hp.kept (hkept hget)
  exact ⟨s, handles, .between (.step 0 _ _ .start (fun _ _ => trivial) hrun), hspares.unaltered
    (fun _ _ => trivial) hfirst.heap (State.unaltered_initial _ _), hp.levels_eq.trans
    (hlevels.trans (State.levels_initial _ _)), hall.imp fun _ _ hget => hp.kept hget⟩

end ObjectModel
