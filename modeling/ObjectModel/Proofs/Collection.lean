import ObjectModel.Proofs.Run.Steps

/-!
# Collections

A collection between calls frees exactly what nothing keeps alive.

* `State.collect_exact` -- in every state that a session passes through outside of calls, a
  collection succeeds and has that effect.
-/

namespace ObjectModel

theorem BuiltinType.mem_globalOrder (t : BuiltinType) : t ∈ BuiltinType.globalOrder := by
  cases t with
  | exception kind => cases kind <;> decide
  | _ => decide

namespace State

/-- The builtin types, the singletons, the values of global names, the pinned handles and the extra
ones. -/
inductive IsRoot (s : State) (extra : List Handle) : Handle → Prop where
  | type (t : BuiltinType) : IsRoot s extra t.handle
  | none : IsRoot s extra .none
  | notImplemented : IsRoot s extra .notImplemented
  | true : IsRoot s extra .true
  | false : IsRoot s extra .false
  | global {name : String} {h : Handle} : (name, h) ∈ s.globals.toList → IsRoot s extra h
  | pinned {h : Handle} : 0 < s.pins.count h → IsRoot s extra h
  | extra {h : Handle} : h ∈ extra → IsRoot s extra h

variable {s : State} {extra : List Handle} {h : Handle}

theorem mem_roots_iff (hp : s.pins.Positive) : h ∈ s.roots extra ↔ s.IsRoot extra h := by
  unfold roots
  simp only [List.mem_append, List.mem_map, OrderedMap.mem_values, hp.mem_handles_iff]
  constructor
  · rintro ((((⟨t, _, rfl⟩ | hs) | ⟨name, hg⟩) | hp) | he)
    · exact .type t
    · rcases List.mem_cons.mp hs with rfl | hs
      · exact .none
      rcases List.mem_cons.mp hs with rfl | hs
      · exact .notImplemented
      rcases List.mem_cons.mp hs with rfl | hs
      · exact .true
      · rw [List.mem_singleton.mp hs]
        exact .false
    · exact .global hg
    · exact .pinned hp
    · exact .extra he
  · intro hr
    cases hr with
    | type t => exact Or.inl (Or.inl (Or.inl (Or.inl ⟨t, t.mem_globalOrder, rfl⟩)))
    | none => exact Or.inl (Or.inl (Or.inl (Or.inr (by simp))))
    | notImplemented => exact Or.inl (Or.inl (Or.inl (Or.inr (by simp))))
    | true => exact Or.inl (Or.inl (Or.inl (Or.inr (by simp))))
    | false => exact Or.inl (Or.inl (Or.inl (Or.inr (by simp))))
    | global hg => exact Or.inl (Or.inl (Or.inr ⟨_, hg⟩))
    | pinned hp => exact Or.inl (Or.inr hp)
    | extra he => exact Or.inr he

/-- **The effect of a collection** that freed `freed` objects. -/
structure Collected (s : State) (extra : List Handle) (freed : Nat) (s' : State) : Prop where
  /-- The live handles are those that were live and that the roots lead to. -/
  live_iff : ∀ h, s'.heap.contains h = true ↔ s.heap.contains h = true ∧
    s.heap.Leads (s.IsRoot extra) h
  /-- What survives is unchanged. -/
  get?_eq : ∀ h, s'.heap.contains h = true → s'.heap.get? h = s.heap.get? h
  /-- The answer is the number of handles that became stale. -/
  ncard_eq : {h | s.heap.contains h = true ∧ ¬ s'.heap.contains h = true}.ncard = freed
  /-- The count of objects drops by the answer. -/
  drop_eq : s.objectCount - s'.objectCount = freed
  /-- Nothing but the heap changes. -/
  rest_eq : s' = { s with heap := s'.heap }

/-- A collection of a regular state outside of calls. -/
theorem Regular.collected (hs : s.Regular) (hd : s.callDepth = 0) (extra : List Handle) :
    s.collect extra = (.ok (s.heap.collect (s.roots extra)).1,
      { s with heap := (s.heap.collect (s.roots extra)).2 }) ∧
      s.Collected extra (s.heap.collect (s.roots extra)).1
          { s with heap := (s.heap.collect (s.roots extra)).2 } := by
  refine ⟨?_, ?_, ?_, ?_, ?_, rfl⟩
  · unfold collect
    rw [if_neg (by omega)]
  · intro h
    rw [Heap.contains_collect, Heap.Leads.congr fun _ => mem_roots_iff hs.pins]
  · intro h hkept
    exact Heap.get?_collect _ _ hkept
  · exact Heap.ncard_collect _ _
  · have hlive := hs.heap.live_collect (s.roots extra)
    unfold objectCount
    simp only
    omega

/-- **A collection is exact**: it keeps what the roots lead to, unchanged, and frees all else. -/
theorem collect_exact (hs : s.Reachable) (hd : s.callDepth = 0) (extra : List Handle) :
    ∃ freed s', s.collect extra = (.ok freed, s') ∧ s.Collected extra freed s' :=
  ⟨_, _, hs.regular.collected hd extra⟩

theorem run_literal (n : Int64) (bound : Nat) (frame : Script.Frame) (s : State) :
    ((Script.Expr.int n).eval.run.run frame).run (engine bound) s
      = .done (.ok (.value (s.allocate (.ofInt n)).1), frame) (s.allocate (.ofInt n)).2 := rfl

theorem callDepth_allocate (s : State) (object : Object) :
    (s.allocate object).2.callDepth = s.callDepth :=
  rfl

/-- Behind the evaluation of a literal, whose object nothing keeps alive. -/
theorem collect_exact_behind_literal :
    let s := ((State.initial .standard (.ofLines [])).allocate (.ofInt 5)).2
    s.Reachable ∧ s.callDepth = 0 ∧ ∃ freed s', s.collect [] = (.ok freed, s') ∧
        s.Collected [] freed s' := by
  intro s
  have hs : s.Reachable :=
    .between (.step 0 (.int 5) _ .start (fun _ _ => trivial) (run_literal 5 0 _ _))
  have hd : s.callDepth = 0 :=
    (callDepth_allocate _ _).trans (callDepth_initial .standard (.ofLines []))
  exact ⟨hs, hd, collect_exact hs hd []⟩

end State

end ObjectModel
