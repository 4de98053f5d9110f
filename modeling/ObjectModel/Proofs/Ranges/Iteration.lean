import ObjectModel.Proofs.Generators.Dealing
import ObjectModel.Proofs.Integers.Operator
import ObjectModel.Proofs.Ranges.Progression

/-!
# Iterators over a progression

A generator whose computation is a progression hands out its values, one for each request, and then
raises `StopIteration` for ever.

* `Counts`, `Generator.counts_of_log` -- **whatever a run does besides**, its requests to such a
  generator are answered with the values in order.
-/

namespace ObjectModel

variable {s t u : State} {g h : Handle} {p : Progression} {x : Generator} {i : Int64} {k n : Nat}
  {e : Engine}

/-! ## 1. The values -/

/-- **A progression deals out its values**, each as a new integer. -/
def Progression.deal (p : Progression) (hstep : p.step ≠ 0) : Deal where
  size := p.length
  rest := p.rest
  shows k s h := ∃ i, s.IsInt h i ∧ i.toInt = p.value k
  yields hk hw e := by
    obtain ⟨i, hi, hresume⟩ := run_resume (e := e) hstep hk
    exact ⟨_, _, hresume, Heap.get?_allocate_of_live hw, i,
      ⟨.ofInt i, State.get?_made hw _, rfl⟩, hi⟩
  ends hk _ _ := run_resume_end hstep hk
  spared hs := by
    rintro ⟨i, ⟨o, hget, hp⟩, hi⟩
    exact ⟨i, ⟨o, hs hget fun x hx => (by cases hp.symm.trans hx), hp⟩, hi⟩

/-! ## 2. Requests in a run -/

/-- The event of an action tells what the action does in a state whose heap is well formed. -/
def Event.Genuine : Event → Prop
  | .performed a s o => s.heap.WellFormed ∧ ∃ n, o = a.perform (engine n) s
  | .resumed _ _ _ _ => True

theorem Program.genuine_log {α : Type} (q : Program α) (n : Nat) (hw : s.heap.WellFormed) :
    ∀ y ∈ q.log n s, y.event.Genuine := by
  have hperformed : ∀ y ∈ q.log n s, ∀ {β : Type} (a : Action β) (t : State) (o : Outcome β),
      y.event = .performed a t o → ∃ n, o = a.perform (engine n) t := by
    refine Program.forall_event
      (P := fun z => ∀ {β : Type} (a : Action β) (t : State) (o : Outcome β), z = .performed a t o →
      ∃ n, o = a.perform (engine n) t) (fun a n t => ?_) (fun _ _ _ _ => ?_) n [] q s
    · rintro _ _ _ _ ⟨⟩
      exact ⟨n, rfl⟩
    · rintro _ _ _ _ ⟨⟩
  intro y hy
  have hbefore := (State.steps_of_log q n s hy).1.wellFormed hw
  cases hevent : y.event with
  | performed a t o =>
    rw [hevent] at hbefore
    exact ⟨hbefore, hperformed y hy a t o hevent⟩
  | resumed => trivial

namespace Generator

variable {request events : List Event} {y : Generator} {behind : Option Generator}

/-- A request that is answered: it finds the generator in one state and leaves it in the next. -/
theorem Request.answered (h : Request g x request (some y)) :
    ∃ s r u, request.filterMap Event.answer? = [.done r u] ∧
    .performed (.advance g) s (.done r u) ∈ request ∧ s.Stands g x ∧ u.Stands g y := by
  cases h with
  | yielded hs hu | completed hs hu | failed hs hu =>
    exact ⟨_, _, _, rfl, List.mem_cons_of_mem _ List.mem_cons_self, hs, hu⟩
  | exhausted hs hu => exact ⟨_, _, _, rfl, List.mem_cons_self, hs, hu⟩

/-- A request that is not: it finds the generator, or reaches the bound on nesting, or the generator
is gone. -/
theorem Request.unanswered (h : Request g x request none) :
    ∃ s reason u, request.filterMap Event.answer? = [.aborted reason u] ∧
    .performed (.advance g) s (.aborted reason u) ∈ request ∧
    (s.Stands g x ∨ reason = .unfinished ∨ (reason = .stale ∧ u.heap.get? g = none)) := by
  cases h with
  | unshown hs | lost hs =>
    exact ⟨_, _, _, rfl, List.mem_cons_of_mem _ List.mem_cons_self, Or.inl hs⟩
  | unreached => exact ⟨_, _, _, rfl, List.mem_cons_self, Or.inr (Or.inl rfl)⟩
  | gone hs => exact ⟨_, _, _, rfl, List.mem_cons_self, Or.inr (Or.inr ⟨rfl, hs⟩)⟩

/-- **How requests are answered** by a generator that stands at place `k` of the progression: with
its values in order, each as an integer, and with `StopIteration` from the length on. A request that
does not come to an answer is the last one; it reached the bound on nesting, or the generator had
been collected. -/
inductive Counts (g : Handle) (p : Progression) :
    Nat → List (Outcome (Except Fault Handle)) → Prop where
  | nil (k : Nat) : Counts g p k []
  | value {k : Nat} {h : Handle} {i : Int64} {t : State}
      {answers : List (Outcome (Except Fault Handle))} : k < p.length → t.IsInt h i →
      i.toInt = p.value k → Counts g p (k + 1) answers → Counts g p k (.done (.ok h) t :: answers)
  | ended {k : Nat} {fault : Fault} {t : State} {answers : List (Outcome (Except Fault Handle))} :
      p.length ≤ k → fault.Carries t .stopIteration [] → Counts g p k answers →
      Counts g p k (.done (.error fault) t :: answers)
  | unreached {k : Nat} {t : State} : Counts g p k [.aborted .unfinished t]
  | gone {k : Nat} {t : State} : t.heap.get? g = none → Counts g p k [.aborted .stale t]

/-- What a request to a generator does that is there. -/
theorem advance_cases {hstep : p.step ≠ 0} {o : Outcome (Except Fault Handle)}
    (ho : Event.Genuine (.performed (.advance g) s o)) (hs : s.Stands g x)
    (hx : (p.deal hstep).At k x) :
    (k < p.length ∧ ∃ h i t, o = .done (.ok h) t ∧ t.IsInt h i ∧ i.toInt = p.value k ∧
      t.Stands g (.suspended (p.rest (k + 1)))) ∨
    (p.length ≤ k ∧ ∃ fault t, o = .done (.error fault) t ∧ fault.Carries t .stopIteration [] ∧
      t.Stands g (.stopped none)) ∨
    o = .aborted .unfinished s := by
  obtain ⟨hw, n, rfl⟩ := ho
  cases n with
  | zero => exact Or.inr (Or.inr rfl)
  | succ n =>
    by_cases hk : k < p.length
    · obtain rfl := hx.resolve_right fun h => absurd h.1 (Nat.not_le.mpr hk)
      obtain ⟨h, t, hdone, ⟨i, hint, hi⟩, hstands, _⟩ :=
        State.Stands.advance_value (d := p.deal hstep) hs hw hk (engine n)
      exact Or.inl ⟨hk, h, i, t, hdone, hint, hi, hstands⟩
    · have hk := Nat.le_of_not_lt hk
      obtain ⟨fault, t, hdone, hcarries, hstands, _⟩ := hs.advance_end hw hx hk (engine n)
      exact Or.inr (Or.inl ⟨hk, fault, t, hdone, hcarries, hstands⟩)

/-- **A lifetime counts**: by induction on it, each request goes on from the place that the one
before left. -/
theorem Lifetime.counts (h : Lifetime g x events behind) (hstep : p.step ≠ 0) :
    ∀ k, (p.deal hstep).At k x → (∀ z ∈ events, z.Genuine) →
      Counts g p k (events.filterMap Event.answer?) := by
  induction h with
  | rest x => exact fun k _ _ => .nil k
  | @next x y request events behind hr _ ih =>
    intro k hx hgenuine
    obtain ⟨s, r, u, hanswer, hmem, hs, hu⟩ := hr.answered
    have hlater : ∀ z ∈ events, z.Genuine := fun z hz => hgenuine z (List.mem_append_right _ hz)
    rw [List.filterMap_append, hanswer]
    rcases advance_cases (hgenuine _ (List.mem_append_left _ hmem)) hs hx with
      ⟨hk, h, i, t, he, hint, hi, ht⟩ | ⟨hk, fault, t, he, hcarries, ht⟩ | he
    · cases he
      exact .value hk hint hi (ih (k + 1) (Or.inl (hu.unique ht)) hlater)
    · cases he
      exact .ended hk hcarries (ih k (Or.inr ⟨hk, hu.unique ht⟩) hlater)
    · cases he
  | @last x request hr =>
    intro k hx hgenuine
    obtain ⟨s, reason, u, hanswer, hmem, hs | rfl | ⟨rfl, hgone⟩⟩ := hr.unanswered
    · rw [hanswer]
      rcases advance_cases (hgenuine _ hmem) hs hx with ⟨_, _, _, _, he, _⟩ | ⟨_, _, _, he, _⟩ | he
      · cases he
      · cases he
      · cases he
        exact .unreached
    · rw [hanswer]
      exact .unreached
    · rw [hanswer]
      exact .gone hgone

/-- **Whatever a program does**, its requests to the generator are answered with the values from its
place on. -/
theorem counts_of_log {α : Type} (q : Program α) (n : Nat) (hw : s.heap.WellFormed)
    (hs : s.Stands g x) {hstep : p.step ≠ 0} (hx : (p.deal hstep).At k x) :
    Counts g p k (answers g (q.log n s)) := by
  have hrunning : x ≠ running := by
    rcases hx with rfl | ⟨_, rfl⟩
    · exact suspended_ne_running _
    · exact stopped_ne_running _
  obtain ⟨behind, hlife, _⟩ := (course_of_keeps q n hw hrunning hs.keeps).lifetime
  refine hlife.counts hstep k hx fun z hz => ?_
  obtain ⟨y, hy, rfl⟩ := List.mem_map.mp hz
  exact q.genuine_log n hw y (List.mem_filter.mp hy).1

end Generator

/-- The items are integers, the values of the progression from its start on. -/
def State.Lists (s : State) (p : Progression) (items : List Handle) : Prop :=
  ∀ j h, items[j]? = some h → ∃ i, s.IsInt h i ∧ i.toInt = p.value j

end ObjectModel
