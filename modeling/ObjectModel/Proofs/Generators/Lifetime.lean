import ObjectModel.Proofs.Raising

/-!
# The life of a generator

What a log says about one generator, and how it has to look.

* `Generator.Course` -- **the course of a generator** over a log: its history is a lifetime, nothing
  that happens inside touches it, and it reports its result from its end on.
-/

namespace ObjectModel

/-! ## 1. Generators in a state -/

variable {e : Entry} {s t : State} {behind : Option Generator} {request events : List Event}

/-- `g` is a generator in the state `x`. -/
def State.Stands (s : State) (g : Handle) (x : Generator) : Prop :=
  ∃ o, s.heap.get? g = some o ∧ o.payload = .generator x

/-- `g` is a generator in the state `x`, unless it was collected. -/
def State.Keeps (s : State) (g : Handle) (x : Generator) : Prop :=
  s.Stands g x ∨ (s.heap.get? g = none ∧ s.heap.Taken g)

namespace Generator

/-- The result of a generator that has stopped. -/
def result : Generator → Option (Option Handle)
  | stopped result => some result
  | _ => none

/-! ## 2. What a log says about a generator -/

/-- Whether an event is a request to `g` or a resumption of its computation. -/
def concerns (g : Handle) : Event → Bool
  | .performed (.advance h) _ _ => h = g
  | .resumed h _ _ _ => h = g
  | _ => false

/-- Whether an event is a resumption of the computation of `g`. -/
def resumes (g : Handle) : Event → Bool
  | .resumed h _ _ _ => h = g
  | _ => false

/-- The events of `g` outside of its own computation. -/
def history (g : Handle) (log : List Entry) : List Event :=
  (log.filter fun x => decide (g ∉ x.within) && concerns g x.event).map (·.event)

/-- The result with which a resumption ends its computation: the final value, or none where it
failed. -/
def ending : Event → Option (Option Handle)
  | .resumed _ _ _ (.done (.ok ⟨.completed result, _⟩) _) => some result
  | .resumed _ _ _ (.done (.error _) _) => some none
  | _ => none

/-- The result behind `events`, if it was `before`. -/
def resultBehind (before : Option (Option Handle)) (events : List Event) : Option (Option Handle) :=
  before.or (events.findSome? ending)

/-! ## 3. Lifetimes -/

/-- **One request** to a generator, with the states of the generator before and behind it. A request
that comes to no answer is the last thing that happens. -/
inductive Request (g : Handle) : Generator → List Event → Option Generator → Prop where
  /-- The computation yields; what is left of it will be resumed next. -/
  | yielded {c rest : Coroutine} {value : Handle} {s t u : State} (hs : s.Stands g (suspended c))
      (hu : u.Stands g (suspended rest)) :
      Request g (suspended c)
        [.resumed g c (s.setGenerator g running).enter (.done (.ok ⟨.yielded value, rest⟩) t),
          .performed (.advance g) s (.done (.ok value) u)]
        (some (suspended rest))
  /-- The computation completes: `StopIteration` carries the final value, if there is one. -/
  | completed {c rest : Coroutine} {result : Option Handle} {fault : Fault} {s t u : State}
    (hs : s.Stands g (suspended c))
      (hu : u.Stands g (stopped result)) (hf : Fault.Carries u .stopIteration result.toList fault) :
      Request g (suspended c)
        [.resumed g c (s.setGenerator g running).enter (.done (.ok ⟨.completed result, rest⟩) t),
          .performed (.advance g) s (.done (.error fault) u)]
        (some (stopped result))
  /-- The computation fails: the request fails in the same way. -/
  | failed {c : Coroutine} {fault : Fault} {s t u : State} (hs : s.Stands g (suspended c))
    (hu : u.Stands g (stopped none)) :
      Request g (suspended c)
        [.resumed g c (s.setGenerator g running).enter (.done (.error fault) t),
          .performed (.advance g) s (.done (.error fault) u)]
        (some (stopped none))
  /-- The generator has stopped before: `StopIteration` without arguments, and nothing is
  resumed. -/
  | exhausted {result : Option Handle} {fault : Fault} {s u : State}
      (hs : s.Stands g (stopped result)) (hu : u.Stands g (stopped result))
      (hf : Fault.Carries u .stopIteration [] fault) : Request g (stopped result)
      [.performed (.advance g) s (.done (.error fault) u)] (some (stopped result))
  /-- The text of the exception cannot be made, because the final value is gone. -/
  | unshown {c rest : Coroutine} {result : Option Handle} {s t u : State}
    (hs : s.Stands g (suspended c))
      (hu : u.Stands g (stopped result)) (hm : u.heap.plainMessage result.toList = none) :
      Request g (suspended c)
        [.resumed g c (s.setGenerator g running).enter (.done (.ok ⟨.completed result, rest⟩) t),
          .performed (.advance g) s (.aborted .stale u)] none
  /-- The computation does not come back. -/
  | lost {c : Coroutine} {reason : Abort} {s t u : State} (hs : s.Stands g (suspended c))
    (hu : u.Stands g running) :
      Request g (suspended c)
        [.resumed g c (s.setGenerator g running).enter (.aborted reason t),
          .performed (.advance g) s (.aborted reason u)] none
  /-- The bound on nesting is reached. -/
  | unreached {x : Generator} {s : State} :
      Request g x [.performed (.advance g) s (.aborted .unfinished s)] none
  /-- The generator was collected. -/
  | gone {x : Generator} {s : State} (hs : s.heap.get? g = none) :
      Request g x [.performed (.advance g) s (.aborted .stale s)] none

/-- **A lifetime**: one request after another, each from the state that the one before left. -/
inductive Lifetime (g : Handle) : Generator → List Event → Option Generator → Prop where
  | rest (x : Generator) : Lifetime g x [] (some x)
  | next {x y : Generator} {request events : List Event} {behind : Option Generator} : Request g x
      request (some y) → Lifetime g y events behind → Lifetime g x (request ++ events) behind
  | last {x : Generator} {request : List Event} : Request g x request none →
      Lifetime g x request none

/-- **Inside of its own computation** a generator stays as it is: it is not resumed, and a request
to it raises `ValueError`. -/
structure Inside (g : Handle) (x : Entry) : Prop where
  running : x.event.behind.Stands g running
  not_resumed : resumes g x.event = false
  refused : ∀ s o, x.event = .performed (.advance g) s o →
    s.Stands g Generator.running ∧
      (o = .aborted .unfinished s ∨
        ∃ fault u text, o = .done (.error fault) u ∧ u.heap.get? text
          = some (.ofText "generator already executing") ∧ Fault.Carries u .valueError [text] fault)

/-- Behind every event, the generator answers for its result as its history tells. -/
def Reports (g : Handle) (before : Option (Option Handle)) (log : List Entry) : Prop :=
  ∀ l x l', log = l ++ x :: l' → resumes g x.event = false → ∀ o, x.event.behind.heap.get? g
    = some o → o.generatorResult = resultBehind before (history g (l ++ [x]))

/-- **The course of a generator** that was in the state `x` before a log and its run, which left
`t`. -/
structure Course (g : Handle) (x : Generator) (log : List Entry) (finished : Bool) (t : State) :
    Prop where
  lifetime : ∃ behind, Lifetime g x (history g log) behind ∧
    (∀ y, behind = some y → y ≠ running ∧ t.Keeps g y) ∧ (behind = none → finished = false)
  inside : ∀ y ∈ log, g ∈ y.within → Inside g y
  reports : Reports g x.result log
  final : ∀ o, t.heap.get? g = some o → o.generatorResult = resultBehind x.result (history g log)

/-! ## 4. Histories -/

variable {g : Handle} {l l' : List Entry} {x y : Generator}

@[simp] theorem history_nil : history g [] = [] := rfl

@[simp] theorem history_append : history g (l ++ l') = history g l ++ history g l' := by
  simp [history]

theorem history_singleton (hw : g ∉ e.within) (hc : concerns g e.event = true) :
    history g [e] = [e.event] := by
  simp [history, hw, hc]

theorem history_singleton_of_not (hc : concerns g e.event = false) : history g [e] = [] := by
  simp [history, hc]

/-- What happens inside is no part of the history. -/
theorem history_of_within (hw : ∀ e ∈ l, g ∈ e.within) : history g l = [] := by
  unfold history
  rw [List.map_eq_nil_iff, List.filter_eq_nil_iff]
  intro e he
  simp [hw e he]

theorem not_concerns_of_primitive {β : Type} {a : Action β} {o : Outcome β}
    (ha : a.isPrimitive = true) : concerns g (.performed a s o) = false := by
  cases a with
  | advance h => cases ha
  | _ => rfl

/-- Neither is what a program does by itself. -/
theorem history_of_noted {w : List Handle} (hn : ∀ e ∈ l, Program.Noted w e) :
    history g l = [] := by
  unfold history
  rw [List.map_eq_nil_iff, List.filter_eq_nil_iff]
  intro e he
  obtain ⟨β, a, s, o, ha, rfl⟩ := hn e he
  simp [not_concerns_of_primitive ha]

@[simp] theorem resultBehind_nil (r : Option (Option Handle)) : resultBehind r [] = r := by
  simp [resultBehind]

theorem resultBehind_append (r : Option (Option Handle)) (e e' : List Event) :
    resultBehind r (e ++ e') = resultBehind (resultBehind r e) e' := by
  simp [resultBehind, List.findSome?_append, Option.or_assoc]

/-- A request leaves the result that it reports. -/
theorem Request.result_eq (h : Request g x request (some y)) :
    y.result = resultBehind x.result request := by
  cases h <;> rfl

theorem Lifetime.result_eq (h : Lifetime g x events behind) :
    ∀ y, behind = some y → y.result = resultBehind x.result events := by
  induction h with
  | rest x =>
    rintro _ ⟨⟩
    exact (resultBehind_nil _).symm
  | next hr _ ih =>
    intro y hy
    rw [ih y hy, hr.result_eq, resultBehind_append]
  | last _ => nofun

theorem Lifetime.append {events' : List Event} {middle : Option Generator}
    (h : Lifetime g x events middle) :
    ∀ y, middle = some y → Lifetime g y events' behind →
      Lifetime g x (events ++ events') behind := by
  induction h with
  | rest x =>
    rintro _ ⟨⟩ h'
    exact h'
  | next hr _ ih =>
    intro y hy h'
    rw [List.append_assoc]
    exact .next hr (ih y hy h')
  | last _ => nofun

theorem Request.lifetime (h : Request g x request behind) :
    Lifetime g x request behind := by
  cases behind with
  | none => exact .last h
  | some y =>
    have hone := Lifetime.next h (.rest y)
    rwa [List.append_nil] at hone

/-! ## 5. Reports -/

namespace Reports

variable {r : Option (Option Handle)}

theorem nil : Reports g r [] := by
  intro l x l' hl
  simp at hl

theorem append (h : Reports g r l) (h' : Reports g (resultBehind r (history g l)) l') :
    Reports g r (l ++ l') := by
  intro m e m' hm hr o ho
  rcases List.append_eq_append_iff.mp hm with ⟨k, rfl, rfl⟩ | ⟨k, rfl, hk⟩
  · rw [List.append_assoc, history_append, resultBehind_append]
    exact h' k e m' rfl hr o ho
  · cases k with
    | nil =>
      rw [List.nil_append] at hk
      rw [history_append, resultBehind_append]
      rw [List.append_nil] at h'
      exact h' [] e m' hk.symm hr o ho
    | cons e' k =>
      obtain ⟨rfl, _⟩ := List.cons.inj hk
      exact h m e k rfl hr o ho

theorem singleton
    (h : resumes g e.event = false → ∀ o, e.event.behind.heap.get? g = some o →
      o.generatorResult = resultBehind r (history g [e])) : Reports g r [e] := by
  intro m e' m' hm hr o ho
  cases m with
  | nil =>
    obtain ⟨rfl, _⟩ := List.cons.inj hm
    exact h hr o ho
  | cons _ m => simp at hm

end Reports

/-! ## 6. Courses -/

/-- What a generator answers for its result. -/
theorem generatorResult_eq (h : s.Stands g x) {o : Object} (ho : s.heap.get? g = some o) :
    o.generatorResult = x.result := by
  obtain ⟨o', ho', hp⟩ := h
  rw [ho] at ho'
  cases ho'
  unfold Object.generatorResult
  rw [hp]
  cases x <;> rfl

theorem generatorResult_of_keeps (h : s.Keeps g x) {o : Object} (ho : s.heap.get? g = some o) :
    o.generatorResult = x.result := by
  rcases h with h | ⟨hnone, _⟩
  · exact generatorResult_eq h ho
  · rw [hnone] at ho
    cases ho

theorem suspended_ne_running (c : Coroutine) : suspended c ≠ running := by
  intro h
  cases h

theorem stopped_ne_running (result : Option Handle) : stopped result ≠ running := by
  intro h
  cases h

theorem Course.nil {finished : Bool} (hx : x ≠ running) (ht : t.Keeps g x) :
    Course g x [] finished t where
  lifetime := ⟨some x, .rest x, by rintro _ ⟨⟩; exact ⟨hx, ht⟩, nofun⟩
  inside y hy := absurd hy List.not_mem_nil
  reports := .nil
  final o ho := by
    rw [history_nil, resultBehind_nil]
    exact generatorResult_of_keeps ht ho

/-- **A course goes on** from where the first part left the generator. -/
theorem Course.append {finished : Bool} {u : State} (h : Course g x l true t)
    (h' : ∀ y, y ≠ running → t.Keeps g y → Course g y l' finished u) :
    Course g x (l ++ l') finished u := by
  obtain ⟨middle, hlife, hsome, hnone⟩ := h.lifetime
  cases middle with
  | none => cases hnone rfl
  | some y =>
    obtain ⟨hy, hkeeps⟩ := hsome y rfl
    have hnext := h' y hy hkeeps
    have hresult := hlife.result_eq y rfl
    refine ⟨?_, fun e he => ?_, ?_, fun o ho => ?_⟩
    · obtain ⟨behind, hlife', hbehind⟩ := hnext.lifetime
      refine ⟨behind, ?_, hbehind⟩
      rw [history_append]
      exact hlife.append y rfl hlife'
    · rcases List.mem_append.mp he with he | he
      · exact h.inside e he
      · exact hnext.inside e he
    · refine h.reports.append ?_
      rw [← hresult]
      exact hnext.reports
    · rw [history_append, resultBehind_append, ← hresult]
      exact hnext.final o ho

theorem Course.snoc {finished : Bool} {t' : State} (h : Course g x l finished t) (hw : g ∉ e.within)
    (hc : concerns g e.event = false) (hb : e.event.behind.heap = t.heap) (ht : t'.heap = t.heap) :
    Course g x (l ++ [e]) finished t' := by
  have hhistory : history g (l ++ [e]) = history g l := by
    rw [history_append, history_singleton_of_not hc, List.append_nil]
  refine ⟨?_, fun y hy => ?_, ?_, fun o ho => ?_⟩
  · obtain ⟨behind, hlife, hsome, hnone⟩ := h.lifetime
    refine ⟨behind, by rw [hhistory]; exact hlife, fun y hy => ⟨(hsome y hy).1, ?_⟩, hnone⟩
    unfold State.Keeps State.Stands
    rw [ht]
    exact (hsome y hy).2
  · rcases List.mem_append.mp hy with hy | hy
    · exact h.inside y hy
    · rw [List.mem_singleton.mp hy]
      exact fun hmem => absurd hmem hw
  · refine h.reports.append (.singleton fun _ o ho => ?_)
    rw [history_singleton_of_not hc, resultBehind_nil]
    exact h.final o (by rw [← hb]; exact ho)
  · rw [hhistory]
    exact h.final o (by rw [← ht]; exact ho)

end Generator

end ObjectModel
