import ObjectModel.Proofs.Generators.Lifetime

/-!
# Requests to a generator

Nothing but a request changes the state of a generator.

* `Generator.Course.exhausted`, `Generator.Course.resumed`, `Generator.Course.lost` -- the courses
  of single requests.
-/

namespace ObjectModel

/-! ## 1. Changes that leave a generator alone -/

variable {o : Outcome (Except Fault Handle)} {β : Type}

namespace State

variable {s t : State} {g h : Handle} {x y : Generator}

theorem Stands.live (hs : s.Stands g x) : s.heap.contains g = true := by
  obtain ⟨o, ho, _⟩ := hs
  exact Heap.contains_of_get? ho

theorem Stands.payload {o : Object} (hs : s.Stands g x) (ho : s.heap.get? g = some o) :
    o.payload = .generator x := by
  obtain ⟨o', ho', hp⟩ := hs
  cases ho.symm.trans ho'
  exact hp

theorem Stands.unique (hx : s.Stands g x) (hy : s.Stands g y) : x = y := by
  obtain ⟨o, ho, hp⟩ := hy
  exact Payload.generator.inj ((hx.payload ho).symm.trans hp)

theorem Stands.congr (hs : s.Stands g x) (he : t.heap = s.heap) : t.Stands g x := by
  unfold Stands
  rw [he]
  exact hs

theorem Stands.keeps (hs : s.Stands g x) : s.Keeps g x := Or.inl hs

theorem Keeps.stands {o : Object} (hs : s.Keeps g x) (ho : s.heap.get? g = some o) :
    s.Stands g x := by
  rcases hs with hs | ⟨hnone, _⟩
  · exact hs
  · rw [hnone] at ho
    cases ho

theorem Stands.of_kept (hs : s.Stands g x) (hk : s.heap.KeptIn t.heap) : t.Stands g x := by
  obtain ⟨o, ho, hp⟩ := hs
  exact ⟨o, hk ho, hp⟩

/-- A generator outlives a change, but for a collection outside of calls. -/
theorem Stands.change (hs : s.Stands g x) (hw : s.heap.WellFormed) (hc : s.Change t) :
    t.Stands g x ∨ (s.callDepth = 0 ∧ t.heap.get? g = none) := by
  obtain ⟨o, ho, hp⟩ := hs
  rcases hc.heap_cases with he | ⟨object, he⟩ | ⟨k, change, hkeeps, he⟩ | ⟨hd, roots, he⟩
  · exact Or.inl ⟨o, by rw [he]; exact ho, hp⟩
  · exact Or.inl ⟨o, by rw [he]; exact Heap.get?_allocate_of_live hw ho, hp⟩
  · by_cases hk : g = k
    · subst hk
      exact Or.inl ⟨change o, by rw [he, Heap.get?_modify_self, ho]; rfl, hkeeps o x hp⟩
    · exact Or.inl ⟨o, by rw [he, Heap.get?_modify, if_neg hk]; exact ho, hp⟩
  · by_cases hkept : (s.heap.collect roots).2.contains g = true
    · exact Or.inl ⟨o, by rw [he, Heap.get?_collect _ _ hkept]; exact ho, hp⟩
    · exact Or.inr ⟨hd, by rw [he]; exact Heap.not_contains_iff.mp hkept⟩

/-- What was collected does not come back. -/
theorem gone_of_change (hw : s.heap.WellFormed) (hc : s.Change t) (hnone : s.heap.get? g = none)
    (ht : s.heap.Taken g) : t.heap.get? g = none := by
  rcases hc.heap_cases with he | ⟨object, he⟩ | ⟨k, change, _, he⟩ | ⟨_, roots, he⟩ <;> rw [he]
  · exact hnone
  · rw [Heap.get?_allocate hw, if_neg (ht.ne_allocate hw object)]
    exact hnone
  · rw [Heap.get?_modify]
    split
    · rename_i hk
      rw [← hk, hnone]
      rfl
    · exact hnone
  · refine Heap.not_contains_iff.mp fun hkept => ?_
    have hlive := ((Heap.contains_collect _ _ _).mp hkept).1
    exact Heap.not_contains_iff.mpr hnone hlive

theorem Keeps.taken (hs : s.Keeps g x) (hw : s.heap.WellFormed) : s.heap.Taken g := by
  rcases hs with hs | ⟨_, ht⟩
  · exact hw.taken hs.live
  · exact ht

theorem Keeps.change (hs : s.Keeps g x) (hw : s.heap.WellFormed) (hc : s.Change t) :
    t.Keeps g x := by
  have ht : t.heap.Taken g := (Step.change hc).steps.taken (hs.taken hw)
  rcases hs with hs | ⟨hnone, htaken⟩
  · rcases hs.change hw hc with hs | ⟨_, hnone⟩
    · exact Or.inl hs
    · exact Or.inr ⟨hnone, ht⟩
  · exact Or.inr ⟨gone_of_change hw hc hnone htaken, ht⟩

theorem stands_allocate {object : Object} (hw : s.heap.WellFormed)
    (hp : object.payload = .generator x) : (s.allocate object).2.Stands (s.allocate object).1 x :=
  ⟨object, Heap.get?_allocate_self hw object, hp⟩

theorem stands_setGenerator (hs : s.Stands g x) (y : Generator) :
    (s.setGenerator g y).Stands g y := by
  obtain ⟨o, ho, hp⟩ := hs
  refine ⟨{ o with payload := .generator y }, ?_, rfl⟩
  rw [setGenerator, modify, Heap.get?_modify_self, ho]
  simp only [Option.map_some, hp]

theorem Stands.setGenerator_of_ne (hs : s.Stands g x) (hne : g ≠ h) (y : Generator) :
    (s.setGenerator h y).Stands g x := by
  obtain ⟨o, ho, hp⟩ := hs
  exact ⟨o, by rw [setGenerator, modify, Heap.get?_modify, if_neg hne]; exact ho, hp⟩

theorem Keeps.setGenerator_of_ne (hs : s.Keeps g x) (hne : g ≠ h) (y : Generator) :
    (s.setGenerator h y).Keeps g x := by
  rcases hs with hs | ⟨hnone, ht⟩
  · exact Or.inl (hs.setGenerator_of_ne hne y)
  · refine Or.inr ⟨?_, ht.modify h _⟩
    rw [setGenerator, modify, Heap.get?_modify, if_neg hne]
    exact hnone

/-- From `s` to `t` nothing changes, or the state of a generator other than `g`. -/
def Turns (g : Handle) (s t : State) : Prop :=
  t.heap = s.heap ∨ ∃ h y, g ≠ h ∧ t.heap = (s.setGenerator h y).heap

theorem Stands.turns (hs : s.Stands g x) (ht : Turns g s t) : t.Stands g x := by
  rcases ht with he | ⟨h, y, hne, he⟩
  · exact hs.congr he
  · exact (hs.setGenerator_of_ne hne y).congr he

theorem Keeps.turns (hs : s.Keeps g x) (ht : Turns g s t) : t.Keeps g x := by
  unfold Keeps Stands
  rcases ht with he | ⟨h, y, hne, he⟩
  · rw [he]
    exact hs
  · rw [he]
    exact hs.setGenerator_of_ne hne y

end State

/-- What a primitive action leaves of a generator. -/
theorem Action.keeps_of_perform {a : Action β} (e : Engine) {s : State} {g : Handle} {x : Generator}
    (hp : a.isPrimitive = true) (hw : s.heap.WellFormed) (hs : s.Keeps g x) :
    (a.perform e s).state.Keeps g x := by
  rcases (Relation.reflGen_iff _ _ _).mp (a.change_of_perform e s hp) with he | hc
  · rw [he]
    exact hs
  · exact hs.change hw hc

theorem Action.stands_of_perform {a : Action β} (e : Engine) {s : State} {g : Handle}
    {x : Generator} (hp : a.isPrimitive = true) (hw : s.heap.WellFormed) (hd : 0 < s.callDepth)
    (hs : s.Stands g x) : (a.perform e s).state.Stands g x := by
  rcases (Relation.reflGen_iff _ _ _).mp (a.change_of_perform e s hp) with he | hc
  · rw [he]
    exact hs
  · exact (hs.change hw hc).resolve_right fun h => absurd h.1 (Nat.ne_of_gt hd)

/-- What a resumption leaves of its generator. -/
theorem settle_cases {g : Handle} {r : Except Fault Resumed} {s u : State}
    {back : Except Fault Resumption} (h : settle g r s = .done back u) :
    (∃ value rest, r = .ok ⟨.yielded value, rest⟩ ∧ back = .ok (.yielded value) ∧
      u = s.setGenerator g (.suspended rest)) ∨
      (∃ result rest, r = .ok ⟨.completed result, rest⟩ ∧ back = .ok (.completed result) ∧
        u = s.setGenerator g (.stopped result)) ∨
      (∃ fault, r = .error fault ∧ back = .error fault ∧ u = s.setGenerator g (.stopped none)) := by
  unfold settle at h
  split at h <;> cases h
  · exact Or.inl ⟨_, _, rfl, rfl, rfl⟩
  · exact Or.inr (Or.inl ⟨_, _, rfl, rfl, rfl⟩)
  · exact Or.inr (Or.inr ⟨_, rfl, rfl, rfl⟩)

theorem direct_conclude (back : Except Fault Resumption) : (conclude back).run.Direct := by
  rcases back with fault | value | result
  · trivial
  · trivial
  · exact direct_raise .stopIteration result.toList

theorem direct_refusal (payload : Payload) : (refusal payload).run.Direct := by
  unfold refusal
  split
  · exact direct_raise .stopIteration []
  · exact direct_raiseMessage .valueError _
  · trivial

namespace Generator

variable {g : Handle} {x y : Generator} {w : List Handle} {l l' : List Entry}

/-! ## 2. One entry more -/

theorem resumes_of_not_concerns {e : Event} (hc : concerns g e = false) : resumes g e = false := by
  cases e with
  | performed a s o => rfl
  | resumed h c s o => exact hc

/-- What does not concern a running generator. -/
theorem Inside.of_other {e : Entry} (hs : e.event.behind.Stands g .running)
    (hc : concerns g e.event = false) : Inside g e where
  running := hs
  not_resumed := resumes_of_not_concerns hc
  refused s o he := by
    rw [he] at hc
    simp [concerns] at hc

theorem Reports.of_inside (h : ∀ e ∈ l, Inside g e) (hw : ∀ e ∈ l, g ∈ e.within) :
    Reports g none l := by
  rintro m e m' rfl _ o ho
  have he : e ∈ m ++ e :: m' := List.mem_append_right _ List.mem_cons_self
  have hhistory : history g (m ++ [e]) = [] := by
    refine history_of_within fun e' he' => hw e' ?_
    rcases List.mem_append.mp he' with he' | he'
    · exact List.mem_append_left _ he'
    · exact List.mem_singleton.mp he' ▸ he
  rw [hhistory, resultBehind_nil]
  exact generatorResult_eq (h e he).running ho

/-- **A request**: what happens before the answer is made, what making the answer does, and the
answer. -/
theorem Course.request {before making : List Entry} {s t : State} {behind : Option Generator}
    {finished : Bool} (hw : g ∉ w) (hbefore : Reports g x.result before)
    (hinside : ∀ e ∈ before, g ∈ e.within → Inside g e) (hmaking : Reports g
      (resultBehind x.result (history g before)) making) (hnoted : ∀ e ∈ making, Program.Noted w e)
    (hrequest : Request g x (history g before ++ [.performed (.advance g) s o]) behind)
    (hsome : ∀ y, behind = some y → y ≠ running ∧ o.state.Keeps g y)
    (hnone : behind = none → finished = false) (hfinal : ∀ k, o.state.heap.get? g = some k →
      k.generatorResult = resultBehind x.result (history g before)) (ht : o.state = t) :
    Course g x (before ++ (making ++ [⟨w, .performed (.advance g) s o⟩])) finished t := by
  subst ht
  have hanswer : history g [⟨w, .performed (.advance g) s o⟩] = [.performed (.advance g) s o] :=
    history_singleton hw (by simp [concerns])
  have hhistory : history g (before ++ (making ++ [⟨w, .performed (.advance g) s o⟩]))
      = history g before ++ [.performed (.advance g) s o] := by
    rw [history_append, history_append, history_of_noted hnoted, hanswer, List.nil_append]
  -- a request by itself ends nothing
  have hsame : ∀ r, resultBehind r [.performed (.advance g) s o] = r :=
    fun r => by simp [resultBehind, ending]
  refine ⟨⟨behind, ?_, hsome, hnone⟩, fun e he => ?_, ?_, fun k hk => ?_⟩
  · rw [hhistory]
    exact hrequest.lifetime
  · rcases List.mem_append.mp he with he | he
    · exact hinside e he
    · intro hmem
      rcases List.mem_append.mp he with he | he
      · obtain ⟨_, _, _, _, _, rfl⟩ := hnoted e he
        exact absurd hmem hw
      · rw [List.mem_singleton.mp he] at hmem
        exact absurd hmem hw
  · refine hbefore.append (hmaking.append (.singleton fun _ k hk => ?_))
    rw [history_of_noted hnoted, resultBehind_nil, hanswer, hsame]
    exact hfinal k hk
  · rw [hhistory, resultBehind_append, hsame]
    exact hfinal k hk

/-- A request that comes to nothing at once. -/
theorem Course.unanswered {s : State} {reason : Abort} (hw : g ∉ w) (hs : s.Keeps g x)
    (hrequest : Request g x [.performed (.advance g) s (.aborted reason s)] none) :
    Course g x [⟨w, .performed (.advance g) s (.aborted reason s)⟩] false s :=
  .request hw .nil (List.forall_mem_nil _) .nil
    (List.forall_mem_nil _) hrequest nofun (fun _ => rfl)
    (fun _ hk => by rw [history_nil, resultBehind_nil]; exact generatorResult_of_keeps hs hk) rfl

/-- A request to a generator that has stopped. -/
theorem Course.exhausted {s : State} {result : Option Handle} {e : Engine} {r : Recorder}
    (hw : g ∉ w) (hheap : s.heap.WellFormed) (hs : s.Stands g (stopped result))
    (ho : o = (refusal (.generator (stopped result))).run.run e s)
    (hlog : l = (refusal (.generator (stopped result))).run.record e r w s)
    (hl : Course g (stopped result) l o.finished o.state) :
    Course g (stopped result) (l ++ [⟨w, .performed (.advance g) s o⟩]) o.finished o.state := by
  obtain ⟨u, hkept, hend⟩ := raise_cases (α := Handle) hheap .stopIteration [] e
  obtain ⟨fault, hdone, hcarries⟩ := hend.resolve_right fun h => by simp [Heap.plainMessage] at h
  have hu : u.Stands g (stopped result) := hs.of_kept hkept
  obtain rfl : o = .done (.error fault) u := ho.trans hdone
  refine .request hw .nil (List.forall_mem_nil _) hl.reports (fun e he => ?_)
    (.exhausted hs hu hcarries) ?_ (fun h => absurd h (Option.some_ne_none _))
    (fun k hk => generatorResult_eq hu hk) rfl
  · rw [hlog] at he
    exact (direct_refusal _).record _ _ w s e he
  · rintro _ ⟨⟩
    exact ⟨stopped_ne_running result, hu.keeps⟩

section

variable {c : Coroutine} {b : State} {q : Outcome (Except Fault Resumed)}

/-- What a computation did, with its resumption behind it. -/
theorem history_resumption (hw : g ∉ w) (hwithin : ∀ e ∈ l, g ∈ e.within) :
    history g (l ++ [⟨w, .resumed g c b q⟩]) = [.resumed g c b q] := by
  rw [history_append, history_of_within hwithin, history_singleton hw (by simp [concerns]),
    List.nil_append]

theorem Reports.resumption (hinner : ∀ e ∈ l, Inside g e) (hwithin : ∀ e ∈ l, g ∈ e.within) :
    Reports g none (l ++ [⟨w, .resumed g c b q⟩]) := by
  refine (Reports.of_inside hinner hwithin).append (.singleton fun h => ?_)
  simp [resumes] at h

theorem inside_resumption (hw : g ∉ w) (hinner : ∀ e ∈ l, Inside g e) :
    ∀ e ∈ l ++ [⟨w, .resumed g c b q⟩], g ∈ e.within → Inside g e := by
  intro e he hmem
  rcases List.mem_append.mp he with he | he
  · exact hinner e he
  · rw [List.mem_singleton.mp he] at hmem
    exact absurd hmem hw

end

/-- A request whose computation does not come back. -/
theorem Course.lost {c : Coroutine} {s t : State} {reason : Abort} (hw : g ∉ w)
    (hs : s.Stands g (suspended c)) (hinner : ∀ e ∈ l, Inside g e) (hwithin : ∀ e ∈ l, g ∈ e.within)
    (ht : t.Stands g running) :
    Course g (suspended c)
      (l ++ [⟨w, .resumed g c (s.setGenerator g running).enter (.aborted reason t)⟩,
        ⟨w, .performed (.advance g) s (.aborted reason t.leave)⟩]) false t.leave := by
  have hleave : t.leave.Stands g running := ht.congr rfl
  have hhistory := history_resumption (c := c) (b := (s.setGenerator g running).enter)
      (q := .aborted reason t) hw hwithin
  have hreports : Reports g (suspended c).result
      (l ++ [⟨w, .resumed g c (s.setGenerator g running).enter (.aborted reason t)⟩]) :=
        .resumption hinner hwithin
  have hrequest : Request g (suspended c)
      (history g (l ++ [⟨w, .resumed g c (s.setGenerator g running).enter (.aborted reason t)⟩]) ++
        [.performed (.advance g) s (.aborted reason t.leave)]) none := by
    rw [hhistory]
    exact .lost hs hleave
  rw [List.append_cons]
  refine .request hw hreports (inside_resumption hw hinner) .nil
    (List.forall_mem_nil _) hrequest nofun (fun _ => rfl) (fun k hk => ?_) rfl
  rw [hhistory]
  exact generatorResult_eq hleave hk

/-- A request to a suspended generator: `inner` is what its computation did, `making` what it took
to make the answer. -/
theorem Course.resumed {c : Coroutine} {inner making : List Entry} {s t u : State}
    {r : Except Fault Resumed} {back : Except Fault Resumption} {e : Engine}
    {recorder : Recorder} (hw : g ∉ w) (hs : s.Stands g (suspended c))
    (hinner : ∀ e ∈ inner, Inside g e) (hwithin : ∀ e ∈ inner, g ∈ e.within)
    (ht : t.Stands g running) (hsettle : settle g r t.leave = .done back u)
    (hheap : u.heap.WellFormed) (ho : o = (conclude back).run.run e u)
    (hmaking : making = (conclude back).run.record e recorder w u)
    (hcourse : ∀ y, y ≠ running → u.Keeps g y → Course g y making o.finished o.state) :
    Course g (suspended c)
      (inner ++ ⟨w, .resumed g c (s.setGenerator g running).enter (.done r t)⟩ ::
      (making ++ [⟨w, .performed (.advance g) s o⟩])) o.finished o.state := by
  have hnoted : ∀ e ∈ making, Program.Noted w e :=
    fun e he => (direct_conclude back).record _ _ w u e (hmaking ▸ he)
  have hhistory :=
    history_resumption (c := c) (b := (s.setGenerator g running).enter) (q := .done r t) hw hwithin
  -- what is left to do once it is known what the resumption left of the generator
  have hfinish : ∀ (y : Generator) (behind : Option Generator), y ≠ running → u.Stands g y →
      y.result = resultBehind none [.resumed g c (s.setGenerator g running).enter (.done r t)] →
      Request g (suspended c) [.resumed g c (s.setGenerator g running).enter (.done r t),
        .performed (.advance g) s o] behind →
      (∀ z, behind = some z → z ≠ running ∧ o.state.Keeps g z) →
      (behind = none → o.finished = false) →
      Course g (suspended c)
        (inner ++ [⟨w, .resumed g c (s.setGenerator g running).enter (.done r t)⟩] ++
        (making ++ [⟨w, .performed (.advance g) s o⟩])) o.finished o.state := by
    intro y behind hy hu hresult hrequest hsome hnone
    have hc := hcourse y hy hu.keeps
    have hreports : Reports g (suspended c).result
        (inner ++ [⟨w, .resumed g c (s.setGenerator g running).enter (.done r t)⟩]) :=
          .resumption hinner hwithin
    refine .request hw hreports (inside_resumption hw hinner) ?_ hnoted ?_ hsome hnone
      (fun k hk => ?_) rfl
    · rw [hhistory]
      exact hresult ▸ hc.reports
    · rw [hhistory]
      exact hrequest
    · have hfinal := hc.final k hk
      rw [history_of_noted hnoted, resultBehind_nil, hresult] at hfinal
      rw [hhistory]
      exact hfinal
  rw [List.append_cons]
  rcases settle_cases hsettle with
    ⟨value, rest, rfl, rfl, rfl⟩ | ⟨result, rest, rfl, rfl, rfl⟩ | ⟨fault, rfl, rfl, rfl⟩
  · have hu := State.stands_setGenerator (ht.congr (t := t.leave) rfl) (suspended rest)
    subst ho
    refine hfinish (suspended rest) _ (suspended_ne_running rest) hu rfl (.yielded hs hu) ?_
      (fun h => absurd h (Option.some_ne_none _))
    rintro _ ⟨⟩
    exact ⟨suspended_ne_running rest, hu.keeps⟩
  · have hu := State.stands_setGenerator (ht.congr (t := t.leave) rfl) (stopped result)
    obtain ⟨v, hkept, hend⟩ := raise_cases (α := Handle) hheap .stopIteration result.toList e
    have hv : v.Stands g (stopped result) := hu.of_kept hkept
    rcases hend with ⟨fault, hdone, hcarries⟩ | ⟨haborted, hmessage⟩
    · obtain rfl : o = .done (.error fault) v := ho.trans hdone
      refine hfinish (stopped result) _ (stopped_ne_running result) hu rfl
        (.completed hs hv hcarries) ?_ (fun h => absurd h (Option.some_ne_none _))
      rintro _ ⟨⟩
      exact ⟨stopped_ne_running result, hv.keeps⟩
    · obtain rfl : o = .aborted .stale v := ho.trans haborted
      exact hfinish (stopped result) _ (stopped_ne_running result) hu rfl (.unshown hs hv hmessage)
        (fun _ h => absurd h.symm (Option.some_ne_none _)) fun _ => rfl
  · have hu := State.stands_setGenerator (ht.congr (t := t.leave) rfl) (stopped none)
    subst ho
    refine hfinish (stopped none) _ (stopped_ne_running none) hu rfl (.failed hs hu) ?_
      (fun h => absurd h (Option.some_ne_none _))
    rintro _ ⟨⟩
    exact ⟨stopped_ne_running none, hu.keeps⟩

end Generator

end ObjectModel
