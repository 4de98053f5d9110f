import ObjectModel.Proofs.References.Session
import ObjectModel.Proofs.Types.Script

/-!
# Iterating over a snapshot

`list`, `tuple` and `dict` answer `iter` with a generator that holds what was in the container at
that moment. Whatever happens to the container behind it, and to anything else, the generator
delivers that and then stops.

* `iter_delivers_snapshot` -- **an iterator delivers what its container held when it was made**.
-/

namespace ObjectModel

/-! ## 1. Honest logs -/

variable {e : Engine} {o : Outcome (Except Fault Handle)}

/-- A resumption is noted with what its computation came back with. -/
def Event.Honest : Event → Prop
  | .performed _ _ _ => True
  | .resumed _ c s o => ∃ e, o = c.resume.run.run e s

namespace Program

variable {α : Type} {P : Entry → Prop}

/-- What holds of the entries of all actions holds of the entries of a program. -/
theorem forall_record {r : Recorder} {w : List Handle} (hact : ∀ {β : Type} (a : Action β)
      (s : State), ∀ x ∈ a.inside r w s ++ [⟨w, .performed a s (a.perform e s)⟩], P x)
    (p : Program α) (s : State) : ∀ x ∈ p.record e r w s, P x := by
  induction p generalizing s with
  | pure value => exact List.forall_mem_nil _
  | perform action next ih =>
    intro x hx
    rw [record_perform] at hx
    rcases List.mem_append.mp hx with hx | hx
    · exact hact action s x hx
    · exact forall_recordAfter (fun answer s => ih answer s) x hx
  | iterate body start next ihb ihn =>
    intro x hx
    rw [record_iterate] at hx
    rcases List.mem_append.mp hx with hx | hx
    · exact forall_recordUntil (fun acc s => ihb acc s) _ _ _ x hx
    · exact forall_recordAfter (fun answer s => ihn answer s) x hx

/-- **A log notes what happened**: every action with the outcome it had below some bound, and every
resumption with what its computation came back with. -/
theorem forall_event {P : Event → Prop} (hperformed : ∀ {β : Type} (a : Action β)
      (n : Nat) (s : State), P (.performed a s (a.perform (engine n) s)))
    (hresumed : ∀ g c n s, P (.resumed g c s (c.resume.run.run (engine n) s))) (n : Nat)
    (w : List Handle) (p : Program α) (s : State) :
    ∀ x ∈ p.record (engine n) (recorder n) w s, P x.event := by
  induction n generalizing α w p s with
  | zero =>
    refine forall_record (fun a s x hx => ?_) p s
    have hinside : a.inside (recorder 0) w s = [] := by cases a <;> rfl
    rw [hinside, List.nil_append, List.mem_singleton] at hx
    rw [hx]
    exact hperformed a 0 s
  | succ n ih =>
    -- what happens inside of a request
    have hadvance : ∀ g s, ∀ x ∈ recordAdvance (engine n) (recorder n) w g s, P x.event := by
      intro g s
      cases hget : s.heap.get? g with
      | none =>
        unfold recordAdvance
        rw [hget]
        exact List.forall_mem_nil _
      | some object =>
        by_cases hc : ∃ c, object.payload = .generator (.suspended c)
        · obtain ⟨c, hc⟩ := hc
          rw [recordAdvance_suspended _ _ _ hget hc]
          intro x hx
          rcases List.mem_append.mp hx with hx | hx
          · exact ih _ _ _ x hx
          · rcases List.mem_cons.mp hx with rfl | hx
            · exact hresumed g c n _
            · exact forall_recordAfter (P := fun x => P x.event) (fun back u => ih w _ u) x hx
        · rw [recordAdvance_refusal _ _ _ hget fun c h => hc ⟨c, h⟩]
          exact ih w _ s
    refine forall_record (fun a s x hx => ?_) p s
    rcases List.mem_append.mp hx with hx | hx
    · cases a with
      | call callee args =>
        have hx : x ∈ recordCall (engine n) (recorder n) w callee args s := hx
        unfold recordCall at hx
        split at hx
        · exact absurd hx List.not_mem_nil
        · exact ih w _ _ x hx
      | advance g => exact hadvance g s x hx
      | _ => exact absurd hx List.not_mem_nil
    · rw [List.mem_singleton.mp hx]
      exact hperformed a (n + 1) s

/-- **Every log is honest.** -/
theorem honest_log (n : Nat) (p : Program α) (s : State) : ∀ x ∈ p.log n s, x.event.Honest :=
  forall_event (fun _ _ _ => trivial) (fun _ _ n _ => ⟨engine n, rfl⟩) n [] p s

end Program

/-! ## 2. What a generator has to deliver -/

/-- What a container holds at one place: an item, or a key with its value. -/
inductive Element where
  | item (h : Handle)
  | pair (key : String) (value : Handle)

namespace Element

def handle : Element → Handle
  | item h => h
  | pair _ value => value

/-- `v` is what stands for the element: the item itself, or a tuple of the key and the value. All of
it is live. -/
def Shown (s : State) (v : Handle) : Element → Prop
  | item h => v = h ∧ s.Live h
  | pair key value =>
    ∃ name, s.heap.get? v = some (.ofItems [name, value]) ∧ s.heap.get? name = some (.ofText key) ∧
      s.Live value

/-- The same, whether it is live or not. -/
def Appears (heap : Heap) (v : Handle) : Element → Prop
  | item h => v = h
  | pair key value => ∃ name, heap.get? v = some (.ofItems [name, value]) ∧
      heap.get? name = some (.ofText key)

/-- What was made for an element is no generator, so it stays while a generator is changed. -/
theorem Appears.of_kept {heap heap' : Heap} {v : Handle} {element : Element}
    (ha : element.Appears heap v) (hk : ∀ {k : Handle} {o : Object}, heap.get? k = some o →
      (∀ x, o.payload ≠ .generator x) → heap'.get? k = some o) : element.Appears heap' v := by
  cases element with
  | item h => exact ha
  | pair key value =>
    obtain ⟨name, hv, hname⟩ := ha
    exact ⟨name, hk hv (fun _ hp => by cases hp), hk hname (fun _ hp => by cases hp)⟩

theorem Appears.shown {s : State} {v : Handle} {element : Element} (ha : element.Appears s.heap v)
    (hl : s.Live element.handle) : element.Shown s v := by
  cases element with
  | item h => exact ⟨ha, hl⟩
  | pair key value =>
    obtain ⟨name, hv, hname⟩ := ha
    exact ⟨name, hv, hname, hl⟩

end Element

/-- **What a generator still has to deliver.** -/
inductive Generator.Supplies : Generator → List Element → Prop where
  | items {held pending : List Handle} {covered : pending ⊆ held} :
      Supplies (.suspended (.items held pending covered)) (pending.map .item)
  | entries {held : List Handle} {pending : List (String × Handle)}
      {covered : pending.map (·.2) ⊆ held} : Supplies (.suspended (.entries held pending covered))
      (pending.map fun entry => .pair entry.1 entry.2)
  | stopped : Supplies (.stopped none) []

/-- `g` still has to deliver `elements`, all of which are live. -/
def State.Owes (s : State) (g : Handle) (elements : List Element) : Prop :=
  ∃ x, s.Stands g x ∧ x.Supplies elements ∧ ∀ element ∈ elements, s.Live element.handle

namespace Generator

variable {c : Coroutine} {elements : List Element} {s t : State} {g h : Handle}

theorem Supplies.ne_running {x : Generator} (hx : x.Supplies elements) : x ≠ running := by
  cases hx <;> exact nofun

/-- What has to be delivered first is an item, so all of it are items. -/
theorem Supplies.exists_items {x : Generator} {pending : List Element}
    (hx : x.Supplies (.item h :: pending)) :
    ∃ held rest covered, x = .suspended (.items held (h :: rest) covered) := by
  generalize he : Element.item h :: pending = elements at hx
  cases hx with
  | @items held pending covered =>
    obtain ⟨k, rest, rfl, hk, _⟩ := List.map_eq_cons_iff.mp he.symm
    cases hk
    exact ⟨held, rest, covered, rfl⟩
  | @entries held pending covered =>
    obtain ⟨_, _, _, hk, _⟩ := List.map_eq_cons_iff.mp he.symm
    cases hk
  | stopped => cases he

theorem Supplies.held (hc : (suspended c).Supplies elements) :
    ∀ element ∈ elements, element.handle ∈ c.held := by
  cases hc with
  | @items held pending covered =>
    intro element he
    obtain ⟨h, hh, rfl⟩ := List.mem_map.mp he
    exact covered hh
  | @entries held pending covered =>
    intro element he
    obtain ⟨entry, hentry, rfl⟩ := List.mem_map.mp he
    exact covered (List.mem_map_of_mem hentry)

/-- **One resumption**: nothing is left to deliver, or the next element is. No object that was there
changes. -/
theorem Supplies.resume (hc : (suspended c).Supplies elements) (e : Engine)
    (hw : s.heap.WellFormed) :
    (elements = [] ∧ ∃ rest, c.resume.run.run e s = .done (.ok ⟨.completed none, rest⟩) s) ∨
      ∃ element pending v rest t, elements = element :: pending ∧
        (suspended rest).Supplies pending ∧
        c.resume.run.run e s = .done (.ok ⟨.yielded v, rest⟩) t ∧ t.heap.WellFormed ∧
        s.heap.KeptIn t.heap ∧ element.Appears t.heap v := by
  cases hc with
  | @items held pending covered =>
    cases pending with
    | nil => exact Or.inl ⟨rfl, _, rfl⟩
    | cons h rest =>
      exact Or.inr ⟨.item h, rest.map .item, h,
        .items held rest (List.subset_of_cons_subset covered), s, rfl, .items, rfl, hw, id, rfl⟩
  | @entries held pending covered =>
    cases pending with
    | nil => exact Or.inl ⟨rfl, _, rfl⟩
    | cons entry rest =>
      obtain ⟨key, value⟩ := entry
      obtain ⟨name, s₁, hs₁, hp₁⟩ := State.exists_placed hw (.ofText key)
      obtain ⟨pair, s₂, hs₂, hp₂⟩ := State.exists_placed hp₁.wellFormed (.ofItems [name, value])
      refine Or.inr ⟨.pair key value, _, pair,
        .entries held rest (List.subset_of_cons_subset covered), s₂, rfl, .entries, ?_,
        hp₂.wellFormed, fun hget => hp₂.kept (hp₁.kept hget), name, hp₂.found, hp₂.kept hp₁.found⟩
      have heq : (Coroutine.entries held ((key, value) :: rest) covered).resume.run
          = .perform (.allocate (.ofText key)) fun name =>
          .perform (.allocate (.ofItems [name, value])) fun pair =>
            .pure (.ok (.yield pair (.entries held rest (List.subset_of_cons_subset covered)))) :=
              rfl
      rw [heq, Program.run_perform]
      simp only [Action.perform, hs₁, Outcome.andThen_done, Program.run_perform, hs₂]
      rfl

end Generator

/-! ## 3. What keeps it -/

/-- Collections outside of calls keep `g` alive. -/
def Entry.Roots (g : Handle) (x : Entry) : Prop :=
  match x.event with
  | .performed (.collect extra) s _ => s.callDepth = 0 → s.heap.Leads (s.IsRoot extra) g
  | _ => True

namespace State

variable {s t : State} {g h : Handle} {elements : List Element}

theorem Owes.live (hs : s.Owes g elements) : s.Live g := by
  obtain ⟨x, hx, _⟩ := hs
  exact hx.live

theorem Owes.congr (hs : s.Owes g elements) (he : t.heap = s.heap) : t.Owes g elements := by
  unfold Owes Stands Live
  rw [he]
  exact hs

theorem Owes.of_kept (hs : s.Owes g elements) (hk : s.heap.KeptIn t.heap) : t.Owes g elements := by
  obtain ⟨x, hx, hsupplies, hlive⟩ := hs
  refine ⟨x, hx.of_kept hk, hsupplies, fun element he => ?_⟩
  obtain ⟨o, ho⟩ := Heap.contains_iff.mp (hlive element he)
  exact Heap.contains_of_get? (hk ho)

theorem Owes.setGenerator_of_ne (hs : s.Owes g elements) (hne : g ≠ h) (y : Generator) :
    (s.setGenerator h y).Owes g elements := by
  obtain ⟨x, hx, hsupplies, hlive⟩ := hs
  exact ⟨x, hx.setGenerator_of_ne hne y, hsupplies,
    fun element he => (Heap.contains_modify _ _ _ _).trans (hlive element he)⟩

theorem Owes.turns (hs : s.Owes g elements) (ht : Turns g s t) : t.Owes g elements := by
  rcases ht with he | ⟨h, y, hne, he⟩
  · exact hs.congr he
  · exact (hs.setGenerator_of_ne hne y).congr he

theorem Owes.collect (hs : s.Owes g elements) (hr : s.Regular) {extra : List Handle}
    (hg : s.callDepth = 0 → s.heap.Leads (s.IsRoot extra) g) :
    (s.collect extra).2.Owes g elements := by
  by_cases hd : s.callDepth = 0
  · obtain ⟨heq, hc⟩ := hr.collected hd extra
    obtain ⟨x, ⟨o, hget, hp⟩, hsupplies, hlive⟩ := hs
    have hkept := (hc.live_iff g).mpr ⟨Heap.contains_of_get? hget, hg hd⟩
    rw [heq]
    refine ⟨x, ⟨o, (hc.get?_eq g hkept).trans hget, hp⟩, hsupplies,
      fun element he => (hc.live_iff _).mpr ⟨hlive element he, ?_⟩⟩
    -- the generator refers to what it has to deliver
    cases x with
    | suspended c => exact .step (hg hd) hget (.held hp (hsupplies.held element he))
    | running => exact absurd rfl hsupplies.ne_running
    | stopped result =>
      cases hsupplies
      exact absurd he List.not_mem_nil
  · unfold State.collect
    rw [if_pos (Nat.pos_of_ne_zero hd)]
    exact hs

/-- A change of an object that leaves generators alone. -/
theorem Owes.modify (hs : s.Owes g elements) (k : Handle) {change : Object → Object}
    (hc : KeepsGenerators change) : (s.modify k change).Owes g elements := by
  obtain ⟨x, ⟨o, hget, hp⟩, hsupplies, hlive⟩ := hs
  refine ⟨x, ?_, hsupplies, fun element he => (Heap.contains_modify _ _ _ _).trans
    (hlive element he)⟩
  by_cases hk : g = k
  · subst hk
    refine ⟨change o, ?_, hc o x hp⟩
    simp only [State.modify, Heap.get?_modify_self, hget, Option.map_some]
  · refine ⟨o, ?_, hp⟩
    simp only [State.modify, Heap.get?_modify, if_neg hk]
    exact hget

/-- **A primitive action keeps what a generator owes**, if it is no collection that frees the
generator. -/
theorem Owes.perform {β : Type} {a : Action β} (hs : s.Owes g elements)
    (hr : s.Regular) (e : Engine) {w : List Handle} (ha : a.isPrimitive = true)
    (hg : Entry.Roots g ⟨w, .performed a s (a.perform e s)⟩) :
    (a.perform e s).state.Owes g elements := by
  cases a.deed_of_perform e s ha with
  | same he => exact hs.congr he
  | allocate object he =>
    exact (hs.of_kept (t := (s.allocate object).2) (Heap.get?_allocate_of_live hr.heap)).congr he
  | setAttribute target _ _ he | eraseAttribute target _ he =>
    refine Owes.congr ?_ he
    exact hs.modify target fun _ _ ho => ho
  | setEntry dict _ _ he | eraseEntry dict _ he =>
    exact (hs.modify dict (keepsGenerators_entries _)).congr he
  | collect extra => exact hs.collect hr hg

end State

/-! ## 4. Answers -/

/-- What a request was answered. -/
def Event.answer? : Event → Option (Outcome (Except Fault Handle))
  | .performed (.advance _) _ o => some o
  | _ => none

namespace Generator

/-- The answers to the requests to `g`, one after another. -/
def answers (g : Handle) (log : List Entry) : List (Outcome (Except Fault Handle)) :=
  (history g log).filterMap Event.answer?

/-- **How requests are answered** by a generator that has to deliver some elements, and what is left
of them: the elements in order, each once and live, and `StopIteration` from then on. A request that
does not come to an answer is the last one; it reached the bound on nesting. -/
inductive Delivers :
    List Element → List (Outcome (Except Fault Handle)) → Option (List Element) → Prop where
  | rest (elements : List Element) : Delivers elements [] (some elements)
  | next {element : Element} {pending : List Element} {v : Handle} {s : State}
      {answers : List (Outcome (Except Fault Handle))} {behind : Option (List Element)} :
      element.Shown s v → Delivers pending answers behind →
      Delivers (element :: pending) (.done (.ok v) s :: answers) behind
  | ended {fault : Fault} {s : State} {answers : List (Outcome (Except Fault Handle))}
      {behind : Option (List Element)} : Fault.Carries s .stopIteration [] fault →
      Delivers [] answers behind → Delivers [] (.done (.error fault) s :: answers) behind
  | cut {elements : List Element} {s : State} : Delivers elements [.aborted .unfinished s] none

variable {g : Handle} {l l' : List Entry} {elements pending : List Element}

@[simp] theorem answers_append : answers g (l ++ l') = answers g l ++ answers g l' := by
  simp [answers]

theorem answers_of_history (hl : history g l = []) : answers g l = [] := by
  rw [answers, hl]
  rfl

theorem Delivers.append {first second : List (Outcome (Except Fault Handle))}
    {middle behind : Option (List Element)} (h : Delivers elements first middle) :
    ∀ pending, middle = some pending → Delivers pending second behind →
      Delivers elements (first ++ second) behind := by
  induction h with
  | rest elements =>
    rintro _ ⟨⟩ h'
    exact h'
  | next hshown _ ih => exact fun pending hp h' => .next hshown (ih pending hp h')
  | ended hf _ ih => exact fun pending hp h' => .ended hf (ih pending hp h')
  | cut => exact nofun

/-! ## 5. Deliveries in a run -/

/-- A run whose requests to `g` had these answers: they were answered as `g` owed, and `g` owes the
rest. -/
def Delivered (g : Handle) (elements : List Element)
    (answers : List (Outcome (Except Fault Handle))) (finished : Bool) (t : State) : Prop :=
  ∃ behind, Delivers elements answers behind ∧
    (∀ pending, behind = some pending → t.Owes g pending) ∧ (behind = none → finished = false)

section

variable {w : List Handle} {s t u : State} {finished : Bool}

/-- Nothing is asked of the generator, and what it owes is kept. -/
theorem Delivered.silent (ht : t.Owes g elements) : Delivered g elements [] finished t := by
  refine ⟨some elements, .rest elements, ?_, fun h => absurd h (Option.some_ne_none _)⟩
  rintro _ ⟨⟩
  exact ht

/-- A request to the generator: what happens before the answer is no request, and the answer is as
it should be. -/
theorem answers_request {before : List Entry} (hg : g ∉ w) (hbefore : answers g before = []) :
    answers g (before ++ [⟨w, .performed (.advance g) s o⟩]) = [o] := by
  rw [answers_append, hbefore, answers, history_singleton hg (by simp [concerns])]
  rfl

/-- `StopIteration` without arguments, from a state in which nothing is left to deliver. -/
theorem delivers_stopped (hw : s.heap.WellFormed) (hs : s.Stands g (stopped none))
    (ho : o = (stopIteration none : Run Handle).run.run e s) :
    Delivered g [] [o] o.finished o.state := by
  obtain ⟨u, hkept, hend⟩ := raise_cases (α := Handle) hw .stopIteration [] e
  obtain ⟨fault, hdone, hcarries⟩ := hend.resolve_right fun h => by simp [Heap.plainMessage] at h
  obtain rfl : o = .done (.error fault) u := ho.trans hdone
  refine ⟨some [], .ended hcarries (.rest []), ?_, fun h => absurd h (Option.some_ne_none _)⟩
  rintro _ ⟨⟩
  exact ⟨_, hs.of_kept hkept, .stopped, List.forall_mem_nil _⟩

/-- A request to the generator whose computation came back. -/
theorem delivers_resumed {c : Coroutine} {r : Except Fault Resumed}
    {back : Except Fault Resumption} {e' : Engine} (hr : s.Regular)
    (hs : s.Stands g (suspended c)) (hsupplies : (suspended c).Supplies elements)
    (hlive : ∀ element ∈ elements, s.Live element.handle)
    (hresume : .done r t = c.resume.run.run e (s.setGenerator g .running).enter)
    (hsettle : settle g r t.leave = .done back u) (ho : o = (conclude back).run.run e' u) :
    Delivered g elements [o] o.finished o.state := by
  have hw : (s.setGenerator g .running).enter.heap.WellFormed := hr.heap.modify g _
  have hrunning : (s.setGenerator g .running).enter.Stands g running :=
    (State.stands_setGenerator hs running).congr rfl
  have hinner : ∀ element ∈ elements, (s.setGenerator g .running).enter.Live element.handle :=
    fun element he => (Heap.contains_modify _ _ _ _).trans (hlive element he)
  rcases hsupplies.resume e hw with ⟨rfl, rest, hdone⟩ | ⟨element, pending, v, rest, t', rfl, hrest,
    hdone, hw', hkept, happears⟩
  · rw [hdone] at hresume
    cases hresume
    cases hsettle
    have hstopped := State.stands_setGenerator
        (hrunning.congr (t := (s.setGenerator g .running).enter.leave) rfl) (stopped none)
    exact delivers_stopped (Heap.WellFormed.modify hw g _) hstopped ho
  · rw [hdone] at hresume
    cases hresume
    cases hsettle
    obtain rfl : o = .done (.ok v) (t.leave.setGenerator g (.suspended rest)) := ho
    have hkeeps : ∀ {k : Handle}, (s.setGenerator g .running).enter.Live k →
        (t.leave.setGenerator g (.suspended rest)).Live k := by
      intro k hk
      obtain ⟨o, ho⟩ := Heap.contains_iff.mp hk
      exact (Heap.contains_modify _ _ _ _).trans (Heap.contains_of_get? (hkept ho))
    have hrunning' : t.Stands g running := hrunning.of_kept hkept
    refine ⟨some pending, .next ?_ (.rest pending), ?_, fun h => absurd h (Option.some_ne_none _)⟩
    · -- what was made for the answer is not the generator
      have hother : ∀ {k : Handle} {o : Object}, t.heap.get? k = some o →
          (∀ x, o.payload ≠ .generator x) →
          (t.leave.setGenerator g (.suspended rest)).heap.get? k = some o := by
        intro k o hk hp
        have hne : k ≠ g := by
          rintro rfl
          obtain ⟨o', ho', hp'⟩ := hrunning'
          rw [hk] at ho'
          cases ho'
          exact hp _ hp'
        rw [State.setGenerator, State.modify, Heap.get?_modify, if_neg hne]
        exact hk
      exact (happears.of_kept hother).shown (hkeeps (hinner element List.mem_cons_self))
    · rintro _ ⟨⟩
      exact ⟨suspended rest, State.stands_setGenerator (hrunning'.congr (t := t.leave) rfl) _,
        hrest, fun element he => hkeeps (hinner element (List.mem_cons_of_mem _ he))⟩

/-- **What a run asks of the generator** is answered as it owes. -/
theorem Moves.delivered {within : Prop} (h : Moves g within s l finished t) :
    ¬ within → s.Regular →
    (∀ x ∈ l, x.event.Honest ∧ x.Roots g) → ∀ elements, s.Owes g elements →
    Delivered g elements (answers g l) finished t := by
  induction h with
  | idle => exact fun _ _ _ _ hs => .silent hs
  | append hsteps _ _ _ ih ih' =>
    intro hout hr hlog elements hs
    obtain ⟨hl, hl'⟩ := List.forall_mem_append.mp hlog
    obtain ⟨middle, hfirst, howes, hnone⟩ := ih hout hr hl elements hs
    cases middle with
    | none => cases hnone rfl
    | some pending =>
      obtain ⟨behind, hsecond, hrest⟩ := ih' hout (hr.steps hsteps) hl' pending (howes pending rfl)
      refine ⟨behind, ?_, hrest⟩
      rw [answers_append]
      exact hfirst.append pending rfl hsecond
  | primitive a e s _ hp =>
    intro _ hr hlog elements hs
    rw [answers_of_history (history_singleton_of_not (not_concerns_of_primitive hp))]
    exact .silent (hs.perform hr e hp (hlog _ List.mem_cons_self).2)
  | turn ht => exact fun _ _ _ _ hs => .silent (hs.turns ht)
  | note _ _ hc _ _ hu ih =>
    intro hout hr hlog elements hs
    obtain ⟨behind, hdelivers, howes, hnone⟩ :=
      ih hout hr (List.forall_mem_append.mp hlog).1 elements hs
    rw [answers_append, answers_of_history (history_singleton_of_not hc), List.append_nil]
    exact ⟨behind, hdelivers, fun pending hp => (howes pending hp).congr hu, hnone⟩
  | unanswered hg hreason =>
    intro hout _ _ elements hs
    rcases hreason with rfl | ⟨_, hnone⟩
    · rw [answers, history_singleton (mt hg.mp hout) (by simp [concerns])]
      exact ⟨none, .cut, fun _ hp => absurd hp.symm (Option.some_ne_none _), fun _ => rfl⟩
    · exact absurd hs.live (Heap.not_contains_iff.mpr hnone)
  | @answered w s l object o hg hget hne hrun _ _ _ =>
    intro hout hr _ elements hs
    obtain ⟨e, r, ho, rfl⟩ := hrun
    obtain ⟨x, hx, hsupplies, _⟩ := hs
    have hp := hx.payload hget
    have hquiet : history g ((refusal object.payload).run.record e r w s) = [] :=
      history_of_noted fun x hx => (direct_refusal _).record _ _ w s x hx
    rw [answers_request (mt hg.mp hout) (answers_of_history hquiet)]
    -- it is not suspended, so it has stopped
    cases hsupplies with
    | items | entries => exact absurd hp (hne _)
    | stopped =>
      rw [hp] at ho
      exact delivers_stopped hr.heap hx ho
  | @lost w s t l object c reason hg hget hc _ =>
    -- but the computation of this generator always comes back
    intro _ hr hlog elements hs
    obtain ⟨x, hx, hsupplies, _⟩ := hs
    obtain rfl := hx.unique ⟨object, hget, hc⟩
    obtain ⟨e, hresume⟩ :=
      (hlog ⟨w, .resumed g c _ _⟩ (List.mem_append_right _ List.mem_cons_self)).1
    rcases hsupplies.resume e (s := (s.setGenerator g .running).enter) (hr.heap.modify g _) with
      ⟨_, _, hdone⟩ | ⟨_, _, _, _, _, _, _, hdone, _⟩
    · cases hresume.trans hdone
    · cases hresume.trans hdone
  | @resumed w s t u l l' object c r back o hg hget hc hl hsettle hrun _ _ _ =>
    intro hout hr hlog elements hs
    obtain ⟨x, hx, hsupplies, hlive⟩ := hs
    obtain rfl := hx.unique ⟨object, hget, hc⟩
    obtain ⟨e, r', ho, rfl⟩ := hrun
    obtain ⟨e', hresume⟩ :=
      (hlog ⟨w, .resumed g c _ _⟩ (List.mem_append_right _ List.mem_cons_self)).1
    have hinside : history g l = [] :=
      history_of_within fun e he => (hl.truthful e he).1 List.mem_cons_self
    have hmaking : history g ((conclude back).run.record e r' w u) = [] :=
      history_of_noted fun x hx => (direct_conclude back).record _ _ w u x hx
    have hquiet : answers g ((l ++ [⟨w, .resumed g c (s.setGenerator g .running).enter
        (.done r t)⟩]) ++ (conclude back).run.record e r' w u) = [] := by
      rw [answers_append, answers_append, answers_of_history hinside, answers_of_history hmaking,
        answers, history_singleton (mt hg.mp hout) (by simp [concerns])]
      rfl
    rw [List.append_cons, ← List.append_assoc, answers_request (mt hg.mp hout) hquiet]
    exact delivers_resumed hr hx hsupplies hlive hresume hsettle ho

end

/-- **Whatever a run does**, the requests in it are answered as the generator owes, if collections
keep it alive. -/
theorem delivers_of_run {α : Type} (p : Program α) (n : Nat)
    {s : State} (hr : s.Regular) {g : Handle} {elements : List Element}
    (hs : s.Owes g elements) (hlog : ∀ x ∈ p.log n s, x.Roots g) :
    ∃ behind, Delivers elements (answers g (p.log n s)) behind ∧
      (∀ pending, behind = some pending → (p.run (engine n) s).state.Owes g pending) ∧
      (behind = none → (p.run (engine n) s).finished = false) :=
  (Moves.of_passage g (.of_run n [] p s)).delivered List.not_mem_nil hr
    (fun x hx => ⟨Program.honest_log n p s x hx, hlog x hx⟩) elements hs

end Generator

/-! ## 6. Containers -/

namespace Heap

variable {heap : Heap} {c : Handle} {elements : List Element}

/-- The type of `c` answers `name` with the builtin member `m`. -/
def Answers (heap : Heap) (c : Handle) (name : String) (m : Member) : Prop :=
  ∃ f o label, heap.hook c name = some (some f) ∧ heap.get? f = some o ∧
    o.payload = .function label (.member m)

/-- The builtin member that a function runs. -/
def member? : Payload → Option Member
  | .function _ (.member m) => some m
  | _ => none

theorem member?_eq_some_iff {p : Payload} {m : Member} :
    member? p = some m ↔ ∃ label, p = .function label (.member m) := by
  constructor
  · intro h
    unfold member? at h
    split at h
    · cases h
      exact ⟨_, rfl⟩
    · cases h
  · rintro ⟨_, rfl⟩
    rfl

instance {name : String} {m : Member} : Decidable (heap.Answers c name m) :=
  decidable_of_iff (∃ hook ∈ heap.hook c name, ∃ f ∈ hook, ∃ o ∈ heap.get? f, member? o.payload
      = some m) <| by
    simp only [member?_eq_some_iff]
    constructor
    · rintro ⟨_, hhook, f, rfl, o, hget, label, hp⟩
      exact ⟨f, o, label, hhook, hget, hp⟩
    · rintro ⟨f, o, label, hhook, hget, hp⟩
      exact ⟨_, hhook, f, rfl, o, hget, label, hp⟩

/-- **What a container holds**: a list, a tuple or a mapping with the `__iter__` of its builtin
type. -/
inductive Contents (heap : Heap) (c : Handle) : List Element → Prop where
  | list {items : List Handle} : heap.Answers c "__iter__" (.list .iter) →
      heap.tupleAttribute c listCell = some (some items) → Contents heap c (items.map .item)
  | tuple {o : Object} {items : List Handle} : heap.Answers c "__iter__" (.tuple .iter) →
      heap.get? c = some o → o.payload = .tuple items → Contents heap c (items.map .item)
  | dict {o : Object} {entries : OrderedMap Handle} : heap.Answers c "__iter__" (.dict .iter) →
      heap.get? c = some o → o.payload = .dict entries →
      Contents heap c (entries.toList.map fun entry => .pair entry.1 entry.2)

theorem exists_of_tupleAttribute {name : String} {items : List Handle}
    (h : heap.tupleAttribute c name = some (some items)) :
    ∃ o cell k, heap.get? c = some o ∧ o.attributes.get? name = some cell ∧
      heap.get? cell = some k ∧ k.payload = .tuple items := by
  unfold tupleAttribute ownAttribute at h
  cases hget : heap.get? c with
  | none => simp [hget] at h
  | some o =>
    cases hattr : o.attributes.get? name with
    | none => simp [hget, hattr] at h
    | some cell =>
      cases hcell : heap.get? cell with
      | none => simp [hget, hattr, hcell] at h
      | some k =>
        have hitems : k.tupleItems = some items := by simpa [hget, hattr, hcell] using h
        refine ⟨o, cell, k, rfl, hattr, hcell, ?_⟩
        unfold Object.tupleItems at hitems
        split at hitems
        · rename_i hp
          cases hitems
          exact hp
        · cases hitems

theorem Answers.of_offers {bound : Nat} (ho : heap.Orderly bound) {o : Object}
    (hget : heap.get? c = some o) (ht : heap.IsType o.type) {name label : String} {m : Member}
    (h : Bootstrap.Offers heap o.type name (.function label (.member m))) :
    heap.Answers c name m := by
  obtain ⟨links, hl, _⟩ := ho.lineage ht
  obtain ⟨f, member, hlookup, hmember, hp⟩ := h.lookup hl
  exact ⟨f, member, label, (hook_of_get? hget name).trans hlookup, hmember, hp⟩

end Heap

theorem Heap.Contents.live {s : State} {c : Handle} {elements : List Element}
    (hc : s.heap.Contents c elements) (hs : s.Sound) :
    ∀ element ∈ elements, s.Live element.handle := by
  intro element he
  cases hc with
  | @list items _ hcell =>
    obtain ⟨h, hh, rfl⟩ := List.mem_map.mp he
    obtain ⟨_, _, _, _, _, hcell, hp⟩ := Heap.exists_of_tupleAttribute hcell
    exact hs.stored hcell (.item hp hh)
  | @tuple o items _ hget hp =>
    obtain ⟨h, hh, rfl⟩ := List.mem_map.mp he
    exact hs.stored hget (.item hp hh)
  | @dict o entries _ hget hp =>
    obtain ⟨⟨key, value⟩, hentry, rfl⟩ := List.mem_map.mp he
    exact hs.stored hget (.entry hp hentry)

section Iter

variable {s : State} {c : Handle} {elements : List Element} {n : Nat}

theorem run_hook {name : String} {m : Member} {onHook : Option Handle → Run Handle}
    (args : List Handle) (hcall : ∀ hook, onHook (some hook) = call hook args)
    (hm : s.heap.Answers c name m) (hd : s.Room) :
    (findHook c name >>= onHook).run.run (engine (n + 1)) s
      = ((m.run args).run.run (engine n) s.enter).onState State.leave := by
  obtain ⟨f, o, label, hhook, hget, hp⟩ := hm
  refine (Run.run_inspect_bind hhook).trans ?_
  rw [hcall]
  exact run_call hd hget hp

section

variable {α : Type} {t : State} {args : List Handle} {name : String} {m : Member}
  {onHook : Option Handle → Run α} {rest : Handle → Run α}

theorem run_hook_bind (hcall : ∀ hook, onHook (some hook) = call hook args >>= rest)
    (hm : s.heap.Answers c name m) (hd : s.Room) {a : Handle}
    (hrun : (m.run args).run.run (engine n) s.enter = .done (.ok a) t) :
    (findHook c name >>= onHook).run.run (engine (n + 1)) s
      = (rest a).run.run (engine (n + 1)) t.leave := by
  obtain ⟨f, o, label, hhook, hget, hp⟩ := hm
  have hcalled : (call f args).run.run (engine (n + 1)) s = .done (.ok a) t.leave :=
    (run_call hd hget hp).trans (congrArg (Outcome.onState State.leave) hrun)
  refine (Run.run_inspect_bind hhook).trans ?_
  rw [hcall]
  exact Run.run_bind_ok hcalled

/-- Nothing is done behind a member that fails. -/
theorem run_hook_error (hcall : ∀ hook, onHook (some hook) = call hook args >>= rest)
    (hm : s.heap.Answers c name m) (hd : s.Room) {fault : Fault}
    (hrun : (m.run args).run.run (engine n) s.enter = .done (.error fault) t) :
    (findHook c name >>= onHook).run.run (engine (n + 1)) s = .done (.error fault) t.leave := by
  obtain ⟨f, o, label, hhook, hget, hp⟩ := hm
  have hcalled : (call f args).run.run (engine (n + 1)) s = .done (.error fault) t.leave :=
    (run_call hd hget hp).trans (congrArg (Outcome.onState State.leave) hrun)
  refine (Run.run_inspect_bind hhook).trans ?_
  rw [hcall]
  exact Run.run_bind_error hcalled

end

theorem run_object_bind {β : Type} {h : Handle} {o : Object} {f : Object → Run β}
    (hget : s.heap.get? h = some o) : (object h >>= f).run.run e s = (f o).run.run e s :=
  Run.run_inspect_bind hget

theorem run_dictReceiver {h : Handle} {o : Object} {entries : OrderedMap Handle}
    (hget : s.heap.get? h = some o) (hp : o.payload = .dict entries) (name : String) :
    (dictReceiver name h).run.run e s = .done (.ok entries) s := by
  have hentries : o.dictEntries = some entries := by rw [Object.dictEntries, hp]
  refine (run_object_bind hget).trans ?_
  simp only [hentries]
  rfl

/-- The container makes a generator that owes what it holds. -/
theorem Heap.Contents.member (hc : s.heap.Contents c elements) :
    ∃ m, s.heap.Answers c "__iter__" m ∧
    ∃ computation, (Generator.suspended computation).Supplies elements ∧
      ∀ e (t : State), t.heap = s.heap → (m.run [c]).run.run e t
        = .done (.ok (t.allocate (.ofCoroutine computation)).1)
          (t.allocate (.ofCoroutine computation)).2 := by
  cases hc with
  | @list items hm hcell =>
    refine ⟨_, hm, .items items items (List.Subset.refl items), .items, fun e t ht => ?_⟩
    have hcell : t.heap.tupleAttribute c Heap.listCell = some (some items) := ht ▸ hcell
    have hreceiver : (listReceiver "list.__iter__" c).run.run e t = .done (.ok items) t :=
      (Run.run_inspect_bind hcell).trans rfl
    exact (Run.run_bind_ok hreceiver).trans rfl
  | @tuple o items hm hget hp =>
    refine ⟨_, hm, .items items items (List.Subset.refl items), .items, fun e t ht => ?_⟩
    have hget : t.heap.get? c = some o := ht ▸ hget
    have hitems : o.tupleItems = some items := by rw [Object.tupleItems, hp]
    have hreceiver : (tupleReceiver "tuple.__iter__" c).run.run e t = .done (.ok items) t := by
      refine (run_object_bind hget).trans ?_
      simp only [hitems]
      rfl
    exact (Run.run_bind_ok hreceiver).trans rfl
  | @dict o entries hm hget hp =>
    refine ⟨_, hm, .entries entries.values entries.toList (List.Subset.refl entries.values),
      .entries, fun e t ht => ?_⟩
    have hget : t.heap.get? c = some o := ht ▸ hget
    exact (Run.run_bind_ok (run_dictReceiver hget hp _)).trans rfl

/-- **An iterator is made** and owes what the container holds. -/
theorem Heap.Contents.run_iter (hc : s.heap.Contents c elements) (hr : s.Regular) (hs : s.Sound)
    (hd : s.Room) (n : Nat) :
    ∃ g t, (iter c).run.run (engine (n + 1)) s = .done (.ok g) t ∧ t.Regular ∧
      t.Owes g elements := by
  obtain ⟨m, hm, computation, hsupplies, hrun⟩ := hc.member
  have hiter : (iter c).run.run (engine (n + 1)) s = _ := run_hook [c] (fun _ => rfl) hm hd
  rw [hrun (engine n) s.enter rfl, Outcome.onState_done] at hiter
  refine ⟨_, _, hiter, ?_, ?_⟩
  · exact ((hr.step (.enter s)).step (.change (.allocate _ _))).step (.leave _)
  · refine ⟨_, State.stands_allocate (s := s.enter) hr.heap rfl, hsupplies, fun element he => ?_⟩
    exact (Heap.contains_allocate hr.heap _ _).mpr (Or.inr (hc.live hs element he))

end Iter

/-! ## 7. A list that is emptied meanwhile -/

theorem Entry.suits_roots (g : Handle) : Entry.Suits (Entry.Roots g) where
  allocate := trivial
  setAttribute := trivial
  message := trivial
  isInstance := trivial
  hook := trivial
  object _ _ := trivial

/-- A computation of a container collects nothing. -/
theorem Generator.Supplies.roots_resume {c : Coroutine} {elements : List Element} {e : Engine}
    {r : Recorder} {w : List Handle} {g : Handle} (hc : (Generator.suspended c).Supplies elements)
    (s : State) : ∀ x ∈ c.resume.run.record e r w s, x.Roots g := by
  cases hc with
  | @items held pending covered => cases pending <;> exact List.forall_mem_nil _
  | @entries held pending covered =>
    cases pending with
    | nil => exact List.forall_mem_nil _
    | cons entry rest =>
      exact Program.forall_record_perform rfl trivial fun name s₁ =>
        Program.forall_record_perform rfl trivial fun _ _ => List.forall_mem_nil _

/-- What a generator owes is kept by all that the program does. -/
def Program.KeepsOwing {α : Type} (p : Program α) (n : Nat) (g : Handle) : Prop :=
  ∀ s elements, s.Regular → s.Owes g elements → ∀ x ∈ p.log n s, x.Roots g

namespace Program.KeepsOwing

variable {α β : Type} {p : Program α} {f : α → Program β} {n : Nat} {g : Handle}

theorem bind (hp : p.KeepsOwing n g) (hf : ∀ a, (f a).KeepsOwing n g) :
    (p >>= f).KeepsOwing n g := by
  intro s elements hr hs x hx
  have hlog := hp s elements hr hs
  obtain ⟨behind, _, howes, hnone⟩ := Generator.delivers_of_run p n hr hs hlog
  have hsteps := State.steps_of_run p n s
  rw [Program.log, record_bind] at hx
  rcases List.mem_append.mp hx with hx | hx
  · exact hlog x hx
  · generalize hrun : p.run (engine n) s = o at hx hsteps howes hnone
    cases o with
    | aborted reason t => exact absurd hx List.not_mem_nil
    | done a t =>
      cases behind with
      | none => cases hnone rfl
      | some pending => exact hf a t pending (hr.steps hsteps) (howes pending rfl) x hx

/-- A collection keeps the generator if it is an extra root. -/
theorem collect : (collectGarbage [g]).run.KeepsOwing n g := fun _ _ _ _ =>
  Program.forall_record_perform rfl (fun _ => .root (.extra List.mem_cons_self)) fun _ _ =>
    List.forall_mem_nil _

/-- A list is emptied without a collection. -/
theorem clear (list : Handle) : (ListMember.clear.run [list]).run.KeepsOwing n g := by
  intro s _ _ _
  refine Run.forall_record_bind (Run.forall_record_bind ?_ fun items t _ => ?_) fun items t _ => ?_
  · exact Program.forall_record_perform rfl trivial fun _ _ => List.forall_mem_nil _
  · cases items with
    | none => exact (Entry.suits_roots g).raiseMessage .typeError _ t
    | some items => exact List.forall_mem_nil _
  · refine Program.forall_record_perform rfl trivial fun _ _ => ?_
    refine Program.forall_record_perform rfl trivial fun _ _ => ?_
    exact Program.forall_record_perform rfl trivial fun _ _ => List.forall_mem_nil _

/-- A request to the generator runs nothing that collects. -/
theorem advance : (ObjectModel.advance g).run.KeepsOwing (n + 1) g := by
  rintro s elements _ ⟨x, ⟨o, hget, hp⟩, hsupplies, _⟩ y hy
  have hlog : (ObjectModel.advance g).run.log (n + 1) s
      = recordAdvance (engine n) (recorder n) [] g s ++
      [⟨[], .performed (.advance g) s ((Action.advance g).perform (engine (n + 1)) s)⟩] :=
        Program.record_act _ _
  rw [hlog] at hy
  rcases List.mem_append.mp hy with hy | hy
  · by_cases hc : ∃ c, x = .suspended c
    · obtain ⟨c, rfl⟩ := hc
      rw [recordAdvance_suspended _ _ _ hget hp] at hy
      rcases List.mem_append.mp hy with hy | hy
      · exact hsupplies.roots_resume _ y hy
      · rcases List.mem_cons.mp hy with rfl | hy
        · trivial
        · exact forall_recordAfter (fun back t => (Entry.suits_roots g).conclude back t) y hy
    · cases hsupplies with
      | items | entries => exact absurd ⟨_, rfl⟩ hc
      | stopped =>
        rw [recordAdvance_refusal _ _ _ hget (fun c he => by cases hp.symm.trans he), hp] at hy
        exact (Entry.suits_roots g).raise .stopIteration [] s y hy
  · rw [List.mem_singleton.mp hy]
    trivial

end Program.KeepsOwing

end ObjectModel
