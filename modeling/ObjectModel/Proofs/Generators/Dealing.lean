import ObjectModel.Proofs.Generators.Mapping

/-!
# Generators that deal out values

The computation of such a generator asks nobody: it hands out one value for each request, and from
some place on it has ended.

* `Deal` -- the values of a computation, place by place.
* `State.Dealing.handed`, `State.Dealing.run_drain` -- **what a loop takes from such a generator**:
  all its values in order.
-/

namespace ObjectModel

/-- **A computation that hands out `size` values** and then ends. `rest k` is what is left of it
behind the first `k` of them, and `shows k` is what the value at place `k` looks like, whatever
becomes of generators. -/
structure Deal where
  size : Nat
  rest : Nat → Coroutine
  shows : Nat → State → Handle → Prop
  yields : ∀ {k : Nat} {s : State}, k < size → s.heap.WellFormed →
    ∀ e : Engine, ∃ h t, (rest k).resume.run.run e s = .done (.ok ⟨.yielded h, rest (k + 1)⟩) t ∧
    s.heap.KeptIn t.heap ∧ shows k t h
  ends : ∀ {k : Nat}, size ≤ k → ∀ (e : Engine) (s : State),
    (rest k).resume.run.run e s = .done (.ok ⟨.completed none, rest k⟩) s
  spared : ∀ {j : Nat} {s t : State} {h : Handle}, (∀ {k : Handle} {o : Object}, s.heap.get? k
    = some o → (∀ x, o.payload ≠ .generator x) → t.heap.get? k = some o) → shows j s h → shows j t h

/-- A tuple or a list deals out its items. -/
def Deal.items (items : List Handle) : Deal where
  size := items.length
  rest k := .items items (items.drop k) (List.drop_subset k items)
  shows k _ h := items[k]? = some h
  yields {k s} hk _ e := by
    refine ⟨items[k], s, ?_, id, List.getElem?_eq_getElem hk⟩
    simp only [List.drop_eq_getElem_cons hk]
    rfl
  ends hk _ _ := by
    simp only [List.drop_eq_nil_of_le hk]
    rfl
  spared _ hh := hh

/-- No object but `g` was changed. -/
structure State.ButFor (g : Handle) (s t : State) : Prop where
  kept : ∀ {k : Handle} {o : Object}, k ≠ g → s.heap.get? k = some o → t.heap.get? k = some o

variable {s t u : State} {g h : Handle} {d : Deal} {x : Generator} {k n : Nat}

namespace State

theorem ButFor.trans (h : s.ButFor g t) (h' : t.ButFor g u) : s.ButFor g u :=
  ⟨fun hk hget => h'.kept hk (h.kept hk hget)⟩

theorem ButFor.of_kept (hk : s.heap.KeptIn t.heap) : s.ButFor g t := ⟨fun _ => hk⟩

/-- What was there before `g` is there still. -/
theorem ButFor.of_fresh {s₀ : State} (hb : s.ButFor g t) (hfresh : ¬ s₀.Live g)
    (hkept : s₀.heap.KeptIn s.heap) : s₀.heap.KeptIn t.heap := by
  intro k o hget
  refine hb.kept ?_ (hkept hget)
  rintro rfl
  exact hfresh (Heap.contains_of_get? hget)

theorem butFor_setGenerator (s : State) (g : Handle) (x : Generator) :
    s.ButFor g (s.setGenerator g x) where
  kept hk hget := by
    rw [setGenerator, modify, Heap.get?_modify, if_neg hk]
    exact hget

/-- Where only a generator was changed, all other objects are as before. -/
theorem Stands.spared (hg : s.Stands g x) (hb : s.ButFor g t) {k : Handle} {o : Object}
    (hget : s.heap.get? k = some o) (hp : ∀ x, o.payload ≠ .generator x) :
    t.heap.get? k = some o := by
  refine hb.kept ?_ hget
  rintro rfl
  obtain ⟨o', hget', hx⟩ := hg
  cases hget.symm.trans hget'
  exact hp x hx

end State

/-- **The generator stands at place `k`**: it will hand out the value there, or has stopped behind
the last one. -/
def Deal.At (d : Deal) (k : Nat) (x : Generator) : Prop :=
  x = .suspended (d.rest k) ∨ (d.size ≤ k ∧ x = .stopped none)

/-! ## 1. One request -/

namespace State.Stands

/-- **The value at its place** is handed out, and the generator goes one place on. -/
theorem advance_value (hg : s.Stands g (.suspended (d.rest k))) (hw : s.heap.WellFormed)
    (hk : k < d.size) (e : Engine) :
    ∃ h t, advanceWith e g s = .done (.ok h) t ∧ d.shows k t h ∧
      t.Stands g (.suspended (d.rest (k + 1))) ∧ s.ButFor g t := by
  obtain ⟨o, hget, hp⟩ := id hg
  let a : State := (s.setGenerator g .running).enter
  obtain ⟨h, b, hresume, hkept, hshows⟩ := d.yields (s := a) hk (hw.modify g _) e
  have hrunning : b.leave.Stands g .running :=
    State.Stands.of_kept (s := a) ((State.stands_setGenerator hg .running).congr rfl) hkept
  -- the generator is put back behind the computation
  have hback : b.leave.ButFor g (b.leave.setGenerator g (.suspended (d.rest (k + 1)))) :=
    State.butFor_setGenerator _ g _
  refine ⟨h, b.leave.setGenerator g (.suspended (d.rest (k + 1))), ?_,
    d.spared (s := b) (hrunning.spared hback) hshows, State.stands_setGenerator hrunning _,
    .trans (.trans ⟨(s.butFor_setGenerator g .running).kept⟩ (.of_kept hkept)) ⟨hback.kept⟩⟩
  rw [advanceWith_suspended _ hget hp, resumeWith, nested_eq]
  change (((d.rest k).resume.run.run e a).onState State.leave |>.andThen (settle g)).andThen _ = _
  rw [hresume]
  rfl

/-- **Behind the last value** a request raises `StopIteration`. -/
theorem advance_end (hg : s.Stands g x) (hw : s.heap.WellFormed) (hx : d.At k x) (hk : d.size ≤ k)
    (e : Engine) :
    ∃ fault t, advanceWith e g s = .done (.error fault) t ∧ fault.Carries t .stopIteration [] ∧
      t.Stands g (.stopped none) ∧ s.ButFor g t := by
  obtain ⟨o, hget, hp⟩ := id hg
  -- from a state in which the generator has stopped, the exception is made
  have hraise : ∀ b : State, b.heap.WellFormed → b.Stands g (.stopped none) → s.ButFor g b →
      ∃ fault t, (stopIteration none : Run Handle).run.run e b = .done (.error fault) t ∧
        fault.Carries t .stopIteration [] ∧ t.Stands g (.stopped none) ∧ s.ButFor g t := by
    intro b hb hstopped hbut
    obtain ⟨t, hkept, hend⟩ := raise_cases (α := Handle) hb .stopIteration [] e
    obtain ⟨fault, hdone, hcarries⟩ := hend.resolve_right fun h => by simp [Heap.plainMessage] at h
    exact ⟨fault, t, hdone, hcarries, hstopped.of_kept hkept, hbut.trans (.of_kept hkept)⟩
  rcases hx with rfl | ⟨_, rfl⟩
  · let a : State := (s.setGenerator g .running).enter
    have hrunning : a.leave.Stands g .running := (State.stands_setGenerator hg .running).congr rfl
    obtain ⟨fault, t, hdone, hrest⟩ := hraise (a.leave.setGenerator g (.stopped none))
        ((hw.modify g _).modify g _) (State.stands_setGenerator hrunning _)
        (.trans ⟨(s.butFor_setGenerator g .running).kept⟩ (a.leave.butFor_setGenerator g _))
    refine ⟨fault, t, ?_, hrest⟩
    rw [advanceWith_suspended _ hget hp, resumeWith, nested_eq]
    change (((d.rest k).resume.run.run e a).onState State.leave |>.andThen (settle g)).andThen _ = _
    rw [d.ends hk]
    exact hdone
  · have hsuspended : ∀ c, o.payload ≠ .generator (.suspended c) := by
      intro c hc
      cases hp.symm.trans hc
    obtain ⟨fault, t, hdone, hrest⟩ := hraise s hw hg (.of_kept id)
    refine ⟨fault, t, ?_, hrest⟩
    rw [advanceWith_refusal _ hget hsuspended, hp]
    exact hdone

end State.Stands

/-! ## 2. Loops -/

/-- **A generator at place `k` that can be asked.** -/
structure State.Dealing (s : State) (g : Handle) (d : Deal) (k : Nat) : Prop where
  requests : s.Requests
  room : s.callDepth < s.limits.callDepth
  stands : ∃ x : Generator, s.Stands g x ∧ d.At k x

/-- The items look like the values, from the first one on. -/
def Deal.Fills (d : Deal) (s : State) (items : List Handle) : Prop :=
  ∀ j h, items[j]? = some h → d.shows j s h

theorem Deal.Fills.snoc {items : List Handle} (hl : d.Fills s items)
    (hh : d.shows items.length s h) : d.Fills s (items ++ [h]) := by
  intro j k hj
  rcases Nat.lt_trichotomy j items.length with hlt | rfl | hgt
  · rw [List.getElem?_append_left hlt] at hj
    exact hl j k hj
  · rw [List.getElem?_concat_length] at hj
    cases hj
    exact hh
  · rw [List.getElem?_eq_none (by rw [List.length_append, List.length_singleton]; omega)] at hj
    cases hj

namespace State.Dealing

theorem of_next {r : Except Fault Handle} {y : Generator} {k' : Nat} (hs : s.Dealing g d k)
    (hrun : (next g).run.run (engine n) s = .done r t) (hb : s.ButFor g t) (hy : t.Stands g y)
    (hat : d.At k' y) : t.Dealing g d k' := by
  obtain ⟨x, hx, _⟩ := hs.stands
  refine ⟨⟨(composed_next (K := []) g).builds.orderly_done hs.requests.orderly hrun,
    hx.offers_of_kept hb.kept hs.requests.orderly hs.requests.iter nofun,
    hx.offers_of_kept hb.kept hs.requests.orderly hs.requests.next nofun⟩, ?_, y, hy, hat⟩
  rw [State.depth_of_done hrun, (State.steps_of_done hrun).limits_eq]
  exact hs.room

/-- `next` is a request, two levels down. -/
theorem run_next (hs : s.Dealing g d k) (n : Nat) :
    (next g).run.run (engine (n + 2)) s
      = (advanceWith (engine n) g s.enter).onState State.leave := by
  obtain ⟨x, hx, _⟩ := hs.stands
  exact hx.run_next (hx.answers hs.requests.orderly hs.requests.next) hs.room

theorem run_nextItem_value (hs : s.Dealing g d k) (hk : k < d.size) (n : Nat) :
    ∃ h t, (nextItem g).run.run (engine (n + 2)) s = .done (.ok (some h)) t ∧ d.shows k t h ∧
      t.Dealing g d (k + 1) ∧ s.ButFor g t := by
  obtain ⟨x, hx, hat⟩ := hs.stands
  obtain rfl := hat.resolve_right fun h => absurd h.1 (Nat.not_le.mpr hk)
  have hw : s.enter.heap.WellFormed := hs.requests.orderly.regular.heap
  obtain ⟨h, t, hdone, hshows, hstands, hb⟩ :=
    State.Stands.advance_value (s := s.enter) (hx.congr rfl) hw hk (engine n)
  have hnext : (next g).run.run (engine (n + 2)) s = .done (.ok h) t.leave := by
    rw [hs.run_next, hdone]
    rfl
  have hb : s.ButFor g t.leave := ⟨hb.kept⟩
  exact ⟨h, t.leave, run_nextItem_ok hnext, d.spared (s := t) (fun hget _ => hget) hshows,
    hs.of_next hnext hb (hstands.congr rfl) (Or.inl rfl), hb⟩

theorem run_nextItem_end (hs : s.Dealing g d k) (hk : d.size ≤ k) (n : Nat) :
    ∃ t, (nextItem g).run.run (engine (n + 2)) s = .done (.ok none) t ∧ t.Dealing g d k ∧
      s.ButFor g t := by
  obtain ⟨x, hx, hat⟩ := hs.stands
  have hw : s.enter.heap.WellFormed := hs.requests.orderly.regular.heap
  obtain ⟨fault, t, hdone, hcarries, hstands, hb⟩ :=
    State.Stands.advance_end (s := s.enter) (hx.congr rfl) hw hat hk (engine n)
  have hnext : (next g).run.run (engine (n + 2)) s = .done (.error fault) t.leave := by
    rw [hs.run_next, hdone]
    rfl
  have hb : s.ButFor g t.leave := ⟨hb.kept⟩
  have ht : t.leave.Dealing g d k := hs.of_next hnext hb (hstands.congr rfl) (Or.inr ⟨hk, rfl⟩)
  have hcarries : fault.Carries t.leave .stopIteration [] := hcarries.congr rfl
  exact ⟨t.leave, Run.run_nextItem_of_isStop hnext (hcarries.isStop ht.requests.orderly), ht, hb⟩

theorem fills {items : List Handle} (hs : s.Dealing g d k) (hb : s.ButFor g t)
    (hf : d.Fills s items) : d.Fills t items := by
  obtain ⟨x, hx, _⟩ := hs.stands
  exact fun j h hj => d.spared (hx.spared hb) (hf j h hj)

/-- **Draining**, by induction on the number of values that were handed out. -/
theorem handed (hs : s.Dealing g d 0) (n : Nat) (hk : k ≤ d.size) :
    ∃ items t, Handed (engine (n + 2)) g s items t ∧ items.length = k ∧ d.Fills t items ∧
      t.Dealing g d k ∧ s.ButFor g t := by
  induction k with
  | zero => exact ⟨[], s, .none, rfl, nofun, hs, .of_kept id⟩
  | succ k ih =>
    obtain ⟨items, t, hitems, rfl, hfills, ht, hb⟩ := ih (Nat.le_of_succ_le hk)
    obtain ⟨h, u, hnext, hh, hu, hb'⟩ := ht.run_nextItem_value hk n
    exact ⟨items ++ [h], u, .more hitems hnext, List.length_append, (ht.fills hb' hfills).snoc hh,
      hu, hb.trans hb'⟩

/-- **All items of an iterable** whose iterator deals out values. -/
theorem run_drain {c : Handle} (ht : t.Dealing g d 0)
    (hiter : (iter c).run.run (engine (n + 2)) s = .done (.ok g) t) (hn : d.size < n + 2) :
    ∃ items u, (ObjectModel.collect c).run.run (engine (n + 2)) s = .done (.ok items) u ∧
      items.length = d.size ∧ d.Fills u items ∧ t.ButFor g u := by
  obtain ⟨items, u, hitems, hlength, hfills, hu, hb⟩ := ht.handed n (Nat.le_refl d.size)
  obtain ⟨v, hend, _, hb'⟩ := hu.run_nextItem_end (Nat.le_refl d.size) n
  exact ⟨items, v, hitems.run_collect (hlength ▸ hn) hiter hend, hlength, hu.fills hb' hfills,
    hb.trans hb'⟩

end State.Dealing

end ObjectModel
