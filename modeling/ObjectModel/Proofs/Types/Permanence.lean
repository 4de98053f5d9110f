import ObjectModel.Proofs.Types.BaseChain

/-!
# What objects keep

An object may get other attributes, a mapping other entries, a generator another state. Nothing else
of an object ever changes.

* `State.objects_persist` -- **an object keeps its type, its base and its kind**, and its payload if
  it is neither a mapping nor a generator.
-/

namespace ObjectModel

/-! ## 1. Two stages of one object -/

namespace Payload

variable {p : Payload}

/-- Only mappings and generators have anything that changes. -/
theorem fixed_cases (p : Payload) :
    p.fixed = p ∨ (∃ entries, p = .dict entries) ∨ ∃ g, p = .generator g := by
  cases p with
  | dict entries => exact Or.inr (Or.inl ⟨entries, rfl⟩)
  | generator g => exact Or.inr (Or.inr ⟨g, rfl⟩)
  | _ => exact Or.inl rfl

theorem fixed_eq_dict {entries : OrderedMap Handle} (h : p.fixed = .dict entries) :
    ∃ entries', p = .dict entries' := by
  cases p with
  | dict entries' => exact ⟨entries', rfl⟩
  | _ => cases h

theorem fixed_eq_generator {g : Generator} (h : p.fixed = .generator g) :
    ∃ g', p = .generator g' := by
  cases p with
  | generator g' => exact ⟨g', rfl⟩
  | _ => cases h

end Payload

namespace Object.Alike

variable {o o' o'' : Object}

theorem trans (h : o.Alike o') (h' : o'.Alike o'') : o.Alike o'' :=
  ⟨h'.type_eq.trans h.type_eq, h'.fixed_eq.trans h.fixed_eq⟩

/-- The payload stays, but for the storage of a mapping and the state of a generator. -/
theorem payload_cases (h : o.Alike o') :
    o'.payload = o.payload ∨
      (∃ entries entries', o.payload = .dict entries ∧ o'.payload = .dict entries') ∨
      ∃ g g', o.payload = .generator g ∧ o'.payload = .generator g' := by
  have hfixed := h.fixed_eq
  rcases o.payload.fixed_cases with hp | ⟨entries, hp⟩ | ⟨g, hp⟩
  · rcases o'.payload.fixed_cases with hp' | ⟨entries', hp'⟩ | ⟨g', hp'⟩
    · exact Or.inl (hp'.symm.trans (hfixed.trans hp))
    · rw [hp', hp] at hfixed
      exact Or.inr (Or.inl ⟨.empty, entries', hfixed.symm, hp'⟩)
    · rw [hp', hp] at hfixed
      exact Or.inr (Or.inr ⟨.running, g', hfixed.symm, hp'⟩)
  · rw [hp] at hfixed
    obtain ⟨entries', hp'⟩ := Payload.fixed_eq_dict hfixed
    exact Or.inr (Or.inl ⟨entries, entries', hp, hp'⟩)
  · rw [hp] at hfixed
    obtain ⟨g', hp'⟩ := Payload.fixed_eq_generator hfixed
    exact Or.inr (Or.inr ⟨g, g', hp, hp'⟩)

theorem payload_function {label : String} {code : Code} (h : o.Alike o')
    (hp : o.payload = .function label code) : o'.payload = .function label code := by
  rcases h.payload_cases with hp' | ⟨_, _, hdict, _⟩ | ⟨_, _, hgenerator, _⟩
  · exact hp'.trans hp
  · cases hp.symm.trans hdict
  · cases hp.symm.trans hgenerator

theorem kindName_eq (h : o.Alike o') : o'.payload.kindName = o.payload.kindName := by
  rcases h.payload_cases with hp | ⟨_, _, hp, hp'⟩ | ⟨_, _, hp, hp'⟩
  · rw [hp]
  · rw [hp, hp']
    rfl
  · rw [hp, hp']
    rfl

theorem base_eq (h : o.Alike o') : o'.base = o.base := by
  unfold Object.base
  rcases h.payload_cases with hp | ⟨_, _, hp, hp'⟩ | ⟨_, _, hp, hp'⟩
  · rw [hp]
  · rw [hp, hp']
  · rw [hp, hp']

theorem tupleItems_eq (h : o.Alike o') : o'.tupleItems = o.tupleItems := by
  unfold Object.tupleItems
  rcases h.payload_cases with hp | ⟨_, _, hp, hp'⟩ | ⟨_, _, hp, hp'⟩
  · rw [hp]
  · rw [hp, hp']
  · rw [hp, hp']

end Object.Alike

theorem Object.payload_of_tupleItems {o : Object} {items : List Handle}
    (h : o.tupleItems = some items) : o.payload = .tuple items := by
  unfold Object.tupleItems at h
  split at h
  · rename_i hp
    cases h
    exact hp
  · cases h

theorem Heap.typeName_of_type {heap : Heap} {x : Handle} {o : Object} {name : String}
    {base : Option Handle} (hget : heap.get? x = some o) (hp : o.payload = .type name base) :
    heap.typeName x = some name := by
  obtain ⟨fuel, hfuel⟩ := Heap.exists_fuel (Heap.contains_of_get? hget)
  simp only [Heap.typeName, hfuel, Heap.typeNameFrom, hget, hp, Option.bind_eq_bind,
    Option.bind_some, Option.pure_def]

/-! ## 2. Steps -/

namespace State

variable {s t : State} {x : Handle} {o o' : Object}

/-- **What a step does to the heap**: it takes objects to another stage, makes one, or collects what
no root leads to. -/
theorem Step.heap_stages (h : s.Step t) :
    s.heap.Alike t.heap ∨ (∃ object, t.heap = (s.heap.allocate object).2) ∨
      ∃ extra, t.heap = (s.heap.collect (s.roots extra)).2 := by
  have hsame : s.heap.Alike s.heap :=
    ⟨fun {_ o} ho => ⟨o, ho, .refl o⟩, fun {_ o} ho => ⟨o, ho, .refl o⟩⟩
  cases h with
  | change hc =>
    cases hc with
    | allocate object => exact Or.inr (Or.inl ⟨object, rfl⟩)
    | setAttribute k name value =>
      exact Or.inl
        (Heap.alike_modify _ k (Object.Steady.attributes fun m => m.insert name value).alike)
    | eraseAttribute k name =>
      exact Or.inl (Heap.alike_modify _ k (Object.Steady.attributes fun m => m.erase name).alike)
    | modifyEntries k change =>
      exact Or.inl (Heap.alike_modify _ k (Object.Steady.entries change).alike)
    | setGlobal | setShared | pin | unpin | console => exact Or.inl hsame
    | collect extra =>
      unfold State.collect
      split
      · exact Or.inl hsame
      · exact Or.inr (Or.inr ⟨extra, rfl⟩)
  | setGenerator k g => exact Or.inl (s.alike_setGenerator k g)
  | enter | leave => exact Or.inl hsame

theorem Step.alike (h : s.Step t) (hw : s.heap.WellFormed) (hget : s.heap.get? x = some o)
    (hget' : t.heap.get? x = some o') : o.Alike o' := by
  rcases h.heap_stages with halike | ⟨object, he⟩ | ⟨extra, he⟩
  · obtain ⟨o₁, ho₁, hstage⟩ := halike.kept hget
    cases ho₁.symm.trans hget'
    exact hstage
  · rw [he, Heap.get?_allocate_of_live hw hget] at hget'
    cases hget'
    exact .refl o
  · rw [he] at hget'
    cases hget.symm.trans (Heap.get?_of_collect hget').1
    exact .refl o

/-- A handle that goes stale is never given out again, so what is live at both ends of a chain of
steps is live all the time. -/
theorem Steps.live_between {u : State} (h : s.Steps u) (h' : u.Steps t) (hw : s.heap.WellFormed)
    (hs : s.heap.contains x = true) (ht : t.heap.contains x = true) : u.heap.contains x = true := by
  refine Classical.byContradiction fun hn => ?_
  exact Steps.not_contains h' (Steps.wellFormed h hw) (Steps.taken h (hw.taken hs)) hn ht

/-- **An object that is there at both ends of a chain of steps is the same at another stage.** -/
theorem Steps.alike (h : s.Steps t) (hw : s.heap.WellFormed) (hget : s.heap.get? x = some o)
    (hget' : t.heap.get? x = some o') : o.Alike o' := by
  induction h generalizing o' with
  | refl =>
    cases hget.symm.trans hget'
    exact .refl o
  | tail hsteps hstep ih =>
    rename_i u v
    have hlive := Steps.live_between hsteps hstep.steps hw (Heap.contains_of_get? hget)
        (Heap.contains_of_get? hget')
    obtain ⟨o₁, ho₁⟩ := Heap.contains_iff.mp hlive
    exact (ih ho₁).trans (hstep.alike (Steps.wellFormed hsteps hw) ho₁ hget')

/-- What comes later than `s`: all that programs pass through which are run one after another from
`s` on. -/
inductive Onward (s : State) : State → Prop where
  | now : Onward s s
  | before {t : State} {α : Type} {p : Program α} {n : Nat} {x : Entry} : Onward s t →
      x ∈ p.log n t → Onward s x.event.before
  | behind {t : State} {α : Type} {p : Program α} {n : Nat} {x : Entry} : Onward s t →
      x ∈ p.log n t → Onward s x.event.behind
  | run {t : State} {α : Type} (p : Program α) (n : Nat) : Onward s t →
      Onward s (p.run (engine n) t).state

theorem Onward.steps (h : s.Onward t) : s.Steps t := by
  induction h with
  | now => exact .refl
  | before _ hx ih => exact ih.trans (steps_of_log _ _ _ hx).1
  | behind _ hx ih => exact ih.trans (steps_of_log _ _ _ hx).2
  | run p n _ ih => exact ih.trans (steps_of_run p n _)

/-! ## 3. What an object keeps -/

/-- **Objects persist**: an object that is there now and later keeps its type, its base and its
kind, however many programs are run in between. Its payload stays as it is, but for the storage of a
mapping and the state of a generator: a tuple keeps its items, under whichever attribute it was
found, and a type its name and its base. -/
theorem objects_persist (hs : s.Reachable) (hst : s.Onward t) (hget : s.heap.get? x = some o)
    (hget' : t.heap.get? x = some o') :
    o'.type = o.type ∧ o'.base = o.base ∧ o'.payload.kindName = o.payload.kindName ∧
    (o'.payload = o.payload ∨
      (∃ entries entries', o.payload = .dict entries ∧ o'.payload = .dict entries') ∨
      ∃ g g', o.payload = .generator g ∧ o'.payload = .generator g') ∧
    (∀ holder name items, s.heap.ownAttribute holder name = some (some x) →
      s.heap.tupleAttribute holder name = some (some items) → o'.payload = .tuple items) ∧
    ∀ name base, o.payload = .type name base → o'.payload = .type name base ∧
      t.heap.typeName x = some name := by
  have halike : o.Alike o' := hst.steps.alike hs.regular.heap hget hget'
  refine ⟨halike.type_eq, halike.base_eq, halike.kindName_eq, halike.payload_cases,
    fun holder name items hown hitems => ?_, fun name base hp => ?_⟩
  · have hitems : o.tupleItems = some items := by
      simp only [Heap.tupleAttribute, hown, hget, Option.bind_eq_bind, Option.bind_some,
        Option.pure_def] at hitems
      exact Option.some.inj hitems
    exact Object.payload_of_tupleItems (halike.tupleItems_eq.trans hitems)
  · have hp' := halike.payload_type hp
    exact ⟨hp', Heap.typeName_of_type hget' hp'⟩

theorem run_setAttribute (hlive : s.heap.contains x = true) (name : String) (value : Handle)
    (e : Engine) :
    (ObjectModel.setAttribute x name value).run.run e s
      = .done (.ok ()) (s.setAttribute x name value) := by
  change (Program.perform (.setAttribute x name value) _).run e s = _
  simp only [Program.run_perform, Action.perform, whenLive, hlive, if_true, Outcome.andThen_done]
  rfl

/-- Writing an attribute, as a program. -/
theorem onward_setAttribute (hget : s.heap.get? x = some o) (name : String) (value : Handle) :
    s.Onward (s.setAttribute x name value) := by
  have hrun := Onward.run (s := s) (ObjectModel.setAttribute x name value).run 0 .now
  rw [run_setAttribute (Heap.contains_of_get? hget)] at hrun
  exact hrun

/-- A type keeps its name even if another one is written into its attributes. -/
theorem objects_persist_renamed :
    ∃ (s t : State) (o o' : Object), s.Reachable ∧ s.Onward t ∧
      s.heap.get? BuiltinType.list.handle = some o ∧
      t.heap.get? BuiltinType.list.handle = some o' ∧ o'.attributes.get? "__name__" = some .none ∧
      o'.payload = .type "list" (some BuiltinType.object.handle) ∧
      t.heap.typeName BuiltinType.list.handle = some "list" := by
  have hs : (State.initial .standard (.ofLines [])).Reachable := .between .start
  obtain ⟨o, hget, hp⟩ := hs.orderly.heap.builtin .list
  have hcoherent : o.attributes.Coherent := by
    rw [heap_initial] at hget
    exact (Bootstrap.tidy_furnished_heap 0).2.coherent hget
  have hst := onward_setAttribute hget "__name__" .none
  have hget' := get?_setAttribute_self hget "__name__" .none
  obtain ⟨_, _, _, _, _, htype⟩ := objects_persist hs hst hget hget'
  exact ⟨_, _, o, _, hs, hst, hget,
    hget', by rw [hcoherent.get?_insert, if_pos rfl], htype "list" _ hp⟩

end State

end ObjectModel
