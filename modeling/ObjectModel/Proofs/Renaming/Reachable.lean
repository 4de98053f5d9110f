import ObjectModel.Proofs.Renaming.Machine
import ObjectModel.Proofs.Types.Script

/-!
# Sessions keep to handles that were given out

Whatever a session stores, in objects, under names or in suspended computations, is a handle that
was given out before. Said with lockstep: run beside itself, a session keeps similar to itself under
the identity of the handles that were given out.

* `State.ReachableBy.similar` -- **every state that a session passes through is similar to itself in
  this way**.
-/

namespace ObjectModel

/-! ## 1. The identity -/

/-- The mode in which a run is compared with itself. -/
def Mode.identical : Mode := ⟨True, fun _ => False, fun _ _ h => h⟩

/-- The identity of the handles that were given out. -/
def Renaming.given (heap : Heap) (hknown : ∀ {h : Handle}, Known [] h → heap.Taken h) :
    Renaming where
  rel a b := a = b ∧ heap.Taken a
  unique := ⟨fun _ _ _ h h' => h.1.trans h'.1.symm, fun _ _ _ h h' => h.1.symm.trans h'.1⟩
  fixed hk := ⟨rfl, hknown hk⟩

/-! ## 2. The first state -/

namespace Bootstrap

/-- Generators are made later. -/
theorem payload_first : ∀ o ∈ types ++ singletons, o.isGenerator = false := by decide

/-- A heap without generators. -/
structure Passive (store : Heap) : Prop where
  wellFormed : store.WellFormed
  passive : ∀ {h : Handle} {o : Object}, store.get? h = some o → o.isGenerator = false

theorem Passive.allocate {store : Heap} (hs : Passive store) {object : Object}
    (ho : object.isGenerator = false) : Passive (store.allocate object).2 := by
  refine ⟨hs.wellFormed.allocate object, fun hget => ?_⟩
  rw [Heap.get?_allocate hs.wellFormed] at hget
  split at hget
  · cases hget
    exact ho
  · exact hs.passive hget

theorem Passive.furnish {store : Heap} (hs : Passive store) (owner : Handle) (name : String)
    {object : Object} (ho : object.isGenerator = false) :
    Passive (furnish store owner name object) := by
  have hnew := hs.allocate ho
  refine ⟨hnew.wellFormed.modify owner _, fun {h o} hget => ?_⟩
  unfold Bootstrap.furnish at hget
  rw [Heap.get?_modify] at hget
  split at hget
  · obtain ⟨o', hget', rfl⟩ := Option.map_eq_some_iff.mp hget
    have hpassive := hnew.passive hget'
    exact hpassive
  · exact hnew.passive hget

theorem passive_heap : Passive heap :=
  (heap_induction ⟨wellFormed_place (wellFormed_place .empty types) singletons, fun hget =>
    payload_first _ (mem_first hget)⟩ (fun _ owner name _ hs => hs.furnish owner name rfl)
    (fun _ owner name _ _ hs => hs.furnish owner name rfl) fun _ _ _ hs => hs.allocate rfl).2

end Bootstrap

namespace State

theorem shared_initial (limits : Limits) (console : Console) :
    (State.initial limits console).shared = .empty := by
  unfold initial
  with_reducible rfl

/-- A state without generators, pins and shared names is similar to itself. -/
theorem Intact.similar {s : State} (hs : s.Intact) (ho : s.Orderly)
    (hpassive : Bootstrap.Passive s.heap) (hpins : s.pins = .empty) (hshared : s.shared = .empty) :
    ∃ ρ, s.Similar .identical ρ s := by
  have htaken : ∀ {h : Handle}, s.Live h → s.heap.Taken h := fun hl => hs.regular.heap.taken hl
  have hknown : ∀ {h : Handle}, Known [] h → s.heap.Taken h :=
    fun hk => htaken (hk.live hs.sound (List.forall_mem_nil _))
  have hgenerator : ∀ {h : Handle} {o : Object}, s.heap.get? h = some o →
      ∀ g, o.payload ≠ .generator g := by
    intro h o hget g hp
    have hfalse := hpassive.passive hget
    rw [Object.isGenerator, hp] at hfalse
    cases hfalse
  refine ⟨.given s.heap hknown, ?_, ?_, ?_, ?_, rfl, rfl, rfl, fun _ => ⟨rfl, fun _ _ hab => hab.1⟩,
    fun _ _ ht => ⟨rfl, ht⟩⟩
  · refine ⟨hs.regular.heap, hs.regular.heap, fun h ht => ?_, ho.heap.isType_builtin .object,
      fun hab => hab.2, fun hab => hab.1 ▸ hab.2, ?_⟩
    · obtain ⟨links, hl, _⟩ := ho.heap.lineage ht
      exact ⟨links, hl⟩
    · rintro a b ⟨rfl, ht⟩
      cases hget : s.heap.get? a with
      | none => exact .none
      | some o =>
        exact .some (.refl (fun r hr => ⟨rfl, htaken (hs.sound.live_references hget hr)⟩)
          (hgenerator hget))
  · refine .refl fun h hm => ⟨rfl, htaken (hs.sound.root ?_)⟩
    obtain ⟨name, hmem⟩ := OrderedMap.mem_values.mp hm
    exact .global hmem
  · rw [hpins]
    exact .nil
  · rw [hshared]
    exact .empty

/-- **The first state is similar to itself.** -/
theorem similar_initial (limits : Limits) (console : Console) :
    ∃ ρ, (State.initial limits console).Similar .identical ρ (State.initial limits console) := by
  refine (State.intact_initial limits console).similar (orderly_initial limits console) ?_
    (pins_initial limits console) (shared_initial limits console)
  rw [heap_initial]
  exact Bootstrap.passive_heap

end State

/-! ## 3. Sessions -/

section

variable {admits : Entry → Prop} {limits : Limits} {console : Console} {frame : Script.Frame}
  {s : State} {ρ : Renaming}

/-- An expression is evaluated beside itself. -/
theorem lockstep_identical (hs : s.Similar .identical ρ s)
    (hframe : frame.Matches (Mode.identical.Loose ρ) frame) (e : Script.Expr) (n : Nat) :
    ((e.eval.run.run frame).run (engine n) s).Agrees .identical
        (fun σ r r' => Answers (Script.Use.dropped.Relates .identical) σ r.1 r'.1 ∧
          r.2.Matches (Mode.identical.Loose σ) r'.2) ρ s s
        ((e.eval.run.run frame).run (engine n) s) ∧
      ∀ x ∈ (e.eval.run.run frame).log n s, Mode.identical.Tidy x.event.before ∧
        Mode.identical.Tidy x.event.behind := by
  obtain ⟨ho, htidy⟩ := e.lockstep_eval (S := Mode.identical.setting n) .dropped
      (Or.inl trivial) ρ frame frame hframe s s hs fun _ _ => Or.inl trivial
  exact ⟨ho, htidy trivial⟩

/-- **Between two expressions the state is similar to itself**, and the frame names handles that
were given out. -/
theorem Session.Reaches.similar (h : Session.Reaches admits limits console frame s) :
    ∃ ρ, s.Similar .identical ρ s ∧ frame.Matches (Mode.identical.Loose ρ) frame := by
  induction h with
  | start =>
    obtain ⟨ρ, hs⟩ := State.similar_initial limits console
    exact ⟨ρ, hs, .nil, .empty⟩
  | step n e outcome _ _ hrun ih =>
    obtain ⟨ρ, hs, hframe⟩ := ih
    have ho := (lockstep_identical hs hframe e n).1
    rw [hrun] at ho
    cases ho with
    | done _ ht hr => exact ⟨_, ht, hr.2⟩

theorem State.ReachableBy.tidy (h : s.ReachableBy admits) : Mode.identical.Tidy s := by
  cases h with
  | between h =>
    obtain ⟨ρ, hs, _⟩ := h.similar
    exact ⟨ρ, hs⟩
  | before h _ hx =>
    obtain ⟨ρ, hs, hframe⟩ := h.similar
    exact ((lockstep_identical hs hframe _ _).2 _ hx).1
  | behind h _ hx =>
    obtain ⟨ρ, hs, hframe⟩ := h.similar
    exact ((lockstep_identical hs hframe _ _).2 _ hx).2

end

end ObjectModel
