import ObjectModel.Proofs.Run.Evaluation
import ObjectModel.Proofs.Types.BaseChain

/-!
# Well-typed heaps

The type of an object is a type, with one exception: `dict.__new__` takes anything for the type of
the mapping it makes.

* `State.well_typed` -- **the type of every object but a mapping is a type**; of every mapping too
  as long as all objects are made for types, and no longer.
-/

namespace ObjectModel

/-! ## 1. Instances of `object` -/

namespace Heap

variable {heap : Heap} {h : Handle} {o : Object} {bound : Nat}

theorem isInstance_eq (hget : heap.get? h = some o) (type : Handle) :
    heap.isInstance h type = (heap.chain o.type).map fun links => links.contains type := by
  simp only [isInstance, typeOf, isSubtype, hget, Option.bind_eq_bind, Option.bind_some,
    Option.pure_def]
  cases heap.chain o.type <;> rfl

/-- **An object is an instance of `object` exactly if its type is a type.** -/
theorem Orderly.isInstance_object_iff (ho : heap.Orderly bound) (hget : heap.get? h = some o) :
    heap.isInstance h BuiltinType.object.handle = some true ↔ heap.IsType o.type := by
  rw [isInstance_eq hget]
  constructor
  · intro hi
    cases htype : heap.get? o.type with
    | none =>
      rw [chain_of_stale (contains_of_get? hget) htype] at hi
      cases hi
    | some t =>
      cases hc : t.isType with
      | true => exact ⟨t, htype, hc⟩
      | false =>
        rw [chain_of_base_none htype (base_of_not_type hc)] at hi
        have hmem : BuiltinType.object.handle ∈ [o.type] :=
          List.contains_iff_mem.mp (Option.some.inj hi)
        rw [← List.mem_singleton.mp hmem]
        exact ho.isType_builtin .object
  · intro ht
    obtain ⟨links, hl, _⟩ := ho.lineage ht
    rw [hl.chain_eq]
    exact congrArg some (List.contains_iff_mem.mpr (List.mem_of_getLast? (ho.getLast?_eq hl)))

end Heap

/-! ## 2. Objects that are made for types -/

/-- An object that is made has a type for its type. -/
def Entry.Proper (x : Entry) : Prop :=
  match x.event with
  | .performed (.allocate o) s _ => s.heap.IsType o.type
  | _ => True

/-- Whether an entry is proper. -/
def Entry.proper (x : Entry) : Bool :=
  match x.event with
  | .performed (.allocate o) s _ => s.heap.IsType o.type
  | _ => true

theorem Entry.proper_iff (x : Entry) : x.proper = true ↔ x.Proper := by
  unfold proper Proper
  split
  · exact decide_eq_true_iff
  · exact iff_of_true rfl trivial

instance : DecidablePred Entry.Proper := fun x => decidable_of_iff _ x.proper_iff

/-- What a proper action leaves well typed. -/
theorem Action.wellTyped_of_perform {β : Type} {a : Action β} (e : Engine) (w : List Handle)
    {s : State} (hp : a.isPrimitive = true) (hs : s.Regular) (ht : s.heap.WellTyped)
    (hproper : Entry.Proper ⟨w, .performed a s (a.perform e s)⟩) :
    (a.perform e s).state.heap.WellTyped := by
  cases a.effect_of_perform e s hp with
  | same heq =>
    rw [heq]
    exact ht
  | made hmade heq =>
    rw [heq]
    cases a with
    | allocate o =>
      cases hmade
      exact ht.allocate hs.heap hproper
    | _ => cases hmade
  | changed hc heq =>
    rw [heq]
    exact ht.alike (Heap.alike_modify _ _ hc.alike)
  | collected _ heq =>
    rw [heq]
    exact ht.collect _

/-- An object that was not made for a type leaves an ill-typed heap. -/
theorem Entry.not_wellTyped_of_not_proper {x : Entry} (ht : x.event.Truthful)
    (hs : x.event.before.Orderly) (hs' : x.event.behind.Orderly) (hx : ¬ x.Proper) :
    ¬ x.event.behind.heap.WellTyped := by
  obtain ⟨w, event⟩ := x
  unfold Entry.Proper at hx
  split at hx
  · rename_i o s outcome heq
    cases heq
    obtain ⟨e, rfl⟩ := ht rfl
    have hw : s.heap.WellFormed := hs.regular.heap
    have hnew : (s.heap.allocate o).2.get? (s.heap.allocate o).1 = some o :=
      Heap.get?_allocate_self hw o
    intro hwell
    obtain ⟨t, hget, htype⟩ := hwell _ o hnew
    rcases Heap.get?_allocate_cases hw hget with ⟨_, rfl⟩ | hold
    · -- a type that is its own type would not have the type `type`
      obtain ⟨o', name, base, hget', hp⟩ := Heap.isType_iff.mp ⟨t, hget, htype⟩
      cases hget.symm.trans hget'
      have hkind : t.type = BuiltinType.type.handle := hs'.heap.kind hnew (by rw [hp]; rfl)
      rw [hkind] at hx
      exact hx (hs.heap.isType_builtin .type)
    · exact hx ⟨t, hold, htype⟩
  · exact absurd trivial hx

/-! ## 3. Sessions -/

section

variable {s : State}

/-- A session that makes objects for types only keeps its heap well typed. -/
theorem wellTyped_governs :
    (Contract.keeping fun s => s.Regular ∧ s.heap.WellTyped).Governs Entry.Proper :=
  Contract.keeping_governs
    (fun limits console => by
      refine ⟨State.regular_initial limits console, ?_⟩
      rw [State.heap_initial]
      exact (Bootstrap.tidy_furnished_heap 0).2.typed)
    (fun s hs => ⟨hs.1.step (.enter s), hs.2⟩)
    (fun s hs => ⟨hs.1.step (.leave s), hs.2⟩)
    (fun s g x hs => ⟨hs.1.step (.setGenerator s g x), hs.2.alike (s.alike_setGenerator g x)⟩)
    fun a e w s hp hs hproper => ⟨hs.1.steps (a.steps_of_perform e s hp),
      a.wellTyped_of_perform e w hp hs.1 hs.2 hproper⟩

/-- **Well-typed heaps**: in every state that a session passes through, the type of every object
that is no mapping is a type, and the instances of `object` are the objects whose type is a type. As
long as every object is made for a type the whole heap is well typed, and the first mapping that is
made for anything else leaves an ill-typed heap. -/
theorem State.well_typed (h : s.Reachable) :
    (∀ x o, s.heap.get? x = some o → (∀ entries, o.payload ≠ .dict entries) →
      s.heap.IsType o.type ∧ s.heap.isInstance x BuiltinType.object.handle = some true) ∧
    (∀ x o, s.heap.get? x = some o →
      (s.heap.isInstance x BuiltinType.object.handle = some true ↔ s.heap.IsType o.type)) ∧
    (s.ReachableBy Entry.Proper → s.heap.WellTyped) ∧
    (∀ (e : Script.Expr) (frame : Script.Frame) (n : Nat), ∀ x ∈ (e.eval.run.run frame).log n s,
      ¬ x.Proper → ¬ x.event.behind.heap.WellTyped) := by
  have hs := h.orderly
  refine ⟨fun x o hget hp => ?_, fun x o hget => hs.heap.isInstance_object_iff hget,
    fun hproper => (wellTyped_governs.reachable hproper).2, fun e frame n x hx hproper => ?_⟩
  · have ht := hs.heap.isType_of_not_dict hget hp
    exact ⟨ht, (hs.heap.isInstance_object_iff hget).mpr ht⟩
  · have hpasses := (construction_upheld fun _ => True).run n [] _ s _ hs (e.builds_eval frame s hs)
        fun _ _ => trivial
    obtain ⟨hbefore, hbehind⟩ := hpasses.visited x hx
    exact Entry.not_wellTyped_of_not_proper ((Passage.of_run n [] _ s).truthful x hx).2 hbefore
      hbehind hproper

end

/-- Defines a type and makes a mapping for it. -/
def makeMapping : List Script.Expr :=
  [.setLocal "A" (.defineType "A" none []),
    .setLocal "x" (.apply (.callMethod "__new__") (.builtinType .dict) [.name "A"])]

/-- Behind `dict.__new__(A)` with a type `A` that the session has defined: the heap is well typed,
the mapping is no type, and it is an instance of `object`. -/
theorem State.well_typed_of_new :
    ∃ (s : State) (type x : Handle) (o : Object), s.ReachableBy Entry.Proper ∧
      s.heap.get? type = some o ∧ o.payload = .type "A" (some BuiltinType.object.handle) ∧
      s.heap.get? x = some (.emptyDict type) ∧ s.heap.WellTyped ∧
      s.heap.isInstance x BuiltinType.object.handle = some true := by
  obtain ⟨frame, s, hs, type, -, x, -, ⟨o, htype, ho⟩, hx⟩ :=
    Session.exists_reached Entry.Proper .standard 1 makeMapping
      (fun frame s => ∃ type ∈ frame.locals.get? "A", ∃ x ∈ frame.locals.get? "x",
        (∃ o ∈ s.heap.get? type, o.payload.same (.type "A" (some BuiltinType.object.handle)) = true)
          ∧
        s.heap.Exhibits x (.emptyDict type)) (by decide +kernel)
  have hp := Payload.eq_of_same ho
  replace hx := hx.get?_eq
  obtain ⟨_, hinstance, htyped, _⟩ := State.well_typed (hs.mono fun _ _ => trivial)
  exact ⟨s, type, x, o, hs, htype, hp, hx, htyped hs,
    (hinstance x _ hx).mpr (Heap.isType_iff.mpr ⟨o, "A", _, htype, hp⟩)⟩

/-- **A state with an ill-typed object**: the mapping that `dict.__new__(5)` makes is no instance of
`object`. -/
theorem State.mapping_of_number :
    ∃ s : State, s.Reachable ∧ ∃ x o, s.heap.get? x = some o ∧ ¬ s.heap.IsType o.type ∧
      s.heap.isInstance x BuiltinType.object.handle = some false := by
  obtain ⟨frame, s, hs, x, -, o, hget, htype, hinstance⟩ :=
    Session.exists_reached (fun _ => True) .standard 1
      [.setLocal "x" (.apply (.callMethod "__new__") (.builtinType .dict) [.int 5])]
      (fun frame s => ∃ x ∈ frame.locals.get? "x", ∃ o ∈ s.heap.get? x, ¬ s.heap.IsType o.type ∧
        s.heap.isInstance x BuiltinType.object.handle = some false) (by decide +kernel)
  exact ⟨s, hs, x, o, hget, htype, hinstance⟩

end ObjectModel
