import ObjectModel.Proofs.References.Primitive

/-!
# The first state has no dangling references

The types and the singletons refer to each other in both directions, so soundness holds once all of
them are placed. From then on every new object refers to what is there already.

* `State.intact_initial` -- **the first state is intact**.
-/

namespace ObjectModel

/-! ## 1. Packed heaps -/

/-- A heap without free slots whose slots were filled once each. -/
structure Heap.Packed (heap : Heap) : Prop where
  wellFormed : heap.WellFormed
  free : heap.free = []
  filled : ∀ i, i < heap.slots.size → heap.contains (.first i) = true

namespace Heap.Packed

variable {heap : Heap}

theorem empty : Heap.empty.Packed := ⟨.empty, rfl, fun i hi => absurd hi (Nat.not_lt_zero i)⟩

/-- A new object goes behind all others. -/
theorem allocate (hp : heap.Packed) (object : Object) :
    (heap.allocate object).2.Packed ∧
    (heap.allocate object).2.slots.size = heap.slots.size + 1 := by
  have hsize : (heap.allocate object).2.slots.size = heap.slots.size + 1 := by
    rw [Heap.allocate_new hp.free, Array.size_push]
  refine ⟨⟨hp.wellFormed.allocate object, by rw [Heap.allocate_new hp.free], fun i hi => ?_⟩, hsize⟩
  rw [hsize] at hi
  refine (Heap.contains_allocate hp.wellFormed object _).mpr ?_
  rcases Nat.lt_succ_iff_lt_or_eq.mp hi with hi | rfl
  · exact Or.inr (hp.filled i hi)
  · exact Or.inl (by rw [Heap.allocate_new hp.free])

theorem modify (hp : heap.Packed) (h : Handle) (change : Object → Object) :
    (heap.modify h change).Packed := by
  have hsize : (heap.modify h change).slots.size = heap.slots.size := Array.size_modify ..
  refine ⟨hp.wellFormed.modify h change, hp.free, fun i hi => ?_⟩
  rw [Heap.contains_modify]
  exact hp.filled i (hsize ▸ hi)

end Heap.Packed

/-! ## 2. Building the first heap -/

namespace Bootstrap

section

variable {store : Heap}

theorem packed_place (hp : store.Packed) (objects : List Object) :
    (place objects store).Packed ∧
    (place objects store).slots.size = store.slots.size + objects.length := by
  induction objects generalizing store with
  | nil => exact ⟨hp, rfl⟩
  | cons object rest ih =>
    obtain ⟨hnew, hsize⟩ := hp.allocate object
    obtain ⟨hall, hall'⟩ := ih hnew
    refine ⟨hall, ?_⟩
    rw [List.length_cons, Nat.add_comm rest.length, ← Nat.add_assoc, ← hsize]
    exact hall'

theorem packed_furnish (hp : store.Packed) (owner : Handle) (name : String) (object : Object) :
    (furnish store owner name object).Packed :=
  (hp.allocate object).1.modify owner _

theorem get?_place (hp : store.Packed) {objects : List Object} {h : Handle} {o : Object}
    (hget : (place objects store).get? h = some o) : o ∈ objects ∨ store.get? h = some o := by
  induction objects generalizing store with
  | nil => exact Or.inr hget
  | cons object rest ih =>
    rcases ih (hp.allocate object).1 hget with ho | ho
    · exact Or.inl (List.mem_cons_of_mem _ ho)
    · rw [Heap.get?_allocate hp.wellFormed] at ho
      split at ho
      · cases ho
        exact Or.inl List.mem_cons_self
      · exact Or.inr ho

/-- A state with nothing but a heap. -/
def bare (heap : Heap) : State := ⟨heap, .empty, .empty, .broken, .standard, 0, .empty, 0⟩

/-- The types and the singletons refer to each other only. -/
theorem references_first :
    ∀ o ∈ types ++ singletons, ∀ r ∈ o.references, r.generation = 0 ∧ r.slot < 26 := by
  decide

theorem mem_first {h : Handle} {o : Object}
    (hget : (place singletons (place types .empty)).get? h = some o) : o ∈ types ++ singletons := by
  rcases get?_place (packed_place .empty types).1 hget with ho | hget
  · exact List.mem_append_right _ ho
  · rcases get?_place .empty hget with ho | hget
    · exact List.mem_append_left _ ho
    · simp [Heap.get?, Heap.empty] at hget

theorem sound_first : (bare (place singletons (place types .empty))).Sound := by
  obtain ⟨hp, hsize⟩ := packed_place .empty types
  obtain ⟨hp', hsize'⟩ := packed_place hp singletons
  have hlive : ∀ r : Handle, r.generation = 0 → r.slot < 26 →
      (bare (place singletons (place types .empty))).Live r := by
    rintro ⟨slot, generation⟩ rfl hr
    exact hp'.filled slot (by rw [hsize', hsize]; exact hr)
  refine ⟨fun {h o r} hget ho => ?_, fun {h} hroot => ?_⟩
  · obtain ⟨hg, hs⟩ := references_first o (mem_first hget) r (Object.mem_references_iff.mpr ho)
    exact hlive r hg hs
  · cases hroot with
    | type t =>
      refine hlive _ rfl ?_
      cases t with
      | exception kind => cases kind <;> decide
      | _ => decide
    | none | notImplemented | true | false => exact hlive _ rfl (by decide)
    | global hm => exact absurd hm List.not_mem_nil
    | pinned hm => exact absurd hm (Nat.lt_irrefl 0)
    | extra hm => exact absurd hm List.not_mem_nil

/-- A heap that is packed and sound. -/
structure Sturdy (store : Heap) : Prop where
  packed : store.Packed
  sound : (bare store).Sound

/-- An object whose references are builtin types only may be placed anywhere. -/
theorem live_code {name : String} {code : Code} (hs : (bare store).Sound) :
    ∀ r ∈ (Object.ofCode name code).references, (bare store).Live r := by
  intro r hr
  simp only [Object.references, Object.ofCode, Payload.references, OrderedMap.values_empty,
    List.append_nil, List.mem_cons, List.not_mem_nil, or_false] at hr
  exact hr ▸ hs.root (.type .function)

theorem live_text {text : String} (hs : (bare store).Sound) :
    ∀ r ∈ (Object.ofText text).references, (bare store).Live r := by
  intro r hr
  simp only [Object.references, Object.ofText, Payload.references, OrderedMap.values_empty,
    List.append_nil, List.mem_cons, List.not_mem_nil, or_false] at hr
  exact hr ▸ hs.root (.type .str)

theorem Sturdy.furnish (hs : Sturdy store) (owner : Handle) (name : String) {object : Object}
    (ho : ∀ r ∈ object.references, (bare store).Live r) :
    Sturdy (furnish store owner name object) := by
  refine ⟨packed_furnish hs.packed owner name object, ?_⟩
  have hnew : (bare store).allocate object
      = ((store.allocate object).1, bare (store.allocate object).2) := rfl
  have hplaced := hs.sound.allocate (s := bare store) hs.packed.wellFormed ho
  rw [hnew] at hplaced
  have hlive : (bare (store.allocate object).2).Live (store.allocate object).1 :=
    (Heap.contains_allocate hs.packed.wellFormed object _).mpr (Or.inl rfl)
  exact hplaced.setAttribute hlive

theorem Sturdy.allocate (hs : Sturdy store) {object : Object}
    (ho : ∀ r ∈ object.references, (bare store).Live r) : Sturdy (store.allocate object).2 :=
  ⟨(hs.packed.allocate object).1, hs.sound.allocate (s := bare store) hs.packed.wellFormed ho⟩

theorem Sturdy.root (hs : Sturdy store) {h : Handle} (hr : (bare store).IsRoot [] h) :
    store.contains h = true :=
  hs.sound.root hr

/-- A state with a sturdy heap and live global names, in which nothing is pinned. -/
theorem Sturdy.sound_of {s : State} (hs : Sturdy s.heap) (hp : s.pins = .empty)
    (hg : ∀ h ∈ s.globals.values, s.Live h) : s.Sound where
  stored := hs.sound.stored
  root := by
    intro h hroot
    cases hroot with
    | global hm => exact hg h (OrderedMap.mem_values.mpr ⟨_, hm⟩)
    | pinned hm =>
      rw [hp] at hm
      exact absurd hm (Nat.lt_irrefl 0)
    | extra hm => exact absurd hm List.not_mem_nil
    | _ => exact hs.sound.root (by constructor)

end

theorem sturdy_first : Sturdy (place singletons (place types .empty)) :=
  ⟨(packed_place (packed_place .empty types).1 singletons).1, sound_first⟩

theorem sturdy_furnished_heap : Sturdy furnished ∧ Sturdy heap :=
  heap_induction sturdy_first (fun _ owner name _ hs => hs.furnish owner name (live_text hs.sound))
    (fun _ owner name _ _ hs => hs.furnish owner name (live_code hs.sound)) fun _ _ _ hs =>
    hs.allocate (live_code hs.sound)

theorem sturdy_heap : Sturdy heap := sturdy_furnished_heap.2

theorem size_heap : heap.slots.size = furnished.slots.size + functions.length := by
  unfold heap
  exact (packed_place sturdy_furnished_heap.1.packed functions).2

theorem live_globals {h : Handle} (hh : h ∈ globals.values) : heap.contains h = true := by
  have hmem := OrderedMap.mem_values_ofList hh
  simp only [List.map_append, List.mem_append, List.map_map, List.map_cons, List.map_nil] at hmem
  rcases hmem with (hm | hm) | hm
  · obtain ⟨t, _, rfl⟩ := List.mem_map.mp hm
    exact sturdy_heap.root (.type t)
  · simp only [List.mem_cons, List.not_mem_nil, or_false] at hm
    rcases hm with rfl | rfl | rfl | rfl
    · exact sturdy_heap.root .none
    · exact sturdy_heap.root .notImplemented
    · exact sturdy_heap.root .true
    · exact sturdy_heap.root .false
  · obtain ⟨x, hx, rfl⟩ := List.mem_map.mp hm
    obtain ⟨⟨f, i⟩, hi, rfl⟩ := List.mem_map.mp hx
    refine sturdy_heap.packed.filled _ ?_
    have hlt : i < functions.length := by
      have := List.snd_lt_of_mem_zipIdx hi
      simpa [functions] using this
    rw [size_heap]
    exact Nat.add_lt_add_left hlt _

end Bootstrap

/-! ## 3. The state -/

/-- **The first state is intact.** -/
theorem State.intact_initial (limits : Limits) (console : Console) :
    (State.initial limits console).Intact := by
  refine ⟨regular_initial limits console, Bootstrap.Sturdy.sound_of ?_
    (pins_initial limits console) ?_⟩
  · rw [heap_initial]
    exact Bootstrap.sturdy_heap
  · intro h hh
    rw [globals_initial] at hh
    unfold Live
    rw [heap_initial]
    exact Bootstrap.live_globals hh

end ObjectModel
