import ObjectModel.Proofs.Collection

/-!
# States without dangling references

A state is sound if every handle that it stores names a live object.

* `State.Sound.collect` -- a collection keeps a state sound, whatever the extra roots are.
-/

namespace ObjectModel

/-! ## 1. Sound states -/

namespace State

/-- `h` names an object. -/
abbrev Live (s : State) (h : Handle) : Prop := s.heap.contains h = true

/-- **No dangling references.** -/
structure Sound (s : State) : Prop where
  /-- What a live object refers to is live. -/
  stored : ∀ {h : Handle} {o : Object} {r : Handle}, s.heap.get? h = some o → o.Refers r → s.Live r
  /-- The builtin types, the singletons, the values of global names and the pinned handles are
  live. -/
  root : ∀ {h : Handle}, s.IsRoot [] h → s.Live h

variable {s s' : State} {h : Handle} {o : Object}

theorem Sound.live_references (hs : s.Sound) (hget : s.heap.get? h = some o) {r : Handle}
    (hr : r ∈ o.references) : s.Live r :=
  hs.stored hget (Object.mem_references_iff.mp hr)

/-- The roots hang on the global names and the pins alone. -/
theorem IsRoot.congr {extra : List Handle} (h' : s'.IsRoot extra h) (hg : s'.globals = s.globals)
    (hp : s'.pins = s.pins) : s.IsRoot extra h := by
  cases h' with
  | global hm => exact .global (hg ▸ hm)
  | pinned hm => exact .pinned (hp ▸ hm)
  | extra hm => exact .extra hm
  | _ => constructor

theorem IsRoot.weaken {extra : List Handle} (h' : s.IsRoot [] h) : s.IsRoot extra h := by
  cases h' with
  | global hm => exact .global hm
  | pinned hm => exact .pinned hm
  | extra hm => exact absurd hm List.not_mem_nil
  | _ => constructor

/-! ## 2. What keeps a state sound -/

namespace Sound

theorem allocate (hs : s.Sound) (hw : s.heap.WellFormed) (ho : ∀ r ∈ o.references, s.Live r) :
    (s.allocate o).2.Sound where
  stored := by
    intro h p r hget hr
    refine (Heap.contains_allocate hw o r).mpr (Or.inr ?_)
    have hget : (s.heap.allocate o).2.get? h = some p := hget
    rw [Heap.get?_allocate hw] at hget
    split at hget
    · cases hget
      exact ho r (Object.mem_references_iff.mpr hr)
    · exact hs.stored hget hr
  root := fun h => (Heap.contains_allocate hw o _).mpr (Or.inr (hs.root (h.congr rfl rfl)))

theorem modify (hs : s.Sound) {change : Object → Object}
    (hc : ∀ o, s.heap.get? h = some o → ∀ r ∈ (change o).references, s.Live r) :
    (s.modify h change).Sound where
  stored := by
    intro k p r hget hr
    refine (Heap.contains_modify s.heap h change r).trans ?_
    have hget : (s.heap.modify h change).get? k = some p := hget
    rw [Heap.get?_modify] at hget
    split at hget
    · rename_i hk
      obtain ⟨o, ho, rfl⟩ := Option.map_eq_some_iff.mp hget
      exact hc o (hk ▸ ho) r (Object.mem_references_iff.mpr hr)
    · exact hs.stored hget hr
  root := fun h => (Heap.contains_modify s.heap _ _ _).trans (hs.root (h.congr rfl rfl))

theorem setAttribute (hs : s.Sound) {name : String} {value : Handle} (hv : s.Live value) :
    (s.setAttribute h name value).Sound := by
  refine hs.modify fun o ho r hr => ?_
  rcases List.mem_append.mp hr with hr | hr
  · rcases List.mem_cons.mp hr with rfl | hr
    · exact hs.stored ho .type
    · rcases OrderedMap.mem_values_insert hr with rfl | hr
      · exact hv
      · exact hs.live_references ho (List.mem_append_left _ (List.mem_cons_of_mem _ hr))
  · exact hs.live_references ho (List.mem_append_right _ hr)

theorem eraseAttribute (hs : s.Sound) {name : String} : (s.eraseAttribute h name).Sound := by
  refine hs.modify fun o ho r hr => ?_
  rcases List.mem_append.mp hr with hr | hr
  · rcases List.mem_cons.mp hr with rfl | hr
    · exact hs.stored ho .type
    · exact hs.live_references ho
        (List.mem_append_left _ (List.mem_cons_of_mem _ (OrderedMap.mem_values_erase hr)))
  · exact hs.live_references ho (List.mem_append_right _ hr)

theorem modifyPayload (hs : s.Sound) {change : Object → Object}
    (htype : ∀ o, (change o).type = o.type) (hattr : ∀ o, (change o).attributes = o.attributes)
    (hc : ∀ o, s.heap.get? h = some o → ∀ r ∈ (change o).payload.references, s.Live r) :
    (s.modify h change).Sound := by
  refine hs.modify fun o ho r hr => ?_
  unfold Object.references at hr
  rw [htype, hattr] at hr
  rcases List.mem_append.mp hr with hr | hr
  · exact hs.live_references ho (List.mem_append_left _ hr)
  · exact hc o ho r hr

theorem modifyEntries (hs : s.Sound) {change : OrderedMap Handle → OrderedMap Handle}
    (hc : ∀ entries, ∀ r ∈ (change entries).values, s.Live r ∨ r ∈ entries.values) :
    (s.modifyEntries h change).Sound := by
  refine hs.modifyPayload (fun o => ?_) (fun o => ?_) fun o ho r hr => ?_
  · split <;> rfl
  · split <;> rfl
  · split at hr
    · rename_i entries hp
      rcases hc entries r hr with hr | hr
      · exact hr
      · refine hs.live_references ho (List.mem_append_right _ ?_)
        rw [hp]
        exact hr
    · exact hs.live_references ho (List.mem_append_right _ hr)

theorem setGenerator (hs : s.Sound) {g : Generator}
    (hg : ∀ r ∈ (Payload.generator g).references, s.Live r) : (s.setGenerator h g).Sound := by
  refine hs.modifyPayload (fun o => ?_) (fun o => ?_) fun o ho r hr => ?_
  · split <;> rfl
  · split <;> rfl
  · split at hr
    · exact hg r hr
    · exact hs.live_references ho (List.mem_append_right _ hr)

theorem setGlobal (hs : s.Sound) {name : String} {value : Handle} (hv : s.Live value) :
    ({ s with globals := s.globals.insert name value } : State).Sound where
  stored := hs.stored
  root := by
    intro h hr
    cases hr with
    | global hm =>
      rcases OrderedMap.mem_values_insert (OrderedMap.mem_values.mpr ⟨_, hm⟩) with rfl | hm
      · exact hv
      · obtain ⟨key, hm⟩ := OrderedMap.mem_values.mp hm
        exact hs.root (.global hm)
    | pinned hm => exact hs.root (.pinned hm)
    | extra hm => exact absurd hm List.not_mem_nil
    | _ => exact hs.root (by constructor)

theorem setPins (hs : s.Sound) {pins : Pins}
    (hp : ∀ h, 0 < pins.count h → s.Live h ∨ 0 < s.pins.count h) :
    ({ s with pins } : State).Sound where
  stored := hs.stored
  root := by
    intro h hr
    cases hr with
    | pinned hm =>
      rcases hp h hm with hl | hm
      · exact hl
      · exact hs.root (.pinned hm)
    | global hm => exact hs.root (.global hm)
    | extra hm => exact absurd hm List.not_mem_nil
    | _ => exact hs.root (by constructor)

/-- What the state keeps besides the heap, the global names and the pins does not matter. -/
theorem congr (hs : s.Sound) (hh : s'.heap = s.heap) (hg : s'.globals = s.globals)
    (hp : s'.pins = s.pins) : s'.Sound where
  stored := by
    unfold Live
    rw [hh]
    exact hs.stored
  root := by
    unfold Live
    rw [hh]
    exact fun hr => hs.root (hr.congr hg hp)

/-- **A collection keeps a state sound**: what an object that stays refers to stays as well. -/
theorem collect (hs : s.Sound) (hr : s.Regular) (extra : List Handle) :
    (s.collect extra).2.Sound := by
  by_cases hd : 0 < s.callDepth
  · unfold State.collect
    rw [if_pos hd]
    exact hs
  obtain ⟨heq, hc⟩ := hr.collected (Nat.eq_zero_of_not_pos hd) extra
  rw [heq]
  refine ⟨fun {h o r} hget ho => (hc.live_iff r).mpr ?_, fun {h} hroot => (hc.live_iff h).mpr ?_⟩
  · have hkept := Heap.contains_of_get? hget
    rw [hc.get?_eq h hkept] at hget
    exact ⟨hs.stored hget ho, .step ((hc.live_iff h).mp hkept).2 hget ho⟩
  · have hroot : s.IsRoot [] h := hroot.congr rfl rfl
    exact ⟨hs.root hroot, .root hroot.weaken⟩

end Sound

end State

end ObjectModel
