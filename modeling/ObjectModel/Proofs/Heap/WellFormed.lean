import ObjectModel.Heap

/-!
# Well-formed heaps

What the three operations on a heap do to its objects, and the invariant that they keep.

* `Heap.WellFormed.allocate`, `Heap.WellFormed.modify`, `Heap.WellFormed.sweep` -- every operation
  keeps it.
-/

namespace ObjectModel

namespace Slot

theorem occupied_iff {slot : Slot} : slot.occupied = true ↔ ∃ o, slot.object = some o :=
  Option.isSome_iff_exists

theorem vacant_iff {slot : Slot} : slot.occupied = false ↔ slot.object = none :=
  Option.isSome_eq_false_iff.trans (by simp)

@[simp] theorem object_vacate (slot : Slot) : slot.vacate.object = none := rfl

@[simp] theorem occupied_vacate (slot : Slot) : slot.vacate.occupied = false := rfl

theorem generation_le_vacate (slot : Slot) : slot.generation ≤ slot.vacate.generation := by
  unfold vacate
  split <;> simp

/-- A slot that may be filled again moves on to a later generation. -/
theorem generation_lt_vacate {slot : Slot} (h : slot.reusable = true) :
    slot.generation < slot.vacate.generation := by
  simp [vacate, h]

/-- No slot moves past the last generation. -/
theorem vacate_generation_le {slot : Slot} (h : slot.generation ≤ lastGeneration) :
    slot.vacate.generation ≤ lastGeneration := by
  unfold vacate
  by_cases hr : slot.reusable = true
  · have hlt : slot.generation < lastGeneration := of_decide_eq_true hr
    rw [if_pos hr]
    exact hlt
  · rw [if_neg hr]
    exact h

end Slot

namespace Heap

variable {heap : Heap} {h k : Handle} {o object : Object} {i : Nat} {slot : Slot}
  {marked : Array Bool}

/-! ## 1. Looking up -/

theorem get?_eq_some_iff :
    heap.get? h = some o ↔
      ∃ slot, heap.slots[h.slot]? = some slot ∧ slot.generation = h.generation ∧
        slot.object = some o := by
  unfold get?
  cases hs : heap.slots[h.slot]? with
  | none => simp
  | some slot => by_cases hg : slot.generation = h.generation <;> simp [hg]

theorem contains_iff : heap.contains h = true ↔ ∃ o, heap.get? h = some o :=
  Option.isSome_iff_exists

theorem contains_of_get? (hget : heap.get? h = some o) : heap.contains h = true :=
  contains_iff.mpr ⟨o, hget⟩

theorem not_contains_iff : ¬ heap.contains h = true ↔ heap.get? h = none := by
  unfold contains
  cases heap.get? h <;> simp

theorem contains_iff_slot :
    heap.contains h = true ↔
      ∃ slot, heap.slots[h.slot]? = some slot ∧ slot.generation = h.generation ∧
        slot.occupied = true := by
  rw [contains_iff]
  constructor
  · rintro ⟨o, ho⟩
    obtain ⟨slot, hs, hg, hobj⟩ := get?_eq_some_iff.mp ho
    exact ⟨slot, hs, hg, Slot.occupied_iff.mpr ⟨o, hobj⟩⟩
  · rintro ⟨slot, hs, hg, hocc⟩
    obtain ⟨o, ho⟩ := Slot.occupied_iff.mp hocc
    exact ⟨o, get?_eq_some_iff.mpr ⟨slot, hs, hg, ho⟩⟩

theorem eq_of_slot_eq (hh : heap.contains h = true) (hk : heap.contains k = true)
    (e : h.slot = k.slot) : h = k := by
  obtain ⟨slot, hs, hg, _⟩ := contains_iff_slot.mp hh
  obtain ⟨slot', hs', hg', _⟩ := contains_iff_slot.mp hk
  rw [e, hs'] at hs
  cases hs
  cases h
  cases k
  simp_all

theorem get?_eq_none_of_vacant (hs : heap.slots[h.slot]? = some slot) (hv : slot.object = none) :
    heap.get? h = none := by
  unfold get?
  rw [hs]
  simp [hv]

/-- **Every object of the heap is in the other one as it is.** -/
abbrev KeptIn (heap heap' : Heap) : Prop :=
  ∀ {k : Handle} {o : Object}, heap.get? k = some o → heap'.get? k = some o

/-- What is new to the later heap is new to the earlier one. -/
theorem fresh_of_kept {heap' : Heap} (hkept : heap.KeptIn heap') (hfresh : heap'.get? h = none) :
    heap.get? h = none := by
  rw [Option.eq_none_iff_forall_ne_some] at hfresh ⊢
  exact fun o hget => hfresh o (hkept hget)

/-! ## 2. The invariant -/

/-- The free list, the counter and the generations agree with the slots. -/
structure WellFormed (heap : Heap) : Prop where
  free_nodup : heap.free.Nodup
  free_vacant : ∀ i ∈ heap.free, ∃ slot : Slot, heap.slots[i]? = some slot ∧ slot.object = none
  live_eq : heap.live = heap.slots.countP Slot.occupied
  generation_le : ∀ (i : Nat) (slot : Slot), heap.slots[i]? = some slot →
    slot.generation ≤ Slot.lastGeneration

theorem WellFormed.empty : Heap.empty.WellFormed where
  free_nodup := List.nodup_nil
  free_vacant i hi := absurd hi List.not_mem_nil
  live_eq := rfl
  generation_le i slot h := by simp [Heap.empty] at h

/-! ## 3. Allocation -/

/-- The generation under which `allocate` fills a free slot is that of the slot. -/
theorem allocate_free {rest : List Nat} (hf : heap.free = i :: rest)
    (hs : heap.slots[i]? = some slot) :
    heap.allocate object = (⟨i, slot.generation⟩,
      { slots := heap.slots.modify i fun slot => { slot with object := some object }
        free := rest
        live := heap.live + 1 }) := by
  simp only [allocate, hf, hs, Option.map_some, Option.getD_some]

theorem allocate_new (hf : heap.free = []) :
    heap.allocate object = (.first heap.slots.size,
      { slots := heap.slots.push ⟨0, some object⟩, free := [], live := heap.live + 1 }) := by
  simp only [allocate, hf]

/-- **The new handle names the new object, and no other handle is affected.** -/
theorem get?_allocate (hw : heap.WellFormed) (object : Object) (h : Handle) :
    (heap.allocate object).2.get? h = if h = (heap.allocate object).1 then some object
      else heap.get? h := by
  cases hf : heap.free with
  | nil =>
    rw [allocate_new hf]
    unfold get?
    rw [Array.getElem?_push]
    by_cases hi : h.slot = heap.slots.size
    · have hnone : heap.slots[h.slot]? = none := by rw [hi]; exact Array.getElem?_size
      by_cases hg : h.generation = 0
      · have he : h = .first heap.slots.size := by cases h; simp_all [Handle.first]
        simp [he, Handle.first]
      · have hne : h ≠ .first heap.slots.size := by rintro rfl; exact hg rfl
        simp [hi, hne, Ne.symm hg]
    · have hne : h ≠ .first heap.slots.size := by rintro rfl; exact hi rfl
      simp [hi, hne]
  | cons i rest =>
    obtain ⟨slot, hs, hv⟩ := hw.free_vacant i (by rw [hf]; exact List.mem_cons_self)
    rw [allocate_free hf hs]
    by_cases hi : i = h.slot
    · -- the slot was vacant, so of its handles only the new one names an object
      subst hi
      rw [get?_eq_none_of_vacant hs hv]
      unfold get?
      by_cases hg : slot.generation = h.generation
      · have he : h = ⟨h.slot, slot.generation⟩ := by cases h; simp_all
        simp [Array.getElem?_modify, hs, ← hg, ← he]
      · have hne : h ≠ ⟨h.slot, slot.generation⟩ := by
          intro he
          exact hg (congrArg Handle.generation he).symm
        simp [Array.getElem?_modify, hs, hg, hne]
    · have hne : h ≠ ⟨i, slot.generation⟩ := by rintro rfl; exact hi rfl
      unfold get?
      simp [Array.getElem?_modify, hi, hne]

/-- The handle that `allocate` gives out is stale before. -/
theorem get?_allocate_fresh (hw : heap.WellFormed) (object : Object) :
    heap.get? (heap.allocate object).1 = none := by
  cases hf : heap.free with
  | nil =>
    rw [allocate_new hf]
    unfold get?
    simp [Handle.first]
  | cons i rest =>
    obtain ⟨slot, hs, hv⟩ := hw.free_vacant i (by rw [hf]; exact List.mem_cons_self)
    rw [allocate_free hf hs]
    exact get?_eq_none_of_vacant hs hv

theorem get?_allocate_self (hw : heap.WellFormed) (object : Object) :
    (heap.allocate object).2.get? (heap.allocate object).1 = some object := by
  rw [get?_allocate hw, if_pos rfl]

/-- A live handle keeps its object over an allocation. -/
theorem get?_allocate_of_live (hw : heap.WellFormed) (hget : heap.get? h = some o) :
    (heap.allocate object).2.get? h = some o := by
  rw [get?_allocate hw, if_neg, hget]
  rintro rfl
  rw [get?_allocate_fresh hw] at hget
  cases hget

theorem contains_allocate (hw : heap.WellFormed) (object : Object) (h : Handle) :
    (heap.allocate object).2.contains h = true ↔ h = (heap.allocate object).1 ∨
    heap.contains h = true := by
  unfold contains
  rw [get?_allocate hw]
  by_cases he : h = (heap.allocate object).1 <;> simp [he]

/-- Filling a vacant slot adds one to the number of occupied ones. -/
theorem countP_occupied_fill {slots : List Slot} (hs : slots[i]? = some slot)
    (hv : slot.object = none) (object : Object) :
    (slots.modify i fun slot => { slot with object := some object }).countP Slot.occupied
      = slots.countP Slot.occupied + 1 := by
  induction slots generalizing i with
  | nil => simp at hs
  | cons first rest ih =>
    cases i with
    | zero =>
      obtain rfl : first = slot := by simpa using hs
      simp [List.countP_cons, Slot.occupied, hv]
    | succ i =>
      rw [List.modify_succ_cons, List.countP_cons, List.countP_cons, ih (by simpa using hs)]
      omega

/-- **Allocation keeps the invariant.** -/
theorem WellFormed.allocate (hw : heap.WellFormed) (object : Object) :
    (heap.allocate object).2.WellFormed := by
  cases hf : heap.free with
  | nil =>
    rw [allocate_new hf]
    refine ⟨List.nodup_nil, List.forall_mem_nil _, ?_, fun i slot hs => ?_⟩
    · show heap.live + 1 = _
      rw [Array.countP_push_of_pos (by rfl), hw.live_eq]
    · rw [Array.getElem?_push] at hs
      split at hs
      · cases hs
        exact Nat.zero_le _
      · exact hw.generation_le i slot hs
  | cons i rest =>
    have hmem : i ∈ heap.free := by rw [hf]; exact List.mem_cons_self
    have hnodup : i ∉ rest ∧ rest.Nodup := List.nodup_cons.mp (hf ▸ hw.free_nodup)
    obtain ⟨slot, hs, hv⟩ := hw.free_vacant i hmem
    rw [allocate_free hf hs]
    refine ⟨hnodup.2, fun j hj => ?_, ?_, fun j other hs' => ?_⟩
    · obtain ⟨other, hso, hvo⟩ := hw.free_vacant j (by rw [hf]; exact List.mem_cons_of_mem _ hj)
      have hne : i ≠ j := by rintro rfl; exact hnodup.1 hj
      exact ⟨other, by simp [Array.getElem?_modify, hne, hso], hvo⟩
    · show heap.live + 1 = _
      rw [hw.live_eq, ← Array.countP_toList, ← Array.countP_toList, Array.toList_modify]
      exact (countP_occupied_fill (by rw [Array.getElem?_toList]; exact hs) hv object).symm
    · simp only [Array.getElem?_modify] at hs'
      split at hs'
      · rename_i hij
        subst hij
        rw [hs] at hs'
        cases hs'
        exact hw.generation_le i slot hs
      · exact hw.generation_le j other hs'

/-! ## 4. Changing an object -/

theorem get?_modify (heap : Heap) (h : Handle) (change : Object → Object) (k : Handle) :
    (heap.modify h change).get? k = if k = h then (heap.get? h).map change else heap.get? k := by
  unfold modify get?
  simp only [Array.getElem?_modify]
  by_cases he : k = h
  · subst he
    cases heap.slots[k.slot]? with
    | none => simp
    | some slot => by_cases hg : slot.generation = k.generation <;> simp [hg]
  · rw [if_neg he]
    by_cases hs : h.slot = k.slot
    · -- one slot, two generations: at most one of the two handles is current
      cases hslot : heap.slots[k.slot]? with
      | none => simp [hs]
      | some slot =>
        by_cases hg : slot.generation = h.generation
        · have hk : slot.generation ≠ k.generation := by
            intro hk
            apply he
            cases h
            cases k
            simp_all
          simp [hs, hg, hg ▸ hk]
        · simp [hs, hg]
    · simp [hs]

theorem get?_modify_self (heap : Heap) (h : Handle) (change : Object → Object) :
    (heap.modify h change).get? h = (heap.get? h).map change := by
  rw [get?_modify, if_pos rfl]

theorem contains_modify (heap : Heap) (h : Handle) (change : Object → Object) (k : Handle) :
    (heap.modify h change).contains k = heap.contains k := by
  unfold contains
  rw [get?_modify]
  by_cases he : k = h <;> simp [he]

theorem getElem?_modify (heap : Heap) (h : Handle) (change : Object → Object) (i : Nat) :
    ∃ f : Slot → Slot, (∀ slot, (f slot).generation = slot.generation ∧
      (f slot).occupied = slot.occupied) ∧
      (heap.modify h change).slots[i]? = heap.slots[i]?.map f := by
  unfold modify
  simp only [Array.getElem?_modify]
  by_cases hi : h.slot = i
  · refine ⟨fun slot => if slot.generation = h.generation
      then { slot with object := slot.object.map change } else slot, ?_, by rw [if_pos hi]⟩
    intro slot
    by_cases hg : slot.generation = h.generation <;> simp [hg, Slot.occupied]
  · exact ⟨id, fun slot => ⟨rfl, rfl⟩, by simp [hi]⟩

/-- **A change of an object keeps the invariant.** -/
theorem WellFormed.modify (hw : heap.WellFormed) (h : Handle) (change : Object → Object) :
    (heap.modify h change).WellFormed where
  free_nodup := hw.free_nodup
  free_vacant i hi := by
    obtain ⟨slot, hs, hv⟩ := hw.free_vacant i hi
    obtain ⟨f, hf, he⟩ := getElem?_modify heap h change i
    refine ⟨f slot, by rw [he, hs]; rfl, ?_⟩
    rw [← Slot.vacant_iff, (hf slot).2, Slot.vacant_iff]
    exact hv
  live_eq := by
    show heap.live = _
    rw [hw.live_eq, ← Array.countP_toList, ← Array.countP_toList]
    -- slot by slot nothing changes in what is counted
    have hmap : (heap.modify h change).slots.toList.map Slot.occupied
        = heap.slots.toList.map Slot.occupied := by
      apply List.ext_getElem?
      intro i
      obtain ⟨f, hf, he⟩ := getElem?_modify heap h change i
      rw [List.getElem?_map, List.getElem?_map, Array.getElem?_toList, Array.getElem?_toList, he]
      cases heap.slots[i]? with
      | none => rfl
      | some slot => simp [(hf slot).2]
    have hcount (slots : List Slot) :
        slots.countP Slot.occupied = (slots.map Slot.occupied).count true := by
      rw [List.count, List.countP_map]
      congr 1
      funext slot
      simp
    rw [hcount, hcount, hmap]
  generation_le i slot hs := by
    obtain ⟨f, hf, he⟩ := getElem?_modify heap h change i
    rw [he] at hs
    obtain ⟨slot', hs', rfl⟩ := Option.map_eq_some_iff.mp hs
    rw [(hf slot').1]
    exact hw.generation_le i slot' hs'

/-! ## 5. Sweeping -/

theorem getElem?_sweep (heap : Heap) (marked : Array Bool) (i : Nat) :
    (heap.sweep marked).2.slots[i]?
      = heap.slots[i]?.map fun slot => if condemned slot marked i then slot.vacate else slot := by
  simp [sweep]

/-- **A handle whose slot is marked keeps its object; every other handle is stale.** -/
theorem get?_sweep (heap : Heap) (marked : Array Bool) (h : Handle) :
    (heap.sweep marked).2.get? h = if marked.getD h.slot false then heap.get? h else none := by
  unfold get?
  rw [getElem?_sweep]
  cases hs : heap.slots[h.slot]? with
  | none => simp
  | some slot =>
    by_cases hm : marked.getD h.slot false = true
    · simp [condemned, hm]
    · cases hobj : slot.object <;> simp [condemned, hm, Slot.occupied, hobj]

theorem mem_free_sweep {heap : Heap} {marked : Array Bool} {i : Nat} :
    i ∈ (heap.sweep marked).2.free ↔
      (∃ slot, heap.slots[i]? = some slot ∧ condemned slot marked i = true ∧ slot.reusable = true) ∨
        i ∈ heap.free := by
  simp only [sweep, List.mem_append, List.mem_reverse, List.mem_map, List.mem_filter, Prod.exists,
    List.mem_zipIdx_iff_getElem?, Array.getElem?_toList]
  constructor
  · rintro (⟨slot, j, ⟨⟨hs, hc⟩, hr⟩, rfl⟩ | hi)
    · exact Or.inl ⟨slot, hs, hc, hr⟩
    · exact Or.inr hi
  · rintro (⟨slot, hs, hc, hr⟩ | hi)
    · exact Or.inl ⟨slot, i, ⟨⟨hs, hc⟩, hr⟩, rfl⟩
    · exact Or.inr hi

/-- A sweep counts what it frees. -/
theorem countP_occupied_sweep (slots : List Slot) (marked : Array Bool) (start : Nat) :
    ((slots.zipIdx start).filter fun entry => condemned entry.1 marked entry.2).length
        + ((slots.zipIdx start).map fun entry => if condemned entry.1 marked entry.2
          then entry.1.vacate else entry.1).countP Slot.occupied
      = slots.countP Slot.occupied := by
  induction slots generalizing start with
  | nil => rfl
  | cons slot rest ih =>
    have ih := ih (start + 1)
    rw [List.zipIdx_cons, List.filter_cons, List.map_cons, List.countP_cons, List.countP_cons]
    by_cases hc : condemned slot marked start = true
    · have hocc : slot.occupied = true := (Bool.and_eq_true_iff.mp hc).1
      simp only [hc, hocc, if_true, List.length_cons, Slot.occupied_vacate,
        Bool.false_eq_true, if_false]
      omega
    · simp only [hc, if_false, Bool.false_eq_true]
      omega

/-- The freed objects were counted as live: the counter never runs below zero. -/
theorem sweep_add_countP (heap : Heap) (marked : Array Bool) :
    (heap.sweep marked).1 + (heap.sweep marked).2.slots.countP Slot.occupied
      = heap.slots.countP Slot.occupied := by
  have h := countP_occupied_sweep heap.slots.toList marked 0
  rw [← Array.countP_toList, ← Array.countP_toList, ← h]
  simp only [sweep, Array.toList_mapIdx, List.mapIdx_eq_zipIdx_map]

theorem WellFormed.sweep_le (hw : heap.WellFormed) (marked : Array Bool) :
    (heap.sweep marked).1 ≤ heap.live := by
  rw [hw.live_eq, ← sweep_add_countP heap marked]
  exact Nat.le_add_right _ _

theorem WellFormed.live_sweep (hw : heap.WellFormed) (marked : Array Bool) :
    (heap.sweep marked).2.live + (heap.sweep marked).1 = heap.live :=
  Nat.sub_add_cancel (hw.sweep_le marked)

/-- **A sweep keeps the invariant**, whatever is marked. -/
theorem WellFormed.sweep (hw : heap.WellFormed) (marked : Array Bool) :
    (heap.sweep marked).2.WellFormed where
  free_nodup := by
    show (List.reverse _ ++ heap.free).Nodup
    rw [List.nodup_append]
    refine ⟨(List.reverse_perm _).nodup_iff.mpr ?_, hw.free_nodup, fun i hi j hj => ?_⟩
    · -- freed slots are some of the numbered slots, in order
      have hall : (heap.slots.toList.zipIdx.map (·.2)).Nodup := by
        rw [List.zipIdx_map_snd]
        exact List.nodup_range'
      exact ((List.filter_sublist.trans List.filter_sublist).map _).nodup hall
    · rintro rfl
      obtain ⟨slot, hs, hv⟩ := hw.free_vacant i hj
      simp only [List.mem_reverse, List.mem_map, List.mem_filter, Prod.exists,
        List.mem_zipIdx_iff_getElem?, Array.getElem?_toList] at hi
      obtain ⟨slot', _, ⟨⟨hs', hc⟩, _⟩, rfl⟩ := hi
      rw [hs] at hs'
      cases hs'
      have hocc : slot.occupied = true := (Bool.and_eq_true_iff.mp hc).1
      rw [Slot.vacant_iff.mpr hv] at hocc
      cases hocc
  free_vacant i hi := by
    rw [getElem?_sweep]
    rcases mem_free_sweep.mp hi with ⟨slot, hs, hc, _⟩ | hi
    · exact ⟨slot.vacate, by rw [hs]; simp [hc], rfl⟩
    · obtain ⟨slot, hs, hv⟩ := hw.free_vacant i hi
      refine ⟨slot, ?_, hv⟩
      rw [hs]
      simp [condemned, Slot.vacant_iff.mpr hv]
  live_eq := by
    have h1 := hw.live_sweep marked
    have h2 := sweep_add_countP heap marked
    have h3 := hw.live_eq
    omega
  generation_le i slot hs := by
    rw [getElem?_sweep] at hs
    obtain ⟨slot', hs', rfl⟩ := Option.map_eq_some_iff.mp hs
    have hle := hw.generation_le i slot' hs'
    by_cases hc : condemned slot' marked i = true
    · rw [if_pos hc]
      exact Slot.vacate_generation_le hle
    · rw [if_neg hc]
      exact hle

theorem contains_sweep (heap : Heap) (marked : Array Bool) (h : Handle) :
    (heap.sweep marked).2.contains h = true ↔ marked.getD h.slot false = true ∧
    heap.contains h = true := by
  unfold contains
  rw [get?_sweep]
  by_cases hm : marked.getD h.slot false = true <;> simp [hm]

end Heap

end ObjectModel
