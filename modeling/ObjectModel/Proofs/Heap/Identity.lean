import ObjectModel.Proofs.Heap.WellFormed

/-!
# Handles identify objects

A `Ledger` runs operations on a heap and keeps a record of the handles beside it: every handle that
was given out, and those that no sweep has taken back. The record is kept without looking at the
heap.

* `Ledger.faithful_run` -- what follows for every run from the empty heap: no handle is given out
  twice, the live handles are those of the record, the free list and the counter are right, a slot
  at its last generation is given out no more, and identity numbers tell live objects apart.
-/

namespace ObjectModel.Heap

/-! ## 1. Taken handles -/

/-- `h` was given out: its slot has not moved back behind it, and has moved on if it may be filled
again. -/
def Taken (heap : Heap) (h : Handle) : Prop :=
  ∃ slot : Slot, heap.slots[h.slot]? = some slot ∧ h.generation ≤ slot.generation ∧
    (h.slot ∈ heap.free → h.generation < slot.generation)

section

variable {heap : Heap} {h : Handle}

/-- Allocation moves no slot, and takes only the head off the free list. -/
theorem allocate_slot {i : Nat} {slot : Slot} (object : Object) (hs : heap.slots[i]? = some slot) :
    (∃ slot' : Slot, (heap.allocate object).2.slots[i]? = some slot' ∧
      slot'.generation = slot.generation) ∧
      ∀ j ∈ (heap.allocate object).2.free, j ∈ heap.free := by
  obtain ⟨hi, _⟩ := Array.getElem?_eq_some_iff.mp hs
  cases hf : heap.free with
  | nil =>
    rw [allocate_new hf]
    exact ⟨⟨slot, by rw [Array.getElem?_push, if_neg (Nat.ne_of_lt hi)]; exact hs, rfl⟩,
      fun j hj => hj⟩
  | cons first rest =>
    unfold allocate
    rw [hf]
    refine ⟨?_, fun j hj => List.mem_cons_of_mem _ hj⟩
    by_cases he : first = i
    · exact ⟨{ slot with object := some object }, by simp [Array.getElem?_modify, he, hs], rfl⟩
    · exact ⟨slot, by simp [Array.getElem?_modify, he, hs], rfl⟩

theorem WellFormed.taken (hw : heap.WellFormed) (hh : heap.contains h = true) : heap.Taken h := by
  obtain ⟨slot, hs, hg, ho⟩ := contains_iff_slot.mp hh
  refine ⟨slot, hs, Nat.le_of_eq hg.symm, fun hf => ?_⟩
  obtain ⟨slot', hs', hv⟩ := hw.free_vacant _ hf
  rw [hs] at hs'
  cases hs'
  rw [Slot.vacant_iff.mpr hv] at ho
  cases ho

/-- A new handle is later than every taken handle of the same slot. -/
theorem Taken.generation_lt (ht : heap.Taken h) (hw : heap.WellFormed) (object : Object)
    (he : h.slot = (heap.allocate object).1.slot) :
    h.generation < (heap.allocate object).1.generation := by
  obtain ⟨slot, hs, _, hlt⟩ := ht
  cases hf : heap.free with
  | nil =>
    -- a slot behind all others: no handle was given out for it
    rw [allocate_new hf] at he
    have hsize : h.slot = heap.slots.size := he
    rw [hsize, Array.getElem?_size] at hs
    cases hs
  | cons i rest =>
    obtain ⟨slot', hs', _⟩ := hw.free_vacant i (by rw [hf]; exact List.mem_cons_self)
    rw [allocate_free hf hs'] at he ⊢
    have hi : h.slot = i := he
    rw [hi, hs'] at hs
    cases hs
    exact hlt (by rw [hi, hf]; exact List.mem_cons_self)

/-- **No taken handle is given out.** -/
theorem Taken.ne_allocate (ht : heap.Taken h) (hw : heap.WellFormed) (object : Object) :
    h ≠ (heap.allocate object).1 := by
  intro he
  have hlt := ht.generation_lt hw object (congrArg Handle.slot he)
  rw [he] at hlt
  exact Nat.lt_irrefl _ hlt

theorem Taken.allocate (ht : heap.Taken h) (object : Object) :
    (heap.allocate object).2.Taken h := by
  obtain ⟨slot, hs, hle, hlt⟩ := ht
  obtain ⟨⟨slot', hs', hg⟩, hfree⟩ := allocate_slot object hs
  exact ⟨slot', hs', hg ▸ hle, fun hf => hg ▸ hlt (hfree _ hf)⟩

theorem Taken.modify (ht : heap.Taken h) (target : Handle) (change : Object → Object) :
    (heap.modify target change).Taken h := by
  obtain ⟨slot, hs, hle, hlt⟩ := ht
  obtain ⟨f, hf, he⟩ := getElem?_modify heap target change h.slot
  refine ⟨f slot, ?_, (hf slot).1.symm ▸ hle, fun hfree => (hf slot).1.symm ▸ hlt hfree⟩
  rw [he, hs]
  rfl

theorem Taken.sweep (ht : heap.Taken h) (marked : Array Bool) : (heap.sweep marked).2.Taken h := by
  obtain ⟨slot, hs, hle, hlt⟩ := ht
  unfold Taken
  rw [getElem?_sweep, hs, Option.map_some]
  refine ⟨_, rfl, ?_, fun hfree => ?_⟩
  · split
    · exact Nat.le_trans hle (Slot.generation_le_vacate slot)
    · exact hle
  · rcases mem_free_sweep.mp hfree with ⟨slot', hs', hc, hr⟩ | hfree
    · rw [hs] at hs'
      cases hs'
      rw [if_pos hc]
      exact Nat.lt_of_le_of_lt hle (Slot.generation_lt_vacate hr)
    · split
      · exact Nat.lt_of_lt_of_le (hlt hfree) (Slot.generation_le_vacate slot)
      · exact hlt hfree

theorem eq_of_parts {k : Handle} (hs : h.slot = k.slot) (hg : h.generation = k.generation) :
    h = k := by
  cases h
  cases k
  cases hs
  cases hg
  rfl

/-- An allocation takes no handle but the one that it gives out. -/
theorem Taken.of_allocate {object : Object} (ht : (heap.allocate object).2.Taken h)
    (hw : heap.WellFormed) : heap.Taken h ∨ h = (heap.allocate object).1 := by
  obtain ⟨slot', hs', hle, hlt⟩ := ht
  cases hf : heap.free with
  | nil =>
    rw [allocate_new hf] at hs' ⊢
    rw [Array.getElem?_push] at hs'
    split at hs'
    · rename_i hslot
      cases hs'
      exact Or.inr (eq_of_parts hslot (Nat.le_zero.mp hle))
    · refine Or.inl ⟨slot', hs', hle, fun hm => ?_⟩
      rw [hf] at hm
      cases hm
  | cons i rest =>
    obtain ⟨slot, hs, _⟩ := hw.free_vacant i (by rw [hf]; exact List.mem_cons_self)
    rw [allocate_free hf hs] at hs' hlt ⊢
    simp only [Array.getElem?_modify] at hs'
    by_cases he : i = h.slot
    · rw [if_pos he, ← he, hs] at hs'
      cases hs'
      by_cases hg : h.generation = slot.generation
      · exact Or.inr (eq_of_parts he.symm hg)
      · exact Or.inl ⟨slot, he ▸ hs, hle, fun _ => Nat.lt_of_le_of_ne hle hg⟩
    · rw [if_neg he] at hs'
      refine Or.inl ⟨slot', hs', hle, fun hm => hlt ?_⟩
      rw [hf] at hm
      exact (List.mem_cons.mp hm).resolve_left fun h => he h.symm

theorem Taken.of_modify {target : Handle} {change : Object → Object}
    (ht : (heap.modify target change).Taken h) : heap.Taken h := by
  obtain ⟨slot', hs', hle, hlt⟩ := ht
  obtain ⟨f, hf, he⟩ := getElem?_modify heap target change h.slot
  rw [he] at hs'
  obtain ⟨slot, hs, rfl⟩ := Option.map_eq_some_iff.mp hs'
  rw [(hf slot).1] at hle hlt
  exact ⟨slot, hs, hle, hlt⟩

theorem Taken.of_sweep {marked : Array Bool} (ht : (heap.sweep marked).2.Taken h)
    (hw : heap.WellFormed) : heap.Taken h := by
  obtain ⟨slot', hs', hle, hlt⟩ := ht
  rw [getElem?_sweep] at hs'
  obtain ⟨slot, hs, rfl⟩ := Option.map_eq_some_iff.mp hs'
  by_cases hc : condemned slot marked h.slot
  · rw [if_pos hc] at hle hlt
    refine ⟨slot, hs, ?_, fun hfree => ?_⟩
    · by_cases hr : slot.reusable = true
      · have hfree := hlt (mem_free_sweep.mpr (Or.inl ⟨slot, hs, hc, hr⟩))
        rw [Slot.vacate, if_pos hr] at hfree
        exact Nat.le_of_lt_succ hfree
      · rw [Slot.vacate, if_neg hr] at hle
        exact hle
    · obtain ⟨other, ho, hv⟩ := hw.free_vacant _ hfree
      rw [hs] at ho
      cases ho
      rw [condemned, Slot.vacant_iff.mpr hv] at hc
      cases hc
  · rw [if_neg hc] at hle hlt
    exact ⟨slot, hs, hle, fun hfree => hlt (mem_free_sweep.mpr (Or.inr hfree))⟩

end

/-! ## 2. Runs -/

/-- An operation on a heap. -/
inductive Op where
  | allocate (object : Object)
  | modify (h : Handle) (change : Object → Object)
  | sweep (marked : Array Bool)

/-- A heap with a record of the handles that were given out. -/
structure Ledger where
  heap : Heap
  /-- Every handle that was ever given out, the latest first. -/
  issued : List Handle
  /-- Those of them that were not swept since. -/
  current : List Handle

namespace Ledger

/-- The empty heap, for which nothing was given out. -/
def start : Ledger := ⟨.empty, [], []⟩

/-- Performs one operation. A sweep takes back the handles whose slots are not marked; slots past
the end of the marks are not. -/
def apply (l : Ledger) : Op → Ledger
  | .allocate object =>
    let (h, heap) := l.heap.allocate object
    ⟨heap, h :: l.issued, h :: l.current⟩
  | .modify h change => { l with heap := l.heap.modify h change }
  | .sweep marked =>
    { l with
      heap := (l.heap.sweep marked).2
      current := l.current.filter fun h => marked.getD h.slot false }

/-- Performs operations in order. -/
def run (l : Ledger) (ops : List Op) : Ledger := ops.foldl apply l

/-! ## 3. The invariant -/

/-- **Record and heap agree.** -/
structure Valid (l : Ledger) : Prop where
  wellFormed : l.heap.WellFormed
  distinct : l.issued.Nodup
  taken : ∀ h ∈ l.issued, l.heap.Taken h
  live_iff : ∀ h, l.heap.contains h = true ↔ h ∈ l.current
  current_issued : ∀ h ∈ l.current, h ∈ l.issued

variable {l : Ledger}

theorem Valid.start : Ledger.start.Valid where
  wellFormed := .empty
  distinct := List.nodup_nil
  taken h hh := absurd hh List.not_mem_nil
  live_iff h := by
    constructor
    · intro hc
      obtain ⟨slot, hs, _⟩ := contains_iff_slot.mp hc
      simp [Ledger.start, Heap.empty] at hs
    · intro hc
      exact absurd hc List.not_mem_nil
  current_issued h hh := absurd hh List.not_mem_nil

theorem Valid.apply_allocate (hl : l.Valid) (object : Object) :
    (l.apply (.allocate object)).Valid where
  wellFormed := hl.wellFormed.allocate object
  distinct := by
    refine List.nodup_cons.mpr ⟨fun hmem => ?_, hl.distinct⟩
    exact (hl.taken _ hmem).ne_allocate hl.wellFormed object rfl
  taken h hh := by
    rcases List.mem_cons.mp hh with rfl | hh
    · exact (hl.wellFormed.allocate object).taken
        ((contains_allocate hl.wellFormed object _).mpr (Or.inl rfl))
    · exact (hl.taken h hh).allocate object
  live_iff h := by
    show (l.heap.allocate object).2.contains h = true ↔ h ∈ (l.heap.allocate object).1 :: l.current
    rw [contains_allocate hl.wellFormed, List.mem_cons, hl.live_iff]
  current_issued h hh := by
    rcases List.mem_cons.mp hh with rfl | hh
    · exact List.mem_cons_self
    · exact List.mem_cons_of_mem _ (hl.current_issued h hh)

theorem Valid.apply_modify (hl : l.Valid) (target : Handle) (change : Object → Object) :
    (l.apply (.modify target change)).Valid where
  wellFormed := hl.wellFormed.modify target change
  distinct := hl.distinct
  taken h hh := (hl.taken h hh).modify target change
  live_iff h := by
    show (l.heap.modify target change).contains h = true ↔ _
    rw [contains_modify]
    exact hl.live_iff h
  current_issued := hl.current_issued

theorem Valid.apply_sweep (hl : l.Valid) (marked : Array Bool) :
    (l.apply (.sweep marked)).Valid where
  wellFormed := hl.wellFormed.sweep marked
  distinct := hl.distinct
  taken h hh := (hl.taken h hh).sweep marked
  live_iff h := by
    show (l.heap.sweep marked).2.contains h = true ↔
      h ∈ l.current.filter fun h => marked.getD h.slot false
    rw [contains_sweep, List.mem_filter, hl.live_iff, and_comm]
  current_issued h hh := hl.current_issued h (List.mem_filter.mp hh).1

/-- **Every operation keeps the invariant.** -/
theorem Valid.apply (hl : l.Valid) (op : Op) : (l.apply op).Valid := by
  cases op with
  | allocate object => exact hl.apply_allocate object
  | modify h change => exact hl.apply_modify h change
  | sweep marked => exact hl.apply_sweep marked

theorem Valid.run (hl : l.Valid) (ops : List Op) : (l.run ops).Valid := by
  induction ops generalizing l with
  | nil => exact hl
  | cons op ops ih => exact ih (hl.apply op)

/-! ## 4. Later handles -/

/-- A handle that is given out later for the same slot has a later generation. -/
theorem Valid.later_generation (hl : l.Valid) (ops : List Op) {h k : Handle} (hh : h ∈ l.issued)
    (hk : k ∈ (l.run ops).issued) (hnew : k ∉ l.issued) (he : k.slot = h.slot) :
    h.generation < k.generation := by
  induction ops generalizing l with
  | nil => exact absurd hk hnew
  | cons op ops ih =>
    have hkept : h ∈ (l.apply op).issued := by
      cases op with
      | allocate object => exact List.mem_cons_of_mem _ hh
      | modify _ _ => exact hh
      | sweep _ => exact hh
    by_cases hnow : k ∈ (l.apply op).issued
    · -- given out by this very operation, which is an allocation
      cases op with
      | allocate object =>
        rcases List.mem_cons.mp hnow with rfl | hold
        · exact (hl.taken h hh).generation_lt hl.wellFormed object he.symm
        · exact absurd hold hnew
      | modify _ _ => exact absurd hnow hnew
      | sweep _ => exact absurd hnow hnew
    · exact ih (hl.apply op) hkept hk hnow

theorem Valid.generation_le (hl : l.Valid) {h : Handle} (hh : h ∈ l.issued) :
    h.generation ≤ Slot.lastGeneration := by
  obtain ⟨slot, hs, hle, _⟩ := hl.taken h hh
  exact Nat.le_trans hle (hl.wellFormed.generation_le _ slot hs)

/-! ## 5. What the record shows -/

/-- The promises that a heap keeps with the handles it gives out. -/
structure Faithful (l : Ledger) : Prop where
  /-- No handle is given out twice. -/
  distinct : l.issued.Nodup
  /-- The live handles are those that were given out and not swept since. -/
  live_iff : ∀ h, l.heap.contains h = true ↔ h ∈ l.current
  current_issued : ∀ h ∈ l.current, h ∈ l.issued
  free_nodup : l.heap.free.Nodup
  free_vacant : ∀ i ∈ l.heap.free, ∃ slot : Slot, l.heap.slots[i]? = some slot ∧ slot.object = none
  live_eq : l.heap.live = l.heap.slots.countP Slot.occupied
  /-- A sweep frees no more objects than are counted. -/
  sweep_le : ∀ marked, (l.heap.sweep marked).1 ≤ l.heap.live
  /-- Once a slot was freed at its last generation, no run that follows gives it out. -/
  retired : ∀ h ∈ l.issued, h.generation = Slot.lastGeneration → l.heap.contains h = false →
    ∀ ops, ∀ k ∈ (l.run ops).issued, k ∉ l.issued → k.slot ≠ h.slot
  /-- Live objects are told apart by their identity numbers. -/
  id_injective : ∀ h k, l.heap.contains h = true → l.heap.contains k = true → h.id = k.id → h = k

theorem Valid.faithful (hl : l.Valid) : l.Faithful where
  distinct := hl.distinct
  live_iff := hl.live_iff
  current_issued := hl.current_issued
  free_nodup := hl.wellFormed.free_nodup
  free_vacant := hl.wellFormed.free_vacant
  live_eq := hl.wellFormed.live_eq
  sweep_le := hl.wellFormed.sweep_le
  retired h hh hlast _ ops k hk hnew he := by
    have hlt := hl.later_generation ops hh hk hnew he
    have hle := (hl.run ops).generation_le hk
    rw [hlast] at hlt
    exact absurd hlt (Nat.not_lt.mpr hle)
  id_injective _ _ hh hk he := eq_of_slot_eq hh hk he

/-- **Handles never alias**, over runs of any length from the empty heap. -/
theorem faithful_run (ops : List Op) : (start.run ops).Faithful := (Valid.start.run ops).faithful

end Ledger

end ObjectModel.Heap
