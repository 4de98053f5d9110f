import Mathlib.Data.Set.Card
import ObjectModel.Heap.Marking
import ObjectModel.Proofs.Heap.WellFormed
import ObjectModel.Proofs.OrderedMap

/-!
# Collection and reachability

What a collection keeps, said without the collector: `Object.Refers` lists the places where an
object stores handles, and `Heap.Leads` follows them from the roots.

* `Heap.ncard_collect` -- a collection answers how many handles became stale.
-/

namespace ObjectModel

/-! ## 1. References -/

/-- The handles an object stores, by the place where it stores them. -/
inductive Object.Refers (o : Object) : Handle → Prop where
  | type : Refers o o.type
  | base {b : Handle} : o.base = some b → Refers o b
  | attributeValue {name : String} {v : Handle} : (name, v) ∈ o.attributes.toList → Refers o v
  | item {items : List Handle} {v : Handle} : o.payload = .tuple items → v ∈ items → Refers o v
  | entry {entries : OrderedMap Handle} {key : String} {v : Handle} :
      o.payload = .dict entries → (key, v) ∈ entries.toList → Refers o v
  | receiver {r f : Handle} : o.payload = .bound r f → Refers o r
  | function {r f : Handle} : o.payload = .bound r f → Refers o f
  | held {c : Coroutine} {v : Handle} : o.payload = .generator (.suspended c) → v ∈ c.held →
      Refers o v
  | result {v : Handle} : o.payload = .generator (.stopped (some v)) → Refers o v

/-- The handles of a payload are references of the object. -/
theorem Object.refers_of_mem_payload {o : Object} {r : Handle} (h : r ∈ o.payload.references) :
    o.Refers r := by
  cases hp : o.payload with
  | type name base =>
    rw [hp] at h
    refine .base ?_
    simp only [Object.base, hp]
    exact Option.mem_toList.mp h
  | tuple items => rw [hp] at h; exact .item hp h
  | dict entries =>
    rw [hp] at h
    obtain ⟨key, hm⟩ := OrderedMap.mem_values.mp h
    exact .entry hp hm
  | bound receiver callee =>
    rw [hp] at h
    rcases List.mem_cons.mp h with rfl | h
    · exact .receiver hp
    · rw [List.mem_singleton.mp h]
      exact .function hp
  | generator g =>
    cases g with
    | suspended c => rw [hp] at h; exact .held hp h
    | running => rw [hp] at h; exact absurd h List.not_mem_nil
    | stopped result =>
      cases result with
      | none => rw [hp] at h; exact absurd h List.not_mem_nil
      | some v =>
        rw [hp] at h
        rw [List.mem_singleton.mp h]
        exact .result hp
  | plain | none | notImplemented | bool | int | str | function =>
    rw [hp] at h; exact absurd h List.not_mem_nil

/-- **The collector follows every reference and nothing else.** -/
theorem Object.mem_references_iff {o : Object} {r : Handle} : r ∈ o.references ↔ o.Refers r := by
  have hsplit : r ∈ o.references ↔ (r = o.type ∨ r ∈ o.attributes.values) ∨
      r ∈ o.payload.references := by
    unfold references
    rw [List.mem_append, List.mem_cons]
  rw [hsplit]
  constructor
  · rintro ((rfl | h) | h)
    · exact .type
    · obtain ⟨name, hm⟩ := OrderedMap.mem_values.mp h
      exact .attributeValue hm
    · exact refers_of_mem_payload h
  · intro h
    cases h with
    | type => exact Or.inl (Or.inl rfl)
    | attributeValue hm => exact Or.inl (Or.inr (OrderedMap.mem_values.mpr ⟨_, hm⟩))
    | base hb =>
      refine Or.inr ?_
      unfold Object.base at hb
      split at hb
      · rename_i hp
        rw [hp]
        exact Option.mem_toList.mpr hb
      · cases hb
    | item hp hm => rw [hp]; exact Or.inr hm
    | entry hp hm => rw [hp]; exact Or.inr (OrderedMap.mem_values.mpr ⟨_, hm⟩)
    | receiver hp => rw [hp]; exact Or.inr List.mem_cons_self
    | function hp => rw [hp]; exact Or.inr (List.mem_cons_of_mem _ List.mem_cons_self)
    | held hp hm => rw [hp]; exact Or.inr hm
    | result hp => rw [hp]; exact Or.inr List.mem_cons_self

namespace Heap

variable {heap : Heap} {h r : Handle} {o : Object} {root : Handle → Prop} {marked : Array Bool}
  {worklist roots : List Handle}

/-- The handles that the roots lead to. A stale handle leads no further. -/
inductive Leads (heap : Heap) (root : Handle → Prop) : Handle → Prop where
  | root {h : Handle} : root h → Leads heap root h
  | step {h r : Handle} {o : Object} : Leads heap root h → heap.get? h = some o → o.Refers r →
      Leads heap root r

theorem Leads.congr {root' : Handle → Prop} (he : ∀ h, root h ↔ root' h) :
    heap.Leads root h ↔ heap.Leads root' h := by
  obtain rfl : root = root' := funext fun h => propext (he h)
  exact Iff.rfl

theorem Leads.mono {root' : Handle → Prop} (hl : heap.Leads root h) (hr : ∀ r, root r → root' r) :
    heap.Leads root' h := by
  induction hl with
  | root h => exact .root (hr _ h)
  | step _ hget href ih => exact ih.step hget href

/-! ## 2. Marking -/

theorem markFrom_mono {i : Nat} (heap : Heap) (worklist : List Handle) (marked : Array Bool)
    (hm : marked[i]? = some true) : (heap.markFrom worklist marked)[i]? = some true := by
  fun_induction markFrom heap worklist marked with
  | case1 => exact hm
  | case2 _ _ _ _ ih => exact ih hm
  | case3 marked h _ _ _ hu ih =>
    refine ih ?_
    have hne : h.slot ≠ i := by
      rintro rfl
      rw [hu] at hm
      cases hm
    rw [Array.getElem?_setIfInBounds_ne hne]
    exact hm
  | case4 _ _ _ _ _ _ ih => exact ih hm

/-- **Marking is sound**: if the worklist and the marked slots are led to, so are the slots that
become marked. -/
theorem markFrom_sound {i : Nat} (heap : Heap) (worklist : List Handle) (marked : Array Bool)
    (hwork : ∀ h ∈ worklist, heap.Leads root h) (hmarked : ∀ j, marked[j]? = some true →
      ∃ h, h.slot = j ∧ heap.contains h = true ∧ heap.Leads root h)
    (hi : (heap.markFrom worklist marked)[i]? = some true) :
    ∃ h, h.slot = i ∧ heap.contains h = true ∧ heap.Leads root h := by
  fun_induction markFrom heap worklist marked with
  | case1 => exact hmarked i hi
  | case2 _ _ _ _ ih => exact ih (fun h hh => hwork h (List.mem_cons_of_mem _ hh)) hmarked hi
  | case3 marked h rest o hget hu ih =>
    have hlead : heap.Leads root h := hwork h List.mem_cons_self
    refine ih (fun k hk => ?_) (fun j hj => ?_) hi
    · rcases List.mem_append.mp hk with hk | hk
      · exact hlead.step hget (Object.mem_references_iff.mp hk)
      · exact hwork k (List.mem_cons_of_mem _ hk)
    · by_cases he : h.slot = j
      · exact ⟨h, he, contains_of_get? hget, hlead⟩
      · rw [Array.getElem?_setIfInBounds_ne he] at hj
        exact hmarked j hj
  | case4 _ _ _ _ _ _ ih => exact ih (fun h hh => hwork h (List.mem_cons_of_mem _ hh)) hmarked hi

/-- The worklist invariant: a reference of a marked object is marked or still on the worklist. -/
def Covered (heap : Heap) (worklist : List Handle) (marked : Array Bool) : Prop :=
  ∀ h o, heap.get? h = some o → marked[h.slot]? = some true →
    ∀ r ∈ o.references, heap.contains r = true → marked[r.slot]? = some true ∨ r ∈ worklist

/-- A worklist whose first handle is stale or marked may drop it. -/
theorem Covered.skip {rest : List Handle} (hc : heap.Covered (h :: rest) marked)
    (hskip : heap.contains h = true → marked[h.slot]? = some true) : heap.Covered rest marked := by
  intro k o hk hm r hr hlive
  rcases hc k o hk hm r hr hlive with h1 | h1
  · exact Or.inl h1
  · rcases List.mem_cons.mp h1 with rfl | h1
    · exact Or.inl (hskip hlive)
    · exact Or.inr h1

/-- Marking a slot and putting the references of its object on the worklist keeps the invariant. -/
theorem Covered.visit {rest : List Handle} (hc : heap.Covered (h :: rest) marked)
    (hget : heap.get? h = some o) (hu : marked[h.slot]? = some false) :
    heap.Covered (o.references ++ rest) (marked.setIfInBounds h.slot true) := by
  have hset : (marked.setIfInBounds h.slot true)[h.slot]? = some true := by
    obtain ⟨hlt, _⟩ := Array.getElem?_eq_some_iff.mp hu
    exact Array.getElem?_setIfInBounds_self_of_lt hlt
  intro k p hk hm r hr hlive
  by_cases he : h.slot = k.slot
  · -- the object just marked: its references were put on the worklist
    obtain rfl : h = k := eq_of_slot_eq (contains_of_get? hget) (contains_of_get? hk) he
    rw [hget] at hk
    cases hk
    exact Or.inr (List.mem_append_left _ hr)
  · rw [Array.getElem?_setIfInBounds_ne he] at hm
    by_cases hr' : h.slot = r.slot
    · exact Or.inl (hr' ▸ hset)
    · rcases hc k p hk hm r hr hlive with h1 | h1
      · exact Or.inl (by rw [Array.getElem?_setIfInBounds_ne hr']; exact h1)
      · rcases List.mem_cons.mp h1 with rfl | h1
        · exact absurd rfl hr'
        · exact Or.inr (List.mem_append_right _ h1)

/-- **Marking is complete**: it marks the live handles of the worklist and leaves no reference of a
marked object unmarked. -/
theorem markFrom_complete (heap : Heap) (worklist : List Handle) (marked : Array Bool)
    (hsize : marked.size = heap.slots.size) (hc : heap.Covered worklist marked) :
    (∀ h ∈ worklist, heap.contains h = true → (heap.markFrom worklist marked)[h.slot]? = some true)
      ∧ heap.Covered [] (heap.markFrom worklist marked) := by
  fun_induction markFrom heap worklist marked with
  | case1 => exact ⟨List.forall_mem_nil _, hc⟩
  | case2 marked h rest hget ih =>
    have hstale : ¬ heap.contains h = true := not_contains_iff.mpr hget
    obtain ⟨h1, h2⟩ := ih hsize (hc.skip fun hlive => absurd hlive hstale)
    refine ⟨fun k hk hlive => ?_, h2⟩
    rcases List.mem_cons.mp hk with rfl | hk
    · exact absurd hlive hstale
    · exact h1 k hk hlive
  | case3 marked h rest o hget hu ih =>
    obtain ⟨h1, h2⟩ := ih (by rw [Array.size_setIfInBounds]; exact hsize) (hc.visit hget hu)
    refine ⟨fun k hk hlive => ?_, h2⟩
    rcases List.mem_cons.mp hk with rfl | hk
    · obtain ⟨hlt, _⟩ := Array.getElem?_eq_some_iff.mp hu
      exact markFrom_mono heap _ _ (Array.getElem?_setIfInBounds_self_of_lt hlt)
    · exact h1 k (List.mem_append_right _ hk) hlive
  | case4 marked h rest o hget hu ih =>
    -- the slot has a mark, and it is not `false`
    have hm : marked[h.slot]? = some true := by
      obtain ⟨slot, hs, _⟩ := contains_iff_slot.mp (contains_of_get? hget)
      obtain ⟨hlt, _⟩ := Array.getElem?_eq_some_iff.mp hs
      rw [← hsize] at hlt
      rw [Array.getElem?_eq_getElem hlt] at hu ⊢
      simpa using hu
    obtain ⟨h1, h2⟩ := ih hsize (hc.skip fun _ => hm)
    refine ⟨fun k hk hlive => ?_, h2⟩
    rcases List.mem_cons.mp hk with rfl | hk
    · exact markFrom_mono heap _ _ hm
    · exact h1 k hk hlive

/-- **The marked slots are those of the live handles that the roots lead to.** -/
theorem mark_iff (heap : Heap) (roots : List Handle) (hlive : heap.contains h = true) :
    (heap.mark roots).getD h.slot false = true ↔ heap.Leads (· ∈ roots) h := by
  have hnone : ∀ j : Nat, (Array.replicate heap.slots.size false)[j]? ≠ some true := by
    intro j hj
    have := Array.mem_of_getElem? hj
    simp at this
  have hcov : heap.Covered roots (Array.replicate heap.slots.size false) :=
    fun k o _ hm => absurd hm (hnone _)
  obtain ⟨hroots, hclosed⟩ := markFrom_complete heap roots _ Array.size_replicate hcov
  have hgetD : ∀ i : Nat, (heap.mark roots).getD i false = true ↔
      (heap.mark roots)[i]? = some true := by
    intro i
    rw [Array.getD_eq_getD_getElem?]
    cases (heap.mark roots)[i]? <;> simp
  rw [hgetD]
  constructor
  · intro hm
    obtain ⟨k, hk, hklive, hlead⟩ :=
      markFrom_sound heap roots _ (fun k hk => .root hk) (fun j hj => absurd hj (hnone j)) hm
    rwa [eq_of_slot_eq hlive hklive hk.symm]
  · intro hlead
    induction hlead with
    | root hr => exact hroots _ hr hlive
    | step _ hget href ih =>
      have hm := ih (contains_of_get? hget)
      rcases hclosed _ _ hget hm _ (Object.mem_references_iff.mpr href) hlive with h1 | h1
      · exact h1
      · exact absurd h1 List.not_mem_nil

/-! ## 3. Collection -/

/-- **A collection keeps exactly the live handles that the roots lead to.** -/
theorem contains_collect (heap : Heap) (roots : List Handle) (h : Handle) :
    (heap.collect roots).2.contains h = true ↔ heap.contains h = true ∧
    heap.Leads (· ∈ roots) h := by
  unfold collect
  rw [contains_sweep]
  constructor
  · rintro ⟨hm, hlive⟩
    exact ⟨hlive, (mark_iff heap roots hlive).mp hm⟩
  · rintro ⟨hlive, hlead⟩
    exact ⟨(mark_iff heap roots hlive).mpr hlead, hlive⟩

theorem get?_collect (heap : Heap) (roots : List Handle)
    (hkept : (heap.collect roots).2.contains h = true) :
    (heap.collect roots).2.get? h = heap.get? h := by
  have hm := ((contains_sweep heap _ h).mp hkept).1
  unfold collect
  rw [get?_sweep, if_pos hm]

theorem WellFormed.collect (hw : heap.WellFormed) (roots : List Handle) :
    (heap.collect roots).2.WellFormed :=
  hw.sweep _

theorem WellFormed.live_collect (hw : heap.WellFormed) (roots : List Handle) :
    (heap.collect roots).2.live + (heap.collect roots).1 = heap.live := hw.live_sweep _

/-- The handles that a sweep makes stale. -/
theorem swept_eq (heap : Heap) (marked : Array Bool) :
    {h | heap.contains h = true ∧ ¬ (heap.sweep marked).2.contains h = true}
      = ((heap.slots.toList.zipIdx.filter fun entry => condemned entry.1 marked entry.2).map
        fun entry =>
          (⟨entry.2, entry.1.generation⟩ : Handle)).toFinset := by
  ext h
  simp only [Set.mem_ofPred_eq, contains_sweep, List.coe_toFinset, List.mem_map, List.mem_filter,
    Prod.exists, List.mem_zipIdx_iff_getElem?, Array.getElem?_toList]
  constructor
  · rintro ⟨hlive, hnot⟩
    obtain ⟨slot, hs, hg, hocc⟩ := contains_iff_slot.mp hlive
    have hm : marked.getD h.slot false = false := Bool.eq_false_iff.mpr fun hm => hnot ⟨hm, hlive⟩
    exact ⟨slot, h.slot, ⟨hs, by simp [condemned, hocc, hm]⟩, by rw [hg]⟩
  · rintro ⟨slot, i, ⟨hs, hc⟩, rfl⟩
    obtain ⟨hocc, hm⟩ := Bool.and_eq_true_iff.mp hc
    refine ⟨contains_iff_slot.mpr ⟨slot, hs, rfl, hocc⟩, fun hkept => ?_⟩
    rw [hkept.1] at hm
    cases hm

/-- **A collection answers the number of handles that became stale.** -/
theorem ncard_collect (heap : Heap) (roots : List Handle) :
    {h | heap.contains h = true ∧ ¬ (heap.collect roots).2.contains h = true}.ncard
      = (heap.collect roots).1 := by
  have hnodup : ((heap.slots.toList.zipIdx.filter fun entry =>
      condemned entry.1 (heap.mark roots) entry.2).map fun entry =>
      (⟨entry.2, entry.1.generation⟩ : Handle)).Nodup := by
    -- the handles have distinct slots
    refine List.Nodup.of_map Handle.slot ?_
    rw [List.map_map]
    have hall : (heap.slots.toList.zipIdx.map (·.2)).Nodup := by
      rw [List.zipIdx_map_snd]
      exact List.nodup_range'
    exact (List.filter_sublist.map _).nodup hall
  unfold collect
  rw [swept_eq, Set.ncard_coe_finset, List.toFinset_card_of_nodup hnodup, List.length_map]
  rfl

end Heap

end ObjectModel
