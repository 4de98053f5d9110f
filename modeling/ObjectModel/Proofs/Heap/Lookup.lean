import ObjectModel.Heap.Lookup
import ObjectModel.Proofs.Heap.Reachability
import Mathlib.Data.List.Nodup

/-!
# Looking up objects

From object to object, as the search for a member goes along the bases and the search for a name
along the types.

* `Heap.Walk.nodup` -- **a walk that ends passes no object twice**; it needs no more steps than
  there are slots.
-/

namespace ObjectModel.Heap

/-! ## 1. Walks -/

/-- Distinct live handles have distinct slots, so there are no more of them than slots. -/
theorem length_le_of_nodup {heap : Heap} {links : List Handle} (hn : links.Nodup)
    (hlive : ∀ k ∈ links, heap.contains k = true) : links.length ≤ heap.slots.size := by
  have hnodup : (links.map (·.slot)).Nodup :=
    hn.map_on fun k hk k' hk' he => eq_of_slot_eq (hlive k hk) (hlive k' hk') he
  have hsubset : links.map (·.slot) ⊆ List.range heap.slots.size := by
    intro i hi
    obtain ⟨k, hk, rfl⟩ := List.mem_map.mp hi
    obtain ⟨slot, hslot, _⟩ := contains_iff_slot.mp (hlive k hk)
    exact List.mem_range.mpr (Array.getElem?_eq_some_iff.mp hslot).1
  have hle := (List.subperm_of_subset hnodup hsubset).length_le
  rw [List.length_map, List.length_range] at hle
  exact hle

section Walk

variable {β : Type} (heap : Heap) (next : Object → Option Handle)

/-- **A walk that ends**: at an object without a next one, or at a handle that names nothing. The
list has the objects on the way. -/
inductive Walk : Handle → Option Object → List Handle → Prop where
  | lost {h : Handle} : heap.get? h = none → Walk h none []
  | arrived {h : Handle} {o : Object} : heap.get? h = some o → next o = none → Walk h (some o) [h]
  | step {h k : Handle} {o : Object} {stop : Option Object} {path : List Handle} :
      heap.get? h = some o → next o = some k → Walk k stop path → Walk h stop (h :: path)

/-- Walks so many steps: answers `found` of the object at which the walk ends, `gone` at a stale
handle, and `tired` if the walk goes on. -/
def walkFrom (found : Object → β) (gone tired : β) : Nat → Handle → β
  | 0, _ => tired
  | fuel + 1, h =>
    match heap.get? h with
    | none => gone
    | some o =>
      match next o with
      | none => found o
      | some k => walkFrom found gone tired fuel k

variable {heap next} {h k w : Handle} {stop stop' : Option Object} {path path' : List Handle}
  {found : Object → β} {gone tired : β}

namespace Walk

theorem unique (hw : heap.Walk next h stop path) (hw' : heap.Walk next h stop' path') :
    path = path' := by
  induction hw generalizing path' with
  | lost hn =>
    cases hw' with
    | lost _ => rfl
    | arrived ho _ => cases hn.symm.trans ho
    | step ho _ _ => cases hn.symm.trans ho
  | arrived ho he =>
    cases hw' with
    | lost hn => cases hn.symm.trans ho
    | arrived _ _ => rfl
    | step ho' he' _ =>
      cases ho.symm.trans ho'
      cases he.symm.trans he'
  | step ho he _ ih =>
    cases hw' with
    | lost hn => cases hn.symm.trans ho
    | arrived ho' he' =>
      cases ho.symm.trans ho'
      cases he.symm.trans he'
    | step ho' he' hrest =>
      cases ho.symm.trans ho'
      cases he.symm.trans he'
      rw [ih hrest]

/-- From every object on the way the walk goes on as before. -/
theorem of_mem (hw : heap.Walk next h stop path) (hk : k ∈ path) :
    ∃ rest, heap.Walk next k stop rest ∧ rest <:+ path := by
  induction hw with
  | lost _ => exact absurd hk List.not_mem_nil
  | arrived ho he =>
    rw [List.mem_singleton.mp hk]
    exact ⟨_, .arrived ho he, List.suffix_rfl⟩
  | step ho he hrest ih =>
    rcases List.mem_cons.mp hk with rfl | hk
    · exact ⟨_, .step ho he hrest, List.suffix_rfl⟩
    · obtain ⟨rest, hw, hs⟩ := ih hk
      exact ⟨rest, hw, hs.trans (List.suffix_cons _ _)⟩

/-- **A walk that ends passes no object twice.** -/
theorem nodup (hw : heap.Walk next h stop path) : path.Nodup := by
  induction hw with
  | lost _ => exact List.nodup_nil
  | arrived _ _ => exact List.nodup_singleton _
  | step ho he hrest ih =>
    refine List.nodup_cons.mpr ⟨fun hmem => ?_, ih⟩
    obtain ⟨rest, hw, hs⟩ := hrest.of_mem hmem
    have hlength := hs.length_le
    rw [hw.unique (.step ho he hrest), List.length_cons] at hlength
    omega

theorem live (hw : heap.Walk next h stop path) (hk : k ∈ path) : heap.contains k = true := by
  induction hw with
  | lost _ => exact absurd hk List.not_mem_nil
  | arrived ho _ =>
    rw [List.mem_singleton.mp hk]
    exact contains_of_get? ho
  | step ho _ _ ih =>
    rcases List.mem_cons.mp hk with rfl | hk
    · exact contains_of_get? ho
    · exact ih hk

theorem length_le (hw : heap.Walk next h stop path) : path.length ≤ heap.slots.size :=
  length_le_of_nodup hw.nodup fun _ hk => hw.live hk

/-- A walk that gets lost leaves out every object at which it would have ended. -/
theorem notMem_of_lost {o : Object} (hw : heap.Walk next h none path) (ho : heap.get? k = some o)
    (he : next o = none) : k ∉ path := by
  intro hk
  obtain ⟨rest, hrest, _⟩ := hw.of_mem hk
  cases hrest with
  | lost hn => cases hn.symm.trans ho
  | step ho' he' _ =>
    cases ho.symm.trans ho'
    cases he.symm.trans he'

/-- The steps that it takes to notice how a walk ends. -/
def cost (stop : Option Object) (path : List Handle) : Nat := path.length + stop.elim 1 fun _ => 0

/-- **A walk that ends is noticed within the size of the heap.** -/
theorem cost_le {o : Object} (hw : heap.Walk next h stop path) (ho : heap.get? k = some o)
    (he : next o = none) : cost stop path ≤ heap.slots.size := by
  cases stop with
  | some _ => exact hw.length_le
  | none =>
    have hn : (k :: path).Nodup := List.nodup_cons.mpr ⟨hw.notMem_of_lost ho he, hw.nodup⟩
    refine length_le_of_nodup hn fun j hj => ?_
    rcases List.mem_cons.mp hj with rfl | hj
    · exact contains_of_get? ho
    · exact hw.live hj

theorem walkFrom_eq (hw : heap.Walk next h stop path) {fuel : Nat} (hf : cost stop path ≤ fuel) :
    heap.walkFrom next found gone tired fuel h = stop.elim gone found := by
  induction hw generalizing fuel with
  | lost hn =>
    cases fuel with
    | zero => exact absurd hf (Nat.not_succ_le_zero _)
    | succ fuel => simp only [walkFrom, hn, Option.elim_none]
  | arrived ho he =>
    cases fuel with
    | zero => exact absurd hf (Nat.not_succ_le_zero _)
    | succ fuel => simp only [walkFrom, ho, he, Option.elim_some]
  | @step first _ _ stop path ho he _ ih =>
    have hcost : cost stop (first :: path) = cost stop path + 1 := Nat.add_right_comm _ _ _
    rw [hcost] at hf
    cases fuel with
    | zero => exact absurd hf (Nat.not_succ_le_zero _)
    | succ fuel =>
      simp only [walkFrom, ho, he]
      exact ih (Nat.le_of_succ_le_succ hf)

end Walk

/-- Whoever does not tire has walked to an end. -/
theorem walkFrom_cases (fuel : Nat) (h : Handle) :
    heap.walkFrom next found gone tired fuel h = tired ∨
    ∃ stop path, heap.Walk next h stop path := by
  induction fuel generalizing h with
  | zero => exact Or.inl rfl
  | succ fuel ih =>
    cases ho : heap.get? h with
    | none => exact Or.inr ⟨_, _, .lost ho⟩
    | some o =>
      cases he : next o with
      | none => exact Or.inr ⟨_, _, .arrived ho he⟩
      | some k =>
        rcases ih k with ht | ⟨stop, path, hw⟩
        · refine Or.inl ?_
          simp only [walkFrom, ho, he]
          exact ht
        · exact Or.inr ⟨_, _, .step ho he hw⟩

/-- **More steps than slots make no difference.** -/
theorem walkFrom_stable {o : Object} (ho : heap.get? k = some o) (he : next o = none) {fuel : Nat}
    (hf : heap.slots.size ≤ fuel) :
    heap.walkFrom next found gone tired fuel h
      = heap.walkFrom next found gone tired heap.slots.size h := by
  by_cases hw : ∃ stop path, heap.Walk next h stop path
  · obtain ⟨stop, path, hw⟩ := hw
    have hle := hw.cost_le ho he
    rw [hw.walkFrom_eq (Nat.le_trans hle hf), hw.walkFrom_eq hle]
  · rw [(walkFrom_cases fuel h).resolve_right hw,
      (walkFrom_cases heap.slots.size h).resolve_right hw]

end Walk

/-! ## 2. Chains -/

variable {heap : Heap} {h : Handle} {o : Object} {links : List Handle}

theorem base_of_not_type (ht : o.isType = false) : o.base = none := by
  unfold Object.isType at ht
  unfold Object.base
  split
  · rename_i hp
    rw [hp] at ht
    cases ht
  · rfl

/-- A heap with an object allows a walk of at least one step. -/
theorem exists_fuel (hlive : heap.contains h = true) : ∃ fuel, heap.slots.size = fuel + 1 := by
  obtain ⟨slot, hslot, _⟩ := contains_iff_slot.mp hlive
  have hlt : h.slot < heap.slots.size := (Array.getElem?_eq_some_iff.mp hslot).1
  exact ⟨heap.slots.size - 1, by omega⟩

theorem chain_of_base_none (hget : heap.get? h = some o) (hb : o.base = none) :
    heap.chain h = some [h] := by
  obtain ⟨fuel, hfuel⟩ := exists_fuel (contains_of_get? hget)
  rw [chain, hfuel]
  simp only [chainFrom, hget, hb, Option.bind_eq_bind, Option.bind_some, Option.pure_def]

/-- A walk from a handle that names nothing fails, unless the heap is empty. -/
theorem chain_of_stale {k : Handle} (hlive : heap.contains k = true) (hget : heap.get? h = none) :
    heap.chain h = none := by
  obtain ⟨fuel, hfuel⟩ := exists_fuel hlive
  rw [chain, hfuel]
  simp only [chainFrom, hget, Option.bind_eq_bind, Option.bind_none]

/-! ## 3. Members -/

theorem hook_of_get? (ho : heap.get? h = some o) (name : String) :
    heap.hook h name = heap.lookup o.type name := by
  rw [hook, typeOf, ho]
  rfl

theorem lookup_of_chain (hc : heap.chain h = some links) (name : String) :
    heap.lookup h name = some (heap.firstDefined links name) := by
  rw [lookup, hc]
  rfl

/-- The first link has the member, or it is looked for behind it. -/
theorem firstDefined_cons (hget : heap.get? h = some o) (name : String) :
    heap.firstDefined (h :: links) name
      = (o.attributes.get? name).or (heap.firstDefined links name) := by
  rw [firstDefined, List.findSome?_cons, hget, Option.bind_some]
  cases o.attributes.get? name with
  | none => rfl
  | some _ => rfl

theorem lookup_of_base_none (hget : heap.get? h = some o) (hb : o.base = none) (name : String) :
    heap.lookup h name = some (o.attributes.get? name) := by
  rw [lookup_of_chain (chain_of_base_none hget hb), firstDefined_cons hget]
  exact congrArg some Option.or_none

theorem ownAttribute_of_get? (ho : heap.get? h = some o) (name : String) :
    heap.ownAttribute h name = some (o.attributes.get? name) := by
  rw [ownAttribute, ho]
  rfl

theorem tupleAttribute_of_get? {name : String} {cell : Handle} {c : Object}
    (ho : heap.get? h = some o) (hcell : o.attributes.get? name = some cell)
    (hc : heap.get? cell = some c) : heap.tupleAttribute h name = some c.tupleItems := by
  rw [tupleAttribute, ownAttribute_of_get? ho, hcell]
  exact congrArg (Option.bind · fun c => some c.tupleItems) hc

/-! ## 4. Names -/

theorem className_of_get? (ho : heap.get? h = some o) :
    heap.className h = heap.typeName o.type := by
  rw [className, typeOf, ho]
  rfl

/-- Where the search for the name of a type goes on. -/
def towardsType (o : Object) : Option Handle :=
  match o.payload with
  | .type _ _ => none
  | _ => some o.type

theorem towardsType_eq (o : Object) : towardsType o = if o.isType then none else some o.type := by
  unfold towardsType Object.isType
  cases o.payload <;> rfl

/-- The name of an object that is a type. -/
def ownName (o : Object) : Option String :=
  match o.payload with
  | .type name _ => some name
  | _ => none

theorem typeNameFrom_eq_walkFrom (heap : Heap) (fuel : Nat) (h : Handle) :
    heap.typeNameFrom fuel h = heap.walkFrom towardsType ownName none none fuel h := by
  induction fuel generalizing h with
  | zero => rfl
  | succ fuel ih =>
    simp only [typeNameFrom, walkFrom]
    cases heap.get? h with
    | none => rfl
    | some o =>
      simp only [Option.bind_eq_bind, Option.bind_some, towardsType, ownName]
      cases o.payload with
      | type name base => rfl
      | _ => exact ih _

end ObjectModel.Heap
