import ObjectModel.Proofs.References.Bootstrap
import ObjectModel.Proofs.Run.Evaluation
import ObjectModel.Proofs.Types.Orderly

/-!
# The first state is orderly

* `State.orderly_initial`, `State.still_initial` -- **the first state is orderly**, and no generator
  is running in it.
-/

namespace ObjectModel

/-! ## 1. Heaps that were filled once -/

/-- The objects of the heap, in the order in which they were placed. -/
structure Heap.Holds (heap : Heap) (objects : List Object) : Prop where
  packed : heap.Packed
  size : heap.slots.size = objects.length
  get?_eq : ∀ h : Handle, heap.get? h = if h.generation = 0 then objects[h.slot]? else none

namespace Heap.Holds

variable {heap : Heap} {objects : List Object}

theorem empty : Heap.empty.Holds [] where
  packed := .empty
  size := rfl
  get?_eq h := by simp [Heap.get?, Heap.empty]

theorem allocate (hh : heap.Holds objects) (object : Object) :
    (heap.allocate object).2.Holds (objects ++ [object]) := by
  obtain ⟨hp, hsize⟩ := hh.packed.allocate object
  refine ⟨hp, ?_, fun h => ?_⟩
  · rw [hsize, hh.size, List.length_append, List.length_singleton]
  · have hnew : (heap.allocate object).1 = .first objects.length := by
      rw [Heap.allocate_new hh.packed.free, ← hh.size]
    obtain ⟨slot, generation⟩ := h
    rw [get?_allocate hh.packed.wellFormed, hnew, hh.get?_eq]
    by_cases hg : generation = 0
    · subst hg
      rw [if_pos rfl, if_pos rfl]
      split
      · rename_i he
        cases he
        simp
      · rename_i hne
        have hslot : slot ≠ objects.length := fun he => hne (by rw [he]; rfl)
        by_cases hlt : slot < objects.length
        · rw [List.getElem?_append_left hlt]
        · have hle : (objects ++ [object]).length ≤ slot := by
            rw [List.length_append, List.length_singleton]
            omega
          rw [List.getElem?_eq_none (Nat.le_of_not_lt hlt), List.getElem?_eq_none hle]
    · rw [if_neg hg, if_neg hg, if_neg]
      intro he
      cases he
      exact hg rfl

theorem place (hh : heap.Holds objects) (more : List Object) :
    (Bootstrap.place more heap).Holds (objects ++ more) := by
  induction more generalizing heap objects with
  | nil =>
    rw [List.append_nil]
    exact hh
  | cons object rest ih =>
    rw [List.append_cons]
    exact ih (hh.allocate object)

end Heap.Holds

namespace Bootstrap

/-! ## 2. Types and singletons -/

theorem holds_first : (place singletons (place types .empty)).Holds (types ++ singletons) :=
  (Heap.Holds.empty.place types).place singletons

/-- The object of a builtin type before it has members. -/
def bareType (t : BuiltinType) : Object := .ofType t.name (t.base?.map (·.handle)) .empty

theorem slot_of_all : ∀ x ∈ BuiltinType.all.zipIdx, x.1.slot = x.2 := by
  decide

/-- The singletons stand behind the types. -/
theorem handle_of_singletons :
    ∀ x ∈ singletons.zipIdx types.length, x.1.payload.singleton? = some (.first x.2) := by
  decide

theorem kind_of_singletons : ∀ o ∈ singletons, o.payload.builtin?.map (·.handle) = some o.type := by
  decide

theorem get?_first_type (t : BuiltinType) :
    (place singletons (place types .empty)).get? t.handle = some (bareType t) := by
  have hgeneration : t.handle.generation = 0 := rfl
  rw [holds_first.get?_eq, if_pos hgeneration]
  cases t with
  | exception kind => cases kind <;> rfl
  | _ => rfl

/-- **Behind the types and the singletons there is nothing else.** -/
theorem first_cases {h : Handle} {o : Object}
    (hget : (place singletons (place types .empty)).get? h = some o) :
    (∃ t : BuiltinType, h = t.handle ∧ o = bareType t) ∨
    (o ∈ singletons ∧ o.payload.singleton? = some h) := by
  rw [holds_first.get?_eq] at hget
  obtain ⟨slot, generation⟩ := h
  split at hget
  · rename_i hg
    cases hg
    by_cases hlt : slot < types.length
    · rw [List.getElem?_append_left hlt] at hget
      have htypes : types = BuiltinType.all.map bareType := rfl
      rw [htypes, List.getElem?_map] at hget
      obtain ⟨t, ht, rfl⟩ := Option.map_eq_some_iff.mp hget
      have hslot : t.slot = slot := slot_of_all (t, slot) (List.mk_mem_zipIdx_iff_getElem?.mpr ht)
      exact Or.inl ⟨t, by rw [← hslot]; rfl, rfl⟩
    · rw [List.getElem?_append_right (Nat.le_of_not_lt hlt)] at hget
      have hmem : (o, slot) ∈ singletons.zipIdx types.length := by
        rw [List.mk_mem_zipIdx_iff_le_and_getElem?_sub]
        exact ⟨Nat.le_of_not_lt hlt, hget⟩
      exact Or.inr ⟨List.mem_of_getElem? hget, handle_of_singletons _ hmem⟩
  · cases hget

/-- A lineage of builtin types has no more than three links. -/
theorem lineage_first {heap : Heap}
    (hget : ∀ t : BuiltinType, heap.get? t.handle = some (bareType t)) (t : BuiltinType) :
    ∃ links, heap.Lineage t.handle links ∧ links.length ≤ 3 := by
  have hobject : heap.Lineage BuiltinType.object.handle [BuiltinType.object.handle] :=
    .root (hget .object) rfl
  have hexception : heap.Lineage (BuiltinType.exception .exception).handle
      [(BuiltinType.exception .exception).handle, BuiltinType.object.handle] :=
        .derived (hget (.exception .exception)) rfl hobject
  cases t with
  | object => exact ⟨_, hobject, by decide⟩
  | exception kind =>
    cases kind with
    | exception => exact ⟨_, hexception, by decide⟩
    | _ => exact ⟨_, .derived (hget _) rfl hexception, by decide⟩
  | _ => exact ⟨_, .derived (hget _) rfl hobject, by decide⟩

theorem orderly_first {bound : Nat} (hb : 3 ≤ bound) :
    (place singletons (place types .empty)).Orderly bound where
  builtin t := ⟨bareType t, get?_first_type t, rfl⟩
  lineage := by
    intro h ht
    obtain ⟨o, name, base, hget, hp⟩ := Heap.isType_iff.mp ht
    rcases first_cases hget with ⟨t, rfl, rfl⟩ | ⟨_, hk⟩
    · obtain ⟨links, hl, hle⟩ := lineage_first get?_first_type t
      exact ⟨links, hl, Nat.le_trans hle hb⟩
    · rw [hp] at hk
      cases hk
  root := by
    intro h o name hget hp
    rcases first_cases hget with ⟨t, rfl, rfl⟩ | ⟨_, hk⟩
    · cases t with
      | object => rfl
      | exception kind => cases kind <;> cases hp
      | _ => cases hp
    · rw [hp] at hk
      cases hk
  kind := by
    intro h o t hget hk
    rcases first_cases hget with ⟨t', rfl, rfl⟩ | ⟨hmem, _⟩
    · cases hk
      rfl
    · have htype := kind_of_singletons o hmem
      rw [hk] at htype
      exact (Option.some.inj htype).symm
  plain := by
    intro h o hget hp
    rcases first_cases hget with ⟨t, rfl, rfl⟩ | ⟨_, hk⟩
    · cases hp
    · rw [hp] at hk
      cases hk
  singleton := by
    intro h k o hget hk
    rcases first_cases hget with ⟨t, rfl, rfl⟩ | ⟨_, hk'⟩
    · cases hk
    · exact Option.some.inj (hk'.symm.trans hk)

/-! ## 3. The first heap -/

/-- Furnishing changes the attributes of the owner only. -/
theorem get?_furnish (store : Heap) (owner : Handle) (name : String) (object : Object)
    (h : Handle) :
    (furnish store owner name object).get? h = ((store.allocate object).2.get? h).map fun o =>
      { o with attributes :=
          if h = owner then o.attributes.insert name (store.allocate object).1
          else o.attributes } := by
  rw [furnish, Heap.get?_modify]
  by_cases he : h = owner
  · simp only [he, if_true]
  · simp only [he, if_false]
    exact Option.map_id'.symm

/-- An orderly heap without mappings and running generators, with attributes that can be found. -/
structure Tidy (limit : Nat) (store : Heap) : Prop where
  wellFormed : store.WellFormed
  orderly : store.Orderly (max limit 3)
  typed : store.WellTyped
  still : ∀ {h : Handle} {o : Object}, store.get? h = some o → o.payload ≠ .generator .running
  coherent : ∀ {h : Handle} {o : Object}, store.get? h = some o → o.attributes.Coherent

namespace Tidy

variable {limit : Nat} {store : Heap}

theorem first (limit : Nat) : Tidy limit (place singletons (place types .empty)) where
  wellFormed := holds_first.packed.wellFormed
  orderly := orderly_first (Nat.le_max_right _ _)
  typed := by
    intro h o hget
    refine (orderly_first (Nat.le_refl 3)).isType_of_not_dict hget fun entries hp => ?_
    rcases first_cases hget with ⟨t, rfl, rfl⟩ | ⟨_, hk⟩
    · cases hp
    · rw [hp] at hk
      cases hk
  still := by
    intro h o hget hp
    rcases first_cases hget with ⟨t, rfl, rfl⟩ | ⟨_, hk⟩
    · cases hp
    · rw [hp] at hk
      cases hk
  coherent := by
    intro h o hget
    have hempty : ∀ o ∈ singletons, o.attributes = .empty := by
      intro o ho
      simp only [singletons, List.mem_cons, List.not_mem_nil, or_false] at ho
      rcases ho with rfl | rfl | rfl | rfl <;> rfl
    rcases first_cases hget with ⟨t, rfl, rfl⟩ | ⟨hmem, _⟩
    · exact .empty
    · rw [hempty o hmem]
      exact .empty

theorem allocate (ht : Tidy limit store) {object : Object} (hf : store.Fits limit object)
    (htype : store.IsType object.type) (ha : object.attributes = .empty) :
    Tidy limit (store.allocate object).2 where
  wellFormed := ht.wellFormed.allocate object
  orderly := ht.orderly.allocate ht.wellFormed hf
  typed := ht.typed.allocate ht.wellFormed htype
  still := by
    intro h o hget hp
    rcases Heap.get?_allocate_cases ht.wellFormed hget with ⟨_, rfl⟩ | hold
    · exact hf.not_running hp
    · exact ht.still hold hp
  coherent := by
    intro h o hget
    rcases Heap.get?_allocate_cases ht.wellFormed hget with ⟨_, rfl⟩ | hold
    · rw [ha]
      exact .empty
    · exact ht.coherent hold

theorem furnish (ht : Tidy limit store) (owner : Handle) (name : String) {object : Object}
    (hf : store.Fits limit object) (htype : store.IsType object.type)
    (ha : object.attributes = .empty) : Tidy limit (furnish store owner name object) := by
  have hplaced := ht.allocate hf htype ha
  have halike : (store.allocate object).2.Alike (Bootstrap.furnish store owner name object) :=
    Heap.alike_modify _ _ fun o => ⟨rfl, rfl⟩
  refine ⟨hplaced.wellFormed.modify owner _, hplaced.orderly.alike halike,
    hplaced.typed.alike halike, ?_, ?_⟩
  · intro h o hget hp
    rw [get?_furnish] at hget
    obtain ⟨o', ho', rfl⟩ := Option.map_eq_some_iff.mp hget
    exact hplaced.still ho' hp
  · intro h o hget
    rw [get?_furnish] at hget
    obtain ⟨o', ho', rfl⟩ := Option.map_eq_some_iff.mp hget
    dsimp only
    split
    · exact (hplaced.coherent ho').insert name _
    · exact hplaced.coherent ho'

end Tidy

theorem tidy_furnished_heap (limit : Nat) : Tidy limit furnished ∧ Tidy limit heap :=
  heap_induction (.first limit) (fun _ owner name text ht => ht.furnish owner name
    (.text text) (ht.orderly.isType_builtin .str) rfl) (fun _ owner name label code ht =>
    ht.furnish owner name (.code label code) (ht.orderly.isType_builtin .function) rfl)
    fun _ label code ht => ht.allocate (.code label code) (ht.orderly.isType_builtin .function) rfl

/-! ## 4. Members -/

/-- The attribute `name` of `owner` is an object with this payload. -/
def Offers (store : Heap) (owner : Handle) (name : String) (payload : Payload) : Prop :=
  ∃ o member f, store.get? owner = some o ∧ o.attributes.get? name = some member ∧
    store.get? member = some f ∧ f.payload = payload

/-- The builtin member is where it was placed. -/
abbrev OffersMember (store : Heap) (m : Member) : Prop :=
  Offers store m.owner.handle m.name (.function m.qualifiedName (.member m))

section

variable {limit : Nat} {store : Heap} {owner : Handle} {name : String} {payload : Payload}

instance {label : String} {m : Member} :
    Decidable (Offers store owner name (.function label (.member m))) :=
  decidable_of_iff (∃ o ∈ store.get? owner, ∃ member ∈ o.attributes.get? name,
      ∃ f ∈ store.get? member, f.payload.same (.function label (.member m)) = true) <| by
    simp only [Payload.same_member_iff]
    constructor
    · rintro ⟨o, hget, member, hmember, f, hf, hp⟩
      exact ⟨o, member, f, hget, hmember, hf, hp⟩
    · rintro ⟨o, member, f, hget, hmember, hf, hp⟩
      exact ⟨o, hget, member, hmember, f, hf, hp⟩

theorem Offers.lookup {links : List Handle} (h : Offers store owner name payload)
    (hl : store.Lineage owner links) :
    ∃ member f, store.lookup owner name = some (some member) ∧ store.get? member = some f ∧
      f.payload = payload := by
  obtain ⟨o, member, f, ho, hm, hf, hp⟩ := h
  obtain ⟨rest, rfl⟩ := hl.eq_cons
  refine ⟨member, f, ?_, hf, hp⟩
  rw [hl.lookup_eq, Heap.firstDefined_cons ho, hm]
  rfl

theorem Offers.allocate (h : Offers store owner name payload) (hw : store.WellFormed)
    (object : Object) : Offers (store.allocate object).2 owner name payload := by
  obtain ⟨o, member, f, ho, hm, hf, hp⟩ := h
  exact ⟨o, member, f, Heap.get?_allocate_of_live hw ho, hm, Heap.get?_allocate_of_live hw hf, hp⟩

end

/-- **Every builtin member is an attribute of its type.** -/
theorem offers_member : ∀ m ∈ Member.all, OffersMember heap m := by
  decide +kernel

end Bootstrap

/-! ## 5. The state -/

namespace State

variable (limits : Limits) (console : Console)

/-- **The first state is orderly.** -/
theorem orderly_initial : (State.initial limits console).Orderly := by
  refine ⟨regular_initial limits console, ?_⟩
  rw [heap_initial]
  exact (Bootstrap.tidy_furnished_heap _).2.orderly

/-- **No generator is running in the first state.** -/
theorem still_initial (g : Handle) : ¬ (State.initial limits console).Stands g .running := by
  rintro ⟨o, hget, hp⟩
  rw [heap_initial] at hget
  exact (Bootstrap.tidy_furnished_heap 0).2.still hget hp

end State

end ObjectModel
