import ObjectModel.Proofs.Lists.Sequence

/-!
# Changing the entries of a mapping

What the entries of a `dict` have to do with the rest of the state: nothing, as far as other changes
and most questions go.

* `State.modify_modifyEntries`, `State.allocate_modifyEntries` -- **any other change commutes with
  one of the entries**.
-/

namespace ObjectModel

variable {s t : State} {h k g : Handle} {o : Object} {m : OrderedMap Handle}
  {change : OrderedMap Handle → OrderedMap Handle}

/-! ## 1. Objects, slots and heaps -/

/-- The object with its entries changed, if it has any. -/
def Object.mapEntries (change : OrderedMap Handle → OrderedMap Handle) (o : Object) : Object :=
  match o.payload with
  | .dict entries => { o with payload := .dict (change entries) }
  | _ => o

namespace Object

theorem mapEntries_of_dict (hp : o.payload = .dict m) :
    o.mapEntries change = { o with payload := .dict (change m) } := by
  simp only [mapEntries, hp]

theorem mapEntries_of_ne (hp : ∀ m, o.payload ≠ .dict m) : o.mapEntries change = o := by
  unfold mapEntries
  split
  · rename_i m hm
    exact absurd hm (hp m)
  · rfl

theorem mapEntries_mapEntries (change change' : OrderedMap Handle → OrderedMap Handle)
    (o : Object) : (o.mapEntries change).mapEntries change' = o.mapEntries (change' ∘ change) := by
  by_cases hp : ∃ m, o.payload = .dict m
  · obtain ⟨m, hp⟩ := hp
    rw [mapEntries_of_dict hp, mapEntries_of_dict hp]
    rfl
  · have hne : ∀ m, o.payload ≠ .dict m := fun m hm => hp ⟨m, hm⟩
    rw [mapEntries_of_ne hne, mapEntries_of_ne hne, mapEntries_of_ne hne]

theorem type_mapEntries (o : Object) : (o.mapEntries change).type = o.type := by
  unfold mapEntries
  split <;> rfl

theorem attributes_mapEntries (o : Object) : (o.mapEntries change).attributes = o.attributes := by
  unfold mapEntries
  split <;> rfl

theorem base_mapEntries (o : Object) : (o.mapEntries change).base = o.base := by
  obtain ⟨payload, type, attributes⟩ := o
  cases payload <;> rfl

theorem tupleItems_mapEntries (o : Object) : (o.mapEntries change).tupleItems = o.tupleItems := by
  obtain ⟨payload, type, attributes⟩ := o
  cases payload <;> rfl

theorem textValue_mapEntries (o : Object) : (o.mapEntries change).textValue = o.textValue := by
  obtain ⟨payload, type, attributes⟩ := o
  cases payload <;> rfl

theorem mapEntries_ne_suspended (o : Object) (hp : ∀ c, o.payload ≠ .generator (.suspended c))
    (c : Coroutine) : (o.mapEntries change).payload ≠ .generator (.suspended c) := by
  unfold mapEntries
  split
  · exact nofun
  · exact hp c

theorem mapEntries_attributes (f : OrderedMap Handle → OrderedMap Handle) (o : Object) :
    { o with attributes := f o.attributes }.mapEntries change
      = { o.mapEntries change with attributes := f (o.mapEntries change).attributes } := by
  obtain ⟨payload, type, attributes⟩ := o
  cases payload <;> rfl

theorem Alike.payload_dict {o' : Object} (ha : o.Alike o') (hp : o.payload = .dict m) :
    ∃ m', o'.payload = .dict m' := by
  rcases ha.payload_cases with hp' | ⟨_, m', _, hp'⟩ | ⟨_, _, hgenerator, _⟩
  · exact ⟨m, hp'.trans hp⟩
  · exact ⟨m', hp'⟩
  · cases hp.symm.trans hgenerator

end Object

/-- The slot with its object changed, if it has the generation. -/
def Slot.alter (generation : Nat) (f : Object → Object) (slot : Slot) : Slot :=
  if slot.generation = generation then { slot with object := slot.object.map f } else slot

namespace Slot

variable {f f' : Object → Object} {i j : Nat}

@[simp] theorem generation_alter (slot : Slot) : (slot.alter i f).generation = slot.generation := by
  unfold alter
  split <;> rfl

theorem alter_of_ne {slot : Slot} (hg : slot.generation ≠ i) : slot.alter i f = slot := if_neg hg

theorem alter_mk (object : Option Object) : (Slot.mk i object).alter i f = ⟨i, object.map f⟩ :=
  if_pos rfl

theorem alter_comm (slot : Slot) (hc : i ≠ j ∨ ∀ o, f (f' o) = f' (f o)) :
    (slot.alter i f).alter j f' = (slot.alter j f').alter i f := by
  by_cases hi : slot.generation = i
  · by_cases hj : slot.generation = j
    · have hcomm := hc.resolve_left fun hne => hne (hi.symm.trans hj)
      obtain ⟨generation, object⟩ := slot
      cases hi
      cases hj
      simp only [alter_mk, Option.map_map, Function.comp_def, hcomm]
    · rw [alter_of_ne hj, alter_of_ne (by rwa [generation_alter])]
  · rw [alter_of_ne hi, alter_of_ne (f := f) (by rwa [generation_alter])]

theorem alter_alter (slot : Slot) : (slot.alter i f).alter i f' = slot.alter i (f' ∘ f) := by
  by_cases hi : slot.generation = i
  · obtain ⟨generation, object⟩ := slot
    cases hi
    simp only [alter_mk, Option.map_map]
  · rw [alter_of_ne hi, alter_of_ne hi, alter_of_ne hi]

end Slot

namespace Heap

variable {heap : Heap} {f f' : Object → Object}

theorem slots_modify (heap : Heap) (h : Handle) (f : Object → Object) :
    (heap.modify h f).slots = heap.slots.modify h.slot (Slot.alter h.generation f) := rfl

/-- Changes of two objects commute, and so do changes of one object that do on their own. -/
theorem modify_comm (heap : Heap) (hc : h ≠ k ∨ ∀ o, f (f' o) = f' (f o)) :
    (heap.modify h f).modify k f' = (heap.modify k f').modify h f := by
  have hslots : ((heap.modify h f).modify k f').slots = ((heap.modify k f').modify h f).slots := by
    apply Array.ext_getElem?
    intro i
    simp only [slots_modify, Array.getElem?_modify]
    by_cases hh : h.slot = i
    · by_cases hk : k.slot = i
      · have hc : h.generation ≠ k.generation ∨ ∀ o, f (f' o) = f' (f o) := by
          refine hc.imp_left fun hne he => hne ?_
          cases h
          cases k
          simp_all
        rw [if_pos hk, if_pos hh, if_pos hh, if_pos hk, Option.map_map, Option.map_map]
        exact congrArg (Option.map · _) (funext fun slot => slot.alter_comm hc)
      · rw [if_neg hk, if_neg hk]
    · rw [if_neg hh, if_neg hh]
  exact congrArg (Heap.mk · heap.free heap.live) hslots

theorem modify_modify (heap : Heap) (h : Handle) :
    (heap.modify h f).modify h f' = heap.modify h (f' ∘ f) := by
  have hslots : ((heap.modify h f).modify h f').slots = (heap.modify h (f' ∘ f)).slots := by
    apply Array.ext_getElem?
    intro i
    simp only [slots_modify, Array.getElem?_modify]
    by_cases hh : h.slot = i
    · rw [if_pos hh, if_pos hh, if_pos hh, Option.map_map]
      exact congrArg (Option.map · _) (funext fun slot => slot.alter_alter)
    · rw [if_neg hh, if_neg hh, if_neg hh]
  exact congrArg (Heap.mk · heap.free heap.live) hslots

theorem modify_eq_self (hget : heap.get? h = some o) (hf : f o = o) : heap.modify h f = heap := by
  have hslots : (heap.modify h f).slots = heap.slots := by
    apply Array.ext_getElem?
    intro i
    rw [slots_modify, Array.getElem?_modify]
    by_cases hi : h.slot = i
    · obtain ⟨⟨generation, object⟩, hslot, hg, ho⟩ := get?_eq_some_iff.mp hget
      cases hg
      cases ho
      rw [if_pos hi, ← hi, hslot, Option.map_some, Slot.alter_mk, Option.map_some, hf]
    · rw [if_neg hi]
  exact congrArg (Heap.mk · heap.free heap.live) hslots

theorem allocate_modify (hw : heap.WellFormed) (hh : heap.contains h = true) (object : Object) :
    (heap.modify h f).allocate object
      = ((heap.allocate object).1, (heap.allocate object).2.modify h f) := by
  obtain ⟨o, hget⟩ := contains_iff.mp hh
  obtain ⟨slot, hslot, hg, ho⟩ := get?_eq_some_iff.mp hget
  cases hf : heap.free with
  | nil =>
    have hsize : h.slot < heap.slots.size := (Array.getElem?_eq_some_iff.mp hslot).1
    have hpush : (heap.slots.modify h.slot (Slot.alter h.generation f)).push ⟨0, some object⟩
        = (heap.slots.push ⟨0, some object⟩).modify h.slot (Slot.alter h.generation f) := by
      apply Array.ext_getElem?
      intro i
      rw [Array.getElem?_modify, Array.getElem?_push, Array.getElem?_push, Array.getElem?_modify,
        Array.size_modify]
      grind
    have hf' : (heap.modify h f).free = [] := hf
    rw [allocate_new hf, allocate_new hf', slots_modify, Array.size_modify, hpush]
    rfl
  | cons i rest =>
    obtain ⟨free, hfree, hv⟩ := hw.free_vacant i (by rw [hf]; exact List.mem_cons_self)
    have hne : h.slot ≠ i := by
      intro he
      rw [← he, hslot] at hfree
      cases hfree
      rw [hv] at ho
      cases ho
    have hfree' : (heap.modify h f).slots[i]? = some free := by
      rw [slots_modify, Array.getElem?_modify, if_neg hne, hfree]
    have hmodify :
        ((heap.modify h f).slots.modify i fun slot => { slot with object := some object })
        = (heap.slots.modify i fun slot => { slot with object := some object }).modify h.slot
            (Slot.alter h.generation f) := by
      apply Array.ext_getElem?
      intro j
      simp only [slots_modify, Array.getElem?_modify]
      grind
    have hf' : (heap.modify h f).free = i :: rest := hf
    rw [allocate_free hf hfree, allocate_free hf' hfree', hmodify]
    rfl

end Heap

/-! ## 2. States -/

namespace State

section

variable (s h change)

theorem modifyEntries_eq : s.modifyEntries h change = s.modify h (Object.mapEntries change) := rfl

theorem get?_modifyEntries_self :
    (s.modifyEntries h change).heap.get? h = (s.heap.get? h).map (Object.mapEntries change) :=
  s.heap.get?_modify_self h _

theorem contains_modifyEntries (k : Handle) :
    (s.modifyEntries h change).heap.contains k = s.heap.contains k := s.heap.contains_modify h _ k

theorem limits_modifyEntries : (s.modifyEntries h change).limits = s.limits := rfl

theorem callDepth_modifyEntries : (s.modifyEntries h change).callDepth = s.callDepth := rfl

theorem console_modifyEntries : (s.modifyEntries h change).console = s.console := rfl

end

theorem get?_modifyEntries_of_ne (hne : k ≠ h) :
    (s.modifyEntries h change).heap.get? k = s.heap.get? k := by
  rw [modifyEntries_eq, modify, Heap.get?_modify, if_neg hne]

/-- An object without entries is not changed. -/
theorem get?_modifyEntries_of_payload (hget : s.heap.get? k = some o)
    (hp : ∀ m, o.payload ≠ .dict m) : (s.modifyEntries h change).heap.get? k = some o := by
  by_cases he : k = h
  · rw [← he, get?_modifyEntries_self, hget, Option.map_some, Object.mapEntries_of_ne hp]
  · rw [get?_modifyEntries_of_ne he, hget]

theorem exists_get?_modifyEntries (s : State) (h : Handle) (hget : s.heap.get? k = some o)
    (change : OrderedMap Handle → OrderedMap Handle) :
    ∃ o', (s.modifyEntries h change).heap.get? k = some o' ∧
      (o' = o ∨ o' = o.mapEntries change) := by
  by_cases he : k = h
  · exact ⟨o.mapEntries change, by rw [← he, get?_modifyEntries_self, hget,
      Option.map_some], Or.inr rfl⟩
  · exact ⟨o, by rw [get?_modifyEntries_of_ne he, hget], Or.inl rfl⟩

theorem get?_modifyEntries_of_none (hget : s.heap.get? k = none) :
    (s.modifyEntries h change).heap.get? k = none := by
  by_cases he : k = h
  · rw [← he, get?_modifyEntries_self, hget, Option.map_none]
  · rw [get?_modifyEntries_of_ne he, hget]

theorem modifyEntries_modifyEntries (s : State) (h : Handle)
    (change change' : OrderedMap Handle → OrderedMap Handle) :
    (s.modifyEntries h change).modifyEntries h change' = s.modifyEntries h (change' ∘ change) := by
  have hmap :
      Object.mapEntries change' ∘ Object.mapEntries change = Object.mapEntries (change' ∘ change) :=
    funext fun o => o.mapEntries_mapEntries change change'
  rw [modifyEntries_eq, modifyEntries_eq, modifyEntries_eq, modify, modify,
    Heap.modify_modify, hmap]
  rfl

/-- Any other change of an object commutes with one of the entries. -/
theorem modify_modifyEntries (s : State) {f : Object → Object}
    (hc : h ≠ k ∨ ∀ o, (f o).mapEntries change = f (o.mapEntries change)) :
    (s.modifyEntries h change).modify k f = (s.modify k f).modifyEntries h change :=
  congrArg (fun heap => { s with heap }) (Heap.modify_comm s.heap hc)

theorem setAttribute_modifyEntries (s : State) (h k : Handle) (name : String) (value : Handle) :
    (s.modifyEntries h change).setAttribute k name value
      = (s.setAttribute k name value).modifyEntries h change :=
  s.modify_modifyEntries (Or.inr fun o => o.mapEntries_attributes fun m => m.insert name value)

theorem eraseAttribute_modifyEntries (s : State) (h k : Handle) (name : String) :
    (s.modifyEntries h change).eraseAttribute k name
      = (s.eraseAttribute k name).modifyEntries h change :=
  s.modify_modifyEntries (Or.inr fun o => o.mapEntries_attributes fun m => m.erase name)

theorem setGenerator_modifyEntries (s : State) (h g : Handle) (x : Generator) :
    (s.modifyEntries h change).setGenerator g x = (s.setGenerator g x).modifyEntries h change := by
  refine s.modify_modifyEntries (Or.inr fun o => ?_)
  unfold Object.mapEntries
  cases hp : o.payload <;> simp [hp]

theorem allocate_modifyEntries (hw : s.heap.WellFormed) (hh : s.Live h) (object : Object) :
    (s.modifyEntries h change).allocate object
      = ((s.allocate object).1, (s.allocate object).2.modifyEntries h change) := by
  have heap := s.heap.allocate_modify (f := Object.mapEntries change) hw hh object
  unfold allocate
  rw [modifyEntries_eq, modify]
  dsimp only
  rw [heap]
  rfl

theorem modifyEntries_eq_self (hget : s.heap.get? h = some o) (ho : o.mapEntries change = o) :
    s.modifyEntries h change = s :=
  congrArg (fun heap => { s with heap }) (Heap.modify_eq_self hget ho)

end State

/-- **The object is a mapping with these entries.** -/
def Heap.DictOf (heap : Heap) (h : Handle) (m : OrderedMap Handle) : Prop :=
  ∃ o, heap.get? h = some o ∧ o.payload = .dict m

namespace Heap.DictOf

theorem modifyEntries (hd : s.heap.DictOf h m) (change : OrderedMap Handle → OrderedMap Handle) :
    (s.modifyEntries h change).heap.DictOf h (change m) := by
  obtain ⟨o, hget, hp⟩ := hd
  refine ⟨o.mapEntries change, ?_, ?_⟩
  · rw [State.get?_modifyEntries_self, hget, Option.map_some]
  · rw [Object.mapEntries_of_dict hp]

theorem modifyEntries_eq_self (hd : s.heap.DictOf h m) (hm : change m = m) :
    s.modifyEntries h change = s := by
  obtain ⟨⟨payload, type, attributes⟩, hget, hp⟩ := hd
  cases hp
  refine State.modifyEntries_eq_self hget ?_
  rw [Object.mapEntries_of_dict rfl, hm]

end Heap.DictOf

/-! ## 3. Questions that do not depend on the entries -/

namespace State

variable {β : Type}

/-- What is asked of an object does not depend on its entries. -/
theorem bind_get?_modifyEntries (s : State) (h k : Handle) {f : Object → Option β}
    (hf : ∀ o : Object, f (o.mapEntries change) = f o) :
    ((s.modifyEntries h change).heap.get? k).bind f = (s.heap.get? k).bind f := by
  by_cases he : k = h
  · rw [he, get?_modifyEntries_self]
    cases s.heap.get? h with
    | none => rfl
    | some o => exact hf o
  · rw [get?_modifyEntries_of_ne he]

variable (s h change)

theorem size_modifyEntries : (s.modifyEntries h change).heap.slots.size = s.heap.slots.size :=
  Array.size_modify

theorem typeOf_modifyEntries (k : Handle) :
    (s.modifyEntries h change).heap.typeOf k = s.heap.typeOf k :=
  s.bind_get?_modifyEntries h k fun o => congrArg some o.type_mapEntries

theorem chainFrom_modifyEntries (fuel : Nat) (k : Handle) :
    (s.modifyEntries h change).heap.chainFrom fuel k = s.heap.chainFrom fuel k := by
  induction fuel generalizing k with
  | zero => rfl
  | succ fuel ih =>
    unfold Heap.chainFrom
    simp only [ih]
    exact s.bind_get?_modifyEntries h k fun o => by rw [o.base_mapEntries]

theorem firstDefined_modifyEntries (links : List Handle) (name : String) :
    (s.modifyEntries h change).heap.firstDefined links name = s.heap.firstDefined links name := by
  unfold Heap.firstDefined
  congr 1
  funext link
  exact s.bind_get?_modifyEntries h link fun o => by rw [o.attributes_mapEntries]

/-- **Members are found along types**, whatever the entries of a mapping are. -/
theorem hook_modifyEntries (k : Handle) (name : String) :
    (s.modifyEntries h change).heap.hook k name = s.heap.hook k name := by
  simp only [Heap.hook, Heap.lookup, Heap.chain, typeOf_modifyEntries, size_modifyEntries,
    chainFrom_modifyEntries, firstDefined_modifyEntries]

theorem isInstance_modifyEntries (k type : Handle) :
    (s.modifyEntries h change).heap.isInstance k type = s.heap.isInstance k type := by
  simp only [Heap.isInstance, Heap.isSubtype, Heap.chain, typeOf_modifyEntries, size_modifyEntries,
    chainFrom_modifyEntries]

theorem tupleAttribute_modifyEntries (k : Handle) (name : String) :
    (s.modifyEntries h change).heap.tupleAttribute k name = s.heap.tupleAttribute k name := by
  have hcell : ∀ cell, ((s.modifyEntries h change).heap.get? cell).bind (fun o => some o.tupleItems)
      = (s.heap.get? cell).bind fun o => some o.tupleItems :=
    fun cell => s.bind_get?_modifyEntries h cell fun o => congrArg some o.tupleItems_mapEntries
  have hown : (s.modifyEntries h change).heap.ownAttribute k name = s.heap.ownAttribute k name :=
    s.bind_get?_modifyEntries h k fun o => by rw [o.attributes_mapEntries]
  unfold Heap.tupleAttribute
  rw [hown]
  cases s.heap.ownAttribute k name with
  | none => rfl
  | some found =>
    cases found with
    | none => rfl
    | some cell => exact hcell cell

theorem typeNameFrom_modifyEntries (fuel : Nat) (k : Handle) :
    (s.modifyEntries h change).heap.typeNameFrom fuel k = s.heap.typeNameFrom fuel k := by
  induction fuel generalizing k with
  | zero => rfl
  | succ fuel ih =>
    unfold Heap.typeNameFrom
    simp only [ih]
    refine s.bind_get?_modifyEntries h k fun o => ?_
    obtain ⟨payload, type, attributes⟩ := o
    cases payload <;> rfl

theorem className_modifyEntries (k : Handle) :
    (s.modifyEntries h change).heap.className k = s.heap.className k := by
  simp only [Heap.className, Heap.typeName, typeOf_modifyEntries, size_modifyEntries,
    typeNameFrom_modifyEntries]

theorem plainRepr_modifyEntries (k : Handle) :
    (s.modifyEntries h change).heap.plainRepr k = s.heap.plainRepr k := by
  unfold Heap.plainRepr Heap.typeName
  simp only [size_modifyEntries, typeNameFrom_modifyEntries]
  refine s.bind_get?_modifyEntries h k fun o => ?_
  obtain ⟨payload, type, attributes⟩ := o
  cases payload <;> rfl

/-- The message of an exception shows no entries. -/
theorem plainMessage_modifyEntries (args : List Handle) :
    (s.modifyEntries h change).heap.plainMessage args = s.heap.plainMessage args := by
  have hrepr : (s.modifyEntries h change).heap.plainRepr = s.heap.plainRepr :=
    funext fun k => s.plainRepr_modifyEntries h change k
  unfold Heap.plainMessage
  rw [hrepr]
  split
  · rfl
  · refine s.bind_get?_modifyEntries h _ fun o => ?_
    obtain ⟨payload, type, attributes⟩ := o
    cases payload <;> rfl
  · rfl

end State

end ObjectModel
