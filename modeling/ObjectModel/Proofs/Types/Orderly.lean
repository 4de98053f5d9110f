import ObjectModel.Proofs.Collection
import ObjectModel.Proofs.Run.Nesting
import ObjectModel.Proofs.Types.Lineage

/-!
# Orderly heaps

What the types of a heap have in common with its objects, however they were made.

* `Heap.Orderly` -- **the invariant**: the builtin types are there, every type has a lineage of
  bounded length that ends at `object`, and the payload of an object tells its type.
-/

namespace ObjectModel

/-! ## 1. What never changes of an object -/

namespace Payload

/-- What never changes of a payload: all of it but the storage of a mapping and the state of a
generator. -/
def fixed : Payload → Payload
  | dict _ => .dict .empty
  | generator _ => .generator .running
  | p => p

/-- The type of every object with such a payload. Plain objects and mappings may have other
types. -/
def builtin? : Payload → Option BuiltinType
  | type _ _ => some .type
  | plain => Option.none
  | none => some .noneType
  | notImplemented => some .notImplementedType
  | bool _ => some .bool
  | int _ => some .int
  | str _ => some .str
  | tuple _ => some .tuple
  | dict _ => Option.none
  | function _ _ => some .function
  | bound _ _ => some .function
  | generator _ => some .generator

/-- The only object with such a payload. -/
def singleton? : Payload → Option Handle
  | none => some .none
  | notImplemented => some .notImplemented
  | bool b => some (.ofBool b)
  | _ => Option.none

variable {p : Payload} {name : String} {base : Option Handle}

theorem builtin?_fixed (p : Payload) : p.fixed.builtin? = p.builtin? := by
  cases p <;> rfl

theorem singleton?_fixed (p : Payload) : p.fixed.singleton? = p.singleton? := by
  cases p <;> rfl

theorem fixed_eq_type : p.fixed = .type name base ↔ p = .type name base := by
  cases p <;> simp [fixed]

theorem fixed_eq_plain : p.fixed = .plain ↔ p = .plain := by
  cases p <;> simp [fixed]

end Payload

/-- **Two stages of one object.** -/
structure Object.Alike (o o' : Object) : Prop where
  type_eq : o'.type = o.type
  fixed_eq : o'.payload.fixed = o.payload.fixed

namespace Object.Alike

variable {o o' : Object} {name : String} {base : Option Handle}

theorem refl (o : Object) : o.Alike o := ⟨rfl, rfl⟩

theorem symm (h : o.Alike o') : o'.Alike o := ⟨h.type_eq.symm, h.fixed_eq.symm⟩

theorem payload_type (h : o.Alike o') (hp : o.payload = .type name base) :
    o'.payload = .type name base := by
  rw [← Payload.fixed_eq_type, h.fixed_eq, hp]
  rfl

theorem payload_plain (h : o.Alike o') (hp : o.payload = .plain) : o'.payload = .plain := by
  rw [← Payload.fixed_eq_plain, h.fixed_eq, hp]
  rfl

theorem builtin?_eq (h : o.Alike o') : o'.payload.builtin? = o.payload.builtin? := by
  rw [← Payload.builtin?_fixed, h.fixed_eq, Payload.builtin?_fixed]

theorem singleton?_eq (h : o.Alike o') : o'.payload.singleton? = o.payload.singleton? := by
  rw [← Payload.singleton?_fixed, h.fixed_eq, Payload.singleton?_fixed]

end Object.Alike

namespace Heap

/-- The same objects at other stages. -/
structure Alike (heap heap' : Heap) : Prop where
  kept : ∀ {h : Handle} {o : Object}, heap.get? h = some o →
    ∃ o', heap'.get? h = some o' ∧ o.Alike o'
  found : ∀ {h : Handle} {o' : Object}, heap'.get? h = some o' →
    ∃ o, heap.get? h = some o ∧ o.Alike o'

variable {heap heap' : Heap} {h : Handle} {links : List Handle} {object : Object}
  {limit bound : Nat}

theorem alike_modify (heap : Heap) (h : Handle) {change : Object → Object}
    (hc : ∀ o : Object, o.Alike (change o)) : heap.Alike (heap.modify h change) where
  kept := by
    intro k o hk
    rw [get?_modify]
    split
    · rename_i he
      rw [← he, hk]
      exact ⟨change o, rfl, hc o⟩
    · exact ⟨o, hk, .refl o⟩
  found := by
    intro k o' hk
    rw [get?_modify] at hk
    split at hk
    · rename_i he
      obtain ⟨o, ho, rfl⟩ := Option.map_eq_some_iff.mp hk
      exact ⟨o, he ▸ ho, hc o⟩
    · exact ⟨o', hk, .refl o'⟩

theorem IsType.alike (ht : heap.IsType h) (ha : heap.Alike heap') : heap'.IsType h := by
  obtain ⟨o, name, base, ho, hp⟩ := isType_iff.mp ht
  obtain ⟨o', ho', hl⟩ := ha.kept ho
  exact isType_iff.mpr ⟨o', name, base, ho', hl.payload_type hp⟩

theorem IsType.of_alike (ht : heap'.IsType h) (ha : heap.Alike heap') : heap.IsType h := by
  obtain ⟨o', name, base, ho', hp⟩ := isType_iff.mp ht
  obtain ⟨o, ho, hl⟩ := ha.found ho'
  exact isType_iff.mpr ⟨o, name, base, ho, hl.symm.payload_type hp⟩

theorem IsType.allocate (ht : heap.IsType h) (hw : heap.WellFormed) (object : Object) :
    (heap.allocate object).2.IsType h := by
  obtain ⟨o, ho, hp⟩ := ht
  exact ⟨o, get?_allocate_of_live hw ho, hp⟩

theorem Lineage.alike (hl : heap.Lineage h links) (ha : heap.Alike heap') :
    heap'.Lineage h links := by
  refine hl.transfer fun k hk o ho => ?_
  obtain ⟨p, name, base, hp, hpayload⟩ := isType_iff.mp (hl.isType_of_mem hk)
  cases ho.symm.trans hp
  obtain ⟨o', ho', halike⟩ := ha.kept ho
  exact ⟨o', ho', (halike.payload_type hpayload).trans hpayload.symm⟩

/-! ## 2. Orderly heaps -/

/-- **Types and objects agree**, and no lineage has more than `bound` links. -/
structure Orderly (heap : Heap) (bound : Nat) : Prop where
  /-- The builtin types are where they were placed. -/
  builtin : ∀ t : BuiltinType, ∃ o, heap.get? t.handle = some o ∧
    o.payload = .type t.name (t.base?.map (·.handle))
  lineage : ∀ {h : Handle}, heap.IsType h → ∃ links, heap.Lineage h links ∧ links.length ≤ bound
  /-- No other type is without a base. -/
  root : ∀ {h : Handle} {o : Object} {name : String}, heap.get? h = some o →
    o.payload = .type name none → h = BuiltinType.object.handle
  /-- The payload tells the type. -/
  kind : ∀ {h : Handle} {o : Object} {t : BuiltinType}, heap.get? h = some o →
    o.payload.builtin? = some t → o.type = t.handle
  plain : ∀ {h : Handle} {o : Object}, heap.get? h = some o → o.payload = .plain →
    heap.IsType o.type
  singleton : ∀ {h k : Handle} {o : Object}, heap.get? h = some o →
    o.payload.singleton? = some k → h = k

/-- **The ways to make an object.** A plain object takes a type, a type takes a base with fewer than
`limit` links; a mapping takes anything for its type. The attributes that an object comes with are
found by their names. -/
inductive Fits (heap : Heap) (limit : Nat) : Object → Prop where
  | int (n : Int64) : Fits heap limit (.ofInt n)
  | text (text : String) : Fits heap limit (.ofText text)
  | items (items : List Handle) : Fits heap limit (.ofItems items)
  | mapping (type : Handle) : Fits heap limit (.emptyDict type)
  | code (name : String) (code : Code) : Fits heap limit (.ofCode name code)
  | bound (receiver function : Handle) : Fits heap limit (.ofBound receiver function)
  | coroutine (c : Coroutine) : Fits heap limit (.ofCoroutine c)
  | plain {type : Handle} (attributes : OrderedMap Handle) : heap.IsType type →
      attributes.Coherent → Fits heap limit ⟨.plain, type, attributes⟩
  | derived {base : Handle} {links : List Handle} (name : String) (members : OrderedMap Handle) :
      heap.Lineage base links → links.length < limit → members.Coherent →
      Fits heap limit (.ofType name (some base) members)

theorem Orderly.isType_builtin (ho : heap.Orderly bound) (t : BuiltinType) :
    heap.IsType t.handle := by
  obtain ⟨o, hget, hp⟩ := ho.builtin t
  exact isType_iff.mpr ⟨o, _, _, hget, hp⟩

theorem Orderly.lineage_object (ho : heap.Orderly bound) :
    heap.Lineage BuiltinType.object.handle [BuiltinType.object.handle] := by
  obtain ⟨o, hget, hp⟩ := ho.builtin .object
  exact .root hget hp

theorem Orderly.getLast?_eq (ho : heap.Orderly bound) (hl : heap.Lineage h links) :
    links.getLast? = some BuiltinType.object.handle := by
  obtain ⟨r, o, name, hlast, hget, hp⟩ := hl.last_root
  rw [hlast, ho.root hget hp]

/-- The type of every object is a type. -/
def WellTyped (heap : Heap) : Prop :=
  ∀ (h : Handle) (o : Object), heap.get? h = some o → heap.IsType o.type

/-- **Only a mapping may have a type that is none.** -/
theorem Orderly.isType_of_not_dict {o : Object} (ho : heap.Orderly bound)
    (hget : heap.get? h = some o) (hp : ∀ entries, o.payload ≠ .dict entries) :
    heap.IsType o.type := by
  cases hb : o.payload.builtin? with
  | some t =>
    rw [ho.kind hget hb]
    exact ho.isType_builtin t
  | none =>
    cases hpayload : o.payload with
    | plain => exact ho.plain hget hpayload
    | dict entries => exact absurd hpayload (hp entries)
    | _ =>
      rw [hpayload] at hb
      cases hb

/-! ## 3. What keeps a heap orderly -/

namespace Fits

theorem kind {t : BuiltinType} (hf : heap.Fits limit object)
    (ht : object.payload.builtin? = some t) : object.type = t.handle := by
  cases hf with
  | mapping | plain => cases ht
  | _ =>
    cases ht
    rfl

theorem plain_type (hf : heap.Fits limit object) (hp : object.payload = .plain) :
    heap.IsType object.type := by
  cases hf with
  | plain attributes ht _ => exact ht
  | _ => cases hp

theorem singleton?_eq (hf : heap.Fits limit object) : object.payload.singleton? = none := by
  cases hf <;> rfl

/-- A new type has a base, whose lineage leaves room for it. -/
theorem derived_type {name : String} {base : Option Handle} (hf : heap.Fits limit object)
    (hp : object.payload = .type name base) :
    ∃ b links, base = some b ∧ heap.Lineage b links ∧ links.length < limit := by
  cases hf with
  | derived name members hl hlt _ =>
    cases hp
    exact ⟨_, _, rfl, hl, hlt⟩
  | _ => cases hp

theorem coherent (hf : heap.Fits limit object) : object.attributes.Coherent := by
  cases hf with
  | plain attributes _ hc => exact hc
  | derived name members _ _ hc => exact hc
  | _ => exact .empty

/-- A new generator has not been resumed. -/
theorem not_running (hf : heap.Fits limit object) : object.payload ≠ .generator .running := by
  intro hp
  cases hf <;> cases hp

end Fits

/-- A new object: it is the only one that the heap before does not know. -/
theorem get?_allocate_cases {o : Object} (hw : heap.WellFormed)
    (hget : (heap.allocate object).2.get? h = some o) :
    (h = (heap.allocate object).1 ∧ o = object) ∨ heap.get? h = some o := by
  rw [get?_allocate hw] at hget
  split at hget
  · rename_i he
    cases hget
    exact Or.inl ⟨he, rfl⟩
  · exact Or.inr hget

/-- **A fitting object keeps the heap orderly.** -/
theorem Orderly.allocate (ho : heap.Orderly (max limit 3)) (hw : heap.WellFormed)
    (hf : heap.Fits limit object) : (heap.allocate object).2.Orderly (max limit 3) where
  builtin t := by
    obtain ⟨o, hget, hp⟩ := ho.builtin t
    exact ⟨o, get?_allocate_of_live hw hget, hp⟩
  lineage := by
    intro h ht
    obtain ⟨o, name, base, hget, hp⟩ := isType_iff.mp ht
    rcases get?_allocate_cases hw hget with ⟨rfl, rfl⟩ | hold
    · obtain ⟨b, links, rfl, hl, hlt⟩ := hf.derived_type hp
      refine ⟨_, .derived hget hp (hl.allocate hw o), ?_⟩
      rw [List.length_cons]
      omega
    · obtain ⟨links, hl, hle⟩ := ho.lineage (isType_iff.mpr ⟨o, name, base, hold, hp⟩)
      exact ⟨links, hl.allocate hw object, hle⟩
  root := by
    intro h o name hget hp
    rcases get?_allocate_cases hw hget with ⟨_, rfl⟩ | hold
    · obtain ⟨b, links, hb, _⟩ := hf.derived_type hp
      cases hb
    · exact ho.root hold hp
  kind := by
    intro h o t hget hk
    rcases get?_allocate_cases hw hget with ⟨_, rfl⟩ | hold
    · exact hf.kind hk
    · exact ho.kind hold hk
  plain := by
    intro h o hget hp
    rcases get?_allocate_cases hw hget with ⟨_, rfl⟩ | hold
    · exact (hf.plain_type hp).allocate hw o
    · exact (ho.plain hold hp).allocate hw object
  singleton := by
    intro h k o hget hk
    rcases get?_allocate_cases hw hget with ⟨_, rfl⟩ | hold
    · rw [hf.singleton?_eq] at hk
      cases hk
    · exact ho.singleton hold hk

/-- **Other stages of the same objects keep the heap orderly.** -/
theorem Orderly.alike (ho : heap.Orderly bound) (ha : heap.Alike heap') : heap'.Orderly bound where
  builtin t := by
    obtain ⟨o, hget, hp⟩ := ho.builtin t
    obtain ⟨o', hget', hl⟩ := ha.kept hget
    exact ⟨o', hget', hl.payload_type hp⟩
  lineage := by
    intro h ht
    obtain ⟨links, hl, hle⟩ := ho.lineage (ht.of_alike ha)
    exact ⟨links, hl.alike ha, hle⟩
  root := by
    intro h o' name hget' hp
    obtain ⟨o, hget, hl⟩ := ha.found hget'
    exact ho.root hget (hl.symm.payload_type hp)
  kind := by
    intro h o' t hget' hk
    obtain ⟨o, hget, hl⟩ := ha.found hget'
    rw [hl.builtin?_eq] at hk
    exact hl.type_eq.trans (ho.kind hget hk)
  plain := by
    intro h o' hget' hp
    obtain ⟨o, hget, hl⟩ := ha.found hget'
    rw [hl.type_eq]
    exact (ho.plain hget (hl.symm.payload_plain hp)).alike ha
  singleton := by
    intro h k o' hget' hk
    obtain ⟨o, hget, hl⟩ := ha.found hget'
    rw [hl.singleton?_eq] at hk
    exact ho.singleton hget hk

namespace WellTyped

theorem allocate (ht : heap.WellTyped) (hw : heap.WellFormed) (hobject : heap.IsType object.type) :
    (heap.allocate object).2.WellTyped := by
  intro h o hget
  rcases get?_allocate_cases hw hget with ⟨_, rfl⟩ | hold
  · exact hobject.allocate hw o
  · exact (ht h o hold).allocate hw object

theorem alike (ht : heap.WellTyped) (ha : heap.Alike heap') : heap'.WellTyped := by
  intro h o' hget'
  obtain ⟨o, hget, hl⟩ := ha.found hget'
  rw [hl.type_eq]
  exact (ht h o hget).alike ha

end WellTyped

theorem IsType.collect {roots : List Handle} (ht : heap.IsType h)
    (hleads : heap.Leads (· ∈ roots) h) : (heap.collect roots).2.IsType h := by
  obtain ⟨o, hget, hp⟩ := ht
  have hlive := (contains_collect heap roots h).mpr ⟨contains_of_get? hget, hleads⟩
  exact ⟨o, (get?_collect _ _ hlive).trans hget, hp⟩

theorem get?_of_collect {roots : List Handle} {o : Object}
    (hget : (heap.collect roots).2.get? h = some o) :
    heap.get? h = some o ∧ heap.Leads (· ∈ roots) h :=
  ⟨(get?_collect _ _ (contains_of_get? hget)).symm.trans hget,
    ((contains_collect heap roots h).mp (contains_of_get? hget)).2⟩

theorem WellTyped.collect (ht : heap.WellTyped) (roots : List Handle) :
    (heap.collect roots).2.WellTyped := by
  intro h o hget
  obtain ⟨hold, hleads⟩ := get?_of_collect hget
  exact (ht h o hold).collect (.step hleads hold .type)

/-- A collection that keeps the builtin types keeps the heap orderly: a survivor refers to its type,
and a type to its base. -/
theorem Orderly.collect (ho : heap.Orderly bound) {roots : List Handle}
    (hr : ∀ t : BuiltinType, t.handle ∈ roots) : (heap.collect roots).2.Orderly bound := by
  have hkept : ∀ {h : Handle} {o : Object}, (heap.collect roots).2.get? h = some o →
      heap.get? h = some o := fun hget =>
    (get?_of_collect hget).1
  refine ⟨fun t => ?_, fun {h} ht => ?_, fun hget hp => ho.root (hkept hget) hp, fun hget hk =>
    ho.kind (hkept hget) hk, fun {h o} hget hp => ?_, fun hget hk => ho.singleton (hkept hget) hk⟩
  · obtain ⟨o, hget, hp⟩ := ho.builtin t
    have hlive := (contains_collect heap roots t.handle).mpr ⟨contains_of_get? hget, .root (hr t)⟩
    exact ⟨o, (get?_collect _ _ hlive).trans hget, hp⟩
  · obtain ⟨o, hget, hp⟩ := ht
    obtain ⟨links, hl, hle⟩ := ho.lineage ⟨o, hkept hget, hp⟩
    exact ⟨links, hl.collect (contains_of_get? hget), hle⟩
  · exact (ho.plain (hkept hget) hp).collect (.step (get?_of_collect hget).2 (hkept hget) .type)

end Heap

/-! ## 4. What a primitive action does to the heap -/

/-- The object that an action makes. -/
def Action.made? {β : Type} : Action β → Option Object
  | .allocate object => some object
  | _ => none

/-- A change that leaves an object what it is, and a generator in its state. -/
structure Object.Steady (change : Object → Object) : Prop where
  alike : ∀ o : Object, o.Alike (change o)
  generator : ∀ {o : Object} {g : Generator}, (change o).payload = .generator g →
    o.payload = .generator g

theorem Object.Steady.attributes (f : OrderedMap Handle → OrderedMap Handle) :
    Steady fun o => { o with attributes := f o.attributes } where
  alike _ := ⟨rfl, rfl⟩
  generator hp := hp

theorem Object.Steady.entries (f : OrderedMap Handle → OrderedMap Handle) :
    Steady fun o =>
      match o.payload with
      | .dict entries => { o with payload := .dict (f entries) }
      | _ => o where
  alike o := by
    split
    · rename_i entries hp
      exact ⟨rfl, by rw [hp]; rfl⟩
    · exact .refl o
  generator := by
    intro o g hp
    split at hp
    · cases hp
    · exact hp

/-- **What a primitive action does to the heap**: nothing, or it makes an object, changes one
steadily, or collects. -/
inductive Action.Effect {β : Type} (a : Action β) (s t : State) : Prop where
  | same : t.heap = s.heap → Effect a s t
  | made {object : Object} : a.made? = some object → t.heap = (s.heap.allocate object).2 →
      Effect a s t
  | changed {h : Handle} {change : Object → Object} : Object.Steady change →
      t.heap = s.heap.modify h change → Effect a s t
  | collected {extra : List Handle} : s.callDepth = 0 →
      t.heap = (s.heap.collect (s.roots extra)).2 → Effect a s t

theorem Action.effect_of_perform {β : Type} (a : Action β) (e : Engine) (s : State)
    (ha : a.isPrimitive = true) : a.Effect s (a.perform e s).state := by
  cases a.deed_of_perform e s ha with
  | same he => exact .same he
  | allocate object he => exact .made rfl he
  | setAttribute target name value he =>
    exact .changed (.attributes fun m => m.insert name value) he
  | eraseAttribute target name he => exact .changed (.attributes fun m => m.erase name) he
  | setEntry dict key value he => exact .changed (.entries fun m => m.insert key value) he
  | eraseEntry dict key he => exact .changed (.entries fun m => m.erase key) he
  | collect extra hd he => exact .collected hd he

/-! ## 5. Orderly states -/

namespace State

/-- **The invariant of a state.** A chain of builtin types may be longer than the limit, but has no
more than three links. -/
structure Orderly (s : State) : Prop where
  regular : s.Regular
  heap : s.heap.Orderly (max s.limits.baseChain 3)

/-- The ways to make an object in a state. -/
abbrev Fits (s : State) : Object → Prop := s.heap.Fits s.limits.baseChain

/-- No generator is running that was not running before. -/
def Settles (s t : State) : Prop := ∀ g, t.Stands g .running → s.Stands g .running

variable {s t u : State}

theorem Settles.refl (s : State) : s.Settles s := fun _ h => h

theorem Settles.trans (h : s.Settles t) (h' : t.Settles u) : s.Settles u :=
  fun g hg => h g (h' g hg)

/-- What stands behind the change of a generator. -/
theorem Stands.of_setGenerator {g h : Handle} {x y : Generator}
    (hs : (s.setGenerator h y).Stands g x) : (g = h ∧ x = y) ∨ (g ≠ h ∧ s.Stands g x) := by
  obtain ⟨o, ho, hp⟩ := hs
  rw [setGenerator, modify, Heap.get?_modify] at ho
  split at ho
  · rename_i heq
    obtain ⟨o', _, rfl⟩ := Option.map_eq_some_iff.mp ho
    split at hp
    · cases hp
      exact Or.inl ⟨heq, rfl⟩
    · rename_i hno
      exact absurd hp (hno x)
  · rename_i hne
    exact Or.inr ⟨hne, o, ho, hp⟩

theorem mem_roots_builtin (s : State) (extra : List Handle) (t : BuiltinType) :
    t.handle ∈ s.roots extra := by
  unfold roots
  simp only [List.mem_append, List.mem_map]
  exact Or.inl (Or.inl (Or.inl (Or.inl ⟨t, t.mem_globalOrder, rfl⟩)))

/-- What is running behind a primitive action was running before. -/
theorem settles_of_effect {β : Type} {a : Action β} (hw : s.heap.WellFormed)
    (hfit : ∀ o, a.made? = some o → s.Fits o) (he : a.Effect s t) : s.Settles t := by
  intro g hg
  obtain ⟨o, ho, hp⟩ := hg
  cases he with
  | same heq => exact ⟨o, heq ▸ ho, hp⟩
  | made hmade heq =>
    rw [heq] at ho
    rcases Heap.get?_allocate_cases hw ho with ⟨_, rfl⟩ | hold
    · exact absurd hp (hfit o hmade).not_running
    · exact ⟨o, hold, hp⟩
  | changed hc heq =>
    rw [heq, Heap.get?_modify] at ho
    split at ho
    · rename_i hk
      obtain ⟨o', ho', rfl⟩ := Option.map_eq_some_iff.mp ho
      exact ⟨o', hk ▸ ho', hc.generator hp⟩
    · exact ⟨o, ho, hp⟩
  | collected _ heq =>
    rw [heq] at ho
    exact ⟨o, (Heap.get?_collect _ _ (Heap.contains_of_get? ho)).symm.trans ho, hp⟩

theorem alike_setGenerator (s : State) (h : Handle) (g : Generator) :
    s.heap.Alike (s.setGenerator h g).heap := by
  refine Heap.alike_modify s.heap h fun o => ?_
  split
  · rename_i old hp
    exact ⟨rfl, by rw [hp]; rfl⟩
  · exact .refl o

namespace Orderly

theorem enter (hs : s.Orderly) : s.enter.Orderly := ⟨hs.regular.step (.enter s), hs.heap⟩

theorem leave (hs : s.Orderly) : s.leave.Orderly := ⟨hs.regular.step (.leave s), hs.heap⟩

theorem setGenerator (hs : s.Orderly) (h : Handle) (g : Generator) : (s.setGenerator h g).Orderly :=
  ⟨hs.regular.step (.setGenerator s h g), hs.heap.alike (s.alike_setGenerator h g)⟩

/-- **A primitive action keeps a state orderly** if the object it makes fits. -/
theorem perform {β : Type} {a : Action β} (hs : s.Orderly) (e : Engine) (ha : a.isPrimitive = true)
    (hfit : ∀ o, a.made? = some o → s.Fits o) : (a.perform e s).state.Orderly := by
  have hsteps := a.steps_of_perform e s ha
  refine ⟨hs.regular.steps hsteps, ?_⟩
  rw [hsteps.limits_eq]
  cases a.effect_of_perform e s ha with
  | same heq =>
    rw [heq]
    exact hs.heap
  | made hmade heq =>
    rw [heq]
    exact hs.heap.allocate hs.regular.heap (hfit _ hmade)
  | changed hc heq =>
    rw [heq]
    exact hs.heap.alike (Heap.alike_modify _ _ hc.alike)
  | @collected extra _ heq =>
    rw [heq]
    exact hs.heap.collect (s.mem_roots_builtin extra)

end Orderly

end State

end ObjectModel
