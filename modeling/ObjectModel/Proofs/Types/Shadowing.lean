import ObjectModel.Proofs.Types.Singletons

/-!
# Attributes that shadow one another

An attribute is looked for along the chain of the object, then along the chain of its type: the
first link that has it decides, and what stands behind that link is shadowed.

* `State.attribute_shadowing` -- **an assignment is seen exactly where it decides**, and taking it
  back restores what was seen.
-/

namespace ObjectModel

/-! ## 1. What holds of every object -/

/-- Every object has the property. -/
def Heap.Every (heap : Heap) (Q : Object → Prop) : Prop :=
  ∀ (h : Handle) (o : Object), heap.get? h = some o → Q o

namespace Heap.Every

variable {heap : Heap} {Q : Object → Prop}

theorem allocate {object : Object} (hq : heap.Every Q) (hw : heap.WellFormed) (ho : Q object) :
    (heap.allocate object).2.Every Q := by
  intro k o hget
  rcases get?_allocate_cases hw hget with ⟨_, rfl⟩ | hold
  · exact ho
  · exact hq k o hold

theorem modify (hq : heap.Every Q) (h : Handle) {change : Object → Object}
    (hchange : ∀ o : Object, Q o → Q (change o)) : (heap.modify h change).Every Q := by
  intro k o hget
  rw [get?_modify] at hget
  split at hget
  · obtain ⟨o', ho', rfl⟩ := Option.map_eq_some_iff.mp hget
    exact hchange o' (hq h o' ho')
  · exact hq k o hget

theorem collect (hq : heap.Every Q) (roots : List Handle) : (heap.collect roots).2.Every Q :=
  fun k o hget => hq k o (get?_of_collect hget).1

end Heap.Every

/-- **A property of objects that lasts**: nothing that is done to an object ends it. -/
structure Object.Lasting (Q : Object → Prop) : Prop where
  attributes : ∀ {o : Object} {f : OrderedMap Handle → OrderedMap Handle}, (∀ m : OrderedMap Handle,
    m.Coherent → (f m).Coherent) → Q o → Q { o with attributes := f o.attributes }
  entries : ∀ {o : Object} {m m' : OrderedMap Handle}, o.payload = .dict m →
    (m.Coherent → m'.Coherent) → Q o → Q { o with payload := .dict m' }
  generator : ∀ {o : Object} {x y : Generator}, o.payload = .generator x → Q o →
    Q { o with payload := .generator y }

namespace Object.Lasting

variable {Q : Object → Prop}

theorem modifyEntries {s : State} (hQ : Lasting Q) (hq : s.heap.Every Q)
    (h : Handle) {change : OrderedMap Handle → OrderedMap Handle}
    (hchange : ∀ m : OrderedMap Handle, m.Coherent → (change m).Coherent) :
    (s.modifyEntries h change).heap.Every Q := by
  refine hq.modify h fun o ho => ?_
  split
  · rename_i m hp
    exact hQ.entries hp (hchange m) ho
  · exact ho

/-- **A primitive action keeps it** if the object it makes has it. -/
theorem perform {β : Type} {a : Action β} {s : State} (hQ : Lasting Q) (e : Engine)
    (ha : a.isPrimitive = true) (hw : s.heap.WellFormed) (hq : s.heap.Every Q)
    (hmade : ∀ o, a.made? = some o → Q o) : (a.perform e s).state.heap.Every Q := by
  cases a.deed_of_perform e s ha with
  | same he => exact he ▸ hq
  | allocate object he => exact he ▸ hq.allocate hw (hmade object rfl)
  | setAttribute target name value he =>
    exact he ▸ hq.modify target fun o ho => hQ.attributes (fun m hm => hm.insert name value) ho
  | eraseAttribute target name he =>
    exact he ▸ hq.modify target fun o ho => hQ.attributes (fun m hm => hm.erase name) ho
  | setEntry dict key value he =>
    exact he ▸ hQ.modifyEntries hq dict fun m hm => hm.insert key value
  | eraseEntry dict key he => exact he ▸ hQ.modifyEntries hq dict fun m hm => hm.erase key
  | collect extra _ he => exact he ▸ hq.collect _

/-- **What lasts holds of every object of a session**, if it holds of those it starts with and of
those that fit. -/
theorem reachable {admits : Entry → Prop} {s : State} (hQ : Lasting Q)
    (hfirst : Bootstrap.heap.Every Q) (hfits : ∀ {s : State} {o : Object}, s.Fits o → Q o)
    (hs : s.ReachableBy admits) : s.heap.Every Q := by
  have hgoverns : (construction.also fun s => s.heap.Every Q).Governs admits := by
    refine (construction_governs admits).also (fun limits console => ?_) (fun _ hq => hq)
      (fun _ hq => hq) (fun s g y hq => ?_) fun a e s ha hs hq hmay =>
      hQ.perform e ha hs.regular.heap hq fun o ho => hfits (hmay o ho)
    · rw [State.heap_initial]
      exact hfirst
    · refine hq.modify g fun o ho => ?_
      split
      · rename_i x hp
        exact hQ.generator hp ho
      · exact ho
  exact (hgoverns.reachable hs).2

end Object.Lasting

/-! ## 2. Attributes are found by their names -/

/-- Every object finds its attributes by their names. -/
structure Heap.Coherent (heap : Heap) : Prop where
  attributes : ∀ {h : Handle} {o : Object}, heap.get? h = some o → o.attributes.Coherent

namespace Heap.Coherent

variable {heap : Heap}

theorem every (hc : heap.Coherent) : heap.Every (·.attributes.Coherent) :=
  fun _ _ hget => hc.attributes hget

theorem of_every (hq : heap.Every (·.attributes.Coherent)) : heap.Coherent := ⟨hq _ _⟩

theorem allocate {object : Object} (hc : heap.Coherent) (hw : heap.WellFormed)
    (ho : object.attributes.Coherent) : (heap.allocate object).2.Coherent :=
  .of_every (hc.every.allocate hw ho)

theorem modify (hc : heap.Coherent) (h : Handle) {change : Object → Object}
    (hchange : ∀ o : Object, o.attributes.Coherent → (change o).attributes.Coherent) :
    (heap.modify h change).Coherent :=
  .of_every (hc.every.modify h hchange)

end Heap.Coherent

theorem Object.lasting_coherent : Object.Lasting (·.attributes.Coherent) where
  attributes hf ho := hf _ ho
  entries _ _ ho := ho
  generator _ ho := ho

theorem State.ReachableBy.coherent {admits : Entry → Prop} {s : State} (h : s.ReachableBy admits) :
    s.heap.Coherent :=
  .of_every (Object.lasting_coherent.reachable
    (fun _ _ hget => (Bootstrap.tidy_furnished_heap 0).2.coherent hget) (fun hf => hf.coherent) h)

/-- What was inserted under a new key and erased again leaves no trace. -/
theorem OrderedMap.Coherent.get?_erase_insert {α : Type} {m : OrderedMap α} (hm : m.Coherent)
    {key : String} (hk : m.get? key = none) (x : α) (other : String) :
    ((m.insert key x).erase key).get? other = m.get? other := by
  have hunknown : key ∉ m.toList.map (·.1) := by
    cases hi : m.index[key]? with
    | none => exact hm.notMem_keys hi
    | some i =>
      obtain ⟨v, _, hlist, hfront⟩ := hm.split hi
      rw [hm.get?_eq_lookup, hlist, Association.lookup_middle hfront] at hk
      cases hk
  have hlist : ((m.insert key x).erase key).toList = m.toList := by
    rw [(hm.insert key x).toList_erase, hm.toList_insert, Association.put_of_notMem hunknown,
      Association.remove_middle hunknown, List.append_nil]
  rw [((hm.insert key x).erase key).get?_eq_lookup, hm.get?_eq_lookup, hlist]

/-! ## 3. The nearest link that has an attribute -/

namespace Heap

variable {heap heap' : Heap} {links : List Handle} {name m : String} {o v y : Handle}

/-- None of the links has an attribute `name` of its own. -/
def Undefined (heap : Heap) (links : List Handle) (name : String) : Prop :=
  ∀ k ∈ links, ∀ value, heap.ownAttribute k name ≠ some (some value)

/-- `k` is the nearest of the links that has an attribute `name`, and `value` is that attribute. -/
def Nearest (heap : Heap) (links : List Handle) (name : String) (k value : Handle) : Prop :=
  ∃ front back, links = front ++ k :: back ∧ heap.Undefined front name ∧
    heap.ownAttribute k name = some (some value)

theorem firstDefined_eq (heap : Heap) (links : List Handle) (name : String) :
    heap.firstDefined links name = links.findSome? fun k => (heap.ownAttribute k name).join := by
  unfold firstDefined ownAttribute
  congr 1
  funext k
  cases heap.get? k <;> rfl

theorem join_eq_none {x : Option (Option Handle)} :
    x.join = none ↔ ∀ value, x ≠ some (some value) := by
  rw [Option.eq_none_iff_forall_ne_some]
  simp only [ne_eq, Option.join_eq_some_iff]

/-- **What a walk finds belongs to the nearest link that has it.** -/
theorem firstDefined_eq_some_iff :
    heap.firstDefined links name = some v ↔ ∃ k, heap.Nearest links name k v := by
  rw [firstDefined_eq, List.findSome?_eq_some_iff]
  simp only [Option.join_eq_some_iff, join_eq_none]
  constructor
  · rintro ⟨front, k, back, hlinks, hk, hfront⟩
    exact ⟨k, front, back, hlinks, hfront, hk⟩
  · rintro ⟨k, front, back, hlinks, hfront, hk⟩
    exact ⟨front, k, back, hlinks, hk, hfront⟩

theorem firstDefined_eq_none_iff :
    heap.firstDefined links name = none ↔ heap.Undefined links name := by
  rw [firstDefined_eq, List.findSome?_eq_none_iff]
  simp only [join_eq_none]
  rfl

/-- The same attributes are found in the same place. -/
theorem firstDefined_congr (h : ∀ k ∈ links, heap'.ownAttribute k name = heap.ownAttribute k name) :
    heap'.firstDefined links name = heap.firstDefined links name := by
  rw [firstDefined_eq, firstDefined_eq]
  induction links with
  | nil => rfl
  | cons k rest ih =>
    rw [List.findSome?_cons, List.findSome?_cons, h k List.mem_cons_self,
      ih fun j hj => h j (List.mem_cons_of_mem _ hj)]

/-- A walk along the links for an attribute `name` gets as far as `o`: no link before has one. -/
def Reaches (heap : Heap) (links : List Handle) (name : String) (o : Handle) : Prop :=
  ∃ front back, links = front ++ o :: back ∧ heap.Undefined front name

theorem not_reaches_nil : ¬ heap.Reaches [] name o := by
  rintro ⟨front, back, hlinks, _⟩
  exact absurd hlinks (by simp)

theorem reaches_cons {k : Handle} :
    heap.Reaches (k :: links) name o ↔ k = o ∨
    (∀ value, heap.ownAttribute k name ≠ some (some value)) ∧ heap.Reaches links name o := by
  constructor
  · rintro ⟨front, back, hlinks, hfront⟩
    cases front with
    | nil => exact Or.inl (List.cons.inj hlinks).1
    | cons j front =>
      obtain ⟨rfl, rfl⟩ := List.cons.inj hlinks
      exact Or.inr ⟨hfront k List.mem_cons_self, front, back, rfl,
        fun i hi => hfront i (List.mem_cons_of_mem _ hi)⟩
  · rintro (rfl | ⟨hk, front, back, rfl, hfront⟩)
    · exact ⟨[], links, rfl, List.forall_mem_nil _⟩
    · refine ⟨k :: front, back, rfl, fun i hi => ?_⟩
      rcases List.mem_cons.mp hi with rfl | hi
      · exact hk
      · exact hfront i hi

/-- A walk that finds nothing gets everywhere. -/
theorem Undefined.reaches (hu : heap.Undefined links name) (ho : o ∈ links) :
    heap.Reaches links name o := by
  obtain ⟨front, back, rfl⟩ := List.append_of_mem ho
  exact ⟨front, back, rfl, fun k hk => hu k (List.mem_append_left _ hk)⟩

section

variable (hother : ∀ k, k ≠ o → heap'.ownAttribute k name = heap.ownAttribute k name)

include hother

/-- **A walk that gets as far as `o` finds what was assigned there.** -/
theorem firstDefined_of_reaches (ho : heap'.ownAttribute o name = some (some v))
    (hr : heap.Reaches links name o) : heap'.firstDefined links name = some v := by
  rw [firstDefined_eq]
  induction links with
  | nil => exact absurd hr not_reaches_nil
  | cons k rest ih =>
    rw [List.findSome?_cons]
    by_cases hk : k = o
    · rw [hk, ho]
      rfl
    · obtain ⟨hundefined, hrest⟩ := (reaches_cons.mp hr).resolve_left hk
      rw [hother k hk, join_eq_none.mpr hundefined]
      exact ih hrest

/-- A walk that does not is not concerned. -/
theorem firstDefined_of_not_reaches (hr : ¬ heap.Reaches links name o) :
    heap'.firstDefined links name = heap.firstDefined links name := by
  rw [firstDefined_eq, firstDefined_eq]
  induction links with
  | nil => rfl
  | cons k rest ih =>
    rw [reaches_cons, not_or] at hr
    rw [List.findSome?_cons, List.findSome?_cons, hother k hr.1]
    cases hk : (heap.ownAttribute k name).join with
    | some w => rfl
    | none => exact ih fun hrest => hr.2 ⟨join_eq_none.mp hk, hrest⟩

end

end Heap

/-! ## 4. Where an attribute comes from -/

/-- What an object shows under a name. -/
inductive Found where
  | nothing
  /-- A member as it is stored. -/
  | stored (member : Handle)
  /-- A function of the type, bound to the object. -/
  | bound (receiver function : Handle)
  /-- A stale handle was looked up. -/
  | lost
  deriving DecidableEq

/-- How asking for it ends, with a value to fall back on. -/
def Found.outcome (s : State) (fallback : Handle) : Found → Outcome (Except Fault Handle)
  | nothing => .done (.ok fallback) s
  | stored member => .done (.ok member) s
  | bound receiver function =>
    .done (.ok (s.allocate (.ofBound receiver function)).1)
      (s.allocate (.ofBound receiver function)).2
  | lost => .aborted .stale s

/-- **Asking `y` for the attribute `name` ends so**, whatever the value to fall back on. -/
def State.Finds (s : State) (y : Handle) (name : String) (found : Found) : Prop :=
  ∀ n fallback, (getAttributeOr y name fallback).exec n s = found.outcome s fallback

namespace Heap

/-- A member of the type, as the object shows it: a plain function is bound. -/
def shown (heap : Heap) (y member : Handle) : Found :=
  match heap.get? member with
  | none => .lost
  | some o => if o.isFunction then .bound y member else .stored member

/-- What `y` shows under a name. -/
def resolve (heap : Heap) (y : Handle) (name : String) : Found :=
  match heap.lookup y name with
  | none => .lost
  | some (some member) => .stored member
  | some none =>
    match heap.hook y name with
    | none => .lost
    | some none => .nothing
    | some (some member) => heap.shown y member

end Heap

/-- **What is found is what the heap shows.** -/
theorem State.finds_resolve (s : State) (y : Handle) (name : String) :
    s.Finds y name (s.heap.resolve y name) := by
  intro n fallback
  unfold Run.exec getAttributeOr findAttribute Heap.resolve
  rw [bind_assoc]
  cases hl : s.heap.lookup y name with
  | none => exact Run.run_inspect_bind_stale hl
  | some answer =>
    refine (Run.run_inspect_bind hl).trans ?_
    cases answer with
    | some member => rfl
    | none =>
      dsimp only
      rw [bind_assoc]
      cases hh : s.heap.hook y name with
      | none => exact Run.run_inspect_bind_stale hh
      | some answer =>
        refine (Run.run_inspect_bind hh).trans ?_
        cases answer with
        | none => rfl
        | some member =>
          dsimp only [Heap.shown]
          rw [bind_assoc]
          cases hget : s.heap.get? member with
          | none => exact Run.run_inspect_bind_stale hget
          | some o =>
            refine (Run.run_inspect_bind hget).trans ?_
            dsimp only
            cases o.isFunction <;> rfl

/-! ## 5. Assignments -/

namespace Heap

/-- The two sides on which an attribute is looked for. -/
inductive Side where
  | object
  | type

/-- **The attribute `name` of `o` is what `y` shows**: no link before `o` has one, on the side of
the object or, if that whole side has none, on the side of its type. -/
inductive Decides (heap : Heap) (o : Handle) (name : String) (y : Handle) : Side → Prop where
  | object {links : List Handle} : heap.chain y = some links → heap.Reaches links name o →
      Decides heap o name y .object
  | type {links links' : List Handle} {type : Handle} : heap.chain y = some links →
      heap.Undefined links name → o ∉ links → heap.typeOf y = some type →
      heap.chain type = some links' → heap.Reaches links' name o → Decides heap o name y .type

/-- The heaps differ in attributes alone. -/
structure SameButAttributes (heap heap' : Heap) : Prop where
  size_eq : heap'.slots.size = heap.slots.size
  stale : ∀ {h : Handle}, heap.get? h = none → heap'.get? h = none
  object : ∀ {h : Handle} {o : Object}, heap.get? h = some o →
    ∃ attributes, heap'.get? h = some { o with attributes := attributes }

variable {heap heap' : Heap} {name m : String} {o v y : Handle}

theorem sameButAttributes_modify (heap : Heap) (h : Handle)
    (f : OrderedMap Handle → OrderedMap Handle) :
    heap.SameButAttributes (heap.modify h fun o => { o with attributes := f o.attributes }) where
  size_eq := Array.size_modify
  stale := by
    intro k hk
    rw [get?_modify]
    split
    · rename_i he
      rw [← he, hk]
      rfl
    · exact hk
  object := by
    intro k o hk
    rw [get?_modify]
    split
    · rename_i he
      rw [← he, hk]
      exact ⟨f o.attributes, rfl⟩
    · exact ⟨o.attributes, hk⟩

namespace SameButAttributes

theorem trans {heap'' : Heap} (h : heap.SameButAttributes heap')
    (h' : heap'.SameButAttributes heap'') : heap.SameButAttributes heap'' where
  size_eq := h'.size_eq.trans h.size_eq
  stale hk := h'.stale (h.stale hk)
  object hk := by
    obtain ⟨_, hk'⟩ := h.object hk
    obtain ⟨attributes, hk''⟩ := h'.object hk'
    exact ⟨attributes, hk''⟩

variable (h : heap.SameButAttributes heap')

include h

theorem chain_eq (k : Handle) : heap'.chain k = heap.chain k := by
  have hfrom : ∀ fuel k, heap'.chainFrom fuel k = heap.chainFrom fuel k := by
    intro fuel
    induction fuel with
    | zero => exact fun _ => rfl
    | succ fuel ih =>
      intro k
      rw [chainFrom, chainFrom]
      cases hk : heap.get? k with
      | none =>
        rw [h.stale hk]
        rfl
      | some o =>
        obtain ⟨attributes, hk'⟩ := h.object hk
        have hbase : ({ o with attributes := attributes } : Object).base = o.base := rfl
        simp only [hk', Option.bind_eq_bind, Option.bind_some, hbase, ih]
  rw [chain, chain, h.size_eq, hfrom]

theorem typeOf_eq (k : Handle) : heap'.typeOf k = heap.typeOf k := by
  unfold typeOf
  cases hk : heap.get? k with
  | none => rw [h.stale hk]
  | some o =>
    obtain ⟨attributes, hk'⟩ := h.object hk
    rw [hk']
    rfl

theorem shown_eq (y k : Handle) : heap'.shown y k = heap.shown y k := by
  unfold shown
  cases hk : heap.get? k with
  | none => rw [h.stale hk]
  | some o =>
    obtain ⟨attributes, hk'⟩ := h.object hk
    rw [hk']
    rfl

/-- Where the same attributes stand, the same is shown. -/
theorem resolve_eq (hown : ∀ k, heap'.ownAttribute k m = heap.ownAttribute k m) (y : Handle) :
    heap'.resolve y m = heap.resolve y m := by
  have hwalk : ∀ links, heap'.firstDefined links m = heap.firstDefined links m :=
    fun links => firstDefined_congr fun k _ => hown k
  simp only [resolve, hook, lookup, h.chain_eq, h.typeOf_eq, h.shown_eq, hwalk]

section

variable (ho : heap'.ownAttribute o name = some (some v))
  (hother : ∀ k, k ≠ o → heap'.ownAttribute k name = heap.ownAttribute k name)

include ho hother

theorem resolve_of_decides_object (hd : heap.Decides o name y .object) :
    heap'.resolve y name = .stored v := by
  cases hd with
  | object hchain hr =>
    have hfound := firstDefined_of_reaches hother ho hr
    simp only [resolve, lookup_of_chain ((h.chain_eq y).trans hchain), hfound]

theorem resolve_of_decides_type (hd : heap.Decides o name y .type) :
    heap'.resolve y name = heap.shown y v := by
  cases hd with
  | type hchain hundefined hnot htype hchain' hr =>
    have hnone : heap'.firstDefined _ name = none :=
      (firstDefined_of_not_reaches hother fun ⟨_, _, hlinks, _⟩ => hnot (hlinks ▸
        List.mem_append_right _ List.mem_cons_self)).trans (firstDefined_eq_none_iff.mpr hundefined)
    have hfound := firstDefined_of_reaches hother ho hr
    simp only [resolve, hook, lookup, h.chain_eq, h.typeOf_eq, h.shown_eq, hchain, hchain', htype,
      Option.bind_eq_bind, Option.bind_some, Option.pure_def, hnone, hfound]

end

/-- **What `o` does not decide stays as it was.** -/
theorem resolve_of_not_decides
    (hother : ∀ k, k ≠ o → heap'.ownAttribute k name = heap.ownAttribute k name)
    (hd : ∀ side, ¬ heap.Decides o name y side) : heap'.resolve y name = heap.resolve y name := by
  unfold resolve hook lookup
  rw [h.chain_eq, h.typeOf_eq]
  cases hchain : heap.chain y with
  | none => rfl
  | some links =>
    have hwalk : heap'.firstDefined links name = heap.firstDefined links name :=
      firstDefined_of_not_reaches hother fun hr => hd .object (.object hchain hr)
    simp only [Option.bind_eq_bind, Option.bind_some, Option.pure_def, hwalk]
    cases hfound : heap.firstDefined links name with
    | some member => rfl
    | none =>
      -- the side of the object has none, so `o` does not stand there either
      have hundefined := firstDefined_eq_none_iff.mp hfound
      have hnot : o ∉ links := fun ho => hd .object (.object hchain (hundefined.reaches ho))
      cases htype : heap.typeOf y with
      | none => rfl
      | some type =>
        simp only [Option.bind_some, h.chain_eq]
        cases hchain' : heap.chain type with
        | none => rfl
        | some links' =>
          have hwalk' : heap'.firstDefined links' name = heap.firstDefined links' name :=
            firstDefined_of_not_reaches hother fun hr => hd .type
              (.type hchain hundefined hnot htype hchain' hr)
          simp only [Option.bind_some, hwalk', h.shown_eq]

end SameButAttributes

end Heap

namespace State

variable {s : State} {o v : Handle} {object value : Object} {name : String}

/-- What is assigned is found, and no other attribute is another one. -/
theorem ownAttribute_setAttribute (hc : s.heap.Coherent) (ho : s.heap.get? o = some object)
    (k : Handle) (m : String) :
    (s.setAttribute o name v).heap.ownAttribute k m = if k = o ∧ m = name then some (some v)
      else s.heap.ownAttribute k m := by
  unfold Heap.ownAttribute setAttribute modify
  rw [Heap.get?_modify]
  by_cases hk : k = o
  · subst hk
    rw [if_pos rfl, ho]
    by_cases hm : m = name
    · rw [if_pos ⟨rfl, hm⟩, hm]
      exact congrArg some (((hc.attributes ho).get?_insert name name v).trans (if_pos rfl))
    · rw [if_neg fun h => hm h.2]
      exact congrArg some (((hc.attributes ho).get?_insert name m v).trans (if_neg hm))
  · rw [if_neg hk, if_neg fun h => hk h.1]

theorem ownAttribute_eraseAttribute (hc : s.heap.Coherent) (ho : s.heap.get? o = some object)
    (hnew : object.attributes.get? name = none) (k : Handle) (m : String) :
    ((s.setAttribute o name v).eraseAttribute o name).heap.ownAttribute k m
      = s.heap.ownAttribute k m := by
  unfold Heap.ownAttribute setAttribute eraseAttribute modify
  rw [Heap.get?_modify]
  by_cases hk : k = o
  · subst hk
    rw [if_pos rfl, Heap.get?_modify_self, ho]
    exact congrArg some ((hc.attributes ho).get?_erase_insert hnew v m)
  · rw [if_neg hk, Heap.get?_modify, if_neg hk]

/-- What was just assigned can be deleted. -/
theorem exec_deleteAttribute (hc : s.heap.Coherent) (ho : s.heap.get? o = some object) (n : Nat) :
    (deleteAttribute o name).exec n (s.setAttribute o name v)
      = .done (.ok ()) ((s.setAttribute o name v).eraseAttribute o name) := by
  have hget := get?_setAttribute_self ho name v
  have hfound : (object.attributes.insert name v).get? name = some v :=
    ((hc.attributes ho).get?_insert name name v).trans (if_pos rfl)
  unfold Run.exec deleteAttribute
  refine (Run.run_inspect_bind hget).trans ?_
  simp only [hfound]
  change (Program.perform (.eraseAttribute o name) _).run _ _ = _
  simp only [Program.run_perform, Action.perform, whenLive, Heap.contains_of_get? hget, if_true,
    Outcome.andThen_done]
  rfl

/-- **Attributes shadow one another.** What a walk along the chain of an object finds belongs to its
nearest link. An assignment is seen under its name alone, and exactly by those for whom it decides:
as it is on the side of the object, and bound on the side of the type if it is a plain function. All
others see what they saw before; and so does everyone if the attribute is new and deleted again. -/
theorem attribute_shadowing (hs : s.Reachable) (ho : s.heap.get? o = some object)
    (hv : s.heap.get? v = some value) (name : String) :
    (∀ x m, s.heap.contains x = true → ∃ links, s.heap.chain x = some links ∧
      (∀ member, s.heap.lookup x m = some (some member) ↔ ∃ k, s.heap.Nearest links m k member) ∧
      (s.heap.lookup x m = some none ↔ s.heap.Undefined links m)) ∧
    (∀ n, (ObjectModel.setAttribute o name v).exec n s = .done (.ok ()) (s.setAttribute o name v)) ∧
    (∀ y m,
      (m = name → s.heap.Decides o name y .object →
        (s.setAttribute o name v).Finds y m (.stored v)) ∧
      (m = name → s.heap.Decides o name y .type →
        (s.setAttribute o name v).Finds y m (if value.isFunction then .bound y v else .stored v)) ∧
      ((m = name → ∀ side, ¬ s.heap.Decides o name y side) →
        ∃ found, s.Finds y m found ∧ (s.setAttribute o name v).Finds y m found)) ∧
    (object.attributes.get? name = none →
      (∀ n, (deleteAttribute o name).exec n (s.setAttribute o name v)
        = .done (.ok ()) ((s.setAttribute o name v).eraseAttribute o name)) ∧
      ∀ y m, ∃ found, s.Finds y m found ∧
        ((s.setAttribute o name v).eraseAttribute o name).Finds y m found) := by
  have hc := hs.coherent
  have hsame : s.heap.SameButAttributes (s.setAttribute o name v).heap :=
    s.heap.sameButAttributes_modify o fun m => m.insert name v
  have hown : ∀ k m, (s.setAttribute o name v).heap.ownAttribute k m
      = if k = o ∧ m = name then some (some v) else s.heap.ownAttribute k m :=
        ownAttribute_setAttribute hc ho
  have hself : (s.setAttribute o name v).heap.ownAttribute o name = some (some v) :=
    (hown o name).trans (if_pos ⟨rfl, rfl⟩)
  have hother : ∀ k, k ≠ o →
      (s.setAttribute o name v).heap.ownAttribute k name = s.heap.ownAttribute k name :=
    fun k hk => (hown k name).trans (if_neg fun h => hk h.1)
  -- the type and the base of every object stay, so both states are searched along the same chains
  refine ⟨fun x m hx => ?_, fun n => run_setAttribute (Heap.contains_of_get? ho) name v (engine n),
    fun y m => ⟨?_, ?_, fun hd => ?_⟩, fun hnew => ⟨exec_deleteAttribute hc ho, fun y m => ?_⟩⟩
  · obtain ⟨links, hchain⟩ := hs.orderly.heap.exists_chain hx
    refine ⟨links, hchain, fun member => ?_, ?_⟩
    · rw [← Heap.firstDefined_eq_some_iff, Heap.lookup_of_chain hchain, Option.some_inj]
    · rw [← Heap.firstDefined_eq_none_iff, Heap.lookup_of_chain hchain, Option.some_inj]
  · rintro rfl hd
    have hfinds := (s.setAttribute o m v).finds_resolve y m
    rw [hsame.resolve_of_decides_object hself hother hd] at hfinds
    exact hfinds
  · rintro rfl hd
    have hfinds := (s.setAttribute o m v).finds_resolve y m
    rw [hsame.resolve_of_decides_type hself hother hd, Heap.shown, hv] at hfinds
    exact hfinds
  · refine ⟨_, s.finds_resolve y m, ?_⟩
    have hfinds := (s.setAttribute o name v).finds_resolve y m
    by_cases hm : m = name
    · subst hm
      rw [hsame.resolve_of_not_decides hother (hd rfl)] at hfinds
      exact hfinds
    · rw [hsame.resolve_eq fun k => (hown k m).trans (if_neg fun h => hm h.2)] at hfinds
      exact hfinds
  · refine ⟨_, s.finds_resolve y m, ?_⟩
    have hfinds := ((s.setAttribute o name v).eraseAttribute o name).finds_resolve y m
    have hback : s.heap.SameButAttributes ((s.setAttribute o name v).eraseAttribute o name).heap :=
      hsame.trans ((s.setAttribute o name v).heap.sameButAttributes_modify o fun m => m.erase name)
    rw [hback.resolve_eq fun k => ownAttribute_eraseAttribute hc ho hnew k m] at hfinds
    exact hfinds

/-- A function that is given to the type of a number is bound to it, and `int` itself shows it as it
is. -/
theorem attribute_shadowing_number :
    ∃ (s : State) (number function : Handle), s.Reachable ∧ s.heap.contains function = true ∧
      (s.setAttribute BuiltinType.int.handle "twice" function).Finds number "twice"
        (.bound number function) ∧
      (s.setAttribute BuiltinType.int.handle "twice" function).Finds BuiltinType.int.handle "twice"
        (.stored function) := by
  obtain ⟨_, s, hs, number, -, function, -, ⟨int, hint, -⟩, ⟨f, hfunction, hplain⟩, hchain, hown,
      htype, hlinks, hne⟩ :=
    Session.exists_reached (fun _ => True) .standard 0
      [.setLocal "n" (.int 5), .setLocal "f" (.function "f" .null)]
      (fun frame s => ∃ number ∈ frame.locals.get? "n", ∃ function ∈ frame.locals.get? "f",
        (∃ _ ∈ s.heap.get? BuiltinType.int.handle, True) ∧
        (∃ f ∈ s.heap.get? function, f.isFunction = true) ∧
        s.heap.chain number = some [number] ∧ s.heap.ownAttribute number "twice" = some none ∧
        s.heap.typeOf number = some BuiltinType.int.handle ∧
        s.heap.chain BuiltinType.int.handle
          = some [BuiltinType.int.handle, BuiltinType.object.handle] ∧
        BuiltinType.int.handle ≠ number) (by decide +kernel)
  have hreaches : s.heap.Reaches [BuiltinType.int.handle, BuiltinType.object.handle] "twice"
      BuiltinType.int.handle :=
    ⟨[], _, rfl, List.forall_mem_nil _⟩
  have hdecides : s.heap.Decides BuiltinType.int.handle "twice" number .type := by
    refine .type hchain (fun k hk value => ?_) (fun hmem => hne (List.mem_singleton.mp hmem)) htype
      hlinks hreaches
    rw [List.mem_singleton.mp hk, hown]
    intro hfound
    cases hfound
  obtain ⟨_, _, hseen, _⟩ := attribute_shadowing hs hint hfunction "twice"
  have hbound := (hseen number "twice").2.1 rfl hdecides
  rw [hplain, if_pos rfl] at hbound
  exact ⟨s, number, function, hs, Heap.contains_of_get? hfunction, hbound,
    (hseen BuiltinType.int.handle "twice").1 rfl (.object hlinks hreaches)⟩

end State

end ObjectModel
