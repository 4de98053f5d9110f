import ObjectModel.Proofs.Generators.Loop
import ObjectModel.Proofs.Types.Singletons

/-!
# Lists as sequences

What the operations of a list do to a sequence of handles, and when an object of the heap stands for
such a sequence.

* `State.spares_of_log` -- a run inside of calls that writes no attribute of these objects spares
  them.
-/

namespace ObjectModel

/-! ## 1. Sequences -/

namespace Sequence

/-- The position that an index denotes in a sequence of `size` items. -/
def place (size : Nat) (index : Int) : Option Nat :=
  if 0 ≤ index ∧ index < size then some index.toNat
  else if -size ≤ index ∧ index < 0 then some (index + size).toNat
  else none

/-- What an operation answers. -/
inductive Reply where
  | nothing
  | item (h : Handle)
  | number (n : Nat)
  | truth (b : Bool)
  /-- A new list. -/
  | list (items : List Handle)
  | error (kind : ExceptionKind)
  /-- The fault of an iterable. -/
  | failed (fault : Fault)

/-- An operation with its operands. An index that is no number is none. -/
inductive Op where
  /-- Takes the items of an iterable, or fails as the iterable does. -/
  | init (delivered : Except Fault (List Handle))
  | append (item : Handle)
  | pop
  | clear
  | copy
  | len
  | bool
  | getItem (index : Option Int)
  | setItem (index : Option Int) (value : Handle)

/-- What happens at an index: it is no number, it denotes no position, or it denotes one. -/
def at? (index : Option Int) (items : List Handle) (found : Nat → Reply × List Handle) :
    Reply × List Handle :=
  match index with
  | none => (.error .typeError, items)
  | some i =>
    match place items.length i with
    | none => (.error .indexError, items)
    | some k => found k

/-- **The operations on sequences**: the answer, and the sequence afterwards. -/
def Op.apply : Op → List Handle → Reply × List Handle
  | init (.ok delivered), _ => (.nothing, delivered)
  | init (.error fault), items => (.failed fault, items)
  | append item, items => (.nothing, items ++ [item])
  | pop, items =>
    match items.getLast? with
    | none => (.error .indexError, items)
    | some last => (.item last, items.dropLast)
  | clear, _ => (.nothing, [])
  | copy, items => (.list items, items)
  | len, items => (.number items.length, items)
  | bool, items => (.truth !items.isEmpty, items)
  | getItem index, items => at? index items fun k => (.item (items.getD k .none), items)
  | setItem index value, items => at? index items fun k => (.nothing, items.set k value)

variable {size : Nat} {index : Int}

theorem place_lt {k : Nat} (h : place size index = some k) : k < size := by
  unfold place at h
  split at h
  · cases h
    omega
  · split at h
    · cases h
      omega
    · cases h

/-- An operation at an index fails and changes nothing, or finds a position of the sequence. -/
theorem at?_cases (index : Option Int) (items : List Handle) (found : Nat → Reply × List Handle) :
    (∃ kind, at? index items found = (.error kind, items)) ∨
    ∃ k < items.length, at? index items found = found k := by
  cases index with
  | none => exact Or.inl ⟨.typeError, rfl⟩
  | some i =>
    cases hp : place items.length i with
    | none => exact Or.inl ⟨.indexError, by simp only [at?, hp]⟩
    | some k => exact Or.inr ⟨k, place_lt hp, by simp only [at?, hp]⟩

/-- **Both ends**: an index within the sequence and the one `size` below it denote the same
position. -/
theorem place_eq (h0 : 0 ≤ index) (h1 : index < size) :
    place size index = some index.toNat ∧ place size (index - size) = some index.toNat := by
  unfold place
  constructor
  · rw [if_pos ⟨h0, h1⟩]
  · rw [if_neg (by omega), if_pos (by omega)]
    congr 1
    omega

theorem place_eq_none (h : index < -size ∨ size ≤ index) : place size index = none := by
  unfold place
  rw [if_neg (by omega), if_neg (by omega)]

end Sequence

/-! ## 2. Objects that stand for sequences -/

namespace Heap

variable {heap heap' : Heap} {h : Handle} {o : Object} {items : List Handle}

/-- An object of type `list` none of whose own attributes hides a member of the type. -/
structure IsList (heap : Heap) (h : Handle) (o : Object) : Prop where
  get?_eq : heap.get? h = some o
  payload_eq : o.payload = .plain
  type_eq : o.type = BuiltinType.list.handle
  coherent : o.attributes.Coherent
  bare : ∀ m : ListMember, o.attributes.get? m.name = none

/-- **A list that stands for the sequence of its items.** -/
def ListOf (heap : Heap) (h : Handle) (items : List Handle) : Prop :=
  ∃ o cell c, heap.IsList h o ∧ o.attributes.get? listCell = some cell ∧ heap.get? cell = some c ∧
    c.payload = .tuple items

theorem name_ne_listCell (m : ListMember) : m.name ≠ listCell := by
  cases m <;> decide

theorem ListOf.tupleAttribute_eq (hl : heap.ListOf h items) :
    heap.tupleAttribute h listCell = some (some items) := by
  obtain ⟨o, cell, c, ho, hcell, hc, hp⟩ := hl
  rw [tupleAttribute_of_get? ho.get?_eq hcell hc, Object.tupleItems, hp]

theorem ListOf.listItems_eq {bound : Nat} (hl : heap.ListOf h items) (ho : heap.Orderly bound) :
    heap.listItems h = some (some items) := by
  obtain ⟨o, _, _, hlist, _⟩ := id hl
  obtain ⟨links, hlineage, _⟩ := ho.lineage (ho.isType_builtin .list)
  obtain ⟨rest, rfl⟩ := hlineage.eq_cons
  have hinstance : heap.isInstance h BuiltinType.list.handle = some true := by
    rw [isInstance_eq hlist.get?_eq, hlist.type_eq, hlineage.chain_eq]
    exact congrArg some (List.contains_iff_mem.mpr List.mem_cons_self)
  simp only [listItems, hinstance, Option.bind_eq_bind, Option.bind_some, if_true,
    hl.tupleAttribute_eq]

end Heap

/-! ## 3. What leaves a list alone -/

/-- **Nothing is lost** from `s` to `t`, and the objects that are to be kept have their attributes
still. -/
structure State.Spares (keep : Handle → Prop) (s t : State) : Prop where
  kept : ∀ {k : Handle} {o : Object}, s.heap.get? k = some o →
    ∃ o', t.heap.get? k = some o' ∧ o.Alike o' ∧ (keep k → o'.attributes = o.attributes)

namespace State

variable {keep : Handle → Prop} {s t u : State} {h k : Handle} {o : Object} {items : List Handle}

theorem Spares.refl (keep : Handle → Prop) (s : State) : s.Spares keep s :=
  ⟨fun {_ o} hget => ⟨o, hget, .refl o, fun _ => rfl⟩⟩

theorem Spares.trans (h : s.Spares keep t) (h' : t.Spares keep u) : s.Spares keep u where
  kept hget := by
    obtain ⟨o₁, hget₁, halike₁, hattr₁⟩ := h.kept hget
    obtain ⟨o₂, hget₂, halike₂, hattr₂⟩ := h'.kept hget₁
    exact ⟨o₂, hget₂, halike₁.trans halike₂, fun hk => (hattr₂ hk).trans (hattr₁ hk)⟩

/-- Only the objects that are live count. -/
theorem Spares.mono_live {keep' : Handle → Prop} (h : s.Spares keep t)
    (hk : ∀ {k : Handle} {o : Object}, s.heap.get? k = some o → keep' k → keep k) :
    s.Spares keep' t where
  kept hget := by
    obtain ⟨o', hget', halike, hattr⟩ := h.kept hget
    exact ⟨o', hget', halike, fun hkeep => hattr (hk hget hkeep)⟩

theorem Spares.mono {keep' : Handle → Prop} (h : s.Spares keep t) (hk : ∀ k, keep' k → keep k) :
    s.Spares keep' t :=
  h.mono_live fun _ => hk _

theorem Spares.of_kept (hk : s.heap.KeptIn t.heap) : s.Spares keep t :=
  ⟨fun {_ o} hget => ⟨o, hk hget, .refl o, fun _ => rfl⟩⟩

theorem Spares.of_heap_eq (he : t.heap = s.heap) : s.Spares keep t := .of_kept fun hget => he ▸ hget

theorem spares_modify (s : State) (h : Handle)
    {change : Object → Object} (hc : ∀ o : Object, o.Alike (change o))
    (ha : keep h → ∀ o : Object, (change o).attributes = o.attributes) :
    s.Spares keep (s.modify h change) where
  kept hget := by
    rw [modify, Heap.get?_modify]
    split
    · rename_i he
      rw [← he, hget]
      exact ⟨_, rfl, hc _, fun hk => ha (he ▸ hk) _⟩
    · exact ⟨_, hget, .refl _, fun _ => rfl⟩

theorem spares_setAttribute (s : State) (hh : ¬ keep h) (name : String) (value : Handle) :
    s.Spares keep (s.setAttribute h name value) :=
  s.spares_modify h (Object.Steady.attributes fun m => m.insert name value).alike fun hk =>
    absurd hk hh

theorem spares_setGenerator (s : State) (h : Handle) (g : Generator) :
    s.Spares keep (s.setGenerator h g) := by
  refine s.spares_modify h (fun o => ?_) fun _ o => ?_
  · split
    · rename_i old hp
      exact ⟨rfl, by rw [hp]; rfl⟩
    · exact .refl o
  · split <;> rfl

theorem Spares.offers {name label : String} {code : Code} (hs : s.Spares keep t) (hk : keep h)
    (hm : Bootstrap.Offers s.heap h name (.function label code)) :
    Bootstrap.Offers t.heap h name (.function label code) := by
  obtain ⟨o, member, f, hget, hmember, hfget, hp⟩ := hm
  obtain ⟨o', hget', _, hattr⟩ := hs.kept hget
  obtain ⟨f', hfget', halike, _⟩ := hs.kept hfget
  exact ⟨o', member, f', hget', hattr hk ▸ hmember, hfget', halike.payload_function hp⟩

theorem Spares.isList (hs : s.Spares keep t) (hk : keep h) (hl : s.heap.IsList h o) :
    ∃ o', t.heap.IsList h o' ∧ o'.attributes = o.attributes := by
  obtain ⟨o', hget', halike, hattr⟩ := hs.kept hl.get?_eq
  have heq := hattr hk
  exact ⟨o', ⟨hget', halike.payload_plain hl.payload_eq, halike.type_eq.trans hl.type_eq,
    heq ▸ hl.coherent, heq ▸ hl.bare⟩, heq⟩

/-- **A spared list stands for the same sequence.** -/
theorem Spares.listOf (hs : s.Spares keep t) (hk : keep h) (hl : s.heap.ListOf h items) :
    t.heap.ListOf h items := by
  obtain ⟨o, cell, c, ho, hcell, hc, hp⟩ := hl
  obtain ⟨o', ho', hattr⟩ := hs.isList hk ho
  obtain ⟨c', hc', halike, _⟩ := hs.kept hc
  refine ⟨o', cell, c', ho', hattr ▸ hcell, hc', Object.payload_of_tupleItems ?_⟩
  rw [halike.tupleItems_eq, Object.tupleItems, hp]

/-- **A new cell** makes the list stand for its items. -/
theorem listOf_setAttribute {cell : Handle} {c : Object} (hl : s.heap.IsList h o)
    (hc : s.heap.get? cell = some c) (hp : c.payload = .tuple items) :
    (s.setAttribute h Heap.listCell cell).heap.ListOf h items := by
  have hself := get?_setAttribute_self hl.get?_eq Heap.listCell cell
  have hne : cell ≠ h := by
    rintro rfl
    rw [hl.get?_eq] at hc
    cases hc
    rw [hl.payload_eq] at hp
    cases hp
  refine ⟨_, cell, c, ⟨hself, hl.payload_eq, hl.type_eq, hl.coherent.insert _ _, fun m => ?_⟩,
    ?_, ?_, hp⟩
  · dsimp only
    rw [hl.coherent.get?_insert, if_neg (Heap.name_ne_listCell m)]
    exact hl.bare m
  · dsimp only
    rw [hl.coherent.get?_insert, if_pos rfl]
  · rw [get?_setAttribute_of_ne hne]
    exact hc

end State

/-! ## 4. Runs that leave lists alone -/

/-- The entry writes no attribute of an object that is to be kept. -/
def Entry.Spares (keep : Handle → Prop) (x : Entry) : Prop :=
  match x.event with
  | .performed (.setAttribute h _ _) _ _ => ¬ keep h
  | .performed (.eraseAttribute h _) _ _ => ¬ keep h
  | _ => True

/-- A primitive action inside of a call. -/
theorem Action.spares_perform {β : Type} (a : Action β) (e : Engine) {keep : Handle → Prop}
    {w : List Handle} {s : State} (ha : a.isPrimitive = true) (hw : s.heap.WellFormed)
    (hd : 0 < s.callDepth) (hx : Entry.Spares keep ⟨w, .performed a s (a.perform e s)⟩) :
    s.Spares keep (a.perform e s).state := by
  cases a.deed_of_perform e s ha with
  | same he => exact .of_heap_eq he
  | allocate object he => exact .of_kept fun hget => he ▸ Heap.get?_allocate_of_live hw hget
  | setAttribute target name value he =>
    exact (s.spares_modify target (Object.Steady.attributes fun m => m.insert name value).alike
      fun hk => absurd hk hx).trans (.of_heap_eq he)
  | eraseAttribute target name he =>
    exact (s.spares_modify target (Object.Steady.attributes fun m => m.erase name).alike fun hk =>
      absurd hk hx).trans (.of_heap_eq he)
  | setEntry dict key value he =>
    refine (s.spares_modify dict (Object.Steady.entries fun m => m.insert key value).alike
      fun _ o => ?_).trans (.of_heap_eq he)
    split <;> rfl
  | eraseEntry dict key he =>
    refine (s.spares_modify dict (Object.Steady.entries fun m => m.erase key).alike fun _ o =>
      ?_).trans (.of_heap_eq he)
    split <;> rfl
  | collect extra h0 => exact absurd h0 (Nat.ne_of_gt hd)

/-- **A passage inside of calls keeps what it does not write.** -/
theorem Passage.spares {keep : Handle → Prop} {w : List Handle} {s t : State} {l : List Entry}
    {finished : Bool} (h : Passage w s l finished t) :
    s.Regular → 0 < s.callDepth → (∀ x ∈ l, x.Spares keep) → s.Spares keep t := by
  induction h with
  | idle | cut | refused | stale => exact fun _ _ _ => .refl keep _
  | append h _ ih ih' =>
    intro hr hd hlog
    obtain ⟨hl, hl'⟩ := List.forall_mem_append.mp hlog
    exact (ih hr hd hl).trans (ih' (hr.steps h.steps) (h.callDepth_eq ▸ hd) hl')
  | primitive a e s hp =>
    exact fun hr hd hlog => a.spares_perform e hp hr.heap hd (hlog _ List.mem_cons_self)
  | called _ _ _ _ _ ih =>
    intro hr _ hlog
    exact ⟨(ih (hr.step (.enter _)) (Nat.succ_pos _) (List.forall_mem_append.mp hlog).1).kept⟩
  | answered _ _ _ _ _ _ ih => exact fun hr hd hlog => ih hr hd (List.forall_mem_append.mp hlog).1
  | @lost _ s _ _ _ g _ t _ _ _ ih =>
    intro hr _ hlog
    have hin :=
      ih (hr.steps (s.steps_running g)) (Nat.succ_pos _) (List.forall_mem_append.mp hlog).1
    exact (s.spares_setGenerator g .running).trans ⟨hin.kept⟩
  | @resumed _ s _ _ _ _ g _ t _ _ _ h _ _ hsettle _ _ ih ih' =>
    intro hr hd hlog
    obtain ⟨hl, hl'⟩ := List.forall_mem_append.mp hlog
    have hregular := hr.steps (s.steps_running g)
    have hin := ih hregular (Nat.succ_pos _) hl
    obtain ⟨y, rfl⟩ := exists_settled hsettle
    have hcomputed : s.Spares keep t.leave := (s.spares_setGenerator g .running).trans ⟨hin.kept⟩
    have hback : s.Spares keep (t.leave.setGenerator g y) :=
      hcomputed.trans (t.leave.spares_setGenerator g y)
    have hdepth : t.callDepth = s.callDepth + 1 := h.callDepth_eq
    refine hback.trans (ih' (((hregular.steps h.steps).step (.leave t)).step (.setGenerator _ g y))
      ?_ (List.forall_mem_append.mp (List.forall_mem_cons.mp hl').2).1)
    change 0 < t.callDepth - 1
    omega

/-- **A run inside of calls that writes no attribute of some objects spares them.** -/
theorem State.spares_of_log {α : Type} {keep : Handle → Prop} {s : State} (p : Program α) (n : Nat)
    (hr : s.Regular) (hd : 0 < s.callDepth) (hlog : ∀ x ∈ p.log n s, x.Spares keep) :
    s.Spares keep (p.run (engine n) s).state :=
  (Passage.of_run n [] p s).spares hr hd hlog

end ObjectModel
