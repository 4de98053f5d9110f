import ObjectModel.Proofs.Data.Datum
import ObjectModel.Proofs.Lists.Calling

/-!
# Hooks of data values

Operators and rendering ask the type of a data value for a hook. Where the builtin types are as they
were placed, the answer comes from a builtin member: one of the type itself, or else one of
`object`.

* `Heap.Unaltered` -- **the builtin types are as they were placed**, as far as the names of builtin
  members go.
-/

namespace ObjectModel

/-! ## 1. Builtin types as they were placed -/

/-- **The builtin types are as they were placed**, as far as the names of builtin members go: a type
has all of its own members, and nothing under the name of a member that it has not. -/
structure Heap.Unaltered (heap : Heap) : Prop where
  offers : ∀ m ∈ Member.all, Bootstrap.Offers heap m.owner.handle m.name
    (.function m.qualifiedName (.member m))
  lacks : ∀ (t : BuiltinType) (o : Object), heap.get? t.handle = some o → ∀ m ∈ Member.all,
    (∀ m' ∈ Member.all, m'.owner = t → m'.name ≠ m.name) → o.attributes.get? m.name = none

namespace BuiltinType

theorem mem_all (t : BuiltinType) : t ∈ all := by
  cases t with
  | exception kind => cases kind <;> decide
  | _ => decide

/-- The member of `t` with this name. -/
def ownMember? (t : BuiltinType) (name : String) : Option Member :=
  Member.all.find? fun m => m.owner = t ∧ m.name = name

/-- The member that answers for the objects of type `t`: that of `t` itself, or else that of
`object`. -/
def member? (t : BuiltinType) (name : String) : Option Member :=
  (t.ownMember? name).or (object.ownMember? name)

theorem ownMember?_eq_some {t : BuiltinType} {name : String} {m : Member}
    (h : t.ownMember? name = some m) : m ∈ Member.all ∧ m.owner = t ∧ m.name = name := by
  have hfound := List.find?_some h
  exact ⟨List.mem_of_find?_eq_some h, of_decide_eq_true hfound⟩

theorem ownMember?_eq_none {t : BuiltinType} {name : String} (h : t.ownMember? name = none) :
    ∀ m ∈ Member.all, m.owner = t → m.name ≠ name := by
  intro m hm ht hname
  exact List.find?_eq_none.mp h m hm (decide_eq_true ⟨ht, hname⟩)

end BuiltinType

theorem Member.name_ne_of_mem : ∀ m ∈ Member.all, m.name ≠ "__name__" := by
  decide +kernel

/-- All members are offered, and the builtin types have no other attributes but their names. -/
def Heap.AsPlaced (heap : Heap) : Prop :=
  (∀ m ∈ Member.all, Bootstrap.OffersMember heap m) ∧
    ∀ t ∈ BuiltinType.all, ∀ o ∈ heap.get? t.handle, ∀ key ∈ o.attributes.index.keys,
      key = "__name__" ∨ ∃ m ∈ Member.all, m.owner = t ∧ m.name = key

instance (heap : Heap) : Decidable heap.AsPlaced := inferInstanceAs (Decidable (_ ∧ _))

theorem Heap.AsPlaced.unaltered {heap : Heap} (h : heap.AsPlaced) : heap.Unaltered where
  offers := h.1
  lacks t o hget m hm hnone := by
    cases hi : o.attributes.index[m.name]? with
    | none => rw [OrderedMap.get?, hi]; rfl
    | some i =>
      have hkey : m.name ∈ o.attributes.index.keys :=
        Std.TreeMap.mem_keys.mpr (Std.TreeMap.mem_iff_isSome_getElem?.mpr (hi ▸ rfl))
      rcases h.2 t t.mem_all o hget m.name hkey with hname | ⟨m', hm', ht, hname⟩
      · exact absurd hname (Member.name_ne_of_mem m hm)
      · exact absurd hname (hnone m' hm' ht)

/-- **The first heap.** -/
theorem Bootstrap.asPlaced_heap : heap.AsPlaced := ⟨offers_member, by decide +kernel⟩

theorem State.unaltered_initial (limits : Limits) (console : Console) :
    (State.initial limits console).heap.Unaltered := by
  rw [State.heap_initial]
  exact Bootstrap.asPlaced_heap.unaltered

theorem Heap.Unaltered.furnished {heap : Heap} (hu : heap.Unaltered) : heap.Furnished :=
  ⟨hu.offers, fun o hget => hu.lacks .list o hget (.object .new) (by decide) (by decide)⟩

section

variable {s t : State} {h : Handle} {o : Object} {bound n : Nat} {name : String} {m : Member}
  {b : BuiltinType}

/-- Builtin types that are left alone stay as they were placed. -/
theorem State.Spares.unaltered {keep : Handle → Prop} (hs : s.Spares keep t)
    (hk : ∀ k : Handle, k.IsBuiltin → keep k) (ho : s.heap.Orderly bound) (hu : s.heap.Unaltered) :
    t.heap.Unaltered where
  offers m hm := hs.offers (hk _ ⟨_, rfl⟩) (hu.offers m hm)
  lacks b o' hget' m hm hnone := by
    obtain ⟨o, hget, _⟩ := ho.builtin b
    obtain ⟨o₁, hget₁, _, hattr⟩ := hs.kept hget
    cases hget₁.symm.trans hget'
    rw [hattr (hk _ ⟨_, rfl⟩)]
    exact hu.lacks b o hget m hm hnone

/-- A member that is not the type's own, but that of its base. -/
theorem Heap.Unaltered.answers_of_base {heap : Heap} {base : BuiltinType}
    (hu : heap.Unaltered) (ho : heap.Orderly bound) (hget : heap.get? h = some o)
    (ht : o.type = b.handle) (hb : b.base? = some base) (hnone : b.ownMember? name = none)
    (hm : base.ownMember? name = some m) : heap.Answers h name m := by
  obtain ⟨hmem, howner, rfl⟩ := BuiltinType.ownMember?_eq_some hm
  obtain ⟨root, f, fo, hroot, hf, hfo, hp⟩ := hu.offers m hmem
  obtain ⟨type, htype, hpayload⟩ := ho.builtin b
  rw [hb] at hpayload
  rw [howner] at hroot
  have hlacks := hu.lacks b type htype m hmem (BuiltinType.ownMember?_eq_none hnone)
  obtain ⟨links, hlinks, _⟩ := ho.lineage (ho.isType_builtin base)
  obtain ⟨rest, rfl⟩ := hlinks.eq_cons
  refine ⟨f, fo, _, ?_, hfo, hp⟩
  rw [Heap.hook_of_get? hget, ht, (Heap.Lineage.derived htype hpayload hlinks).lookup_eq,
    Heap.firstDefined_cons htype, hlacks, Heap.firstDefined_cons hroot, hf]
  rfl

/-- **Which member answers for an object of a builtin type.** -/
theorem Heap.Unaltered.answers {heap : Heap} (hu : heap.Unaltered) (ho : heap.Orderly bound)
    (hget : heap.get? h = some o) (ht : o.type = b.handle) (hb : b.base? = some .object)
    (hm : b.member? name = some m) : heap.Answers h name m := by
  rcases Option.or_eq_some_iff.mp hm with hown | ⟨hnone, hobject⟩
  · obtain ⟨hmem, rfl, rfl⟩ := BuiltinType.ownMember?_eq_some hown
    exact .of_offers ho hget (ht ▸ ho.isType_builtin _) (ht ▸ hu.offers m hmem)
  · exact hu.answers_of_base ho hget ht hb hnone hobject

/-! ## 2. States -/

/-- **A state in which the builtin types and the singletons are as they were placed.** -/
structure State.Native (s : State) : Prop where
  orderly : s.Orderly
  singles : s.heap.Singles
  unaltered : s.heap.Unaltered

/-- The levels that are left for calls. -/
def State.levels (s : State) : Nat := s.limits.callDepth - s.callDepth

/-- `t` has all objects of `s`, perhaps more, and as many levels left. -/
structure State.Grows (s t : State) : Prop where
  native : t.Native
  kept : ∀ {k : Handle} {o : Object}, s.heap.get? k = some o → t.heap.get? k = some o
  callDepth_eq : t.callDepth = s.callDepth
  limits_eq : t.limits = s.limits

namespace State

theorem Native.of_reachable (hs : s.Reachable) (hu : s.heap.Unaltered) : s.Native :=
  ⟨hs.orderly, hs.singles, hu⟩

theorem Native.enter (hs : s.Native) : s.enter.Native :=
  ⟨hs.orderly.enter, hs.singles, hs.unaltered⟩

theorem Native.leave (hs : s.Native) : s.leave.Native :=
  ⟨hs.orderly.leave, hs.singles, hs.unaltered⟩

theorem Grows.refl (hs : s.Native) : s.Grows s := ⟨hs, id, rfl, rfl⟩

theorem Grows.trans {u : State} (h : s.Grows t) (h' : t.Grows u) : s.Grows u where
  native := h'.native
  kept hget := h'.kept (h.kept hget)
  callDepth_eq := h'.callDepth_eq.trans h.callDepth_eq
  limits_eq := h'.limits_eq.trans h.limits_eq

theorem Grows.leave (h : s.enter.Grows t) : s.Grows t.leave where
  native := h.native.leave
  kept := h.kept
  callDepth_eq := by
    rw [State.leave, h.callDepth_eq]
    rfl
  limits_eq := h.limits_eq

theorem Grows.levels_eq (h : s.Grows t) : t.levels = s.levels := by
  rw [levels, levels, h.callDepth_eq, h.limits_eq]

theorem Orderly.allocate (hs : s.Orderly) {object : Object} (hf : s.Fits object) :
    (s.allocate object).2.Orderly :=
  ⟨hs.regular.step (.change (.allocate s _)), hs.heap.allocate hs.regular.heap hf⟩

/-- A new object that fits is added. -/
theorem Native.grows_allocate (hs : s.Native) {object : Object} (hf : s.Fits object) :
    s.Grows (s.allocate object).2 where
  native := by
    have hw := hs.orderly.regular.heap
    have hkept : ∀ {k : Handle} {o : Object}, s.heap.get? k = some o →
        (s.allocate object).2.heap.get? k = some o :=
      Heap.get?_allocate_of_live hw
    have hspares : s.Spares (fun _ => True) (s.allocate object).2 := .of_kept hkept
    exact ⟨hs.orderly.allocate hf, hs.singles.allocate hw _,
      hspares.unaltered (fun _ _ => trivial) hs.orderly.heap hs.unaltered⟩
  kept := Heap.get?_allocate_of_live hs.orderly.regular.heap
  callDepth_eq := rfl
  limits_eq := rfl

theorem Native.grows_text (hs : s.Native) (text : String) : s.Grows (s.allocate (.ofText text)).2 :=
  hs.grows_allocate (.text text)

theorem levels_initial (limits : Limits) (console : Console) :
    (State.initial limits console).levels = limits.callDepth := by
  rw [levels, callDepth_initial, limits_initial, Nat.sub_zero]

theorem levels_enter (s : State) : s.enter.levels = s.levels - 1 := by
  change s.limits.callDepth - (s.callDepth + 1) = s.limits.callDepth - s.callDepth - 1
  omega

theorem Placed.levels_eq {object : Object} (hp : s.Placed object h t) : t.levels = s.levels := by
  obtain ⟨_, rfl⟩ := hp.rest
  rfl

theorem room_of_levels (h : 0 < s.levels) : s.callDepth < s.limits.callDepth := by
  unfold levels at h
  omega

end State

/-! ## 3. Members of data values -/

theorem Heap.Layered.type_eq {heap : Heap} {l : Layer Handle} (hl : heap.Layered h o l)
    (ho : heap.Orderly bound) (hget : heap.get? h = some o) : o.type = l.type.handle := by
  cases hl with
  | int hp | text hp | bool hp | none hp | tuple hp => exact ho.kind hget (by rw [hp]; rfl)
  | list _ ht _ => exact ht
  | dict _ ht => exact ht

theorem Heap.ListOf.layer?_eq {heap : Heap} {items : List Handle} (hl : heap.ListOf h items) :
    heap.layer? h = some (.list items) := by
  obtain ⟨o, _, _, hlist, _⟩ := id hl
  exact layer?_eq_some_iff.mpr ⟨o, hlist.get?_eq,
    .list hlist.payload_eq hlist.type_eq hl.tupleAttribute_eq⟩

/-- **The member that answers for a data value** is known by its layer. -/
theorem State.Native.answers {l : Layer Handle} (hs : s.Native) (hl : s.heap.layer? h = some l)
    (hm : l.type.member? name = some m) : s.heap.Answers h name m := by
  obtain ⟨o, hget, hl⟩ := Heap.layer?_eq_some_iff.mp hl
  have hbase : l.type.base? = some .object := by cases l <;> rfl
  exact hs.unaltered.answers hs.orderly.heap hget (hl.type_eq hs.orderly.heap hget) hbase hm

/-- A truth value stands for itself. -/
theorem Heap.Singles.shows_bool {heap : Heap} (hs : heap.Singles) (b : Bool) :
    heap.Shows (.ofBool b) (.of (.bool b)) := by
  obtain ⟨o, hget, hp⟩ := hs (.bool b) (.ofBool b) rfl
  exact .of_layer (layer?_eq_some_iff.mpr ⟨o, hget, .bool hp⟩) (.bool b)

/-! ## 4. What the members see of a data value -/

namespace Layer

variable {α : Type}

def int? : Layer α → Option Int64
  | int n => some n
  | _ => Option.none

def text? : Layer α → Option String
  | text s => some s
  | _ => Option.none

def tuple? : Layer α → Option (List α)
  | tuple items => some items
  | _ => Option.none

def bool? : Layer α → Option Bool
  | bool b => some b
  | _ => Option.none

end Layer

section

variable {e : Engine} {l : Layer Handle}

theorem run_intValue_layer (hl : s.heap.layer? h = some l) :
    (intValue h).run.run e s = .done (.ok l.int?) s := by
  obtain ⟨o, hget, hl⟩ := Heap.layer?_eq_some_iff.mp hl
  have hvalue : o.intValue = l.int? := by cases hl <;> simp only [Object.intValue, Layer.int?, *]
  exact (run_object_bind hget).trans (by rw [hvalue]; rfl)

theorem run_textValue_layer (hl : s.heap.layer? h = some l) :
    (textValue h).run.run e s = .done (.ok l.text?) s := by
  obtain ⟨o, hget, hl⟩ := Heap.layer?_eq_some_iff.mp hl
  have hvalue :
      o.textValue = l.text? := by cases hl <;> simp only [Object.textValue, Layer.text?, *]
  exact (run_object_bind hget).trans (by rw [hvalue]; rfl)

theorem run_tupleItems_layer (hl : s.heap.layer? h = some l) :
    (tupleItems h).run.run e s = .done (.ok l.tuple?) s := by
  obtain ⟨o, hget, hl⟩ := Heap.layer?_eq_some_iff.mp hl
  have hvalue :
      o.tupleItems = l.tuple? := by cases hl <;> simp only [Object.tupleItems, Layer.tuple?, *]
  exact (run_object_bind hget).trans (by rw [hvalue]; rfl)

theorem run_boolValue_layer (hl : s.heap.layer? h = some l) :
    (boolValue h).run.run e s = .done (.ok l.bool?) s := by
  obtain ⟨o, hget, hl⟩ := Heap.layer?_eq_some_iff.mp hl
  have hvalue :
      o.boolValue = l.bool? := by cases hl <;> simp only [Object.boolValue, Layer.bool?, *]
  exact (run_object_bind hget).trans (by rw [hvalue]; rfl)

theorem run_intReceiver_layer {i : Int64} (hl : s.heap.layer? h = some (.int i)) (name : String) :
    (intReceiver name h).run.run e s = .done (.ok i) s := Run.run_bind_ok (run_intValue_layer hl)

theorem run_textReceiver_layer {text : String} (hl : s.heap.layer? h = some (.text text))
    (name : String) : (textReceiver name h).run.run e s = .done (.ok text) s :=
  Run.run_bind_ok (run_textValue_layer hl)

theorem run_boolReceiver_layer {b : Bool} (hl : s.heap.layer? h = some (.bool b)) :
    (boolReceiver h).run.run e s = .done (.ok b) s := Run.run_bind_ok (run_boolValue_layer hl)

theorem run_tupleReceiver_layer {items : List Handle} (hl : s.heap.layer? h = some (.tuple items))
    (name : String) : (tupleReceiver name h).run.run e s = .done (.ok items) s :=
  Run.run_bind_ok (run_tupleItems_layer hl)

theorem run_listReceiver_layer {items : List Handle} (hl : s.heap.layer? h = some (.list items))
    (name : String) : (listReceiver name h).run.run e s = .done (.ok items) s := by
  obtain ⟨_, _, hl⟩ := Heap.layer?_eq_some_iff.mp hl
  cases hl with
  | list _ _ hcell =>
    exact @Run.run_inspect_bind _ _ _ s (fun s => s.heap.tupleAttribute h Heap.listCell) _ _ hcell

theorem run_dictReceiver_layer {entries : List (String × Handle)}
    (hl : s.heap.layer? h = some (.dict entries)) (name : String) :
    ∃ map : OrderedMap Handle, map.toList = entries ∧
      (dictReceiver name h).run.run e s = .done (.ok map) s := by
  obtain ⟨o, hget, hl⟩ := Heap.layer?_eq_some_iff.mp hl
  cases hl with
  | @dict map hp _ => exact ⟨map, rfl, run_dictReceiver hget hp name⟩

end

/-! ## 5. Asking -/

variable {args : List Handle} {u : State} {a : Handle} {fault : Fault}

/-- A member that comes to an answer: `NotImplemented` means that it declines. -/
theorem run_askHook (hm : s.heap.Answers h name m) (hroom : s.Room)
    (hrun : (m.run args).run.run (engine n) s.enter = .done (.ok a) u) :
    (askHook h name args).run.run (engine (n + 1)) s
      = .done (.ok (if a = .notImplemented then none else some a)) u.leave :=
  (run_hook_bind (fun _ => rfl) hm hroom hrun).trans rfl

/-- The text that a member gives, in whatever object. -/
theorem run_renderWith_value {o : Object} (hm : s.heap.Answers h name m) (hroom : s.Room)
    (hrun : (m.run [h]).run.run (engine n) s.enter = .done (.ok a) u)
    (hget : u.heap.get? a = some o) {text : String} (htext : o.textValue = some text) :
    (renderWith name h).run.run (engine (n + 1)) s = .done (.ok text) u.leave := by
  refine (run_hook_bind (fun _ => rfl) hm hroom hrun).trans ?_
  rw [textValue, bind_assoc]
  refine (run_object_bind (s := u.leave) hget).trans ?_
  rw [htext]
  rfl

theorem run_renderWith (hm : s.heap.Answers h name m) (hroom : s.Room)
    (hrun : (m.run [h]).run.run (engine n) s.enter = .done (.ok a) u) {text : String}
    (hget : u.heap.get? a = some (.ofText text)) :
    (renderWith name h).run.run (engine (n + 1)) s = .done (.ok text) u.leave :=
  run_renderWith_value hm hroom hrun hget rfl

theorem run_renderWith_error (hm : s.heap.Answers h name m) (hroom : s.Room)
    (hrun : (m.run [h]).run.run (engine n) s.enter = .done (.error fault) u) :
    (renderWith name h).run.run (engine (n + 1)) s = .done (.error fault) u.leave :=
  run_hook_error (fun _ => rfl) hm hroom hrun

theorem run_call_refused (hfull : s.levels = 0) (f : Handle) (args : List Handle) :
    (call f args).run.run (engine (n + 1)) s
      = .done (.error (.callDepthExceeded s.limits.callDepth)) s := by
  refine (Program.run_act _ _ _).trans ?_
  change belowLimit ((dispatch f args).run.run (engine n)) s = _
  rw [belowLimit, if_pos (Nat.sub_eq_zero_iff_le.mp hfull)]

theorem run_renderWith_refused (hm : s.heap.Answers h name m) (hfull : s.levels = 0) :
    (renderWith name h).run.run (engine (n + 1)) s
      = .done (.error (.callDepthExceeded s.limits.callDepth)) s := by
  obtain ⟨f, o, label, hhook, _⟩ := hm
  refine (@Run.run_inspect_bind _ _ _ s (fun s => s.heap.hook h name) _ _ hhook).trans ?_
  dsimp only
  rw [ExceptT.run_bind, Program.run_bind, run_call_refused hfull]
  rfl

/-- An object is as true as its `__bool__` says. -/
theorem run_truthy_of_bool {b : Bool} (hm : s.heap.Answers h "__bool__" m) (hroom : s.Room)
    (hrun : (m.run [h]).run.run (engine n) s.enter = .done (.ok (.ofBool b)) u)
    (hsingles : u.heap.Singles) :
    (truthy h).run.run (engine (n + 1)) s = .done (.ok b) u.leave := by
  obtain ⟨o, hget, hp⟩ := hsingles (.bool b) (.ofBool b) rfl
  have hvalue : o.boolValue = some b := by rw [Object.boolValue, hp]
  refine (run_hook_bind (fun _ => rfl) hm hroom hrun).trans ?_
  rw [boolValue, bind_assoc]
  refine (run_object_bind (s := u.leave) hget).trans ?_
  rw [hvalue]
  rfl

/-- A truth value is as true as it says. -/
theorem State.Orderly.run_truthy {label : String} (hs : s.Orderly) (hsingles : s.heap.Singles)
    (hoffers : Bootstrap.Offers s.heap BuiltinType.bool.handle "__bool__"
      (.function label (.member (.bool .bool)))) (hroom : s.Room) (b : Bool) :
    (truthy (.ofBool b)).run.run (engine (n + 1)) s = .done (.ok b) s := by
  obtain ⟨o, hget, hp⟩ := hsingles (.bool b) (.ofBool b) rfl
  have htype : o.type = BuiltinType.bool.handle := hs.heap.kind hget (by rw [hp]; rfl)
  have hm := Heap.Answers.of_offers hs.heap hget (htype ▸ hs.heap.isType_builtin .bool)
      (htype ▸ hoffers)
  exact run_truthy_of_bool hm hroom (u := s.enter) rfl hsingles

theorem State.Native.run_truthy (hs : s.Native) (hroom : s.Room) (b : Bool) :
    (truthy (.ofBool b)).run.run (engine (n + 1)) s = .done (.ok b) s :=
  hs.orderly.run_truthy hs.singles (hs.unaltered.offers (.bool .bool) (by decide)) hroom b

end

end ObjectModel
