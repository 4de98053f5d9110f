import ObjectModel.Proofs.References.Sound
import ObjectModel.Proofs.Run.Contract

/-!
# Programs that store live handles only

* `Run.Safe.bind`, `Run.Safe.loop`, `Run.Safe.attempt` -- the rules for composed programs.
-/

namespace ObjectModel

variable {α β σ : Type}

/-! ## 1. The contract -/

/-- The invariant: regular and without dangling references. -/
structure State.Intact (s : State) : Prop where
  regular : s.Regular
  sound : s.Sound

/-- As deep as before, and nothing was lost. -/
structure State.Extends (s t : State) : Prop where
  depth : t.callDepth = s.callDepth
  live : ∀ {h : Handle}, s.Live h → t.Live h

namespace State.Extends

variable {s t u : State}

theorem refl (s : State) : s.Extends s := ⟨rfl, id⟩

theorem trans (h : s.Extends t) (h' : t.Extends u) : s.Extends u :=
  ⟨h'.depth.trans h.depth, fun hl => h'.live (h.live hl)⟩

/-- What is new and what was known before. -/
theorem live_append (h : s.Extends t) {L K : List Handle} (hL : ∀ h ∈ L, t.Live h)
    (hK : ∀ h ∈ K, s.Live h) : ∀ h ∈ L ++ K, t.Live h :=
  List.forall_mem_append.mpr ⟨hL, fun k hk => h.live (hK k hk)⟩

end State.Extends

namespace Action

/-- The handles that an action stores or passes on. -/
def stores : Action β → List Handle
  | allocate object => object.references
  | setAttribute _ _ value => [value]
  | setEntry _ _ value => [value]
  | setGlobal _ value => [value]
  | pin h => [h]
  | call callee args => callee :: args
  | _ => []

/-- What can be relied on behind an action. Of calls and requests it is only known that they lose
nothing. -/
def Gives : Action β → State → β → State → Prop
  | call _ _, s, answer, t => s.Extends t ∧ ∀ h, answer = .ok h → t.Live h
  | advance _, s, answer, t => s.Extends t ∧ ∀ h, answer = .ok h → t.Live h
  | handOver handles, s, _, t => t = s ∧ ∀ h ∈ handles, s.Live h
  | a, s, answer, t => ∃ engine, a.perform engine s = .done answer t

end Action

/-- **The contract**: only live handles are stored and passed on. -/
def liveness : Contract where
  inv := State.Intact
  may a s := ∀ h ∈ a.stores, s.Live h
  gives a := a.Gives

/-! ## 2. Known handles -/

/-- The handles of a list, and those that are live in every sound state. -/
inductive Known (known : List Handle) : Handle → Prop where
  | mem {h : Handle} : h ∈ known → Known known h
  | type (t : BuiltinType) : Known known t.handle
  | none : Known known .none
  | notImplemented : Known known .notImplemented
  | true : Known known .true
  | false : Known known .false

namespace Known

attribute [grind ←] mem

variable {K L : List Handle} {h k : Handle}

theorem live {s : State} (hs : s.Sound) (hK : ∀ h ∈ K, s.Live h) (h' : Known K h) : s.Live h := by
  cases h' with
  | mem hm => exact hK h hm
  | _ => exact hs.root (by constructor)

theorem mono (hL : ∀ h ∈ K, Known L h) (h' : Known K h) : Known L h := by
  cases h' with
  | mem hm => exact hL h hm
  | type t => exact .type t
  | none => exact .none
  | notImplemented => exact .notImplemented
  | true => exact .true
  | false => exact .false

@[simp, grind =] theorem append_iff : Known (L ++ K) h ↔ h ∈ L ∨ Known K h := by
  constructor
  · intro h'
    cases h' with
    | mem hm => exact (List.mem_append.mp hm).imp_right .mem
    | type t => exact Or.inr (.type t)
    | none => exact Or.inr .none
    | notImplemented => exact Or.inr .notImplemented
    | true => exact Or.inr .true
    | false => exact Or.inr .false
  · rintro (hm | hk)
    · exact .mem (List.mem_append_left _ hm)
    · exact hk.mono fun k hm => .mem (List.mem_append_right _ hm)

@[simp, grind =] theorem cons_iff : Known (k :: K) h ↔ h = k ∨ Known K h := by
  rw [← List.singleton_append, append_iff, List.mem_singleton]

@[simp, grind .] theorem handle (t : BuiltinType) : Known K t.handle := .type t

@[simp, grind .] theorem exceptionType (kind : ExceptionKind) : Known K kind.type := .type _

@[simp, grind .] theorem noneObject : Known K .none := .none

@[simp, grind .] theorem notImplementedObject : Known K .notImplemented := .notImplemented

@[simp, grind .] theorem trueObject : Known K .true := .true

@[simp, grind .] theorem falseObject : Known K .false := .false

@[simp, grind .] theorem ofBool (b : Bool) : Known K (.ofBool b) := by
  cases b
  · exact .false
  · exact .true

end Known

/-- What is known behind an answer that is made of `new`. -/
def knowing (new known : List Handle) : List Handle := new ++ known

section

variable {K L : List Handle} {h : Handle}

theorem knowing_nil (L : List Handle) : knowing L [] = L := List.append_nil L

@[simp] theorem known_knowing_iff : Known (knowing L K) h ↔ h ∈ L ∨ Known K h := Known.append_iff

theorem known_of_new (hm : h ∈ L) : Known (knowing L K) h := known_knowing_iff.mpr (Or.inl hm)

theorem known_of_known (hk : Known K h) : Known (knowing L K) h := known_knowing_iff.mpr (Or.inr hk)

grind_pattern known_of_new => h ∈ L, knowing L K

grind_pattern known_of_known => Known K h, knowing L K

grind_pattern known_of_known => Known (knowing L K) h

theorem known_single (h : Handle) : Known (knowing [h] K) h := known_of_new List.mem_cons_self

grind_pattern known_single => knowing [h] K

end

/-! ## 3. The handles of a value -/

/-- The handles that the values of a type are made of. -/
class HasHandles (α : Type) where
  handles : α → List Handle

open HasHandles (handles)

section

variable [HasHandles α] [HasHandles β]

/-- Data has no handles. -/
instance (priority := low) HasHandles.data {α : Type} : HasHandles α := ⟨fun _ => []⟩

instance : HasHandles Handle := ⟨fun h => [h]⟩

instance : HasHandles (List Handle) := ⟨id⟩

instance : HasHandles (Array Handle) := ⟨Array.toList⟩

instance : HasHandles (OrderedMap Handle) := ⟨OrderedMap.values⟩

instance : HasHandles Object := ⟨Object.references⟩

instance HasHandles.option : HasHandles (Option α) := ⟨fun o => o.elim [] handles⟩

instance : HasHandles (α ⊕ β) := ⟨Sum.elim handles handles⟩

instance : HasHandles (Except Fault α) := ⟨fun | .ok a => handles a | .error _ => []⟩

@[simp] theorem handles_data {α : Type} (a : α) : @handles α .data a = [] := rfl

@[grind =] theorem handles_unit (u : Unit) : handles u = [] := rfl

@[grind =] theorem handles_bool (b : Bool) : handles b = [] := rfl

@[grind =] theorem handles_nat (n : Nat) : handles n = [] := rfl

@[grind =] theorem handles_int (n : Int64) : handles n = [] := rfl

@[grind =] theorem handles_text (text : String) : handles text = [] := rfl

@[simp, grind =] theorem handles_handle (h : Handle) : handles h = [h] := rfl

@[simp, grind =] theorem handles_list (l : List Handle) : handles l = l := rfl

@[simp, grind =] theorem handles_array (l : Array Handle) : handles l = l.toList := rfl

@[simp, grind =] theorem handles_map (entries : OrderedMap Handle) :
    handles entries = entries.values :=
  rfl

@[simp, grind =] theorem handles_object (o : Object) : handles o = o.references := rfl

@[simp, grind =] theorem handles_none : handles (none : Option α) = [] := rfl

@[simp, grind =] theorem handles_some (a : α) : handles (some a) = handles a := rfl

@[simp, grind =] theorem handles_optional {α : Type} (o : Option α) :
    @handles _ (@HasHandles.option α .data) o = [] := by
  cases o <;> rfl

@[simp, grind =] theorem handles_inl (a : α) : handles (.inl a : α ⊕ β) = handles a := rfl

@[simp, grind =] theorem handles_inr (b : β) : handles (.inr b : α ⊕ β) = handles b := rfl

end

/-! ## 4. The judgement and its rules -/

/-- From every intact state in which `known` are live, `x` keeps to the contract, loses nothing and
answers with live handles. -/
def Run.Safe [HasHandles α] (known : List Handle) (x : Run α) : Prop :=
  ∀ s : State, s.Intact → (∀ h ∈ known, s.Live h) →
    x.run.Ensures liveness (fun r t => s.Extends t ∧ ∀ a, r = .ok a → ∀ h ∈ handles a, t.Live h) s

namespace Run.Safe

variable [HasHandles α] [HasHandles β] [HasHandles σ] {K L : List Handle} {x : Run α}

theorem pure {a : α} (ha : ∀ h ∈ handles a, Known K h) : Safe K (Pure.pure a : Run α) := by
  intro s hs hK
  refine ⟨.refl s, ?_⟩
  rintro _ ⟨⟩ h hh
  exact (ha h hh).live hs.sound hK

theorem throw (fault : Fault) : Safe K (MonadExcept.throw fault : Run α) := by
  intro s _ _
  exact ⟨.refl s, nofun⟩

/-- **What the first part answers is known to the second one.** -/
theorem bind {f : α → Run β} (hx : Safe K x) (hf : ∀ a, Safe (knowing (handles a) K) (f a)) :
    Safe K (x >>= f) := by
  intro s hs hK
  refine ensures_bind hs (hx s hs hK) (fun a t ht hr => ?_) fun fault t _ hr => ⟨hr.1, nofun⟩
  obtain ⟨hext, hR⟩ := hr
  exact (hf a t ht (hext.live_append (hR a rfl) hK)).mono ht fun r u _ hr => ⟨hext.trans hr.1, hr.2⟩

theorem attempt (hx : Safe K x) : Safe K (Run.attempt x) := by
  intro s hs hK
  refine ensures_attempt hs ((hx s hs hK).mono hs fun r t _ hr => ⟨hr.1, ?_⟩)
  rintro _ ⟨⟩ h hh
  cases r with
  | ok a => exact hr.2 a rfl h hh
  | error fault => exact absurd hh List.not_mem_nil

/-- **Loops** whose accumulator stays live. -/
theorem loop {start : σ} {body : σ → Run (σ ⊕ β)} (hstart : ∀ h ∈ handles start, Known K h)
    (hbody : ∀ acc, Safe (knowing (handles acc) K) (body acc)) : Safe K (Run.loop start body) := by
  intro s hs hK
  refine ensures_loop (fun acc t => s.Extends t ∧ ∀ h ∈ handles acc, t.Live h)
    ⟨.refl s, fun h hh => (hstart h hh).live hs.sound hK⟩ fun acc t ht hI => ?_
  obtain ⟨hext, hJ⟩ := hI
  refine (hbody acc t ht (hext.live_append hJ hK)).mono ht fun r u _ hr => ?_
  match r, hr with
  | .ok (.inl acc), hr => exact ⟨hext.trans hr.1, hr.2 _ rfl⟩
  | .ok (.inr answer), hr =>
    refine ⟨hext.trans hr.1, ?_⟩
    rintro _ ⟨⟩
    exact hr.2 _ rfl
  | .error fault, hr => exact ⟨hext.trans hr.1, nofun⟩

end Run.Safe

end ObjectModel
