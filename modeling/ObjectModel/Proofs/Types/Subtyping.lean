import ObjectModel.Proofs.References.Session
import ObjectModel.Proofs.Types.Permanence
import ObjectModel.Proofs.Types.WellTyped

/-!
# Subtyping

A type is a subtype of the links of its lineage and of nothing else. A lineage is fixed when its
type is made, so what is asked about subtypes, instances and exceptions has one answer for as long
as there is something to ask about.

* `State.subtyping_stable` -- **subtyping is a forest order, and nothing that is run changes it.**
-/

namespace ObjectModel

/-! ## 1. The order -/

namespace Heap

variable {heap : Heap} {a b c h : Handle} {o : Object} {links : List Handle} {bound : Nat}

/-- **Subtyping orders the types as a forest**: below `object`, and above each type in a line. -/
structure ForestOrder (heap : Heap) : Prop where
  /-- There is an answer about every type. -/
  decided : ∀ {a : Handle}, heap.IsType a → ∀ b, ∃ answer, heap.isSubtype a b = some answer
  /-- What stands above a type is one. -/
  upward : ∀ {a b : Handle}, heap.IsType a → heap.isSubtype a b = some true → heap.IsType b
  refl : ∀ {a : Handle}, heap.IsType a → heap.isSubtype a a = some true
  trans : ∀ {a b c : Handle}, heap.IsType a → heap.isSubtype a b = some true →
    heap.isSubtype b c = some true → heap.isSubtype a c = some true
  antisymm : ∀ {a b : Handle}, heap.IsType a → heap.isSubtype a b = some true →
    heap.isSubtype b a = some true → a = b
  greatest : heap.IsType BuiltinType.object.handle ∧ ∀ {a : Handle}, heap.IsType a →
    heap.isSubtype a BuiltinType.object.handle = some true
  linear : ∀ {a b c : Handle}, heap.IsType a → heap.isSubtype a b = some true →
    heap.isSubtype a c = some true → heap.isSubtype b c = some true ∨ heap.isSubtype c b = some true

namespace Lineage

theorem isSubtype_eq (hl : heap.Lineage a links) (b : Handle) :
    heap.isSubtype a b = some (links.contains b) := by
  rw [isSubtype, hl.chain_eq]
  rfl

/-- The supertypes of a type are the links of its lineage. -/
theorem isSubtype_iff (hl : heap.Lineage a links) : heap.isSubtype a b = some true ↔ b ∈ links := by
  rw [hl.isSubtype_eq, Option.some_inj, List.contains_iff_mem]

theorem suffix_of_mem {rest : List Handle} (hl : heap.Lineage a links) (hb : b ∈ links)
    (hrest : heap.Lineage b rest) : rest <:+ links := by
  obtain ⟨rest', hrest', hsuffix⟩ := hl.of_mem hb
  rw [hrest.unique hrest']
  exact hsuffix

/-- Two types of one lineage are above one another, one way or the other: of two suffixes the
shorter one is a suffix of the longer one. -/
theorem mem_or_mem {above above' : List Handle} (hl : heap.Lineage a links) (hb : b ∈ links)
    (hc : c ∈ links) (hlb : heap.Lineage b above) (hlc : heap.Lineage c above') :
    c ∈ above ∨ b ∈ above' := by
  obtain ⟨rest, rfl⟩ := hlb.eq_cons
  obtain ⟨rest', rfl⟩ := hlc.eq_cons
  rcases List.suffix_or_suffix_of_suffix (hl.suffix_of_mem hb hlb)
    (hl.suffix_of_mem hc hlc) with hsub | hsub
  · exact Or.inr (hsub.subset List.mem_cons_self)
  · exact Or.inl (hsub.subset List.mem_cons_self)

end Lineage

/-- **An orderly heap is ordered as a forest.** -/
theorem Orderly.forestOrder (ho : heap.Orderly bound) : heap.ForestOrder where
  decided := by
    intro a ha b
    obtain ⟨links, hl, _⟩ := ho.lineage ha
    exact ⟨_, hl.isSubtype_eq b⟩
  upward := by
    intro a b ha hab
    obtain ⟨links, hl, _⟩ := ho.lineage ha
    exact hl.isType_of_mem (hl.isSubtype_iff.mp hab)
  refl := by
    intro a ha
    obtain ⟨links, hl, _⟩ := ho.lineage ha
    obtain ⟨rest, rfl⟩ := hl.eq_cons
    exact hl.isSubtype_iff.mpr List.mem_cons_self
  trans := by
    intro a b c ha hab hbc
    obtain ⟨links, hl, _⟩ := ho.lineage ha
    have hb := hl.isSubtype_iff.mp hab
    obtain ⟨rest, hrest, hsuffix⟩ := hl.of_mem hb
    exact hl.isSubtype_iff.mpr (hsuffix.subset (hrest.isSubtype_iff.mp hbc))
  antisymm := by
    intro a b ha hab hba
    obtain ⟨links, hl, _⟩ := ho.lineage ha
    obtain ⟨rest, hrest, hsuffix⟩ := hl.of_mem (hl.isSubtype_iff.mp hab)
    -- each lineage is a suffix of the other one, so they are the same, and a lineage begins with
    -- its type
    have hsuffix' : links <:+ rest := hrest.suffix_of_mem (hrest.isSubtype_iff.mp hba) hl
    have heq : rest = links := hsuffix.eq_of_length_le hsuffix'.length_le
    obtain ⟨_, rfl⟩ := hl.eq_cons
    obtain ⟨_, hcons⟩ := hrest.eq_cons
    exact (List.cons.inj (heq.symm.trans hcons)).1
  greatest := by
    refine ⟨ho.isType_builtin .object, fun {a} ha => ?_⟩
    obtain ⟨links, hl, _⟩ := ho.lineage ha
    exact hl.isSubtype_iff.mpr (List.mem_of_getLast? (ho.getLast?_eq hl))
  linear := by
    intro a b c ha hab hac
    obtain ⟨links, hl, _⟩ := ho.lineage ha
    have hb := hl.isSubtype_iff.mp hab
    have hc := hl.isSubtype_iff.mp hac
    obtain ⟨above, hlb, _⟩ := hl.of_mem hb
    obtain ⟨above', hlc, _⟩ := hl.of_mem hc
    rw [hlb.isSubtype_iff, hlc.isSubtype_iff]
    exact hl.mem_or_mem hb hc hlb hlc

/-- What a kind of exception derives from. -/
theorem Orderly.lineage_kind (ho : heap.Orderly bound) (kind : ExceptionKind) :
    ∃ links, heap.Lineage kind.type links ∧
      ∀ type, type ∈ links ↔ type = kind.type ∨ type = ExceptionKind.exception.type ∨
        type = BuiltinType.object.handle := by
  obtain ⟨o, hget, hp⟩ := ho.builtin (.exception .exception)
  have hroot : heap.Lineage ExceptionKind.exception.type
      [ExceptionKind.exception.type, BuiltinType.object.handle] :=
    .derived hget hp ho.lineage_object
  by_cases hk : kind = .exception
  · subst hk
    exact ⟨_, hroot, fun type => by simp⟩
  · obtain ⟨o', hget', hp'⟩ := ho.builtin (.exception kind)
    have hbase : (BuiltinType.exception kind).base? = some (.exception .exception) := by
      cases kind with
      | exception => exact absurd rfl hk
      | _ => rfl
    rw [hbase] at hp'
    exact ⟨_, .derived hget' hp' hroot, fun type => by simp⟩

/-- There is an answer about every object whose type is there. -/
theorem Orderly.isInstance_decided (ho : heap.Orderly bound) (hget : heap.get? h = some o)
    (htype : heap.contains o.type = true) (type : Handle) :
    ∃ answer, heap.isInstance h type = some answer := by
  obtain ⟨links, hchain⟩ := ho.exists_chain htype
  exact ⟨_, by rw [isInstance_eq hget, hchain]; rfl⟩

end Heap

/-! ## 2. What a type keeps -/

namespace State

variable {s t : State} {x type : Handle} {o : Object} {links : List Handle}

theorem Step.lineage (h : s.Step t) (hw : s.heap.WellFormed) (hl : s.heap.Lineage x links)
    (hlive : t.heap.contains x = true) : t.heap.Lineage x links := by
  rcases h.heap_stages with halike | ⟨object, he⟩ | ⟨extra, he⟩
  · exact hl.alike halike
  · rw [he]
    exact hl.allocate hw object
  · rw [he] at hlive ⊢
    exact hl.collect hlive

/-- **A type keeps its lineage** for as long as it is there. -/
theorem Steps.lineage (h : s.Steps t) (hw : s.heap.WellFormed) (hl : s.heap.Lineage x links)
    (hlive : t.heap.contains x = true) : t.heap.Lineage x links := by
  induction h with
  | refl => exact hl
  | tail hsteps hstep ih =>
    have hbetween := Steps.live_between hsteps hstep.steps hw hl.isType.live hlive
    exact hstep.lineage (Steps.wellFormed hsteps hw) (ih hbetween) hlive

/-- An object that is there keeps its type there. -/
theorem Step.type_live (h : s.Step t) (hw : s.heap.WellFormed) (hget : s.heap.get? x = some o)
    (htype : s.heap.contains o.type = true) (hlive : t.heap.contains x = true) :
    t.heap.contains o.type = true := by
  obtain ⟨o', ho'⟩ := Heap.contains_iff.mp htype
  rcases h.heap_stages with halike | ⟨object, he⟩ | ⟨extra, he⟩
  · obtain ⟨o₁, ho₁, _⟩ := halike.kept ho'
    exact Heap.contains_of_get? ho₁
  · rw [he]
    exact Heap.contains_of_get? (Heap.get?_allocate_of_live hw ho')
  · rw [he] at hlive ⊢
    exact (Heap.contains_collect _ _ _).mpr
      ⟨htype, .step ((Heap.contains_collect _ _ _).mp hlive).2 hget .type⟩

theorem Steps.type_live (h : s.Steps t) (hw : s.heap.WellFormed) (hget : s.heap.get? x = some o)
    (htype : s.heap.contains o.type = true) (hlive : t.heap.contains x = true) :
    t.heap.contains o.type = true := by
  induction h with
  | refl => exact htype
  | tail hsteps hstep ih =>
    have hbetween := Steps.live_between hsteps hstep.steps hw (Heap.contains_of_get? hget) hlive
    obtain ⟨o', ho'⟩ := Heap.contains_iff.mp hbetween
    have hstage := Steps.alike hsteps hw hget ho'
    have hkept := hstep.type_live (Steps.wellFormed hsteps hw) ho'
    rw [hstage.type_eq] at hkept
    exact hkept (ih hbetween) hlive

/-- What is there keeps its chain: a type its lineage, and any other object is a chain of its
own. -/
theorem Steps.chain (h : s.Steps t) (hs : s.Orderly) (hlive : s.heap.contains x = true)
    (hlive' : t.heap.contains x = true) : t.heap.chain x = s.heap.chain x := by
  obtain ⟨o, hget⟩ := Heap.contains_iff.mp hlive
  obtain ⟨o', hget'⟩ := Heap.contains_iff.mp hlive'
  cases ht : o.isType with
  | true =>
    obtain ⟨links, hl, _⟩ := hs.heap.lineage ⟨o, hget, ht⟩
    rw [hl.chain_eq, (h.lineage hs.regular.heap hl hlive').chain_eq]
  | false =>
    have hbase := Heap.base_of_not_type ht
    have hbase' := (h.alike hs.regular.heap hget hget').base_eq.trans hbase
    rw [Heap.chain_of_base_none hget hbase, Heap.chain_of_base_none hget' hbase']

/-- **An object keeps what it is an instance of.** -/
theorem Steps.isInstance {answer : Bool} (h : s.Steps t) (hs : s.Orderly)
    (hlive : t.heap.contains x = true) (ha : s.heap.isInstance x type = some answer) :
    t.heap.isInstance x type = some answer := by
  obtain ⟨o', hget'⟩ := Heap.contains_iff.mp hlive
  cases hget : s.heap.get? x with
  | none =>
    rw [Heap.isInstance, Heap.typeOf, hget] at ha
    cases ha
  | some o =>
    cases htype : s.heap.get? o.type with
    | none =>
      rw [Heap.isInstance_eq hget, Heap.chain_of_stale (Heap.contains_of_get? hget) htype] at ha
      cases ha
    | some ty =>
      have hthere := Heap.contains_of_get? htype
      have hkept := h.type_live hs.regular.heap hget hthere hlive
      rw [Heap.isInstance_eq hget']
      rw [Heap.isInstance_eq hget] at ha
      rw [(h.alike hs.regular.heap hget hget').type_eq, h.chain hs hthere hkept]
      exact ha

end State

/-! ## 3. What is asked about faults -/

section

variable {s t : State} {fault : Fault} {type : Handle} {answer : Bool} {n : Nat}

/-- A fault matches what its exception is an instance of; one that carries no exception matches
nothing. -/
theorem exec_isException_iff : (isException fault type).exec n s = .done (.ok answer) s ↔
    (∃ exception, fault.exception = some exception ∧ s.heap.isInstance exception type = some answer)
      ∨ fault.exception = none ∧ answer = false := by
  unfold isException
  cases hf : fault.exception with
  | none =>
    constructor
    · intro h
      cases h
      exact Or.inr ⟨rfl, rfl⟩
    · rintro (⟨_, h, _⟩ | ⟨_, rfl⟩)
      · cases h
      · rfl
  | some exception =>
    constructor
    · intro h
      cases hi : s.heap.isInstance exception type with
      | none =>
        have hrun : (isInstance exception type).exec n s = .aborted .stale s :=
          Run.run_inspect_stale hi
        cases hrun.symm.trans h
      | some b =>
        have hrun : (isInstance exception type).exec n s = .done (.ok b) s := Run.run_inspect hi
        cases hrun.symm.trans h
        exact Or.inl ⟨exception, rfl, hi⟩
    · rintro (⟨_, h, hi⟩ | ⟨h, _⟩)
      · cases h
        exact Run.run_inspect hi
      · cases h

end

/-! ## 4. The order is stable -/

namespace State

variable {s t : State}

/-- **Subtyping is a forest order, and nothing that is run changes it.** A type that is there later
is a subtype of the same types; an object that is there later is an instance of them, and a fault
matches them. In a careful session there is an answer about every object. -/
theorem subtyping_stable (hs : s.Reachable) (hst : s.Onward t) :
    s.heap.ForestOrder ∧
    (∀ a b, s.heap.IsType a → t.heap.contains a = true →
      t.heap.IsType a ∧ t.heap.isSubtype a b = s.heap.isSubtype a b) ∧
    (∀ x type answer, t.heap.contains x = true → s.heap.isInstance x type = some answer →
      t.heap.isInstance x type = some answer) ∧
    (∀ fault type answer n m, (∀ x, fault.exception = some x → t.heap.contains x = true) →
      (isException fault type).exec n s = .done (.ok answer) s →
        (isException fault type).exec m t = .done (.ok answer) t) ∧
    (s.ReachableBy Entry.Careful → ∀ x type, s.heap.contains x = true →
      ∃ answer, s.heap.isInstance x type = some answer) := by
  have ho := hs.orderly
  have hinstance : ∀ x type answer, t.heap.contains x = true →
      s.heap.isInstance x type = some answer → t.heap.isInstance x type = some answer :=
    fun _ _ _ hlive ha => hst.steps.isInstance ho hlive ha
  refine ⟨ho.heap.forestOrder, fun a b ha hlive => ?_, hinstance,
    fun fault type answer n m hlive hmatch => ?_, fun hcareful x type hlive => ?_⟩
  · obtain ⟨links, hl, _⟩ := ho.heap.lineage ha
    have hl' := hst.steps.lineage ho.regular.heap hl hlive
    exact ⟨hl'.isType, by rw [hl.isSubtype_eq, hl'.isSubtype_eq]⟩
  · rw [exec_isException_iff] at hmatch ⊢
    rcases hmatch with ⟨x, hx, ha⟩ | hnone
    · exact Or.inl ⟨x, hx, hinstance x type answer (hlive x hx) ha⟩
    · exact Or.inr hnone
  · obtain ⟨o, hget⟩ := Heap.contains_iff.mp hlive
    exact ho.heap.isInstance_decided hget (hcareful.intact.sound.stored hget .type) type

/-- `StopIteration` is still an exception when it has lost its name. -/
theorem subtyping_stable_renamed :
    ∃ s t : State, s.Reachable ∧ s.Onward t ∧
      t.heap.ownAttribute ExceptionKind.stopIteration.type "__name__" = some (some .none) ∧
      t.heap.isSubtype ExceptionKind.stopIteration.type ExceptionKind.exception.type = some true ∧
      t.heap.isSubtype ExceptionKind.stopIteration.type ExceptionKind.keyError.type
        = some false := by
  have hs : (State.initial .standard (.ofLines [])).Reachable := .between .start
  obtain ⟨o, hget, hp⟩ : ∃ o,
      (State.initial .standard (.ofLines [])).heap.get? ExceptionKind.stopIteration.type = some o ∧
      o.payload = .type "StopIteration" (some ExceptionKind.exception.type) :=
    hs.orderly.heap.builtin (.exception .stopIteration)
  have hcoherent : o.attributes.Coherent := by
    rw [heap_initial] at hget
    exact (Bootstrap.tidy_furnished_heap 0).2.coherent hget
  have hst := onward_setAttribute hget "__name__" .none
  have hget' := get?_setAttribute_self hget "__name__" .none
  obtain ⟨_, hsub, _⟩ := subtyping_stable hs hst
  have hsame :=
    fun b => (hsub _ b ⟨o, hget, by rw [Object.isType, hp]⟩ (Heap.contains_of_get? hget')).2
  obtain ⟨links, hl, hlinks⟩ := hs.orderly.heap.lineage_kind .stopIteration
  refine ⟨_, _, hs, hst, ?_, ?_, ?_⟩
  · rw [Heap.ownAttribute, hget']
    exact congrArg some ((hcoherent.get?_insert ..).trans (if_pos rfl))
  · rw [hsame, hl.isSubtype_iff, hlinks]
    exact Or.inr (Or.inl rfl)
  · rw [hsame, hl.isSubtype_eq, List.contains_eq_mem,
      decide_eq_false (mt (hlinks _).mp (by decide))]

end State

end ObjectModel
