import ObjectModel.Proofs.Renaming.Similar

/-!
# Reading similar heaps

What is read off two similar heaps at related handles is the same, up to related handles.

* `Heap.Similar.view`, `Heap.Similar.report` -- **a host sees the same**.
-/

namespace ObjectModel

open List (Forall₂)

/-! ## 1. Faults -/

/-- The same fault up to the exception that it carries. -/
inductive Fault.Matches (R : Handle → Handle → Prop) : Fault → Fault → Prop where
  | raised {e e' : Handle} (text : String) : R e e' → Matches R (.raised e text) (.raised e' text)
  | intrinsic (cause : Intrinsic) : Matches R (.intrinsic cause) (.intrinsic cause)
  | callDepthExceeded (limit : Nat) :
      Matches R (.callDepthExceeded limit) (.callDepthExceeded limit)
  | baseChainTooDeep (name : String) (limit : Nat) :
      Matches R (.baseChainTooDeep name limit) (.baseChainTooDeep name limit)
  | console (cause : ConsoleError) : Matches R (.console cause) (.console cause)

theorem Fault.Matches.mono {R S : Handle → Handle → Prop} (h : ∀ a b, R a b → S a b) {f f' : Fault}
    (hf : f.Matches R f') : f.Matches S f' := by
  cases hf with
  | raised text hr => exact .raised text (h _ _ hr)
  | intrinsic cause => exact .intrinsic cause
  | callDepthExceeded limit => exact .callDepthExceeded limit
  | baseChainTooDeep name limit => exact .baseChainTooDeep name limit
  | console cause => exact .console cause

theorem Fault.Matches.exception {R : Handle → Handle → Prop} {f f' : Fault} (hf : f.Matches R f') :
    Option.Rel R f.exception f'.exception := by
  cases hf with
  | raised _ hr => exact .some hr
  | _ => exact .none

namespace Heap

/-! ## 2. Members -/

variable {M : Mode} {ρ : Renaming} {heap heap' : Heap} {a b h h' t t' : Handle}
  {links links' : List Handle}

namespace Similar

variable (hs : heap.Similar M ρ heap')

include hs

theorem typeOf (hh : ρ h h') : Option.Rel ρ (heap.typeOf h) (heap'.typeOf h') :=
  rel_bind (hs.get? hh) fun _ _ hm => .some hm.type

/-- The lineage of a type is followed by that of its counterpart. -/
theorem lineage (hl : heap.Lineage h links) (hh : ρ h h') :
    ∃ links', heap'.Lineage h' links' ∧ Forall₂ ρ links links' := by
  induction hl generalizing h' with
  | root ho hp =>
    obtain ⟨o', ho', hm⟩ := hs.get?_left hh ho
    have hpayload := hm.payload
    rw [hp] at hpayload
    generalize hq : o'.payload = q at hpayload
    cases hpayload with
    | type name hb =>
      cases hb
      exact ⟨_, .root ho' hq, .cons hh .nil⟩
  | derived ho hp _ ih =>
    obtain ⟨o', ho', hm⟩ := hs.get?_left hh ho
    have hpayload := hm.payload
    rw [hp] at hpayload
    generalize hq : o'.payload = q at hpayload
    cases hpayload with
    | type name hb =>
      cases hb with
      | some hbase =>
        obtain ⟨links', hl', hall⟩ := ih hbase
        exact ⟨_, .derived ho' hq hl', .cons hh hall⟩

/-- **Chains are followed link by link**, however many slots the two heaps have. -/
theorem chain (hh : ρ h h') : Option.Rel (Forall₂ ρ) (heap.chain h) (heap'.chain h') := by
  cases ho : heap.get? h with
  | none =>
    have hroot := hs.root.live
    rw [chain_of_stale hroot ho, chain_of_stale (hs.contains_eq (ρ.fixed (.type .object)) ▸ hroot)
      ((hs.get?_none_iff hh).mp ho)]
    exact .none
  | some o =>
    cases ht : o.isType with
    | true =>
      obtain ⟨links, hl⟩ := hs.grounded h ⟨o, ho, ht⟩
      obtain ⟨links', hl', hall⟩ := hs.lineage hl hh
      rw [hl.chain_eq, hl'.chain_eq]
      exact .some hall
    | false =>
      have hbase : o.base = none := base_of_not_type ht
      obtain ⟨o', ho', hm⟩ := hs.get?_left hh ho
      have hbase' : o'.base = none := by
        have hb := hm.base
        rw [hbase] at hb
        generalize o'.base = x at hb ⊢
        cases hb
        rfl
      rw [chain_of_base_none ho hbase, chain_of_base_none ho' hbase']
      exact .some (.cons hh .nil)

theorem ownAttribute (hh : ρ h h') (name : String) :
    Option.Rel (Option.Rel ρ) (heap.ownAttribute h name) (heap'.ownAttribute h' name) :=
  rel_bind (hs.get? hh) fun _ _ hm => .some (hm.attributes.get? name)

theorem firstDefined (hl : Forall₂ ρ links links') (name : String) :
    Option.Rel ρ (heap.firstDefined links name) (heap'.firstDefined links' name) := by
  unfold Heap.firstDefined
  induction hl with
  | nil => exact .none
  | @cons k k' rest rest' hk _ ih =>
    have hown : Option.Rel ρ ((heap.get? k).bind fun o => o.attributes.get? name)
        ((heap'.get? k').bind fun o => o.attributes.get? name) :=
      rel_bind (hs.get? hk) fun _ _ hm => hm.attributes.get? name
    rw [List.findSome?_cons, List.findSome?_cons]
    generalize (heap.get? k).bind (fun o => o.attributes.get? name) = x at hown ⊢
    generalize (heap'.get? k').bind (fun o => o.attributes.get? name) = y at hown ⊢
    cases hown with
    | none => exact ih
    | some hv => exact .some hv

/-- **Members are found alike.** -/
theorem lookup (hh : ρ h h') (name : String) :
    Option.Rel (Option.Rel ρ) (heap.lookup h name) (heap'.lookup h' name) :=
  rel_bind (hs.chain hh) fun _ _ hl => .some (hs.firstDefined hl name)

theorem hook (hh : ρ h h') (name : String) :
    Option.Rel (Option.Rel ρ) (heap.hook h name) (heap'.hook h' name) :=
  rel_bind (hs.typeOf hh) fun _ _ ht => hs.lookup ht name

omit hs in
theorem contains_iff_of_all (hl : Forall₂ ρ links links') (hh : ρ h h') :
    links.contains h = links'.contains h' := by
  rw [Bool.eq_iff_iff, List.contains_iff_mem, List.contains_iff_mem]
  exact List.rel_mem ρ.unique hh hl

theorem isSubtype (hh : ρ h h') (ht : ρ t t') : heap.isSubtype h t = heap'.isSubtype h' t' :=
  rel_eq_iff.mp (rel_bind (hs.chain hh) fun _ _ hl => .some (contains_iff_of_all hl ht))

theorem isInstance (hh : ρ h h') (ht : ρ t t') : heap.isInstance h t = heap'.isInstance h' t' :=
  rel_eq_iff.mp (rel_bind (hs.typeOf hh) fun _ _ hown => rel_eq_iff.mpr (hs.isSubtype hown ht))

/-! ## 3. Names -/

/-- Walks that go on and end alike give the same. -/
theorem walkFrom {β : Type} {next : Object → Option Handle} {found : Object → β} {gone tired : β}
    (hnext : ∀ o o', o.Matches ρ (M.Loose ρ) o' → Option.Rel ρ (next o) (next o') ∧
      found o = found o') (hend : ∀ o, o.isType = true → next o = none) (hh : ρ h h') :
    heap.walkFrom next found gone tired heap.slots.size h
      = heap'.walkFrom next found gone tired heap'.slots.size h' := by
  -- step by step, and then both with as many steps as the larger heap has slots
  have hstep : ∀ (fuel : Nat) (h h' : Handle), ρ h h' → heap.walkFrom next found gone tired fuel h
      = heap'.walkFrom next found gone tired fuel h' := by
    intro fuel
    induction fuel with
    | zero => exact fun _ _ _ => rfl
    | succ fuel ih =>
      intro h h' hh
      have hg := hs.get? hh
      simp only [Heap.walkFrom]
      generalize heap.get? h = x at hg ⊢
      generalize heap'.get? h' = y at hg ⊢
      cases hg with
      | none => rfl
      | @some o o' hm =>
        obtain ⟨hn, hf⟩ := hnext o o' hm
        dsimp only
        generalize next o = x at hn ⊢
        generalize next o' = y at hn ⊢
        cases hn with
        | none => exact hf
        | some hk => exact ih _ _ hk
  obtain ⟨o, ho, ht⟩ := hs.root
  obtain ⟨o', ho', hm⟩ := hs.get?_left (ρ.fixed (.type .object)) ho
  have he : next o = none := hend o ht
  have he' : next o' = none := by
    have hn := (hnext o o' hm).1
    rw [he] at hn
    generalize next o' = y at hn ⊢
    cases hn
    rfl
  rw [← walkFrom_stable ho he (Nat.le_max_left _ heap'.slots.size),
    ← walkFrom_stable ho' he' (Nat.le_max_right heap.slots.size _)]
  exact hstep _ h h' hh

/-- **A type has the same name on both sides.** -/
theorem typeName (hh : ρ h h') : heap.typeName h = heap'.typeName h' := by
  unfold Heap.typeName
  rw [typeNameFrom_eq_walkFrom, typeNameFrom_eq_walkFrom]
  refine hs.walkFrom (fun o o' hm => ?_) (fun o ht => ?_) hh
  · refine hm.elim fun hp ht _ => ?_
    cases hp with
    | type name _ => exact ⟨.none, rfl⟩
    | _ => exact ⟨.some ht, rfl⟩
  · rw [towardsType_eq, ht]
    rfl

theorem className (hh : ρ h h') : heap.className h = heap'.className h' :=
  rel_eq_iff.mp (rel_bind (hs.typeOf hh) fun _ _ ht => rel_eq_iff.mpr (hs.typeName ht))

/-- The function behind a bound method. -/
def towardsFunction (o : Object) : Option Handle :=
  match o.payload with
  | .bound _ function => some function
  | _ => none

def ownFunctionName (o : Object) : Option (Option String) :=
  match o.payload with
  | .function name _ => some (some name)
  | _ => some none

omit hs in
theorem functionNameFrom_eq (heap : Heap) (fuel : Nat) (h : Handle) :
    heap.functionNameFrom fuel h = heap.walkFrom towardsFunction ownFunctionName none
      (some none) fuel h := by
  induction fuel generalizing h with
  | zero => rfl
  | succ fuel ih =>
    simp only [functionNameFrom, Heap.walkFrom]
    cases heap.get? h with
    | none => rfl
    | some o =>
      simp only [Option.bind_eq_bind, Option.bind_some, towardsFunction, ownFunctionName]
      cases o.payload with
      | bound receiver function => exact ih _
      | _ => rfl

theorem functionName (hh : ρ h h') : heap.functionName h = heap'.functionName h' := by
  unfold Heap.functionName
  rw [functionNameFrom_eq, functionNameFrom_eq]
  refine hs.walkFrom (fun o o' hm => ?_) (fun o ht => ?_) hh
  · refine hm.elim fun hp _ _ => ?_
    cases hp with
    | bound _ hf => exact ⟨.some hf, rfl⟩
    | _ => exact ⟨.none, rfl⟩
  · unfold Object.isType at ht
    unfold towardsFunction
    generalize o.payload = p at ht ⊢
    cases p with
    | type name base => rfl
    | _ => cases ht

theorem isCallable (hh : ρ h h') : heap.isCallable h = heap'.isCallable h' := by
  refine rel_eq_iff.mp (rel_bind (hs.get? hh) fun o o' hm => rel_eq_iff.mpr ?_)
  have hcall : (do return (← heap.lookup o.type "__call__").isSome)
      = (do return (← heap'.lookup o'.type "__call__").isSome) := by
    refine rel_eq_iff.mp (rel_bind (hs.lookup hm.type "__call__") fun x y hxy => ?_)
    cases hxy with
    | none => exact .some rfl
    | some _ => exact .some rfl
  have hp := hm.payload
  generalize o.payload = p at hp ⊢
  generalize o'.payload = p' at hp ⊢
  cases hp with
  | function _ _ => rfl
  | bound _ _ => rfl
  | _ => exact hcall

/-! ## 4. Containers and exceptions -/

variable {items items' : List Handle}

theorem tupleAttribute (hh : ρ h h') (name : String) :
    Option.Rel (Option.Rel (Forall₂ ρ)) (heap.tupleAttribute h name)
      (heap'.tupleAttribute h' name) := by
  refine rel_bind (hs.ownAttribute hh name) fun x y hxy => ?_
  cases hxy with
  | none => exact .some .none
  | some hc => exact rel_bind (hs.get? hc) fun _ _ hm => .some hm.tupleItems

theorem listItems (hh : ρ h h') :
    Option.Rel (Option.Rel (Forall₂ ρ)) (heap.listItems h) (heap'.listItems h') := by
  unfold Heap.listItems
  rw [hs.isInstance hh (ρ.fixed (.type .list))]
  cases heap'.isInstance h' BuiltinType.list.handle with
  | none => exact .none
  | some b =>
    cases b with
    | false => exact .some .none
    | true => exact hs.tupleAttribute hh listCell

theorem exceptionArgs (hh : ρ h h') :
    Option.Rel (Forall₂ ρ) (heap.exceptionArgs h) (heap'.exceptionArgs h') :=
  rel_bind (hs.tupleAttribute hh "args") fun _ _ hxy => .some (rel_getD hxy .nil)

/-! ## 5. Plain rendering -/

theorem plainRepr (hh : ρ h h') : heap.plainRepr h = heap'.plainRepr h' := by
  refine rel_eq_iff.mp (rel_bind (hs.get? hh) fun o o' hm => rel_eq_iff.mpr ?_)
  rw [hs.typeName hh]
  refine hm.elim fun hp _ _ => ?_
  cases hp with
  | bool b => cases b <;> rfl
  | _ => rfl

omit hs in
/-- Items that are read alike one by one. -/
theorem mapM_eq {β : Type} {inner inner' : Handle → Option β}
    (hinner : ∀ a b, ρ a b → inner a = inner' b) (hi : Forall₂ ρ items items') :
    items.mapM inner = items'.mapM inner' := by
  have hall := rel_mapM hi fun a b hab => rel_eq_iff.mpr (hinner a b hab)
  exact rel_eq_iff.mp (rel_mono (fun _ _ hl => forall₂_eq hl fun _ _ he => he) hall)

theorem plainMessage (hi : Forall₂ ρ items items') :
    heap.plainMessage items = heap'.plainMessage items' := by
  have hall := mapM_eq (fun _ _ hab => hs.plainRepr hab) hi
  cases hi with
  | nil => rfl
  | cons hfirst hrest =>
    cases hrest with
    | nil =>
      refine rel_eq_iff.mp (rel_bind (hs.get? hfirst) fun o o' hm => rel_eq_iff.mpr ?_)
      rw [hs.plainRepr hfirst]
      exact hm.elim fun hp _ _ => by cases hp <;> rfl
    | cons hsecond hrest =>
      simp only [Heap.plainMessage]
      rw [hall]

/-! ## 6. What a host sees -/

open Script

/-- The description of an object by its type: a list, an exception, or any other. -/
def describe (heap : Heap) (inner : Handle → Option View) (h : Handle) : Option View := do
  match ← heap.listItems h with
  | some items =>
    let shown ← items.mapM inner
    return .list shown (← heap.className h)
  | none =>
    if ← heap.isInstance h ExceptionKind.exception.type then
      let args ← heap.exceptionArgs h
      let shown ← args.mapM inner
      return .exception (← heap.className h) shown
    else return .object (← heap.className h)

theorem describe_eq {inner inner' : Handle → Option View}
    (hinner : ∀ a b, ρ a b → inner a = inner' b) (hh : ρ h h') :
    describe heap inner h = describe heap' inner' h' := by
  have hexception : ρ ExceptionKind.exception.type ExceptionKind.exception.type :=
    ρ.fixed (.exceptionType .exception)
  unfold describe
  rw [hs.className hh, hs.isInstance hh hexception]
  refine rel_eq_iff.mp (rel_bind (hs.listItems hh) fun x y hxy => rel_eq_iff.mpr ?_)
  cases hxy with
  | some hi =>
    dsimp only
    rw [mapM_eq hinner hi]
  | none =>
    have hargs : (heap.exceptionArgs h >>= fun args => args.mapM inner)
        = (heap'.exceptionArgs h' >>= fun args => args.mapM inner') :=
      rel_eq_iff.mp (rel_bind (hs.exceptionArgs hh) fun _ _ hi =>
        rel_eq_iff.mpr (mapM_eq hinner hi))
    dsimp only
    simp only [← bind_assoc, hargs]

/-- **A host sees the same of related objects.** -/
theorem view (depth : Nat) (hh : ρ h h') :
    Script.view heap depth h = Script.view heap' depth h' := by
  induction depth generalizing h h' with
  | zero =>
    have hg := hs.get? hh
    unfold Script.view
    rw [hs.className hh]
    generalize heap.get? h = x at hg ⊢
    generalize heap'.get? h' = y at hg ⊢
    cases hg with
    | none => rfl
    | @some o o' hm =>
      exact hm.elim fun hp _ _ => by cases hp <;> rfl
  | succ depth ih =>
    have hg := hs.get? hh
    have hother := hs.describe_eq (fun _ _ hab => ih hab) hh
    unfold Script.view
    generalize heap.get? h = x at hg ⊢
    generalize heap'.get? h' = y at hg ⊢
    cases hg with
    | none => rfl
    | @some o o' hm =>
      refine hm.elim fun hp _ _ => ?_
      cases hp with
      | plain => exact hother
      | dict _ => exact hother
      | function _ _ => exact hother
      | tuple hi =>
        have hall := mapM_eq (fun _ _ hab => ih hab) hi
        exact congrArg (fun x : Option (List View) => x >>= fun views => some (View.tuple views))
          hall
      | bound hr hf =>
        have hr := ih hr
        have hf := ih hf
        exact congrArg₂
          (fun x y : Option View => x >>= fun v => y >>= fun w => some (View.bound v w)) hr hf
      | generator hg =>
        cases hg with
        | suspended _ => rfl
        | running => rfl
        | stopped hv =>
          cases hv with
          | none => rfl
          | some hv =>
            exact congrArg
              (fun x : Option View => x >>= fun v => some (View.stoppedGenerator (some v))) (ih hv)
      | _ => rfl

theorem shown (hh : ρ h h') : Script.shown heap h = Script.shown heap' h' := hs.view viewDepth hh

theorem faultView {fault fault' : Fault} (hf : fault.Matches ρ fault') :
    FaultView.ofFault heap fault = FaultView.ofFault heap' fault' := by
  cases hf with
  | raised text he =>
    unfold FaultView.ofFault
    dsimp only
    rw [hs.className he]
    have hargs : (heap.exceptionArgs _ >>= fun args => args.mapM fun arg => Script.shown heap arg)
        = (heap'.exceptionArgs _ >>= fun args => args.mapM fun arg => Script.shown heap' arg) :=
      rel_eq_iff.mp (rel_bind (hs.exceptionArgs he) fun _ _ hi =>
        rel_eq_iff.mpr (mapM_eq (fun _ _ hab => hs.shown hab) hi))
    simp only [← bind_assoc, hargs]
  | _ => rfl

end Similar

end Heap

end ObjectModel
