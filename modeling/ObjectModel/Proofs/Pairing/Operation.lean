import ObjectModel.Proofs.Pairing

/-!
# Operations in pairs

The operations that members are built from. They use handles only to look objects up, to pass them
on and to compare them.
-/

namespace ObjectModel

open List (Forall₂)
open HasHandles (handles)
open Run (Lockstep Composed Paired)
open Compared (rel)

variable {α β ι : Type} [HasHandles α] [HasHandles β] [HasHandles ι]
  [Compared α] [Compared β] [Compared ι] {M : Mode} {I : Prop}
  {ρ : Renaming} {h h' k k' v v' : Handle} {args args' items items' : List Handle}

/-! ## 1. Raising -/

theorem paired_plainMessage (ha : Forall₂ ρ args args') :
    Paired M I ρ (inspectHeap fun heap => heap.plainMessage args)
      (inspectHeap fun heap => heap.plainMessage args') :=
  paired_read fun _ _ hs => hs.plainMessage ha

@[grind ←] theorem paired_storeArgs (hh : ρ h h') (ha : Forall₂ ρ args args') :
    Paired M I ρ (storeArgs h args) (storeArgs h' args') :=
  (paired_newTuple ha).bind fun _ hσ _ _ ht => paired_setAttribute (hσ hh) _ ht

@[grind ←] theorem paired_storeStopValue (hh : ρ h h') (ha : Forall₂ ρ args args') :
    Paired M I ρ (storeStopValue h args) (storeStopValue h' args') :=
  paired_setAttribute hh _ (rel_getD (rel_head? ha) (ρ.fixed .none))

@[grind ←] theorem paired_raise (kind : ExceptionKind) (ha : Forall₂ ρ args args') :
    Paired M I ρ (raise kind args : Run α) (raise kind args') := by
  have hmade : Paired M I ρ (allocate (.bare kind.type)) (allocate (.bare kind.type)) :=
    paired_allocate ⟨.plain, ρ.exceptionType kind, .empty⟩ rfl fun _ hs =>
      .plain _ (hs.heap.isType_builtin (.exception kind)) .empty
  have hthrow : ∀ σ, ρ ≤ σ → ∀ e e', σ e e' → Paired M I σ
      (do
        let message ← inspectHeap fun heap => heap.plainMessage args
        throw (.raised e (rendered kind.name message)) : Run α)
      (do
        let message ← inspectHeap fun heap => heap.plainMessage args'
        throw (.raised e' (rendered kind.name message))) := by
    intro σ hσ e e' he
    refine (paired_plainMessage (Renaming.all hσ ha)).bind fun τ hτ message message' hm => ?_
    cases hm
    exact .throw (.raised _ (hτ he))
  unfold raise
  refine hmade.bind fun σ hσ e e' he => (paired_storeArgs he (Renaming.all hσ ha)).bind
    fun τ hτ _ _ _ => ?_
  split
  · refine (paired_storeStopValue (hτ he) (by grind)).bind fun υ hυ _ _ _ =>
      hthrow υ (by grind) e e' (hυ (hτ he))
  · exact hthrow τ (by grind) e e' (hτ he)

@[grind ←] theorem paired_raiseMessage (kind : ExceptionKind) (message : String) :
    Paired M I ρ (raiseMessage kind message : Run α) (raiseMessage kind message) :=
  (paired_newText message).bind fun _ _ _ _ ht => paired_raise kind (by grind)

/-- What would come after an exception is never run. -/
theorem paired_raiseMessage_bind {γ : Type} (kind : ExceptionKind) (message : String)
    (f g : γ → Run α) :
    Paired M I ρ (raiseMessage kind message >>= f) (raiseMessage kind message >>= g) := by
  rw [raiseMessage_bind, raiseMessage_bind]
  exact paired_raiseMessage kind message

section

variable (message : String)

@[grind ←] theorem paired_typeError :
    Paired M I ρ (typeError message : Run α) (typeError message) :=
  paired_raiseMessage _ message

@[grind ←] theorem paired_valueError :
    Paired M I ρ (valueError message : Run α) (valueError message) :=
  paired_raiseMessage _ message

@[grind ←] theorem paired_keyError : Paired M I ρ (keyError message : Run α) (keyError message) :=
  paired_raiseMessage _ message

@[grind ←] theorem paired_indexError :
    Paired M I ρ (indexError message : Run α) (indexError message) :=
  paired_raiseMessage _ message

@[grind ←] theorem paired_nameError :
    Paired M I ρ (nameError message : Run α) (nameError message) :=
  paired_raiseMessage _ message

@[grind ←] theorem paired_attributeError :
    Paired M I ρ (attributeError message : Run α) (attributeError message) :=
  paired_raiseMessage _ message

@[grind ←] theorem paired_notImplementedError :
    Paired M I ρ (notImplementedError message : Run α) (notImplementedError message) :=
  paired_raiseMessage _ message

end

@[grind ←] theorem paired_stopIteration {value value' : Option Handle} (hv : rel M ρ value value') :
    Paired M I ρ (stopIteration value : Run α) (stopIteration value') :=
  paired_raise _ (rel_toList hv)

@[grind ←] theorem paired_wrongArity (name : String) (least most : Nat)
    (ha : Forall₂ ρ args args') :
    Paired M I ρ (wrongArity name least most args : Run α) (wrongArity name least most args') := by
  unfold wrongArity
  rw [ha.length_eq]
  exact paired_raiseMessage _ _

section

variable {f : List Handle → Run Handle} {name : String}

/-- **One argument**: any other number of them is refused. -/
theorem paired_unary (hnone : f [] = wrongArity name 1 1 [])
    (hmore : ∀ a b rest, f (a :: b :: rest) = wrongArity name 1 1 (a :: b :: rest))
    (ha : Forall₂ ρ args args') (hone : ∀ {h h'}, ρ h h' → Paired M I ρ (f [h]) (f [h'])) :
    Paired M I ρ (f args) (f args') := by
  have hall := ha
  rcases ha with _ | ⟨h1, _ | ⟨_, _⟩⟩
  · exact hnone ▸ paired_wrongArity _ _ _ hall
  · exact hone h1
  · rw [hmore, hmore]
    exact paired_wrongArity _ _ _ hall

/-- **One argument or two.** -/
theorem paired_unaryOrBinary (hnone : f [] = wrongArity name 1 2 [])
    (hmore : ∀ a b c rest, f (a :: b :: c :: rest) = wrongArity name 1 2 (a :: b :: c :: rest))
    (ha : Forall₂ ρ args args') (hone : ∀ {h h'}, ρ h h' → Paired M I ρ (f [h]) (f [h']))
    (htwo : ∀ {h h' k k'}, ρ h h' → ρ k k' → Paired M I ρ (f [h, k]) (f [h', k'])) :
    Paired M I ρ (f args) (f args') := by
  have hall := ha
  rcases ha with _ | ⟨h1, _ | ⟨h2, _ | ⟨_, _⟩⟩⟩
  · exact hnone ▸ paired_wrongArity _ _ _ hall
  · exact hone h1
  · exact htwo h1 h2
  · rw [hmore, hmore]
    exact paired_wrongArity _ _ _ hall

/-- **Two arguments.** -/
theorem paired_binary (hnone : f [] = wrongArity name 2 2 [])
    (hone : ∀ a, f [a] = wrongArity name 2 2 [a])
    (hmore : ∀ a b c rest, f (a :: b :: c :: rest) = wrongArity name 2 2 (a :: b :: c :: rest))
    (ha : Forall₂ ρ args args')
    (htwo : ∀ {h h' k k'}, ρ h h' → ρ k k' → Paired M I ρ (f [h, k]) (f [h', k'])) :
    Paired M I ρ (f args) (f args') := by
  have hall := ha
  rcases ha with _ | ⟨h1, _ | ⟨h2, _ | ⟨_, _⟩⟩⟩
  · exact hnone ▸ paired_wrongArity _ _ _ hall
  · rw [hone, hone]
    exact paired_wrongArity _ _ _ hall
  · exact htwo h1 h2
  · rw [hmore, hmore]
    exact paired_wrongArity _ _ _ hall

end

/-! ## 2. Attributes, types and instances -/

@[grind ←] theorem paired_findAttribute (hh : ρ h h') (name : String) :
    Paired M I ρ (findAttribute h name) (findAttribute h' name) := by
  refine (paired_lookupMember hh name).option (fun σ hσ => ?_) (by grind)
  refine (paired_findHook (hσ hh) name).option (by grind) fun τ hτ m m' hm =>
    (paired_object hm).bind fun υ hυ o o' ho => ?_
  have hfunction := ho.isFunction_eq
  grind

@[grind ←] theorem paired_getAttribute (hh : ρ h h') (name : String) :
    Paired M I ρ (getAttribute h name) (getAttribute h' name) :=
  (paired_findAttribute hh name).option (by grind) (by grind)

@[grind ←] theorem paired_getAttributeOr (hh : ρ h h') (name : String) (hk : ρ k k') :
    Paired M I ρ (getAttributeOr h name k) (getAttributeOr h' name k') :=
  (paired_findAttribute hh name).bind fun _ hσ _ _ hf => .pure (rel_getD hf (hσ hk))

@[grind ←] theorem paired_deleteAttribute (hh : ρ h h') (name : String) :
    Paired M I ρ (deleteAttribute h name) (deleteAttribute h' name) := by
  refine (paired_object hh).bind fun σ hσ o o' ho => ?_
  have hget := ho.attributes.get? name
  generalize o.attributes.get? name = x at hget ⊢
  generalize o'.attributes.get? name = y at hget ⊢
  cases hget <;> grind

section

variable {e : Engine} {s t : State}

/-- Looking at the state does not change it. -/
theorem inspect_ends {γ : Type} {look : State → Option γ} {a : γ}
    (hrun : (inspect look).run.run e s = .done (.ok a) t) : t = s ∧ look s = some a := by
  have hrun : (inspect look >>= Pure.pure).run.run e s = .done (.ok a) t := by
    rw [bind_pure]
    exact hrun
  cases hlook : look s with
  | none =>
    rw [Run.run_inspect_bind_stale hlook] at hrun
    cases hrun
  | some seen =>
    rw [Run.run_inspect_bind hlook] at hrun
    cases hrun
    exact ⟨rfl, rfl⟩

theorem isType_ends {b : Bool} (hrun : (isType h).run.run e s = .done (.ok b) t) :
    t = s ∧ (b = true → s.heap.IsType h) := by
  have hrun : (isType h >>= Pure.pure).run.run e s = .done (.ok b) t := by
    rw [bind_pure]
    exact hrun
  cases hget : s.heap.get? h with
  | none =>
    rw [Run.run_isType_bind_stale hget] at hrun
    cases hrun
  | some o =>
    rw [Run.run_isType_bind hget] at hrun
    cases hrun
    exact ⟨rfl, fun ht => ⟨o, hget, ht⟩⟩

end

section

variable {S : Setting} {base base' : Handle} {members members' : List (String × Handle)}

/-- The object of a new type: its base is a type already when the text of its name is made. -/
theorem lockstepAt_newType (name : String) {s s' : State} (hs : s.Similar S.toMode ρ s')
    (hb : ρ base base') (hm : Forall₂ (SameKey ρ) members members') (ht : s.heap.IsType base) :
    Run.LockstepAt S ρ s s'
      (do
        let nameText ← newText name
        allocate
          (.ofType name (some base) ((OrderedMap.ofList members).insert "__name__" nameText)))
      (do
        let nameText ← newText name
        allocate (.ofType name (some base')
          ((OrderedMap.ofList members').insert "__name__" nameText))) Renaming.rel := by
  refine Lockstep.bindAt ((paired_newText name).at_setting s s' hs)
    fun σ text text' t t' hl _ hσ hsim htext => ?_
  have hrun : (newText name).run.run S.engine s
      = .done (.ok (s.allocate (.ofText name)).1) (s.allocate (.ofText name)).2 := rfl
  rw [hrun] at hl
  cases hl
  have hmembers : Forall₂ (SameKey σ) members members' := hm.imp fun _ _ h => ⟨h.1, hσ h.2⟩
  have htype : SameObject S.toMode σ
      (.ofType name (some base) ((OrderedMap.ofList members).insert "__name__" _))
      (.ofType name (some base') ((OrderedMap.ofList members').insert "__name__" text')) :=
    ⟨.type name (.some (hσ hb)), σ.fixed (.type .type),
      (OrderedMap.Matches.ofList hmembers).insert _ htext⟩
  refine lockstepAt_allocate hsim htype fun b hbase => ?_
  cases hbase
  exact ht.allocate hs.heap.left _

theorem paired_defineType (name : String) {base base' : Option Handle}
    (hb : Option.Rel ρ base base') (hm : Forall₂ (SameKey ρ) members members') :
    Paired M I ρ (defineType name base members) (defineType name base' members') := by
  have hbase : ρ (base.getD BuiltinType.object.handle) (base'.getD BuiltinType.object.handle) :=
    rel_getD hb (ρ.type .object)
  unfold defineType
  generalize base.getD BuiltinType.object.handle = b at hbase ⊢
  generalize base'.getD BuiltinType.object.handle = b' at hbase ⊢
  have hrefused {γ : Type} {σ : Renaming} {J : Prop} (hσ : ρ ≤ σ) (f : String → String)
      (k k' : γ → Run Handle) : Paired M J σ (do
        let refused ← typeName b
        let made ← raiseMessage .typeError (f refused)
        k made)
      (do
        let refused ← typeName b'
        let made ← raiseMessage .typeError (f refused)
        k' made) := (paired_typeName (hσ hbase)).bind
          fun _ _ name name' hname => by cases hname; exact paired_raiseMessage_bind _ _ _ _
  constructor
  · rintro S rfl s s' hs
    refine Lockstep.bindAt ((paired_isType hbase).at_setting s s' hs)
      fun σ is is' t t' hl _ hσ ht his => ?_
    cases his
    obtain ⟨rfl, htype⟩ := isType_ends hl
    cases is with
    | false => exact (hrefused hσ _ _ _).at_setting t t' ht
    | true =>
      have hchain : Lockstep S σ (inspectHeap fun heap => heap.chain b)
          (inspectHeap fun heap => heap.chain b') Each :=
        lockstep_inspectHeap fun _ _ hh => hh.chain (hσ hbase)
      refine Lockstep.bindAt (hchain t t' ht) fun τ links links' u u' hl _ hτ hu hlinks => ?_
      cases (inspect_ends hl).1
      have hlimit : Lockstep S τ (inspect fun s => some s.limits.baseChain)
          (inspect fun s => some s.limits.baseChain) Same :=
        lockstep_inspect fun _ _ hs => .some (congrArg Limits.baseChain hs.limits)
      refine Lockstep.bindAt (hlimit t u' hu) fun υ limit limit' v v' hl _ hυ hv heq => ?_
      cases heq
      cases (inspect_ends hl).1
      rw [hlinks.length_eq]
      by_cases hdeep : limit ≤ links'.length
      · rw [if_pos hdeep, if_pos hdeep]
        exact Lockstep.throw (.baseChainTooDeep name limit) t v' hv
      · rw [if_neg hdeep, if_neg hdeep]
        have hle : ρ ≤ υ := Renaming.le_trans hσ (Renaming.le_trans hτ hυ)
        exact lockstepAt_newType name hv (hle hbase) (hm.imp fun _ _ h => ⟨h.1, hle h.2⟩)
          (htype rfl)
  · rintro rfl K rfl
    have hvalues := Renaming.all_known
        (List.forall₂_map_left_iff.mpr (List.forall₂_map_right_iff.mpr (hm.imp fun _ _ h => h.2)))
    exact .derived name hbase.2 (fun m hmem => hvalues _ (List.mem_map_of_mem hmem))
      (hrefused (fun _ _ h => h) _ _ fun _ => Pure.pure b).composed_known

end

@[grind ←] theorem paired_instantiate (hh : ρ h h') (ha : Forall₂ ρ args args') :
    Paired M I ρ (instantiate h args) (instantiate h' args') := by
  refine (paired_isType hh).bind fun σ hσ is is' his => ?_
  cases his
  split
  · exact (paired_typeName (hσ hh)).bind
      fun _ _ name name' hname => by cases hname; exact paired_raiseMessage_bind _ _ _ _
  · refine (paired_lookupMember (hσ hh) _).option (by grind) fun τ hτ new new' hnew => ?_
    refine (paired_call hnew (by grind)).bind fun υ hυ made made' hmade => ?_
    exact (paired_findHook hmade _).option (by grind) (by grind)

@[grind ←] theorem paired_globalValue (name : String) :
    Paired M I ρ (globalValue name) (globalValue name) := by
  have hlook : Paired M I ρ (inspect fun s => some (s.globals.get? name))
      (inspect fun s => some (s.globals.get? name)) :=
    ⟨fun _ _ => lockstep_inspect fun s s' hs => .some (hs.globals.get? name),
      fun _ _ _ => composed_lookGlobal name⟩
  exact hlook.option (by grind) (by grind)

@[grind ←] theorem paired_callGlobal (name : String) (ha : Forall₂ ρ args args') :
    Paired M I ρ (callGlobal name args) (callGlobal name args') := by
  unfold callGlobal
  grind

@[grind ←] theorem paired_callMethod (hh : ρ h h') (name : String) (ha : Forall₂ ρ args args') :
    Paired M I ρ (callMethod h name args) (callMethod h' name args') := by
  unfold callMethod
  grind

/-! ## 3. Operators and value protocols -/

@[grind ←] theorem paired_askHook (hh : ρ h h') (name : String) (ha : Forall₂ ρ args args') :
    Paired M I ρ (askHook h name args) (askHook h' name args') := by
  refine (paired_findHook hh name).option (by grind) fun σ hσ hook hook' hhook => ?_
  refine (paired_call hhook (by grind)).bind fun τ hτ a b hab => ?_
  have hdeclines := τ.eq_iff hab τ.notImplemented
  grind

@[grind ←] theorem paired_length (hh : ρ h h') : Paired M I ρ (length h) (length h') := by
  refine (paired_findHook hh _).option (by grind) fun σ hσ hook hook' hhook =>
    (paired_call hhook (by grind)).bind fun τ hτ a b hab => ?_
  exact (paired_intValue hab).option (by grind) (by grind)

@[grind ←] theorem paired_truthy (hh : ρ h h') : Paired M I ρ (truthy h) (truthy h') := by
  refine (paired_findHook hh _).option (fun σ hσ => ?_) fun _ _ hook hook' hhook =>
    (paired_call hhook (by grind)).bind fun τ hτ a b hab => ?_
  · exact (paired_findHook (hσ hh) _).option (by grind) (by grind)
  · exact (paired_boolValue hab).option (by grind) (by grind)

@[grind ←] theorem paired_logicalNot (hh : ρ h h') :
    Paired M I ρ (logicalNot h) (logicalNot h') := by
  unfold logicalNot
  grind

@[grind ←] theorem paired_getItem (hh : ρ h h') (hk : ρ k k') :
    Paired M I ρ (getItem h k) (getItem h' k') :=
  (paired_findHook hh _).option (by grind) (by grind)

@[grind ←] theorem paired_setItem (hh : ρ h h') (hk : ρ k k') (hv : ρ v v') :
    Paired M I ρ (setItem h k v) (setItem h' k' v') :=
  (paired_findHook hh _).option (by grind) (by grind)

@[grind ←] theorem paired_negate (hh : ρ h h') : Paired M I ρ (negate h) (negate h') :=
  (paired_askHook hh _ (by grind)).option (by grind) (by grind)

@[grind ←] theorem paired_renderWith (name : String) (hh : ρ h h') :
    Paired M I ρ (renderWith name h) (renderWith name h') := by
  refine (paired_findHook hh name).option (by grind) fun σ hσ hook hook' hhook =>
    (paired_call hhook (by grind)).bind fun τ hτ a b hab => ?_
  exact (paired_textValue hab).option (by grind) (by grind)

@[grind ←] theorem paired_repr (hh : ρ h h') : Paired M I ρ (repr h) (repr h') :=
  paired_renderWith _ hh

@[grind ←] theorem paired_toText (hh : ρ h h') : Paired M I ρ (toText h) (toText h') :=
  paired_renderWith _ hh

section

variable {left left' right right' : Handle} (hl : ρ left left') (hr : ρ right right')

include hl hr

@[grind ←] theorem paired_askHooks (hooks : HookPair) :
    Paired M I ρ (askHooks hooks left right) (askHooks hooks left' right') :=
  (paired_askHook hl _ (by grind)).option (by grind) (by grind)

@[grind ←] theorem paired_equalsOp : Paired M I ρ (equalsOp left right) (equalsOp left' right') :=
  (paired_askHooks hl hr _).option (fun σ hσ => .pure (σ.beq_eq (hσ hl) (hσ hr) ▸ σ.ofBool _))
    (by grind)

@[grind ←] theorem paired_valuesEqual :
    Paired M I ρ (valuesEqual left right) (valuesEqual left' right') := by
  unfold valuesEqual
  grind

theorem paired_fallback (op : BinaryOp) :
    Paired M I ρ (fallback op left right) (fallback op left' right') := by
  have hpart (index) : Paired M I ρ (divmodComponent op index left right)
      (divmodComponent op index left' right') :=
    (paired_askHooks hl hr _).option (fun _ _ => paired_typeError _) (by grind)
  cases op with
  | eq => exact .pure (ρ.beq_eq hl hr ▸ ρ.ofBool _)
  | ne => exact (paired_valuesEqual hl hr).bind (by grind)
  | floorDiv | mod => exact hpart _
  | _ => exact paired_typeError _

@[grind ←] theorem paired_binaryOp (op : BinaryOp) :
    Paired M I ρ (binaryOp op left right) (binaryOp op left' right') :=
  (paired_askHooks hl hr _).option (fun _ hσ => paired_fallback (hσ hl) (hσ hr) op) (by grind)

@[grind ←] theorem paired_divmod : Paired M I ρ (divmod left right) (divmod left' right') :=
  (paired_askHooks hl hr _).option (by grind) (by grind)

end

/-! ## 4. Iteration -/

@[grind ←] theorem paired_iter (hh : ρ h h') : Paired M I ρ (iter h) (iter h') :=
  (paired_findHook hh _).option (by grind) (by grind)

@[grind ←] theorem paired_next (hh : ρ h h') : Paired M I ρ (next h) (next h') :=
  (paired_findHook hh _).option (by grind) (by grind)

theorem lockstep_isException {S : Setting} {fault fault' : Fault} (hf : fault.Matches ρ fault')
    (hk : ρ k k') : Lockstep S ρ (isException fault k) (isException fault' k') Same := by
  unfold isException
  cases hf with
  | raised _ he => exact (paired_isInstance (I := True) he hk).at_setting
  | _ => exact .pure rfl

@[grind ←] theorem paired_nextItem (hi : I) (hh : ρ h h') :
    Paired M I ρ (nextItem h) (nextItem h') where
  lockstep S hS := by
    refine ((paired_next (I := True) hh).lockstep S hS).attempt.bind fun σ _ r r' hr => ?_
    cases hr with
    | ok hv => exact .pure (.some hv)
    | error he =>
      refine (lockstep_isException he (σ.exceptionType _)).bindSame fun τ hτ _ =>
        .ite Iff.rfl (fun _ => .pure .none) fun _ => ?_
      exact .throw (he.mono fun _ _ hab => hτ hab)
  composed hM K hρ := .nextItem hi ((paired_next hh).composed hM K hρ)

@[grind ←] theorem paired_nextOr (hi : I) (hh : ρ h h') (hk : ρ k k') :
    Paired M I ρ (nextOr h k) (nextOr h' k') :=
  (paired_nextItem hi hh).bind fun _ hσ _ _ hitem => .pure (rel_getD hitem (hσ hk))

section

variable (hi : I) (hh : ρ h h')

include hi hh

/-- **Folding over related iterables.** -/
theorem paired_forEach {start start' : ι} {body body' : ι → Handle → Run ι}
    (hstart : rel M ρ start start') (hbody : ∀ σ, ρ ≤ σ → ∀ acc acc' item item', rel M σ acc acc' →
      σ item item' → Paired M I σ (body acc item) (body' acc' item')) :
    Paired M I ρ (forEach h start body) (forEach h' start' body') := by
  refine (paired_iter hh).bind fun σ hσ iterator iterator' hiter =>
    .loop (by grind) fun τ hτ acc acc' hacc => ?_
  refine (paired_nextItem hi (hτ hiter)).option (by grind) fun υ hυ item item' hitem => ?_
  exact (hbody υ (by grind) acc acc' item item' (by grind) hitem).bind (by grind)

@[grind ←] theorem paired_collect : Paired M I ρ (collect h) (collect h') := by
  refine (paired_forEach (ι := Array Handle) hi hh List.Forall₂.nil
    fun σ _ acc acc' item item' hacc hitem => .pure ?_).bind fun _ _ _ _ h => .pure h
  show Forall₂ σ (acc.push item).toList (acc'.push item').toList
  rw [Array.toList_push, Array.toList_push]
  exact List.rel_append hacc (.cons hitem .nil)

@[grind ←] theorem paired_searchTruth (wanted : Bool) :
    Paired M I ρ (searchTruth wanted h) (searchTruth wanted h') := by
  refine (paired_iter hh).bind fun σ _ iterator iterator' hiter => .loop rfl fun τ hτ _ _ _ => ?_
  exact (paired_nextItem hi (hτ hiter)).option (by grind) (by grind)

end

/-! ## 5. Builtin functions -/

@[grind ←] theorem paired_textItems (ha : Forall₂ ρ args args') :
    Paired M I ρ (textItems args) (textItems args') := by
  induction args generalizing ρ args' with
  | nil =>
    cases ha
    exact .pure rfl
  | cons h rest ih =>
    obtain _ | ⟨hh, hrest⟩ := ha
    exact (paired_toText hh).bind (by grind)

@[grind ←] theorem paired_promptedLine {prompt prompt' : Option Handle}
    (hp : rel M ρ prompt prompt') : Paired M I ρ (promptedLine prompt) (promptedLine prompt') := by
  have hread : ∀ σ, Paired M I σ (promptedLine none) (promptedLine none) :=
    fun σ => paired_readLine.option (by grind) (by grind)
  cases hp with
  | none => exact hread ρ
  | some hp =>
    have hnone := ρ.eq_iff hp ρ.none
    unfold promptedLine at hread ⊢
    grind

@[grind ←] theorem paired_attributeName (f : BuiltinFunction) (hh : ρ h h') :
    Paired M I ρ (attributeName f h) (attributeName f h') :=
  (paired_textValue hh).option (by grind) (by grind)

/-- Whether a builtin function takes a `StopIteration` for the end. -/
def BuiltinFunction.takesItems : BuiltinFunction → List Handle → Bool
  | next, [_, _] => true
  | all, _ => true
  | any, _ => true
  | _, _ => false

/-- The number of a handle is the same where numbers are. -/
@[grind ←] theorem paired_number (hM : M.numbers) (hh : ρ h h') :
    Paired M I ρ (newInt (.ofNat h.id)) (newInt (.ofNat h'.id)) where
  lockstep S hS s s' hs := by
    subst hS
    cases hs.eq_of_numbers hM hh
    exact (paired_newInt _).at_setting s s' hs
  composed hM K hρ := (paired_newInt _).composed hM K hρ

/-- **The builtin functions.** Only the one that asks for the number of a handle is told apart. -/
theorem BuiltinFunction.paired_run (f : BuiltinFunction) (hf : M.numbers ∨ f ≠ .id)
    (hi : f.takesItems args = true → I) (ha : Forall₂ ρ args args') :
    Paired M I ρ (f.run args) (f.run args') := by
  have hall := ha
  cases f with
  | next =>
    rcases ha with _ | ⟨h1, _ | ⟨h2, _ | ⟨h3, h4⟩⟩⟩
    · exact paired_wrongArity _ _ _ hall
    · exact paired_next h1
    · exact paired_nextOr (hi rfl) h1 h2
    · exact paired_wrongArity _ _ _ hall
  | all | any =>
    have hi := hi rfl
    exact paired_unary rfl (fun _ _ _ => rfl) ha
      fun hh => by dsimp only [BuiltinFunction.run]; grind
  | print => dsimp only [BuiltinFunction.run]; grind
  | rawPrint | repr | len | id =>
    exact paired_unary rfl (fun _ _ _ => rfl) ha
      fun hh => by dsimp only [BuiltinFunction.run]; grind
  | isinstance | map | divmod | pow =>
    exact paired_binary rfl (fun _ => rfl) (fun _ _ _ _ => rfl) ha fun hh hk => by
      dsimp only [BuiltinFunction.run]
      grind
  | iter =>
    exact paired_unaryOrBinary rfl (fun _ _ _ _ => rfl) ha paired_iter fun hh hk => by
      dsimp only [BuiltinFunction.run]
      grind
  | input =>
    rcases ha with _ | ⟨h1, _ | ⟨_, _⟩⟩
    · exact paired_promptedLine rel_none
    · exact paired_promptedLine (.some h1)
    · exact paired_wrongArity _ _ _ hall
  | flush =>
    rcases ha with _ | ⟨_, _⟩
    · dsimp only [BuiltinFunction.run]
      grind
    · exact paired_wrongArity _ _ _ hall
  | getattr =>
    rcases ha with _ | ⟨h1, _ | ⟨h2, _ | ⟨h3, _ | ⟨_, _⟩⟩⟩⟩
    case cons.cons.nil | cons.cons.cons.nil =>
      dsimp only [BuiltinFunction.run]
      grind
    all_goals exact paired_wrongArity _ _ _ hall
  | setattr =>
    rcases ha with _ | ⟨h1, _ | ⟨h2, _ | ⟨h3, _ | ⟨_, _⟩⟩⟩⟩
    case cons.cons.cons.nil =>
      dsimp only [BuiltinFunction.run]
      grind
    all_goals exact paired_wrongArity _ _ _ hall

/-! ## 6. Generators that are asked -/

/-- Computations that came back alike. -/
inductive Resumption.Matches (R : Handle → Handle → Prop) : Resumption → Resumption → Prop where
  | yielded {value value' : Handle} : R value value' → Matches R (.yielded value) (.yielded value')
  | completed {result result' : Option Handle} : Option.Rel R result result' →
      Matches R (.completed result) (.completed result')

theorem lockstep_conclude {S : Setting} {answer answer' : Except Fault Resumption}
    (ha : Answers (fun ρ => Resumption.Matches ρ) ρ answer answer') :
    Lockstep S ρ (conclude answer) (conclude answer') Renaming.rel := by
  cases ha with
  | error he => exact .throw he
  | ok hr =>
    cases hr with
    | yielded hv => exact .pure hv
    | completed hr => exact (paired_stopIteration hr).at_setting

theorem paired_refusal {payload payload' : Payload} {L : Handle → Handle → Prop}
    (hp : payload.Matches ρ L payload') : Paired M I ρ (refusal payload) (refusal payload') := by
  cases hp with
  | generator hg => cases hg <;> grind [refusal, Payload.kindName]
  | _ => exact .throw (.intrinsic _)

end ObjectModel
