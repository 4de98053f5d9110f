import ObjectModel.Proofs.Pairing.Operation

/-!
# Members in pairs

* `Member.paired_run` -- **every builtin member** does the same up to the handles that it is given.
-/

namespace ObjectModel

open List (Forall₂)
open HasHandles (handles)
open Run (Lockstep Composed Paired)
open Compared (rel)

variable {M : Mode} {I : Prop} {ρ : Renaming} {h h' k k' v v' : Handle}
  {args args' items items' : List Handle}

/-! ## 1. Members of `object`, `type` and `function` -/

/-- A plain object, whose type is one already when it is made. -/
theorem paired_plain (hh : ρ h h') (message : String) : Paired M I ρ
    (do if ← isType h then allocate (.bare h) else typeError message : Run Handle)
    (do if ← isType h' then allocate (.bare h') else typeError message) where
  lockstep S hS := by
    subst hS
    refine (paired_isType hh).at_setting.bindSame fun σ hσ _ => .ite Iff.rfl (fun _ => ?_) fun _ =>
      (paired_typeError message).at_setting
    exact lockstep_allocate ⟨.plain, hσ hh, .empty⟩ rfl
  composed hM K hρ := by
    subst hM hρ
    exact .plain hh.2 (paired_typeError message).composed_known

theorem ObjectMember.paired_run (m : ObjectMember) (ha : Forall₂ ρ args args') :
    Paired M I ρ (m.run args) (m.run args') := by
  cases m with
  | new =>
    rcases ha with _ | ⟨hh, _⟩
    · exact paired_typeError _
    · exact paired_plain hh _
  | init => exact .pure ρ.none
  | repr | str =>
    exact paired_unary rfl (fun _ _ _ => rfl) ha fun hh => by dsimp only [ObjectMember.run]; grind
  | eq | ne =>
    exact paired_binary rfl (fun _ => rfl) (fun _ _ _ _ => rfl) ha fun hl hr => by
      dsimp only [ObjectMember.run]
      grind [→ Renaming.eq_iff]

@[grind ←] theorem paired_typeRepr (ha : Forall₂ ρ args args') :
    Paired M I ρ (typeRepr args) (typeRepr args') :=
  paired_unary rfl (fun _ _ _ => rfl) ha fun hh => by dsimp only [typeRepr]; grind

theorem rel_base (hh : ρ h h') :
    Option.Rel ρ (if h = .none then none else some h) (if h' = .none then none else some h') := by
  have heq := ρ.eq_iff hh ρ.none
  by_cases hn : h = .none
  · rw [if_pos hn, if_pos (heq.mp hn)]
    exact .none
  · rw [if_neg hn, if_neg (mt heq.mpr hn)]
    exact .some hh

theorem TypeMember.paired_run (m : TypeMember) (ha : Forall₂ ρ args args') :
    Paired M I ρ (m.run args) (m.run args') := by
  have hall := ha
  cases m with
  | new =>
    rcases ha with _ | ⟨_, _ | ⟨hn, _ | ⟨hb, _ | ⟨hm, _ | ⟨_, _⟩⟩⟩⟩⟩
    case cons.cons.cons.cons.nil =>
      refine (paired_textValue hn).option (by grind) fun σ hσ name name' hname => ?_
      cases hname
      refine (paired_dictEntries (hσ hm)).option (by grind) fun τ hτ entries entries' hentries => ?_
      exact paired_defineType name (rel_base (hτ (hσ hb))) hentries.entries
    all_goals exact paired_wrongArity _ _ _ hall
  | call =>
    have htype {a b : Handle} (h : ρ a b) : a = BuiltinType.type.handle ↔
        b = BuiltinType.type.handle := ρ.eq_iff h (ρ.type .type)
    rcases ha with _ | ⟨h1, _ | ⟨h2, _ | ⟨h3, h4⟩⟩⟩
    · exact paired_typeError _
    all_goals
      dsimp only [TypeMember.run]
      grind
  | init => exact .pure ρ.none
  | repr | str => exact paired_typeRepr ha

theorem FunctionMember.paired_run (m : FunctionMember) (ha : Forall₂ ρ args args') :
    Paired M I ρ (m.run args) (m.run args') := by
  cases m with
  | new => exact paired_notImplementedError _
  | call =>
    rcases ha with _ | ⟨hh, hrest⟩
    · exact paired_typeError _
    · exact paired_call hh hrest
  | repr =>
    refine paired_unary rfl (fun _ _ _ => rfl) ha fun hh => ?_
    refine (paired_object hh).bind fun σ _ o o' ho => ?_
    refine ho.elim fun hp _ _ => ?_
    cases hp with
    | @bound _ _ f f' _ hf =>
      refine Run.Paired.bind (paired_look (fun _ _ hs => ?_) fun _ => composed_inspect (by simp))
        fun _ _ name name' hname => ?_
      · exact rel_mono (fun _ _ h => rel_eq_iff.mpr h) (rel_eq_iff.mpr (hs.functionName hf))
      · cases rel_eq_iff.mp hname
        exact paired_newText _
    | _ => exact paired_newText _

/-! ## 2. Members of singletons, integers and truth values -/

theorem NoneMember.paired_run (m : NoneMember) (ha : Forall₂ ρ args args') :
    Paired M I ρ (m.run args) (m.run args') := by
  cases m with
  | new => exact .pure ρ.none
  | bool => exact paired_unary rfl (fun _ _ _ => rfl) ha fun _ => .pure ρ.false
  | repr => exact paired_unary rfl (fun _ _ _ => rfl) ha fun _ => paired_newText _

theorem NotImplementedMember.paired_run (m : NotImplementedMember) (ha : Forall₂ ρ args args') :
    Paired M I ρ (m.run args) (m.run args') := by
  cases m with
  | new => exact .pure ρ.notImplemented
  | repr => exact paired_unary rfl (fun _ _ _ => rfl) ha fun _ => paired_newText _

@[grind ←] theorem paired_intReceiver (name : String) (hh : ρ h h') :
    Paired M I ρ (intReceiver name h) (intReceiver name h') := by
  unfold intReceiver
  grind

@[grind ←] theorem paired_inRange (symbol : String) (n : Option Int64) :
    Paired M I ρ (inRange symbol n) (inRange symbol n) := by
  unfold inRange
  grind

@[grind ←] theorem paired_nonZero (divisor : Int64) :
    Paired M I ρ (nonZero divisor) (nonZero divisor) := by
  unfold nonZero
  grind

@[grind ←] theorem paired_intOp (op : BinaryOp) (l r : Int64) :
    Paired M I ρ (intOp op l r) (intOp op l r) := by
  unfold intOp
  grind

@[grind ←] theorem paired_intDivmod (l r : Int64) :
    Paired M I ρ (intDivmod l r) (intDivmod l r) := by
  unfold intDivmod
  grind

@[grind ←] theorem paired_intBinary (name : String) {op : Int64 → Int64 → Run Handle}
    (hop : ∀ σ l r, Paired M I σ (op l r) (op l r)) (ha : Forall₂ ρ args args') :
    Paired M I ρ (intBinary name op args) (intBinary name op args') := by
  refine paired_binary rfl (fun _ => rfl) (fun _ _ _ _ => rfl) ha fun hl hr => ?_
  dsimp only [intBinary]
  grind

@[grind ←] theorem paired_toInt (hh : ρ h h') : Paired M I ρ (toInt h) (toInt h') := by
  unfold toInt
  grind

theorem IntMember.paired_run (m : IntMember) (ha : Forall₂ ρ args args') :
    Paired M I ρ (m.run args) (m.run args') := by
  cases m with
  | new =>
    exact paired_unaryOrBinary rfl (fun _ _ _ _ => rfl) ha (fun _ => paired_newInt 0) fun _ hk =>
      paired_toInt hk
  | int | bool | neg =>
    exact paired_unary rfl (fun _ _ _ => rfl) ha fun hh => by dsimp only [IntMember.run]; grind
  | str | repr =>
    exact paired_unary rfl (fun _ _ _ => rfl) ha
      fun hh => by dsimp only [IntMember.run, intText]; grind
  | binary op => exact paired_intBinary _ (fun _ _ _ => paired_intOp op _ _) ha
  | divmod => exact paired_intBinary _ (fun _ _ _ => paired_intDivmod _ _) ha

@[grind ←] theorem paired_boolReceiver (hh : ρ h h') :
    Paired M I ρ (boolReceiver h) (boolReceiver h') := by
  unfold boolReceiver
  grind

theorem BoolMember.paired_run (m : BoolMember) (ha : Forall₂ ρ args args') :
    Paired M I ρ (m.run args) (m.run args') := by
  cases m with
  | new =>
    exact paired_unaryOrBinary rfl (fun _ _ _ _ => rfl) ha (fun _ => .pure ρ.false) fun _ hk => by
      dsimp only [BoolMember.run]
      grind
  | bool => exact paired_unary rfl (fun _ _ _ => rfl) ha fun hh => .pure hh
  | int =>
    exact paired_unary rfl (fun _ _ _ => rfl) ha fun hh => by dsimp only [BoolMember.run]; grind
  | str | repr =>
    exact paired_unary rfl (fun _ _ _ => rfl) ha
      fun hh => by dsimp only [BoolMember.run, boolText]; grind

/-! ## 3. Members of sequences -/

@[grind ←] theorem paired_position (what : String) (hh : ρ h h') (size : Nat) :
    Paired M I ρ (position what h size) (position what h' size) := by
  unfold position
  grind

@[grind ←] theorem rel_itemAt (hi : Forall₂ ρ items items') (place : Nat) :
    ρ (itemAt items place) (itemAt items' place) := by
  unfold itemAt
  rw [List.getD_eq_getElem?_getD, List.getD_eq_getElem?_getD]
  exact rel_getD (rel_getElem? hi place) ρ.none

section

variable {left left' right right' : List Handle} (hl : Forall₂ ρ left left')
  (hr : Forall₂ ρ right right')

include hl hr

theorem paired_pairwiseEqual :
    Paired M I ρ (pairwiseEqual left right) (pairwiseEqual left' right') := by
  induction left generalizing ρ left' right right' with
  | nil =>
    cases hl
    exact .pure rfl
  | cons l ls ih =>
    rcases hl with _ | ⟨hfirst, hrest⟩
    rcases hr with _ | ⟨hfirst', hrest'⟩
    · exact .pure rfl
    · exact (paired_valuesEqual hfirst hfirst').bind (by grind)

@[grind ←] theorem paired_itemsEqual :
    Paired M I ρ (itemsEqual left right) (itemsEqual left' right') := by
  unfold itemsEqual
  rw [hl.length_eq, hr.length_eq]
  grind [paired_pairwiseEqual]

end

@[grind ←] theorem paired_renderItems (hi : Forall₂ ρ items items') :
    Paired M I ρ (renderItems items) (renderItems items') := by
  induction items generalizing ρ items' with
  | nil =>
    cases hi
    exact .pure rfl
  | cons h rest ih =>
    rcases hi with _ | ⟨hh, hrest⟩
    exact (paired_repr hh).bind (by grind)

@[grind ←] theorem paired_yieldEach (hi : Forall₂ ρ items items') :
    Paired M I ρ (yieldEach items) (yieldEach items') :=
  paired_newGenerator (.items hi hi)

@[grind ←] theorem paired_textReceiver (name : String) (hh : ρ h h') :
    Paired M I ρ (textReceiver name h) (textReceiver name h') := by
  unfold textReceiver
  grind

@[grind ←] theorem paired_intArgument (name argument : String) (hh : ρ h h') :
    Paired M I ρ (intArgument name argument h) (intArgument name argument h') := by
  unfold intArgument
  grind

@[grind ←] theorem paired_textArgument (name argument : String) (hh : ρ h h') :
    Paired M I ρ (textArgument name argument h) (textArgument name argument h') := by
  unfold textArgument
  grind

@[grind ←] theorem paired_intArgumentOr (name argument : String) {x x' : Option Handle}
    (hx : rel M ρ x x') (fallback : Int64) :
    Paired M I ρ (intArgumentOr name argument x fallback)
      (intArgumentOr name argument x' fallback) := by
  cases hx <;> grind [intArgumentOr]

@[grind ←] theorem paired_strSlice {step step' : Option Handle} (hh : ρ h h') (hk : ρ k k')
    (hv : ρ v v') (hstep : rel M ρ step step') :
    Paired M I ρ (strSlice h k v step) (strSlice h' k' v' step') := by
  unfold strSlice
  grind

@[grind ←] theorem paired_strFind {start start' stop stop' : Option Handle} (hh : ρ h h')
    (hk : ρ k k') (hstart : rel M ρ start start') (hstop : rel M ρ stop stop') :
    Paired M I ρ (strFind h k start stop) (strFind h' k' start' stop') := by
  unfold strFind
  grind

@[grind ←] theorem paired_strJoin (hi : I) (hh : ρ h h') (hk : ρ k k') :
    Paired M I ρ (strJoin h k) (strJoin h' k') := by
  refine (paired_textReceiver _ hh).bind fun σ hσ separator separator' hs => ?_
  cases hs
  refine (paired_forEach (ι := Option String) hi (hσ hk) rel_none
    fun τ _ joined joined' item item' hj hitem => ?_).bind (by grind)
  cases rel_eq_iff.mp hj
  grind

@[grind ←] theorem paired_strBinary (name : String) {op : String → String → Run Handle}
    (hop : ∀ σ l r, Paired M I σ (op l r) (op l r)) (ha : Forall₂ ρ args args') :
    Paired M I ρ (strBinary name op args) (strBinary name op args') := by
  refine paired_binary rfl (fun _ => rfl) (fun _ _ _ _ => rfl) ha fun hl hr => ?_
  dsimp only [strBinary]
  grind

theorem StrMember.paired_run (m : StrMember) (hi : m = .join → I) (ha : Forall₂ ρ args args') :
    Paired M I ρ (m.run args) (m.run args') := by
  have hall := ha
  cases m with
  | new =>
    exact paired_unaryOrBinary rfl (fun _ _ _ _ => rfl) ha (fun _ => paired_newText _)
        fun _ hk => by
      dsimp only [StrMember.run]
      grind
  | str | repr | len | bool | int | iter =>
    exact paired_unary rfl (fun _ _ _ => rfl) ha fun hh => by dsimp only [StrMember.run]; grind
  | getItem =>
    exact paired_binary rfl (fun _ => rfl) (fun _ _ _ _ => rfl) ha fun hh hk => by
      dsimp only [StrMember.run]
      grind
  | join => exact paired_binary rfl (fun _ => rfl) (fun _ _ _ _ => rfl) ha (paired_strJoin (hi rfl))
  | add | eq | compare => exact paired_strBinary _ (by grind) ha
  | slice =>
    rcases ha with _ | ⟨h1, _ | ⟨h2, _ | ⟨h3, _ | ⟨h4, _ | ⟨_, _⟩⟩⟩⟩⟩
    case cons.cons.cons.nil => exact paired_strSlice h1 h2 h3 rel_none
    case cons.cons.cons.cons.nil => exact paired_strSlice h1 h2 h3 (.some h4)
    all_goals exact paired_wrongArity _ _ _ hall
  | find =>
    rcases ha with _ | ⟨h1, _ | ⟨h2, _ | ⟨h3, _ | ⟨h4, _ | ⟨_, _⟩⟩⟩⟩⟩
    case cons.cons.nil => exact paired_strFind h1 h2 rel_none rel_none
    case cons.cons.cons.nil => exact paired_strFind h1 h2 (.some h3) rel_none
    case cons.cons.cons.cons.nil => exact paired_strFind h1 h2 (.some h3) (.some h4)
    all_goals exact paired_wrongArity _ _ _ hall

@[grind ←] theorem paired_tupleReceiver (name : String) (hh : ρ h h') :
    Paired M I ρ (tupleReceiver name h) (tupleReceiver name h') := by
  unfold tupleReceiver
  grind

theorem TupleMember.paired_run (m : TupleMember) (hi : m = .new → I) (ha : Forall₂ ρ args args') :
    Paired M I ρ (m.run args) (m.run args') := by
  cases m with
  | new =>
    exact paired_unaryOrBinary rfl (fun _ _ _ _ => rfl) ha (fun _ => paired_newTuple .nil)
        fun _ hk => by
      have hi := hi rfl
      dsimp only [TupleMember.run]
      grind
  | len | iter | repr =>
    exact paired_unary rfl (fun _ _ _ => rfl) ha fun hh => by dsimp only [TupleMember.run]; grind
  | getItem | eq | add =>
    exact paired_binary rfl (fun _ => rfl) (fun _ _ _ _ => rfl) ha fun hh hk => by
      dsimp only [TupleMember.run]
      grind

@[grind ←] theorem paired_listReceiver (name : String) (hh : ρ h h') :
    Paired M I ρ (listReceiver name h) (listReceiver name h') :=
  (paired_tupleAttribute hh _).option (by grind) (by grind)

@[grind ←] theorem paired_splice {fill fill' : List Handle} (hh : ρ h h') (start count : Nat)
    (hi : Forall₂ ρ items items') (hf : Forall₂ ρ fill fill') :
    Paired M I ρ (splice h items start count fill) (splice h' items' start count fill') := by
  unfold splice
  grind

theorem rel_getLast? (hi : Forall₂ ρ items items') :
    Option.Rel ρ items.getLast? items'.getLast? := by
  rw [List.getLast?_eq_getElem?, List.getLast?_eq_getElem?, hi.length_eq]
  exact rel_getElem? hi _

theorem ListMember.paired_run (m : ListMember) (hi : m = .init → I) (ha : Forall₂ ρ args args') :
    Paired M I ρ (m.run args) (m.run args') := by
  have hall := ha
  cases m with
  | init =>
    have hi := hi rfl
    exact paired_unaryOrBinary rfl (fun _ _ _ _ => rfl) ha
        (fun hh => by dsimp only [ListMember.run]; grind) fun hh hk => by
      dsimp only [ListMember.run]
      grind
  | pop =>
    refine paired_unary rfl (fun _ _ _ => rfl) ha fun hh => ?_
    refine (paired_listReceiver _ hh).bind fun σ hσ items items' hitems => ?_
    have hlast := rel_getLast? hitems
    generalize items.getLast? = x at hlast ⊢
    generalize items'.getLast? = y at hlast ⊢
    cases hlast <;> grind
  | clear | copy | len | bool | iter | repr =>
    exact paired_unary rfl (fun _ _ _ => rfl) ha fun hh => by dsimp only [ListMember.run]; grind
  | append | getItem | eq =>
    exact paired_binary rfl (fun _ => rfl) (fun _ _ _ _ => rfl) ha fun hh hk => by
      dsimp only [ListMember.run]
      grind
  | setItem =>
    rcases ha with _ | ⟨h1, _ | ⟨h2, _ | ⟨h3, _ | ⟨_, _⟩⟩⟩⟩
    case cons.cons.cons.nil =>
      dsimp only [ListMember.run]
      grind
    all_goals exact paired_wrongArity _ _ _ hall

/-! ## 4. Members of mappings and ranges -/

@[grind ←] theorem paired_dictKey (hh : ρ h h') : Paired M I ρ (dictKey h) (dictKey h') := by
  unfold dictKey
  grind

@[grind ←] theorem paired_dictReceiver (name : String) (hh : ρ h h') :
    Paired M I ρ (dictReceiver name h) (dictReceiver name h') := by
  unfold dictReceiver
  grind

section

variable (hh : ρ h h') (hk : ρ k k')

include hh hk

@[grind ←] theorem paired_dictGet : Paired M I ρ (dictGet h k) (dictGet h' k') := by
  refine (paired_dictKey hk).bind fun σ hσ text text' ht => ?_
  cases ht
  exact (paired_dictReceiver _ (hσ hh)).bind fun _ _ _ _ hentries =>
    .pure (OrderedMap.Matches.get? hentries text)

@[grind ←] theorem paired_dictSet (hv : ρ v v') :
    Paired M I ρ (dictSet h k v) (dictSet h' k' v') := by
  unfold dictSet
  grind

@[grind ←] theorem paired_dictDelete : Paired M I ρ (dictDelete h k) (dictDelete h' k') := by
  refine (paired_dictKey hk).bind fun σ hσ text text' ht => (paired_dictReceiver _ (hσ hh)).bind
    fun τ hτ entries entries' hentries => ?_
  cases ht
  have hget := OrderedMap.Matches.get? hentries text
  generalize entries.get? text = x at hget ⊢
  generalize entries'.get? text = y at hget ⊢
  cases hget <;> grind

@[grind ←] theorem paired_dictUpdate (hi : I) :
    Paired M I ρ (dictUpdate h k) (dictUpdate h' k') := by
  refine (paired_collect hi hk).bind fun σ hσ parts parts' hparts => ?_
  have hlength := List.Forall₂.length_eq hparts
  rcases hparts with _ | ⟨h1, _ | ⟨h2, _ | ⟨h3, h4⟩⟩⟩ <;> grind

end

@[grind ←] theorem paired_renderEntries {entries entries' : List (String × Handle)}
    (he : Forall₂ (SameKey ρ) entries entries') :
    Paired M I ρ (renderEntries entries) (renderEntries entries') := by
  induction entries generalizing ρ entries' with
  | nil =>
    cases he
    exact .pure rfl
  | cons entry rest ih =>
    rcases he with _ | ⟨⟨hkey, hentry⟩, hrest⟩
    refine (paired_repr hentry).bind fun σ hσ text text' ht =>
      (ih (hrest.imp fun _ _ h => ⟨h.1, hσ h.2⟩)).bind ?_
    grind

theorem DictMember.paired_run (m : DictMember) (hi : m = .init → I) (ha : Forall₂ ρ args args') :
    Paired M I ρ (m.run args) (m.run args') := by
  have hall := ha
  cases m with
  | new =>
    rcases ha with _ | ⟨hh, _⟩
    · exact paired_typeError _
    · dsimp only [DictMember.run]
      grind
  | init =>
    refine paired_unaryOrBinary rfl (fun _ _ _ _ => rfl) ha (fun _ => .pure ρ.none) fun hh hk => ?_
    refine (paired_forEach (ι := Unit) (hi rfl) hk rfl fun σ hσ _ _ item item' _ hitem => ?_).bind
      (by grind)
    exact paired_dictUpdate (hσ hh) hitem (hi rfl)
  | len | iter | repr =>
    exact paired_unary rfl (fun _ _ _ => rfl) ha fun hh => by dsimp only [DictMember.run]; grind
  | getItem | delItem | contains =>
    exact paired_binary rfl (fun _ => rfl) (fun _ _ _ _ => rfl) ha fun hh hk => by
      dsimp only [DictMember.run]
      grind
  | get =>
    rcases ha with _ | ⟨h1, _ | ⟨h2, _ | ⟨h3, _ | ⟨_, _⟩⟩⟩⟩
    case cons.cons.nil | cons.cons.cons.nil =>
      dsimp only [DictMember.run]
      grind
    all_goals exact paired_wrongArity _ _ _ hall
  | setItem =>
    rcases ha with _ | ⟨h1, _ | ⟨h2, _ | ⟨h3, _ | ⟨_, _⟩⟩⟩⟩
    case cons.cons.cons.nil => exact (paired_dictSet h1 h2 h3).bind (by grind)
    all_goals exact paired_wrongArity _ _ _ hall

@[grind ←] theorem paired_intAttribute (hh : ρ h h') (name : String) :
    Paired M I ρ (intAttribute h name) (intAttribute h' name) := by
  refine (paired_object hh).bind fun σ _ o o' ho => ?_
  have hget := ho.attributes.get? name
  generalize o.attributes.get? name = x at hget ⊢
  generalize o'.attributes.get? name = y at hget ⊢
  cases hget <;> grind

@[grind ←] theorem paired_rangeReceiver (name : String) (hh : ρ h h') :
    Paired M I ρ (rangeReceiver name h) (rangeReceiver name h') := by
  refine (paired_intAttribute hh _).bind fun σ hσ start start' h1 =>
    (paired_intAttribute (hσ hh) _).bind fun τ hτ stop stop' h2 => ?_
  refine (paired_intAttribute (hτ (hσ hh)) _).bind fun υ _ step step' h3 => ?_
  cases rel_optionalInt.mp h1
  cases rel_optionalInt.mp h2
  cases rel_optionalInt.mp h3
  grind

@[grind ←] theorem paired_rangeBound (field : String) (hh : ρ h h') :
    Paired M I ρ (rangeBound field h) (rangeBound field h') := by
  unfold rangeBound
  grind

@[grind ←] theorem paired_rangeInit {start start' stop stop' step step' : Handle} (hh : ρ h h')
    (hstart : ρ start start') (hstop : ρ stop stop') (hstep : ρ step step') :
    Paired M I ρ (rangeInit h start stop step) (rangeInit h' start' stop' step') := by
  refine (paired_rangeBound _ hstart).bind fun σ hσ _ _ _ => (paired_rangeBound _ (hσ hstop)).bind
    fun τ hτ _ _ _ => ?_
  refine (paired_rangeBound _ (hτ (hσ hstep))).bind fun υ hυ width width' hw => ?_
  cases hw
  split
  · exact paired_raiseMessage_bind _ _ _ _
  · grind

theorem RangeMember.paired_run (m : RangeMember) (ha : Forall₂ ρ args args') :
    Paired M I ρ (m.run args) (m.run args') := by
  have hall := ha
  cases m with
  | init =>
    rcases ha with _ | ⟨h1, _ | ⟨h2, _ | ⟨h3, _ | ⟨h4, _ | ⟨_, _⟩⟩⟩⟩⟩
    case cons.cons.nil | cons.cons.cons.nil =>
      dsimp only [RangeMember.run]
      grind
    case cons.cons.cons.cons.nil => exact paired_rangeInit h1 h2 h3 h4
    all_goals exact paired_wrongArity _ _ _ hall
  | iter | len | repr =>
    exact paired_unary rfl (fun _ _ _ => rfl) ha fun hh => by dsimp only [RangeMember.run]; grind

/-! ## 5. Members of generators and exceptions -/

theorem GeneratorMember.paired_run (m : GeneratorMember) (ha : Forall₂ ρ args args') :
    Paired M I ρ (m.run args) (m.run args') := by
  cases m with
  | new => exact paired_notImplementedError _
  | iter => exact paired_unary rfl (fun _ _ _ => rfl) ha fun hh => .pure hh
  | next =>
    exact paired_unary rfl (fun _ _ _ => rfl) ha fun hh => by
      dsimp only [GeneratorMember.run]
      grind [→ Object.Matches.isGenerator_eq]

@[grind ←] theorem paired_exceptionText (ha : Forall₂ ρ args args') :
    Paired M I ρ (exceptionText args) (exceptionText args') := by
  rcases ha with _ | ⟨h1, _ | ⟨h2, h3⟩⟩ <;> dsimp only [exceptionText] <;> grind

theorem ExceptionMember.paired_run (m : ExceptionMember) (ha : Forall₂ ρ args args') :
    Paired M I ρ (m.run args) (m.run args') := by
  cases m with
  | init =>
    rcases ha with _ | ⟨hh, hrest⟩
    · exact paired_typeError _
    · dsimp only [ExceptionMember.run]
      grind
  | str | repr =>
    exact paired_unary rfl (fun _ _ _ => rfl) ha
      fun hh => by dsimp only [ExceptionMember.run]; grind

theorem paired_stopIterationInit (ha : Forall₂ ρ args args') :
    Paired M I ρ (stopIterationInit args) (stopIterationInit args') := by
  rcases ha with _ | ⟨hh, hrest⟩
  · exact paired_typeError _
  · dsimp only [stopIterationInit]
    grind

/-- Whether a builtin member takes a `StopIteration` for the end. -/
def Member.takesItems : Member → Bool
  | str .join => true
  | tuple .new => true
  | list .init => true
  | dict .init => true
  | _ => false

/-- **Every builtin member** does the same up to handles. -/
theorem Member.paired_run (m : Member) (hi : m.takesItems = true → I) (ha : Forall₂ ρ args args') :
    Paired M I ρ (m.run args) (m.run args') := by
  cases m with
  | object m => exact m.paired_run ha
  | type m => exact m.paired_run ha
  | function m => exact m.paired_run ha
  | none m => exact m.paired_run ha
  | notImplemented m => exact m.paired_run ha
  | int m => exact m.paired_run ha
  | bool m => exact m.paired_run ha
  | str m => exact m.paired_run (fun h => hi (h ▸ rfl)) ha
  | tuple m => exact m.paired_run (fun h => hi (h ▸ rfl)) ha
  | dict m => exact m.paired_run (fun h => hi (h ▸ rfl)) ha
  | list m => exact m.paired_run (fun h => hi (h ▸ rfl)) ha
  | range m => exact m.paired_run ha
  | generator m => exact m.paired_run ha
  | exception m => exact m.paired_run ha
  | stopIterationInit => exact paired_stopIterationInit ha

/-! ## 6. What is composed of known handles -/

section

variable {α : Type} [HasHandles α] {K : List Handle} {a : Handle}

@[grind =] theorem Renaming.known_iff : (Renaming.known K).rel h h ↔ Known K h :=
  ⟨fun hh => hh.2, fun hh => ⟨rfl, hh⟩⟩

theorem Known.related (hh : Known K h) : (Renaming.known K).rel h h := ⟨rfl, hh⟩

@[grind =] theorem Renaming.known_all_iff :
    Forall₂ (Renaming.known K).rel args args ↔ ∀ k ∈ args, Known K k :=
  ⟨Renaming.all_known, Renaming.known_all⟩

@[grind =] theorem rel_known_iff {x : Option Handle} :
    rel .blind (Renaming.known K) x x ↔ ∀ k ∈ x.toList, Known K k := by
  cases x with
  | none => exact ⟨fun _ => List.forall_mem_nil _, fun _ => .none⟩
  | some h =>
    exact ⟨fun | .some hh => List.forall_mem_singleton.mpr hh.2,
      fun hh => .some ⟨rfl, hh h List.mem_cons_self⟩⟩

/-- **A program that does the same up to handles** is composed of the known ones. -/
@[grind ←] theorem composed_of_paired [Compared α] {x : Run α}
    (hx : Paired .blind I (.known K) x x) : Composed I K x :=
  hx.composed_known

/-- An iterator need not be known: it is live if it is asked. -/
@[grind ←] theorem composed_next (h : Handle) : Composed I K (next h) := by
  refine @Composed.bind _ _ _ ⟨fun found => h :: handles found⟩ _ _ _ _ (composed_findHook_live h _)
    fun hook => ?_
  cases hook with
  | none => exact (paired_typeError _).composed_known
  | some hook =>
    have hlive : ∀ k ∈ [h, hook], Known (knowing [h, hook] K) k := fun k hk => known_of_new hk
    exact composed_callOne (hlive hook (by simp)) (hlive h (by simp))

@[grind ←] theorem composed_nextItem (hi : I) (h : Handle) : Composed I K (nextItem h) :=
  .nextItem hi (composed_next h)

@[grind ←] theorem composed_newTuple (hi : ∀ k ∈ items, Known K k) :
    Composed I K (newTuple items) :=
  (paired_newTuple (Renaming.known_all hi)).composed_known

theorem composed_newGenerator {c : Coroutine} (hc : ∀ k ∈ c.held, Known K k) :
    Composed I K (newGenerator c) :=
  (paired_newGenerator (.of_held hc)).composed_known

theorem composed_conclude (back : Except Fault Resumption) :
    Composed I (handles back) (conclude back) := by
  unfold conclude
  split
  · exact composed_value (.mem List.mem_cons_self)
  · exact (paired_stopIteration (rel_known_iff.mpr fun h hh => .mem hh)).composed_known
  · exact .throw _

theorem composed_defineType (name : String) {base : Option Handle}
    {members : List (String × Handle)} (hb : ∀ h ∈ base.toList, Known K h)
    (hm : ∀ m ∈ members, Known K m.2) : Composed I K (defineType name base members) :=
  (paired_defineType name (rel_known_iff.mpr hb)
    (List.forall₂_same.mpr fun m hmem => ⟨rfl, rfl, hm m hmem⟩)).composed_known

theorem composed_refusal (payload : Payload) : Composed I K (refusal payload) := by
  unfold refusal
  split <;> grind

/-- **Every builtin function** is composed. -/
theorem BuiltinFunction.composed_run (f : BuiltinFunction) (args : List Handle)
    (hi : f.takesItems args = true → I) : Composed I args (f.run args) := by
  by_cases hf : f = .id
  · subst hf
    unfold BuiltinFunction.run
    split <;> grind
  · exact (f.paired_run (Or.inr hf) hi (Renaming.known_all fun _ hh => .mem hh)).composed_known

/-- **Every builtin member** is composed. -/
theorem Member.composed_run (m : Member) (args : List Handle) (hi : m.takesItems = true → I) :
    Composed I args (m.run args) :=
  (m.paired_run hi (Renaming.known_all fun _ hh => .mem hh)).composed_known

/-- Whether the computation is builtin. -/
def Coroutine.isBuiltin : Coroutine → Bool
  | script .. => false
  | _ => true

/-- Whether a computation takes a `StopIteration` for the end. -/
def Coroutine.takesItems : Coroutine → Bool
  | mapping .. => true
  | _ => false

/-- **Every builtin computation** is composed. -/
theorem Coroutine.composed_resume (c : Coroutine) (hc : c.isBuiltin = true)
    (hi : c.takesItems = true → I) : Composed I c.held c.resume := by
  unfold Coroutine.resume
  split <;> grind [Coroutine.isBuiltin, Coroutine.takesItems, Coroutine.held, Resumed.yield,
    Resumption.handles]

end

end ObjectModel
