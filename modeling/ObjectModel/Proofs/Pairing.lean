import ObjectModel.Proofs.Composition
import ObjectModel.Proofs.Renaming.Primitive

/-!
# Programs in pairs

A program is compared with one that does the same up to the handles that it uses. The two keep in
lockstep, and what the first one is composed of is known where both are given the same handles. So
one proof for a program gives both.

* `Run.Paired` -- two programs that do the same up to the handles that they use.

The rules and the operations are tagged for `grind`, so that a pair of programs is judged by the
pairs they are composed of.
-/

namespace ObjectModel

open List (Forall₂)
open HasHandles (handles)
open Run (Lockstep Composed)

/-! ## 1. Values -/

/-- The identity of the known handles. -/
def Renaming.known (K : List Handle) : Renaming where
  rel a b := a = b ∧ Known K a
  unique := ⟨fun _ _ _ h h' => h.1.trans h'.1.symm, fun _ _ _ h h' => h.1.symm.trans h'.1⟩
  fixed hk := ⟨rfl, hk.mono (List.forall_mem_nil _)⟩

theorem Renaming.known_le (L K : List Handle) : known K ≤ known (knowing L K) :=
  fun _ _ h => ⟨h.1, known_of_known h.2⟩

/-- The mode in which nothing is asked of the names that a script keeps. -/
def Mode.blind : Mode := ⟨False, fun _ => True, fun h => h.elim⟩

/-- How values are compared under a renaming: by the handles that they are made of. -/
class Compared (α : Type) [HasHandles α] where
  rel : Mode → Relation α
  mono : ∀ {M : Mode} {ρ σ : Renaming} {a b : α}, ρ ≤ σ → rel M ρ a b → rel M σ a b
  refl : ∀ (K : List Handle) (a : α), rel .blind (.known (knowing (handles a) K)) a a
  known : ∀ {K : List Handle} {a b : α}, rel .blind (.known K) a b → ∀ h ∈ handles a, Known K h

open Compared (rel)

section

variable {K L : List Handle}

theorem Renaming.known_all (h : ∀ k ∈ L, Known K k) : Forall₂ (known K) L L :=
  List.forall₂_same.mpr fun k hk => ⟨rfl, h k hk⟩

theorem Renaming.all_known {L' : List Handle} (h : Forall₂ (known K) L L') :
    ∀ k ∈ L, Known K k := by
  intro k hk
  obtain ⟨i, hi, rfl⟩ := List.getElem_of_mem hk
  have hget := rel_getElem? h i
  rw [List.getElem?_eq_getElem hi] at hget
  cases hget' : L'[i]? with
  | none =>
    rw [hget'] at hget
    cases hget
  | some k' =>
    rw [hget'] at hget
    cases hget with
    | some hk => exact hk.2

end

instance (priority := low) Compared.data {α : Type} : @Compared α .data where
  rel _ := Same
  mono _ h := h
  refl _ _ := rfl
  known _ _ hh := absurd hh List.not_mem_nil

instance : Compared Handle where
  rel _ := Renaming.rel
  mono h hab := h hab
  refl _ _ := ⟨rfl, known_of_new List.mem_cons_self⟩
  known h _ hh := List.mem_singleton.mp hh ▸ h.2

instance : Compared (List Handle) where
  rel _ := Each
  mono h hab := Renaming.all h hab
  refl _ _ := Renaming.known_all fun _ hk => known_of_new hk
  known := Renaming.all_known

instance : Compared (Array Handle) where
  rel _ ρ l l' := Forall₂ ρ l.toList l'.toList
  mono h hab := Renaming.all h hab
  refl _ _ := Renaming.known_all fun _ hk => known_of_new hk
  known := Renaming.all_known

instance : Compared (OrderedMap Handle) where
  rel _ ρ := OrderedMap.Matches ρ
  mono h := OrderedMap.Matches.mono h
  refl _ _ := .refl fun _ hk => ⟨rfl, known_of_new hk⟩
  known h := Renaming.all_known h.values

instance {α : Type} [HasHandles α] [Compared α] : Compared (Option α) where
  rel M ρ := Option.Rel (rel M ρ)
  mono h := rel_mono fun _ _ => Compared.mono h
  refl K a := by
    cases a with
    | none => exact .none
    | some a => exact .some (Compared.refl K a)
  known h := by
    cases h with
    | none => exact List.forall_mem_nil _
    | some h => exact Compared.known (α := α) h

instance {α β : Type} [HasHandles α] [HasHandles β] [Compared α] [Compared β] :
    Compared (α ⊕ β) where
  rel M := Turn (rel M) (rel M)
  mono h hab := by
    cases hab with
    | again hab => exact .again (Compared.mono h hab)
    | ended hab => exact .ended (Compared.mono h hab)
  refl K a := by
    cases a with
    | inl a => exact .again (Compared.refl K a)
    | inr a => exact .ended (Compared.refl K a)
  known h := by
    cases h with
    | again h => exact Compared.known (α := α) h
    | ended h => exact Compared.known (α := β) h

/-- A generator that refers to known handles matches itself, whatever its script has names for. -/
theorem Coroutine.Matches.of_held {K : List Handle} {c : Coroutine} (hc : ∀ h ∈ c.held, Known K h) :
    c.Matches (Renaming.known K) (Mode.blind.Loose (.known K)) c := by
  cases c with
  | items held pending covered =>
    exact .items (Renaming.known_all hc) (Renaming.known_all fun k hk => hc k (covered hk))
  | entries held pending covered =>
    exact .entries (Renaming.known_all hc)
      (List.forall₂_same.mpr fun e he => ⟨rfl, rfl, hc _ (covered (List.mem_map_of_mem he))⟩)
  | characters pending => exact .characters pending
  | progression bounds next => exact .progression bounds next
  | mapping function iterator =>
    exact .mapping ⟨rfl, hc _ List.mem_cons_self⟩
      ⟨rfl, hc _ (List.mem_cons_of_mem _ List.mem_cons_self)⟩
  | callUntil callable sentinel =>
    exact .callUntil ⟨rfl, hc _ List.mem_cons_self⟩
      ⟨rfl, hc _ (List.mem_cons_of_mem _ List.mem_cons_self)⟩
  | script steps ending held position frame =>
    exact .script steps ending position (Renaming.known_all hc)
      ⟨List.forall₂_same.mpr fun _ _ => .inr trivial, .refl fun _ _ => .inr trivial⟩

theorem Payload.Matches.of_references {K : List Handle} {p : Payload}
    (hp : ∀ r ∈ p.references, Known K r) :
    p.Matches (Renaming.known K) (Mode.blind.Loose (.known K)) p := by
  by_cases hg : ∃ g, p = .generator g
  · obtain ⟨g, rfl⟩ := hg
    cases g with
    | suspended c => exact .generator (.suspended (.of_held hp))
    | running => exact .generator .running
    | stopped result =>
      cases result with
      | none => exact .generator (.stopped .none)
      | some h => exact .generator (.stopped (.some ⟨rfl, hp h List.mem_cons_self⟩))
  · exact .refl (fun r hr => ⟨rfl, hp r hr⟩) fun g h => hg ⟨g, h⟩

instance : Compared Object where
  rel := SameObject
  mono h hab := Heap.matches_mono h hab
  refl _ _ :=
    { payload := .of_references fun _ hr => known_of_new (List.mem_append_right _ hr)
      type := ⟨rfl, known_of_new (List.mem_append_left _ List.mem_cons_self)⟩
      attributes :=
        .refl fun _ hr => ⟨rfl, known_of_new (List.mem_append_left _ (List.mem_cons_of_mem _ hr))⟩ }
  known h := Renaming.all_known h.references

/-! ## 2. The judgement and its rules -/

/-- **Two programs that do the same** up to the handles that they use: they keep in lockstep, and it
is known how the first one is composed. They look at a fault of what they run at most where they ask
an iterator for the next item, if they `iterate`. -/
structure Run.Paired {α : Type} [HasHandles α] [Compared α] (M : Mode) (iterates : Prop)
    (ρ : Renaming) (x y : Run α) : Prop where
  lockstep : ∀ S : Setting, S.toMode = M → Lockstep S ρ x y (rel M)
  composed : M = .blind → ∀ K, ρ = .known K → x.Composed iterates K

open Run (Paired)

variable {α β ι : Type} [HasHandles α] [HasHandles β] [HasHandles ι] [Compared α] [Compared β]
  [Compared ι] {M : Mode} {I : Prop} {ρ σ τ : Renaming} {h h' k k' v v' : Handle}
  {args args' items items' : List Handle}

namespace Run.Paired

variable {x y : Run α}

theorem at_setting {S : Setting} (h : Paired S.toMode True ρ x y) :
    Lockstep S ρ x y (rel S.toMode) :=
  h.lockstep S rfl

theorem composed_known {K : List Handle} (h : Paired .blind I (.known K) x y) : x.Composed I K :=
  h.composed rfl K rfl

@[grind ←] theorem pure {a b : α} (h : rel M ρ a b) :
    Paired M I ρ (Pure.pure a : Run α) (Pure.pure b) where
  lockstep _ _ := .pure h
  composed hM _ hρ := .pure (Compared.known (hM ▸ hρ ▸ h))

@[grind ←] theorem throw {f g : Fault} (h : f.Matches ρ g) :
    Paired M I ρ (MonadExcept.throw f : Run α) (MonadExcept.throw g) where
  lockstep _ _ := .throw h
  composed _ _ _ := .throw f

@[grind ←] theorem bind {f g : α → Run β} (hx : Paired M I ρ x y)
    (hf : ∀ σ, ρ ≤ σ → ∀ a b, rel M σ a b → Paired M I σ (f a) (g b)) :
    Paired M I ρ (x >>= f) (y >>= g) where
  lockstep S hS := (hx.lockstep S hS).bind fun σ hσ a b hab => (hf σ hσ a b hab).lockstep S hS
  composed hM K hρ := by
    subst hM hρ
    exact (hx.composed rfl K rfl).bind fun a =>
      (hf _ (Renaming.known_le _ _) a a (Compared.refl K a)).composed rfl _ rfl

/-- What may be missing is looked at in both cases. -/
theorem option {x y : Run (Option α)} {f g : Option α → Run β}
    (hx : Paired M I ρ x y) (hn : ∀ σ, ρ ≤ σ → Paired M I σ (f none) (g none))
    (hs : ∀ σ, ρ ≤ σ → ∀ a b, rel M σ a b → Paired M I σ (f (some a)) (g (some b))) :
    Paired M I ρ (x >>= f) (y >>= g) := by
  refine hx.bind fun σ hσ a b hab => ?_
  cases hab with
  | none => exact hn σ hσ
  | some hab => exact hs σ hσ _ _ hab

theorem loop {start start' : ι} {body body' : ι → Run (ι ⊕ β)} (hstart : rel M ρ start start')
    (hbody : ∀ σ, ρ ≤ σ → ∀ acc acc', rel M σ acc acc' → Paired M I σ (body acc) (body' acc')) :
    Paired M I ρ (Run.loop start body) (Run.loop start' body') where
  lockstep S hS := .loop (rel M) hstart fun σ hσ acc acc' hacc =>
      (hbody σ hσ acc acc' hacc).lockstep S hS
  composed hM K hρ := by
    subst hM hρ
    exact .loop (Compared.known hstart) fun acc =>
      (hbody _ (Renaming.known_le _ _) acc acc (Compared.refl K acc)).composed rfl _ rfl

end Run.Paired

/-! ## 3. Facts for the rules -/

theorem Renaming.mono (h : ρ ≤ σ) (hh : ρ k k') : σ k k' := h hh

grind_pattern Renaming.mono => ρ ≤ σ, ρ.rel k k'
grind_pattern Renaming.le_trans => ρ ≤ σ, σ ≤ τ
grind_pattern Compared.mono => ρ ≤ σ, rel M ρ a b

theorem Renaming.append (hl : Forall₂ ρ args args') (hr : Forall₂ ρ items items') :
    Forall₂ ρ (args ++ items) (args' ++ items') :=
  List.rel_append hl hr

attribute [grind →] Renaming.all List.Forall₂.length_eq OrderedMap.Matches.size_eq
  OrderedMap.Matches.values OrderedMap.Matches.entries
attribute [grind ←] Renaming.append List.forall₂_take List.forall₂_drop
attribute [grind =] List.forall₂_cons
attribute [grind .] List.Forall₂.nil

@[grind .] theorem Renaming.type (ρ : Renaming) (t : BuiltinType) : ρ t.handle t.handle :=
  ρ.fixed (.type t)

@[grind .] theorem Renaming.exceptionType (ρ : Renaming) (kind : ExceptionKind) :
    ρ kind.type kind.type :=
  ρ.fixed (.exceptionType kind)

@[grind .] theorem Renaming.none (ρ : Renaming) : ρ .none .none := ρ.fixed .none

@[grind .] theorem Renaming.notImplemented (ρ : Renaming) : ρ .notImplemented .notImplemented :=
  ρ.fixed .notImplemented

@[grind .] theorem Renaming.true (ρ : Renaming) : ρ .true .true := ρ.fixed .true

@[grind .] theorem Renaming.false (ρ : Renaming) : ρ .false .false := ρ.fixed .false

attribute [grind .] Renaming.ofBool
attribute [grind ←] Fault.Matches.intrinsic Coroutine.Matches.callUntil Coroutine.Matches.mapping
    Coroutine.Matches.items
  Coroutine.Matches.entries Coroutine.Matches.characters Coroutine.Matches.progression

section

@[grind =] theorem rel_handle : rel M ρ h h' ↔ ρ h h' := Iff.rfl

@[grind =] theorem rel_list : rel M ρ args args' ↔ Forall₂ ρ args args' := Iff.rfl

@[grind =] theorem rel_map {m m' : OrderedMap Handle} : rel M ρ m m' ↔ m.Matches ρ m' := Iff.rfl

@[grind =] theorem rel_object {o o' : Object} : rel M ρ o o' ↔ SameObject M ρ o o' := Iff.rfl

@[grind =] theorem rel_unit {u u' : Unit} : rel M ρ u u' ↔ True := iff_true_intro rfl

@[grind =] theorem rel_bool {b b' : Bool} : rel M ρ b b' ↔ b = b' := Iff.rfl

@[grind =] theorem rel_nat {n n' : Nat} : rel M ρ n n' ↔ n = n' := Iff.rfl

@[grind =] theorem rel_int {n n' : Int64} : rel M ρ n n' ↔ n = n' := Iff.rfl

@[grind =] theorem rel_text {text text' : String} : rel M ρ text text' ↔ text = text' := Iff.rfl

@[grind =] theorem rel_texts {texts texts' : List String} : rel M ρ texts texts' ↔ texts = texts' :=
  Iff.rfl

@[grind =] theorem rel_bounds {b b' : Progression} : rel M ρ b b' ↔ b = b' := Iff.rfl

@[grind =] theorem rel_optionalInt {n n' : Option Int64} : rel M ρ n n' ↔ n = n' := rel_eq_iff

@[grind =] theorem rel_optionalText {text text' : Option String} :
    rel M ρ text text' ↔ text = text' :=
  rel_eq_iff

@[grind =] theorem rel_some {a a' : α} : rel M ρ (some a) (some a') ↔ rel M ρ a a' :=
  ⟨fun | .some h => h, .some⟩

@[grind .] theorem rel_none : rel M ρ (none : Option α) none := .none

theorem rel_orElse {found found' : Option Handle} (hf : rel M ρ found found') (hk : ρ k k') :
    ρ (found.getD k) (found'.getD k') :=
  rel_getD hf hk

grind_pattern rel_orElse => rel M ρ found found', found.getD k, found'.getD k'

@[grind →] theorem isSome_of_rel {x x' : Option α} (hx : rel M ρ x x') : x.isSome = x'.isSome := by
  cases hx <;> rfl

@[grind →] theorem isEmpty_of_all (hi : Forall₂ ρ items items') :
    items.isEmpty = items'.isEmpty := by
  cases hi <;> rfl

@[grind =] theorem rel_inl {a a' : α} : rel M ρ (.inl a : α ⊕ β) (.inl a') ↔ rel M ρ a a' :=
  ⟨fun | .again h => h, .again⟩

@[grind =] theorem rel_inr {b b' : β} : rel M ρ (.inr b : α ⊕ β) (.inr b') ↔ rel M ρ b b' :=
  ⟨fun | .ended h => h, .ended⟩

end

/-! ## 4. Primitive operations -/

/-- Looking at the heap. What is found is live. -/
theorem paired_look {look look' : Heap → Option β}
    (hlook : ∀ heap heap', heap.Similar M ρ heap' → Option.Rel (rel M ρ) (look heap) (look' heap'))
    (hlive : ∀ K, Composed I K (inspectHeap look)) :
    Paired M I ρ (inspectHeap look) (inspectHeap look') :=
  ⟨fun _ hS => lockstep_inspectHeap (hS ▸ hlook), fun _ K _ => hlive K⟩

theorem paired_read {γ : Type} {look look' : Heap → Option γ}
    (hlook : ∀ heap heap', heap.Similar M ρ heap' → look heap = look' heap') :
    @Paired γ .data .data M I ρ (inspectHeap look) (inspectHeap look') :=
  ⟨fun _ hS => lockstep_read (hS ▸ hlook), fun _ _ _ => composed_look _⟩

section

variable (hh : ρ h h')

include hh

@[grind ←] theorem paired_object : Paired M I ρ (object h) (object h') :=
  paired_look (fun _ _ hs => hs.get? hh) fun _ => composed_object h

@[grind ←] theorem paired_typeOf : Paired M I ρ (typeOf h) (typeOf h') :=
  paired_look (fun _ _ hs => hs.typeOf hh) fun _ => composed_typeOf h

@[grind ←] theorem paired_lookupMember (name : String) :
    Paired M I ρ (lookupMember h name) (lookupMember h' name) :=
  paired_look (fun _ _ hs => hs.lookup hh name) fun _ => composed_lookupMember h name

@[grind ←] theorem paired_findHook (name : String) :
    Paired M I ρ (findHook h name) (findHook h' name) :=
  paired_look (fun _ _ hs => hs.hook hh name) fun _ => composed_findHook h name

theorem paired_tupleAttribute (name : String) :
    Paired M I ρ (inspectHeap fun heap => heap.tupleAttribute h name)
      (inspectHeap fun heap => heap.tupleAttribute h' name) :=
  paired_look (fun _ _ hs => hs.tupleAttribute hh name) fun _ => composed_tupleAttribute h name

@[grind ←] theorem paired_listItems : Paired M I ρ (listItems h) (listItems h') :=
  paired_look (fun _ _ hs => hs.listItems hh) fun _ => composed_listItems h

@[grind ←] theorem paired_exceptionArgs : Paired M I ρ (exceptionArgs h) (exceptionArgs h') :=
  paired_look (fun _ _ hs => hs.exceptionArgs hh) fun _ => composed_exceptionArgs h

@[grind ←] theorem paired_typeName : Paired M I ρ (typeName h) (typeName h') :=
  paired_read fun _ _ hs => hs.typeName hh

@[grind ←] theorem paired_className : Paired M I ρ (className h) (className h') :=
  paired_read fun _ _ hs => hs.className hh

@[grind ←] theorem paired_isCallable : Paired M I ρ (isCallable h) (isCallable h') :=
  paired_read fun _ _ hs => hs.isCallable hh

@[grind ←] theorem paired_isInstance (hk : ρ k k') :
    Paired M I ρ (isInstance h k) (isInstance h' k') :=
  paired_read fun _ _ hs => hs.isInstance hh hk

@[grind ←] theorem paired_isSubtype (hk : ρ k k') :
    Paired M I ρ (isSubtype h k) (isSubtype h' k') :=
  paired_read fun _ _ hs => hs.isSubtype hh hk

theorem paired_ofObject {f : Object → β}
    (hf : ∀ σ o o', SameObject M σ o o' → rel M σ (f o) (f o')) :
    Paired M I ρ (do return f (← object h)) (do return f (← object h')) :=
  (paired_object hh).bind fun σ _ o o' ho => .pure (hf σ o o' ho)

@[grind ←] theorem paired_isType : Paired M I ρ (isType h) (isType h') :=
  paired_ofObject hh fun _ _ _ ho => ho.isType_eq

@[grind ←] theorem paired_intValue : Paired M I ρ (intValue h) (intValue h') :=
  paired_ofObject hh fun _ _ _ ho => rel_eq_iff.mpr ho.intValue_eq

@[grind ←] theorem paired_boolValue : Paired M I ρ (boolValue h) (boolValue h') :=
  paired_ofObject hh fun _ _ _ ho => rel_eq_iff.mpr ho.boolValue_eq

@[grind ←] theorem paired_textValue : Paired M I ρ (textValue h) (textValue h') :=
  paired_ofObject hh fun _ _ _ ho => rel_eq_iff.mpr ho.textValue_eq

@[grind ←] theorem paired_tupleItems : Paired M I ρ (tupleItems h) (tupleItems h') :=
  paired_ofObject hh fun _ _ _ ho => ho.tupleItems

@[grind ←] theorem paired_dictEntries : Paired M I ρ (dictEntries h) (dictEntries h') :=
  paired_ofObject hh fun _ _ _ ho => ho.dictEntries

@[grind ←] theorem paired_generatorResult : Paired M I ρ (generatorResult h) (generatorResult h') :=
  paired_ofObject hh fun _ _ _ ho => ho.generatorResult

@[grind ←] theorem paired_setAttribute (name : String) (hv : ρ v v') :
    Paired M I ρ (setAttribute h name v) (setAttribute h' name v') :=
  ⟨fun _ _ => (lockstep_setAttribute hh hv name).imp fun _ _ _ _ _ => rfl,
    fun _ _ hρ => .act (.storing rfl rfl rfl (hρ ▸ hv).2) (fun _ => rfl) (by simp)⟩

@[grind ←] theorem paired_eraseAttribute (name : String) :
    Paired M I ρ (.act (.eraseAttribute h name)) (.act (.eraseAttribute h' name)) :=
  ⟨fun _ _ => (lockstep_eraseAttribute hh name).imp fun _ _ _ _ _ => rfl,
    fun _ _ _ => .act (.silent rfl rfl rfl) (fun _ => rfl) (by simp)⟩

@[grind ←] theorem paired_setEntry (key : String) (hv : ρ v v') :
    Paired M I ρ (.act (.setEntry h key v)) (.act (.setEntry h' key v')) :=
  ⟨fun _ _ => (lockstep_setEntry hh hv key).imp fun _ _ _ _ _ => rfl,
    fun _ _ hρ => .act (.storing rfl rfl rfl (hρ ▸ hv).2) (fun _ => rfl) (by simp)⟩

@[grind ←] theorem paired_eraseEntry (key : String) :
    Paired M I ρ (.act (.eraseEntry h key)) (.act (.eraseEntry h' key)) :=
  ⟨fun _ _ => (lockstep_eraseEntry hh key).imp fun _ _ _ _ _ => rfl,
    fun _ _ _ => .act (.silent rfl rfl rfl) (fun _ => rfl) (by simp)⟩

@[grind ←] theorem paired_call (ha : Forall₂ ρ args args') :
    Paired M I ρ (call h args) (call h' args') :=
  ⟨fun _ _ => lockstep_call hh ha, fun _ _ hρ => composed_call (hρ ▸ hh).2
    (Renaming.all_known (hρ ▸ ha))⟩

@[grind ←] theorem paired_advance : Paired M I ρ (advance h) (advance h') :=
  ⟨fun _ _ => lockstep_advance hh, fun _ _ _ => composed_advance h⟩

end

@[grind ←] theorem paired_writeText (text : String) :
    Paired M I ρ (writeText text) (writeText text) :=
  ⟨fun _ _ => lockstep_writeText text, fun _ _ _ => .ask (.silent rfl rfl rfl) (fun _ => rfl)
    (by simp)⟩

@[grind ←] theorem paired_flushConsole : Paired M I ρ flushConsole flushConsole :=
  ⟨fun _ _ => lockstep_flushConsole, fun _ _ _ => .ask (.silent rfl rfl rfl) (fun _ => rfl)
    (by simp)⟩

@[grind ←] theorem paired_readLine : Paired M I ρ readLine readLine :=
  ⟨fun _ _ => lockstep_readLine.imp fun _ _ _ _ h => rel_eq_iff.mpr h,
    fun _ _ _ => .ask (.silent rfl rfl rfl) (fun _ => rfl) (by simp)⟩

theorem paired_allocate {o o' : Object} (ho : SameObject M ρ o o') (hb : o.base = none)
    (hfits : ∀ s : State, s.Orderly → s.Fits o) : Paired M I ρ (allocate o) (allocate o') :=
  ⟨fun _ hS => lockstep_allocate (hS ▸ ho) hb,
    fun _ _ hρ => .allocate hfits (Renaming.all_known (hρ ▸ ho).references)⟩

@[grind ←] theorem paired_newInt (n : Int64) : Paired M I ρ (newInt n) (newInt n) :=
  paired_allocate ⟨.int n, ρ.type .int, .empty⟩ rfl fun _ _ => .int n

@[grind ←] theorem paired_newText (text : String) : Paired M I ρ (newText text) (newText text) :=
  paired_allocate ⟨.str text, ρ.type .str, .empty⟩ rfl fun _ _ => .text text

@[grind ←] theorem paired_newTuple (hi : Forall₂ ρ items items') :
    Paired M I ρ (newTuple items) (newTuple items') :=
  paired_allocate ⟨.tuple hi, ρ.type .tuple, .empty⟩ rfl fun _ _ => .items items

@[grind ←] theorem paired_emptyDict (ht : ρ h h') :
    Paired M I ρ (allocate (.emptyDict h)) (allocate (.emptyDict h')) :=
  paired_allocate ⟨.dict .empty, ht, .empty⟩ rfl fun _ _ => .mapping h

@[grind ←] theorem paired_newDict : Paired M I ρ newDict newDict := paired_emptyDict (ρ.type .dict)

@[grind ←] theorem paired_newGenerator {c c' : Coroutine} (hc : c.Matches ρ (M.Loose ρ) c') :
    Paired M I ρ (newGenerator c) (newGenerator c') :=
  paired_allocate ⟨.generator (.suspended hc), ρ.type .generator, .empty⟩ rfl fun _ _ =>
    .coroutine c

@[grind ←] theorem paired_ofBound (hr : ρ h h') (hf : ρ k k') :
    Paired M I ρ (allocate (.ofBound h k)) (allocate (.ofBound h' k')) :=
  paired_allocate ⟨.bound hr hf, ρ.type .function, .empty⟩ rfl fun _ _ => .bound h k

@[grind ←] theorem paired_newList (hi : Forall₂ ρ items items') :
    Paired M I ρ (newList items) (newList items') := by
  refine (paired_newTuple hi).bind fun σ _ cell cell' hcell => ?_
  exact paired_allocate ⟨.plain, σ.type .list, .ofList (.cons ⟨rfl, hcell⟩ .nil)⟩ rfl fun _ hs =>
    .plain _ (hs.heap.isType_builtin .list) (.ofList _)

end ObjectModel
