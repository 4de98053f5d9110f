import ObjectModel.Proofs.References.Safe
import ObjectModel.Proofs.Renaming.Matching
import ObjectModel.Proofs.Types.Orderly

/-!
# Similar states

Two states are similar under a renaming of handles if related handles name matching objects, or both
name nothing. Objects that no related handle names may be anything: the two states may hold
different garbage, in different slots.

* `Heap.Similar.allocate`, `Heap.Similar.modify`, `Heap.Similar.collect` -- **what is done alike on
  both sides keeps them similar**. A new object extends the renaming by one pair.
-/

namespace ObjectModel

open List (Forall₂)

variable {l l' extra extra' : List Handle} {change change' : Object → Object}
  {counts counts' : List (Handle × Nat)}

/-! ## 1. Renamings -/

/-- A one-to-one relation of handles. The builtin types and the singletons are related to
themselves. -/
structure Renaming where
  rel : Handle → Handle → Prop
  unique : Relator.BiUnique rel
  fixed : ∀ {h : Handle}, Known [] h → rel h h

namespace Renaming

instance : CoeFun Renaming fun _ => Handle → Handle → Prop := ⟨rel⟩

/-- One renaming relates whatever another one does. -/
instance : LE Renaming := ⟨fun ρ σ => ∀ ⦃a b : Handle⦄, ρ a b → σ a b⟩

variable {ρ σ τ : Renaming} {a b c d : Handle}

theorem le_refl (ρ : Renaming) : ρ ≤ ρ := fun _ _ h => h

theorem le_trans (h : ρ ≤ σ) (h' : σ ≤ τ) : ρ ≤ τ := fun _ _ hab => h' (h hab)

/-- **Equality is kept**: two handles are the same if their counterparts are. -/
theorem eq_iff (ρ : Renaming) (h : ρ a b) (h' : ρ c d) : a = c ↔ b = d := by
  constructor
  · rintro rfl
    exact ρ.unique.2 h h'
  · rintro rfl
    exact ρ.unique.1 h h'

theorem beq_eq (ρ : Renaming) (h : ρ a b) (h' : ρ c d) : (a == c) = (b == d) := by
  rw [Bool.eq_iff_iff, beq_iff_eq, beq_iff_eq]
  exact ρ.eq_iff h h'

theorem ofBool (ρ : Renaming) (t : Bool) : ρ (.ofBool t) (.ofBool t) := ρ.fixed (Known.ofBool t)

theorem all (h : ρ ≤ σ) (hl : Forall₂ ρ l l') : Forall₂ σ l l' := hl.imp fun _ _ hab => h hab

/-- The renaming with one more pair of handles, both of which are new to it. -/
def add (ρ : Renaming) (a b : Handle) (ha : ∀ d, ¬ ρ a d) (hb : ∀ c, ¬ ρ c b) : Renaming where
  rel c d := ρ c d ∨ c = a ∧ d = b
  unique := by
    constructor
    · rintro c c' d (h | ⟨rfl, rfl⟩) (h' | ⟨rfl, he⟩)
      · exact ρ.unique.1 h h'
      · exact absurd (he ▸ h) (hb _)
      · exact absurd h' (hb _)
      · rfl
    · rintro c d d' (h | ⟨rfl, rfl⟩) (h' | ⟨he, rfl⟩)
      · exact ρ.unique.2 h h'
      · exact absurd (he ▸ h) (ha _)
      · exact absurd h' (ha _)
      · rfl
  fixed h := Or.inl (ρ.fixed h)

theorem le_add (ρ : Renaming) {ha : ∀ d, ¬ ρ a d} {hb : ∀ c, ¬ ρ c b} : ρ ≤ ρ.add a b ha hb :=
  fun _ _ h => Or.inl h

theorem add_self (ρ : Renaming) {ha : ∀ d, ¬ ρ a d} {hb : ∀ c, ¬ ρ c b} : ρ.add a b ha hb a b :=
  Or.inr ⟨rfl, rfl⟩

end Renaming

/-- What is asked of two states that are compared. -/
structure Mode where
  /-- The states are equal, so slots and counts may be asked for. -/
  numbers : Prop
  /-- Handles of the first state whose counterparts are gone. Names may mention them. -/
  dead : Handle → Prop
  exact : numbers → ∀ h, ¬ dead h

/-- Related, or dead on the first side. -/
def Mode.Loose (M : Mode) (ρ : Renaming) (a b : Handle) : Prop := ρ a b ∨ M.dead a

namespace Mode

variable {M : Mode} {ρ σ : Renaming} {a b : Handle}

theorem Loose.of (h : ρ a b) : M.Loose ρ a b := Or.inl h

theorem Loose.mono (h : ρ ≤ σ) (hl : M.Loose ρ a b) : M.Loose σ a b := hl.imp_left fun hab => h hab

/-- A handle that is not dead is strictly related. -/
theorem Loose.strict (hl : M.Loose ρ a b) (ha : ¬ M.dead a) : ρ a b := hl.resolve_right ha

theorem loose_all (hl : Forall₂ ρ l l') : Forall₂ (M.Loose ρ) l l' := hl.imp fun _ _ h => .of h

theorem strict_all (hl : Forall₂ (M.Loose ρ) l l') (ha : ∀ a ∈ l, ¬ M.dead a) : Forall₂ ρ l l' := by
  induction hl with
  | nil => exact .nil
  | cons h _ ih =>
    exact .cons (h.strict (ha _ List.mem_cons_self))
      (ih fun a hm => ha a (List.mem_cons_of_mem _ hm))

end Mode

/-! ## 2. Similar heaps -/

namespace Heap

/-- Every type has a lineage. -/
def Grounded (heap : Heap) : Prop := ∀ h, heap.IsType h → ∃ links, heap.Lineage h links

variable {M : Mode} {ρ σ : Renaming} {heap heap' : Heap} {a b h h' : Handle} {o o' : Object}
  {roots roots' : List Handle}

namespace Grounded

theorem allocate (hg : heap.Grounded) (hw : heap.WellFormed)
    (hbase : ∀ base, o.base = some base → heap.IsType base) : (heap.allocate o).2.Grounded := by
  intro h ht
  obtain ⟨p, name, base, hget, hp⟩ := isType_iff.mp ht
  rw [get?_allocate hw] at hget
  split at hget
  · rename_i he
    cases hget
    have hnew : (heap.allocate o).2.get? h = some o := he ▸ get?_allocate_self hw o
    cases base with
    | none => exact ⟨_, .root hnew hp⟩
    | some base =>
      obtain ⟨links, hl⟩ := hg base (hbase base (by rw [Object.base, hp]))
      exact ⟨_, .derived hnew hp (hl.allocate hw o)⟩
  · obtain ⟨links, hl⟩ := hg h (isType_iff.mpr ⟨p, name, base, hget, hp⟩)
    exact ⟨links, hl.allocate hw o⟩

theorem alike (hg : heap.Grounded) (ha : heap.Alike heap') : heap'.Grounded := by
  intro h ht
  obtain ⟨links, hl⟩ := hg h (ht.of_alike ha)
  exact ⟨links, hl.alike ha⟩

theorem collect (hg : heap.Grounded) (roots : List Handle) : (heap.collect roots).2.Grounded := by
  intro h ht
  obtain ⟨o, hget, hp⟩ := ht
  obtain ⟨links, hl⟩ := hg h ⟨o, (get?_of_collect hget).1, hp⟩
  exact ⟨links, hl.collect (contains_of_get? hget)⟩

end Grounded

/-- **Related handles name matching objects, or both name nothing.** -/
structure Similar (M : Mode) (ρ : Renaming) (heap heap' : Heap) : Prop where
  left : heap.WellFormed
  right : heap'.WellFormed
  grounded : heap.Grounded
  /-- The root of all types is there. -/
  root : heap.IsType BuiltinType.object.handle
  taken_left : ∀ {a b : Handle}, ρ a b → heap.Taken a
  taken_right : ∀ {a b : Handle}, ρ a b → heap'.Taken b
  get? : ∀ {a b : Handle}, ρ a b →
    Option.Rel (Object.Matches ρ (M.Loose ρ)) (heap.get? a) (heap'.get? b)

theorem matches_mono (hle : ρ ≤ σ) (ho : o.Matches ρ (M.Loose ρ) o') : o.Matches σ (M.Loose σ) o' :=
  ho.mono (fun _ _ hab => hle hab) fun _ _ hab => hab.mono hle

/-! ### What the roots lead to -/

/-- A walk along references is followed by one along the counterparts. -/
theorem Leads.follow {R L : Handle → Handle → Prop} (hget : ∀ {a b o}, R a b → heap.get? a
      = some o → ∃ o', heap'.get? b = some o' ∧ o.Matches R L o') (hroots : Forall₂ R roots roots')
    (hl : heap.Leads (· ∈ roots) a) : ∃ b, R a b ∧ heap'.Leads (· ∈ roots') b := by
  have hmem : ∀ {l l' : List Handle} {a : Handle}, Forall₂ R l l' → a ∈ l → ∃ b ∈ l', R a b := by
    intro l l' a hll
    induction hll with
    | nil => exact fun hm => absurd hm List.not_mem_nil
    | cons hr _ ih =>
      intro hm
      rcases List.mem_cons.mp hm with rfl | hm
      · exact ⟨_, List.mem_cons_self, hr⟩
      · obtain ⟨b, hb, hab⟩ := ih hm
        exact ⟨b, List.mem_cons_of_mem _ hb, hab⟩
  induction hl with
  | root hr =>
    obtain ⟨b, hb, hab⟩ := hmem hroots hr
    exact ⟨b, hab, .root hb⟩
  | step _ ho hrefers ih =>
    obtain ⟨b, hab, hlb⟩ := ih
    obtain ⟨o', ho', hm⟩ := hget hab ho
    obtain ⟨r', hr', hrr⟩ := hmem hm.references (Object.mem_references_iff.mpr hrefers)
    exact ⟨r', hrr, .step hlb ho' (Object.mem_references_iff.mp hr')⟩

namespace Similar

variable (hs : heap.Similar M ρ heap')

include hs

theorem get?_left (hab : ρ a b) (ho : heap.get? a = some o) :
    ∃ o', heap'.get? b = some o' ∧ o.Matches ρ (M.Loose ρ) o' := by
  have hg := hs.get? hab
  rw [ho] at hg
  generalize heap'.get? b = y at hg ⊢
  cases hg with
  | some hm => exact ⟨_, rfl, hm⟩

theorem get?_right (hab : ρ a b) (ho : heap'.get? b = some o') :
    ∃ o, heap.get? a = some o ∧ o.Matches ρ (M.Loose ρ) o' := by
  have hg := hs.get? hab
  rw [ho] at hg
  generalize heap.get? a = x at hg ⊢
  cases hg with
  | some hm => exact ⟨_, rfl, hm⟩

theorem contains_eq (hab : ρ a b) : heap.contains a = heap'.contains b := by
  have hg := hs.get? hab
  unfold Heap.contains
  generalize heap.get? a = x at hg ⊢
  generalize heap'.get? b = y at hg ⊢
  cases hg with
  | none => rfl
  | some _ => rfl

theorem get?_none_iff (hab : ρ a b) : heap.get? a = none ↔ heap'.get? b = none := by
  rw [← not_contains_iff, ← not_contains_iff, hs.contains_eq hab]

/-- **The roots lead to a handle on one side exactly if they lead to its counterpart on the
other.** -/
theorem leads_iff (hroots : Forall₂ ρ roots roots') (hab : ρ a b) :
    heap.Leads (· ∈ roots) a ↔ heap'.Leads (· ∈ roots') b := by
  constructor
  · intro hl
    obtain ⟨b', hab', hl'⟩ := hl.follow (fun h ho => hs.get?_left h ho) hroots
    rw [ρ.unique.2 hab hab']
    exact hl'
  · intro hl
    have hback : ∀ {b a : Handle} {o' : Object}, flip ρ b a → heap'.get? b = some o' →
        ∃ o, heap.get? a = some o ∧ o'.Matches (flip ρ) (flip (M.Loose ρ)) o := by
      intro b a o' hab ho'
      obtain ⟨o, ho, hm⟩ := hs.get?_right hab ho'
      exact ⟨o, ho, hm.flip⟩
    obtain ⟨a', hab', hl'⟩ := hl.follow hback hroots.flip
    rw [ρ.unique.1 hab hab']
    exact hl'

/-! ### What keeps heaps similar -/

/-- No handle is related to one that is about to be given out. -/
theorem fresh_left (o : Object) (d : Handle) : ¬ ρ (heap.allocate o).1 d :=
  fun h => (hs.taken_left h).ne_allocate hs.left o rfl

theorem fresh_right (o : Object) (c : Handle) : ¬ ρ c (heap'.allocate o).1 :=
  fun h => (hs.taken_right h).ne_allocate hs.right o rfl

/-- The renaming behind an allocation on both sides. -/
def extended (o o' : Object) : Renaming :=
  ρ.add (heap.allocate o).1 (heap'.allocate o').1 (hs.fresh_left o) (hs.fresh_right o')

/-- **Matching new objects** are related to each other. -/
theorem allocate (ho : o.Matches ρ (M.Loose ρ) o')
    (hbase : ∀ base, o.base = some base → heap.IsType base) :
    (heap.allocate o).2.Similar M (hs.extended o o') (heap'.allocate o').2 where
  left := hs.left.allocate o
  right := hs.right.allocate o'
  grounded := hs.grounded.allocate hs.left hbase
  root := hs.root.allocate hs.left o
  taken_left := by
    rintro a b (hab | ⟨rfl, rfl⟩)
    · exact (hs.taken_left hab).allocate o
    · exact (hs.left.allocate o).taken (contains_of_get? (get?_allocate_self hs.left o))
  taken_right := by
    rintro a b (hab | ⟨rfl, rfl⟩)
    · exact (hs.taken_right hab).allocate o'
    · exact (hs.right.allocate o').taken (contains_of_get? (get?_allocate_self hs.right o'))
  get? := by
    have hle : ρ ≤ hs.extended o o' := ρ.le_add
    rintro a b (hab | ⟨rfl, rfl⟩)
    · rw [get?_allocate hs.left, get?_allocate hs.right, if_neg ((hs.taken_left hab).ne_allocate
        hs.left o), if_neg ((hs.taken_right hab).ne_allocate hs.right o')]
      exact rel_mono (fun _ _ hm => matches_mono hle hm) (hs.get? hab)
    · rw [get?_allocate_self hs.left, get?_allocate_self hs.right]
      exact .some (matches_mono hle ho)

/-- **An object that only one side makes** is related to nothing. -/
theorem allocate_left (hbase : ∀ base, o.base = some base → heap.IsType base) :
    (heap.allocate o).2.Similar M ρ heap' where
  left := hs.left.allocate o
  right := hs.right
  grounded := hs.grounded.allocate hs.left hbase
  root := hs.root.allocate hs.left o
  taken_left hab := (hs.taken_left hab).allocate o
  taken_right := hs.taken_right
  get? hab := by
    rw [get?_allocate hs.left, if_neg ((hs.taken_left hab).ne_allocate hs.left o)]
    exact hs.get? hab

theorem allocate_right (o' : Object) : heap.Similar M ρ (heap'.allocate o').2 where
  left := hs.left
  right := hs.right.allocate o'
  grounded := hs.grounded
  root := hs.root
  taken_left := hs.taken_left
  taken_right hab := (hs.taken_right hab).allocate o'
  get? hab := by
    rw [get?_allocate hs.right, if_neg ((hs.taken_right hab).ne_allocate hs.right o')]
    exact hs.get? hab

/-- **Related objects that are changed alike.** -/
theorem modify (hh : ρ h h') (ha : ∀ o : Object, o.Alike (change o))
    (hc : ∀ o o', o.Matches ρ (M.Loose ρ) o' → (change o).Matches ρ (M.Loose ρ) (change' o')) :
    (heap.modify h change).Similar M ρ (heap'.modify h' change') where
  left := hs.left.modify h change
  right := hs.right.modify h' change'
  grounded := hs.grounded.alike (alike_modify heap h ha)
  root := hs.root.alike (alike_modify heap h ha)
  taken_left hab := (hs.taken_left hab).modify h change
  taken_right hab := (hs.taken_right hab).modify h' change'
  get? := by
    intro a b hab
    rw [get?_modify, get?_modify]
    by_cases he : a = h
    · rw [if_pos he, if_pos ((ρ.eq_iff hab hh).mp he)]
      have hg := hs.get? hh
      generalize heap.get? h = x at hg ⊢
      generalize heap'.get? h' = y at hg ⊢
      cases hg with
      | none => exact .none
      | some hm => exact .some (hc _ _ hm)
    · rw [if_neg he, if_neg (mt (ρ.eq_iff hab hh).mpr he)]
      exact hs.get? hab

/-- **Collections from related roots** free counterparts only together. -/
theorem collect (hroots : Forall₂ ρ roots roots') (hobject : BuiltinType.object.handle ∈ roots) :
    (heap.collect roots).2.Similar M ρ (heap'.collect roots').2 where
  left := hs.left.collect roots
  right := hs.right.collect roots'
  grounded := hs.grounded.collect roots
  root := hs.root.collect (.root hobject)
  taken_left hab := (hs.taken_left hab).sweep _
  taken_right hab := (hs.taken_right hab).sweep _
  get? := by
    intro a b hab
    have hiff : (heap.collect roots).2.contains a = true ↔
        (heap'.collect roots').2.contains b = true := by
      rw [contains_collect, contains_collect, hs.contains_eq hab, hs.leads_iff hroots hab]
    by_cases hk : (heap.collect roots).2.contains a = true
    · rw [get?_collect _ _ hk, get?_collect _ _ (hiff.mp hk)]
      exact hs.get? hab
    · rw [not_contains_iff.mp hk, not_contains_iff.mp (mt hiff.mpr hk)]
      exact .none

end Similar

end Heap

/-! ## 3. Similar states -/

/-- One pin on each side, of related handles and of the same count. -/
def PinMatches (ρ : Renaming) (p p' : Handle × Nat) : Prop := ρ p.1 p'.1 ∧ p.2 = p'.2

/-- **States that differ in handles and garbage only.** Names that scripts share may mention dead
handles. -/
structure State.Similar (M : Mode) (ρ : Renaming) (s s' : State) : Prop where
  heap : s.heap.Similar M ρ s'.heap
  globals : s.globals.Matches ρ s'.globals
  pins : Forall₂ (PinMatches ρ) s.pins.counts s'.pins.counts
  shared : s.shared.Matches (M.Loose ρ) s'.shared
  console : s.console = s'.console
  limits : s.limits = s'.limits
  callDepth : s.callDepth = s'.callDepth
  /-- Where numbers may be asked for, the two sides are one. -/
  same : M.numbers → s = s' ∧ ∀ a b, ρ a b → a = b
  /-- Where numbers may be asked for, all handles that were given out are related. -/
  complete : M.numbers → ∀ {h : Handle}, s.heap.Taken h → ρ h h

/-- How a renaming is extended from two states to two later ones: by handles that had not been given
out. -/
structure Renaming.Grows (ρ : Renaming) (s s' : State) (σ : Renaming) (t t' : State) : Prop where
  le : ρ ≤ σ
  fresh : ∀ {a b : Handle}, σ a b → ρ a b ∨ ¬ s.heap.Taken a ∧ ¬ s'.heap.Taken b
  left : ∀ {h : Handle}, s.heap.Taken h → t.heap.Taken h
  right : ∀ {h : Handle}, s'.heap.Taken h → t'.heap.Taken h

namespace Renaming.Grows

variable {ρ σ τ : Renaming} {s s' t t' u u' : State}

theorem refl (ρ : Renaming) (s s' : State) : ρ.Grows s s' ρ s s' := ⟨le_refl ρ, Or.inl, id, id⟩

theorem trans (h : ρ.Grows s s' σ t t') (h' : σ.Grows t t' τ u u') : ρ.Grows s s' τ u u' where
  le := le_trans h.le h'.le
  fresh hab := by
    rcases h'.fresh hab with hab | ⟨ha, hb⟩
    · exact h.fresh hab
    · exact Or.inr ⟨mt h.left ha, mt h.right hb⟩
  left ht := h'.left (h.left ht)
  right ht := h'.right (h.right ht)

/-- Nothing new is related. -/
theorem same (hl : ∀ {h : Handle}, s.heap.Taken h → t.heap.Taken h)
    (hr : ∀ {h : Handle}, s'.heap.Taken h → t'.heap.Taken h) : ρ.Grows s s' ρ t t' :=
  ⟨le_refl ρ, Or.inl, hl, hr⟩

end Renaming.Grows

namespace State

variable {M : Mode} {ρ : Renaming} {s s' : State} {h h' v v' : Handle} {o o' : Object}

namespace Similar

variable (hs : s.Similar M ρ s')

include hs

/-- The renaming behind an allocation on both sides. -/
abbrev extended (o o' : Object) : Renaming := hs.heap.extended o o'

theorem grows_extended (o o' : Object) :
    ρ.Grows s s' (hs.extended o o') (s.allocate o).2 (s'.allocate o').2 where
  le := ρ.le_add
  fresh := by
    rintro a b (hab | ⟨rfl, rfl⟩)
    · exact Or.inl hab
    · exact Or.inr ⟨fun ht => ht.ne_allocate hs.heap.left o rfl,
        fun ht => ht.ne_allocate hs.heap.right o' rfl⟩
  left ht := ht.allocate o
  right ht := ht.allocate o'

theorem extended_self (o o' : Object) : hs.extended o o' (s.allocate o).1 (s'.allocate o').1 :=
  ρ.add_self

theorem allocate (ho : o.Matches ρ (M.Loose ρ) o')
    (hbase : ∀ base, o.base = some base → s.heap.IsType base) :
    (s.allocate o).2.Similar M (hs.extended o o') (s'.allocate o').2 where
  heap := hs.heap.allocate ho hbase
  globals := hs.globals.mono fun _ _ hab => Or.inl hab
  pins := hs.pins.imp fun _ _ hp => ⟨Or.inl hp.1, hp.2⟩
  shared := hs.shared.mono fun _ _ hab => hab.imp_left Or.inl
  console := hs.console
  limits := hs.limits
  callDepth := hs.callDepth
  same hn := by
    obtain ⟨rfl, heq⟩ := hs.same hn
    have hloose : ∀ a b, M.Loose ρ a b → a = b := fun a b hl => heq a b (hl.strict (M.exact hn a))
    cases ho.eq heq hloose
    refine ⟨rfl, ?_⟩
    rintro a b (hab | ⟨rfl, rfl⟩)
    · exact heq a b hab
    · rfl
  complete hn h ht := by
    obtain ⟨rfl, heq⟩ := hs.same hn
    have hloose : ∀ a b, M.Loose ρ a b → a = b := fun a b hl => heq a b (hl.strict (M.exact hn a))
    cases ho.eq heq hloose
    rcases Heap.Taken.of_allocate ht hs.heap.left with ht | rfl
    · exact Or.inl (hs.complete hn ht)
    · exact Or.inr ⟨rfl, rfl⟩

theorem allocate_left (hn : ¬ M.numbers) (hbase : ∀ base, o.base = some base → s.heap.IsType base) :
    (s.allocate o).2.Similar M ρ s' :=
  { hs with
    heap := hs.heap.allocate_left hbase
    same := fun h => absurd h hn
    complete := fun h => absurd h hn }

theorem allocate_right (hn : ¬ M.numbers) (o' : Object) : s.Similar M ρ (s'.allocate o').2 :=
  { hs with
    heap := hs.heap.allocate_right o'
    same := fun h => absurd h hn
    complete := fun h => absurd h hn }

theorem modify (hh : ρ h h') (ha : ∀ o : Object, o.Alike (change o))
    (hc : ∀ o o', o.Matches ρ (M.Loose ρ) o' → (change o).Matches ρ (M.Loose ρ) (change' o'))
    (hn : M.numbers → change = change') : (s.modify h change).Similar M ρ (s'.modify h' change') :=
  { hs with
    heap := hs.heap.modify hh ha hc
    same := fun hnum => by
      obtain ⟨rfl, heq⟩ := hs.same hnum
      cases heq h h' hh
      cases hn hnum
      exact ⟨rfl, heq⟩
    complete := fun hnum _ ht => hs.complete hnum (Heap.Taken.of_modify ht) }

theorem eq_of_numbers (hn : M.numbers) (hh : ρ h h') : h = h' := (hs.same hn).2 h h' hh

theorem setAttribute (hh : ρ h h') (hv : ρ v v') (name : String) :
    (s.setAttribute h name v).Similar M ρ (s'.setAttribute h' name v') :=
  hs.modify hh (fun _ => ⟨rfl, rfl⟩)
      (fun _ _ hm => ⟨hm.payload, hm.type, hm.attributes.insert name hv⟩) fun hn => by
    rw [hs.eq_of_numbers hn hv]

theorem eraseAttribute (hh : ρ h h') (name : String) :
    (s.eraseAttribute h name).Similar M ρ (s'.eraseAttribute h' name) :=
  hs.modify hh (fun _ => ⟨rfl, rfl⟩) (fun _ _ hm => ⟨hm.payload, hm.type, hm.attributes.erase name⟩)
    fun _ => rfl

theorem modifyEntries (hh : ρ h h') {change change' : OrderedMap Handle → OrderedMap Handle}
    (hc : ∀ m m', m.Matches ρ m' → (change m).Matches ρ (change' m'))
    (hn : M.numbers → change = change') :
    (s.modifyEntries h change).Similar M ρ (s'.modifyEntries h' change') := by
  refine hs.modify hh (fun o => ?_) (fun o o' hm => ?_) fun hnum => by rw [hn hnum]
  · split
    · rename_i he
      exact ⟨rfl, by rw [he]; rfl⟩
    · exact .refl o
  · have hp := hm.payload
    obtain ⟨payload, type, attributes⟩ := o
    obtain ⟨payload', type', attributes'⟩ := o'
    cases hp with
    | dict he => exact ⟨.dict (hc _ _ he), hm.type, hm.attributes⟩
    | _ => exact hm

theorem setGenerator (hh : ρ h h') {g g' : Generator} (hg : g.Matches ρ (M.Loose ρ) g') :
    (s.setGenerator h g).Similar M ρ (s'.setGenerator h' g') := by
  refine hs.modify hh (fun o => ?_) (fun o o' hm => ?_) fun hn => ?_
  · split
    · rename_i he
      exact ⟨rfl, by rw [he]; rfl⟩
    · exact .refl o
  · have hp := hm.payload
    obtain ⟨payload, type, attributes⟩ := o
    obtain ⟨payload', type', attributes'⟩ := o'
    cases hp with
    | generator _ => exact ⟨.generator hg, hm.type, hm.attributes⟩
    | _ => exact hm
  · have heq := (hs.same hn).2
    have hpayload := (Payload.Matches.generator hg).eq heq fun a b hl =>
        heq a b (hl.strict (M.exact hn a))
    cases hpayload
    rfl

theorem setGlobal (hv : ρ v v') (name : String) :
    ({ s with globals := s.globals.insert name v } : State).Similar M ρ
      { s' with globals := s'.globals.insert name v' } :=
  { hs with
    globals := hs.globals.insert name hv
    same := fun hn => by
      obtain ⟨rfl, heq⟩ := hs.same hn
      cases heq v v' hv
      exact ⟨rfl, heq⟩ }

theorem setShared (hv : M.Loose ρ v v') (name : String) :
    ({ s with shared := s.shared.insert name v } : State).Similar M ρ
      { s' with shared := s'.shared.insert name v' } :=
  { hs with
    shared := hs.shared.insert name hv
    same := fun hn => by
      obtain ⟨rfl, heq⟩ := hs.same hn
      cases heq v v' (hv.strict (M.exact hn v))
      exact ⟨rfl, heq⟩ }

theorem setConsole (console : Console) :
    ({ s with console } : State).Similar M ρ { s' with console } :=
  { hs with
    console := rfl
    same := fun hn => by
      obtain ⟨rfl, heq⟩ := hs.same hn
      exact ⟨rfl, heq⟩ }

theorem setDepth {depth depth' : Nat} (hd : depth = depth') :
    ({ s with callDepth := depth } : State).Similar M ρ { s' with callDepth := depth' } :=
  { hs with
    callDepth := hd
    same := fun hn => by
      obtain ⟨rfl, heq⟩ := hs.same hn
      cases hd
      exact ⟨rfl, heq⟩ }

theorem enter : s.enter.Similar M ρ s'.enter := hs.setDepth (by rw [hs.callDepth])

theorem leave : s.leave.Similar M ρ s'.leave := hs.setDepth (by rw [hs.callDepth])

/-! ### Pins -/

omit hs in
theorem addOne (hc : Forall₂ (PinMatches ρ) counts counts') (hh : ρ h h') :
    Forall₂ (PinMatches ρ) (Pins.addOne h counts) (Pins.addOne h' counts') := by
  induction hc with
  | nil => exact .cons ⟨hh, rfl⟩ .nil
  | @cons p p' rest rest' hp hrest ih =>
    unfold Pins.addOne
    by_cases he : p.1 = h
    · rw [if_pos he, if_pos ((ρ.eq_iff hp.1 hh).mp he)]
      exact .cons ⟨hp.1, congrArg (· + 1) hp.2⟩ hrest
    · rw [if_neg he, if_neg (mt (ρ.eq_iff hp.1 hh).mpr he)]
      exact .cons hp ih

omit hs in
theorem removeOne (hc : Forall₂ (PinMatches ρ) counts counts') (hh : ρ h h') :
    Forall₂ (PinMatches ρ) (Pins.removeOne h counts) (Pins.removeOne h' counts') := by
  induction hc with
  | nil => exact .nil
  | @cons p p' rest rest' hp hrest ih =>
    unfold Pins.removeOne
    by_cases he : p.1 = h
    · rw [if_pos he, if_pos ((ρ.eq_iff hp.1 hh).mp he), hp.2]
      split
      · exact hrest
      · exact .cons ⟨hp.1, rfl⟩ hrest
    · rw [if_neg he, if_neg (mt (ρ.eq_iff hp.1 hh).mpr he)]
      exact .cons hp ih

theorem setPins {pins pins' : Pins} (hp : Forall₂ (PinMatches ρ) pins.counts pins'.counts)
    (hn : M.numbers → s = s' → pins = pins') :
    ({ s with pins } : State).Similar M ρ { s' with pins := pins' } :=
  { hs with
    pins := hp
    same := fun hnum => by
      obtain ⟨rfl, heq⟩ := hs.same hnum
      cases hn hnum rfl
      exact ⟨rfl, heq⟩ }

theorem pin (hh : ρ h h') :
    ({ s with pins := s.pins.pin h } : State).Similar M ρ { s' with pins := s'.pins.pin h' } :=
  hs.setPins (addOne hs.pins hh) fun hn he => by rw [he, hs.eq_of_numbers hn hh]

theorem unpin (hh : ρ h h') :
    ({ s with pins := s.pins.unpin h } : State).Similar M ρ { s' with pins := s'.pins.unpin h' } :=
  hs.setPins (removeOne hs.pins hh) fun hn he => by rw [he, hs.eq_of_numbers hn hh]

/-! ### Collections -/

/-- The collector starts from related roots. -/
theorem roots (he : Forall₂ ρ extra extra') :
    Forall₂ ρ (s.roots extra) (s'.roots extra') := by
  have htypes : Forall₂ ρ (BuiltinType.globalOrder.map (·.handle))
      (BuiltinType.globalOrder.map (·.handle)) := by
    refine List.forall₂_same.mpr fun h hm => ?_
    obtain ⟨t, _, rfl⟩ := List.mem_map.mp hm
    exact ρ.fixed (.type t)
  have hsingletons : Forall₂ ρ [Handle.none, .notImplemented, .true, .false]
      [Handle.none, .notImplemented, .true, .false] :=
    .cons (ρ.fixed .none)
      (.cons (ρ.fixed .notImplemented) (.cons (ρ.fixed .true) (.cons (ρ.fixed .false) .nil)))
  have hpins : Forall₂ ρ s.pins.handles s'.pins.handles := List.rel_map (fun _ _ hp => hp.1) hs.pins
  exact List.rel_append (List.rel_append
    (List.rel_append (List.rel_append htypes hsingletons) hs.globals.values) hpins) he

/-- **Collections on both sides** leave similar states; where the states are equal, they also answer
the same. -/
theorem collect (he : Forall₂ ρ extra extra') :
    (s.collect extra).2.Similar M ρ (s'.collect extra').2 := by
  have hsame : M.numbers → (s.collect extra).2 = (s'.collect extra').2 ∧ ∀ a b, ρ a b → a = b := by
    intro hn
    obtain ⟨rfl, heq⟩ := hs.same hn
    cases forall₂_eq he heq
    exact ⟨rfl, heq⟩
  unfold State.collect at hsame ⊢
  rw [← hs.callDepth] at hsame ⊢
  split
  · exact hs
  · rename_i hd
    rw [if_neg hd, if_neg hd] at hsame
    exact
      { hs with
        heap := hs.heap.collect (hs.roots he) (mem_roots_builtin s extra .object)
        callDepth := rfl
        same := hsame
        complete := fun hn _ ht => hs.complete hn (Heap.Taken.of_sweep ht hs.heap.left) }

end Similar

end State

end ObjectModel
