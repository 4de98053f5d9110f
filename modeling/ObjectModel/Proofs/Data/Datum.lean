import Mathlib.Data.List.Forall2
import Mathlib.Order.WellFounded
import ObjectModel.Proofs.Generators.Snapshot

/-!
# Data values

Numbers, texts, truth values and `None`, and the tuples, lists and mappings of them, as they stand
in a heap.

* `Datum` -- **a finite data value**: a layer whose items are finite data values. `Datum.nesting`
  counts its levels.
-/

namespace ObjectModel

universe u

/-! ## 1. Layers -/

/-- One level of a data value. A mapping has its entries in order. -/
inductive Layer (α : Type) where
  | int (n : Int64)
  | text (s : String)
  | bool (b : Bool)
  | none
  | tuple (items : List α)
  | list (items : List α)
  | dict (entries : List (String × α))
  deriving DecidableEq

namespace Layer

variable {α β : Type}

def items : Layer α → List α
  | tuple items => items
  | list items => items
  | dict entries => entries.map (·.2)
  | _ => []

/-- The type of the objects that stand for a layer. -/
def type : Layer α → BuiltinType
  | int _ => .int
  | text _ => .str
  | bool _ => .bool
  | none => .noneType
  | tuple _ => .tuple
  | list _ => .list
  | dict _ => .dict

def map (f : α → β) : Layer α → Layer β
  | int n => int n
  | text s => text s
  | bool b => bool b
  | none => none
  | tuple items => tuple (items.map f)
  | list items => list (items.map f)
  | dict entries => dict (entries.map fun entry => (entry.1, f entry.2))

/-- Treats the items from the front to the back. -/
def mapM {m : Type → Type u} [Monad m] (f : α → m β) : Layer α → m (Layer β)
  | int n => return int n
  | text s => return text s
  | bool b => return bool b
  | none => return none
  | tuple items => tuple <$> items.mapM f
  | list items => list <$> items.mapM f
  | dict entries => dict <$> entries.mapM fun entry => (entry.1, ·) <$> f entry.2

/-- Two layers of the same shape, with the same keys, whose items are related one by one. -/
inductive Matches (R : α → β → Prop) : Layer α → Layer β → Prop where
  | int (n : Int64) : Matches R (.int n) (.int n)
  | text (s : String) : Matches R (.text s) (.text s)
  | bool (b : Bool) : Matches R (.bool b) (.bool b)
  | none : Matches R .none .none
  | tuple {xs : List α} {ys : List β} : List.Forall₂ R xs ys → Matches R (.tuple xs) (.tuple ys)
  | list {xs : List α} {ys : List β} : List.Forall₂ R xs ys → Matches R (.list xs) (.list ys)
  | dict {xs : List (String × α)} {ys : List (String × β)} :
      List.Forall₂ (fun x y => x.1 = y.1 ∧ R x.2 y.2) xs ys → Matches R (.dict xs) (.dict ys)

@[simp] theorem items_map (f : α → β) (l : Layer α) : (l.map f).items = l.items.map f := by
  cases l <;> simp [items, map]

@[simp] theorem type_map (f : α → β) (l : Layer α) : (l.map f).type = l.type := by
  cases l <;> rfl

end Layer

/-! ## 2. Lists item by item -/

section

variable {α β : Type}

/-- Items are found for a list exactly if one is found for each. -/
theorem mapM_eq_some_iff {f : α → Option β} {xs : List α} {ys : List β} :
    xs.mapM f = some ys ↔ List.Forall₂ (fun x y => f x = some y) xs ys := by
  induction xs generalizing ys with
  | nil => simp [eq_comm]
  | cons x xs ih =>
    simp only [List.mapM_cons, Option.bind_eq_bind, Option.pure_def, Option.bind_eq_some_iff,
      Option.some.injEq, ih, List.forall₂_cons_left_iff]
    constructor
    · rintro ⟨y, hy, ys, hys, rfl⟩
      exact ⟨y, ys, hy, hys, rfl⟩
    · rintro ⟨y, ys, hy, hys, rfl⟩
      exact ⟨y, hy, ys, hys, rfl⟩

theorem exists_forall₂ {R : α → β → Prop} {xs : List α} (h : ∀ x ∈ xs, ∃ y, R x y) :
    ∃ ys, List.Forall₂ R xs ys := by
  induction xs with
  | nil => exact ⟨[], .nil⟩
  | cons x xs ih =>
    obtain ⟨y, hy⟩ := h x List.mem_cons_self
    obtain ⟨ys, hys⟩ := ih fun x' hx' => h x' (List.mem_cons_of_mem _ hx')
    exact ⟨y :: ys, .cons hy hys⟩

/-- What holds between the members of two related lists is added to the relation. -/
theorem forall₂_imp_mem {R S : α → β → Prop} {xs : List α} {ys : List β} (h : List.Forall₂ R xs ys)
    (hrs : ∀ x ∈ xs, ∀ y ∈ ys, R x y → S x y) : List.Forall₂ S xs ys := by
  induction h with
  | nil => exact .nil
  | cons hxy _ ih =>
    exact .cons (hrs _ List.mem_cons_self _ List.mem_cons_self hxy)
      (ih fun x hx y hy => hrs x (List.mem_cons_of_mem _ hx) y (List.mem_cons_of_mem _ hy))

theorem exists_of_forall₂_right {R : α → β → Prop} {xs : List α} {ys : List β}
    (h : List.Forall₂ R xs ys) : ∀ y ∈ ys, ∃ x ∈ xs, R x y := by
  induction h with
  | nil => exact List.forall_mem_nil _
  | cons hxy _ ih =>
    intro y hy
    rcases List.mem_cons.mp hy with rfl | hy
    · exact ⟨_, List.mem_cons_self, hxy⟩
    · obtain ⟨x, hx, hxy⟩ := ih y hy
      exact ⟨x, List.mem_cons_of_mem _ hx, hxy⟩

end

namespace Layer

variable {α β : Type} {R S : α → β → Prop} {l : Layer α} {m : Layer β}

/-! ## 3. Layers item by item -/

theorem mapM_eq_some_iff {f : α → Option β} :
    l.mapM f = some m ↔ l.Matches (fun x y => f x = some y) m := by
  have hentry : ∀ (x : String × α) (y : String × β), (x.1, ·) <$> f x.2 = some y ↔
      x.1 = y.1 ∧ f x.2 = some y.2 := by
    rintro ⟨key, x⟩ ⟨key', y⟩
    simp [and_comm, eq_comm]
  constructor
  · intro h
    cases l with
    | tuple xs =>
      obtain ⟨ys, hys, rfl⟩ := Option.map_eq_some_iff.mp h
      exact .tuple (ObjectModel.mapM_eq_some_iff.mp hys)
    | list xs =>
      obtain ⟨ys, hys, rfl⟩ := Option.map_eq_some_iff.mp h
      exact .list (ObjectModel.mapM_eq_some_iff.mp hys)
    | dict xs =>
      obtain ⟨ys, hys, rfl⟩ := Option.map_eq_some_iff.mp h
      exact .dict ((ObjectModel.mapM_eq_some_iff.mp hys).imp fun x y => (hentry x y).mp)
    | _ =>
      cases h
      constructor
  · intro h
    cases h with
    | tuple h => exact Option.map_eq_some_iff.mpr ⟨_, ObjectModel.mapM_eq_some_iff.mpr h, rfl⟩
    | list h => exact Option.map_eq_some_iff.mpr ⟨_, ObjectModel.mapM_eq_some_iff.mpr h, rfl⟩
    | dict h =>
      exact Option.map_eq_some_iff.mpr
        ⟨_, ObjectModel.mapM_eq_some_iff.mpr (h.imp fun x y => (hentry x y).mpr), rfl⟩
    | _ => rfl

namespace Matches

theorem items (h : l.Matches R m) : List.Forall₂ R l.items m.items := by
  cases h with
  | tuple h => exact h
  | list h => exact h
  | dict h =>
    exact List.forall₂_map_left_iff.mpr
      (List.forall₂_map_right_iff.mpr (h.imp fun _ _ => And.right))
  | _ => exact .nil

theorem mono (h : l.Matches R m) (hrs : ∀ x ∈ l.items, ∀ y ∈ m.items, R x y → S x y) :
    l.Matches S m := by
  cases h with
  | tuple h => exact .tuple (forall₂_imp_mem h hrs)
  | list h => exact .list (forall₂_imp_mem h hrs)
  | dict h =>
    refine .dict (forall₂_imp_mem h fun x hx y hy hxy => ⟨hxy.1, ?_⟩)
    exact hrs _ (List.mem_map_of_mem hx) _ (List.mem_map_of_mem hy) hxy.2
  | _ => constructor

end Matches

theorem exists_matches (h : ∀ x ∈ l.items, ∃ y, R x y) : ∃ m : Layer β, l.Matches R m := by
  cases l with
  | int n => exact ⟨.int n, .int n⟩
  | text s => exact ⟨.text s, .text s⟩
  | bool b => exact ⟨.bool b, .bool b⟩
  | none => exact ⟨.none, .none⟩
  | tuple xs =>
    obtain ⟨ys, hys⟩ := exists_forall₂ h
    exact ⟨.tuple ys, .tuple hys⟩
  | list xs =>
    obtain ⟨ys, hys⟩ := exists_forall₂ h
    exact ⟨.list ys, .list hys⟩
  | dict xs =>
    have hentries : ∀ x ∈ xs, ∃ y : String × β, x.1 = y.1 ∧ R x.2 y.2 := by
      intro x hx
      obtain ⟨y, hy⟩ := h x.2 (List.mem_map_of_mem hx)
      exact ⟨(x.1, y), rfl, hy⟩
    obtain ⟨ys, hys⟩ := exists_forall₂ hentries
    exact ⟨.dict ys, .dict hys⟩

end Layer

/-! ## 4. Finite data values -/

/-- **A finite data value.** -/
inductive Datum where
  | of (layer : Layer Datum)

namespace Datum

variable {β : Type}

mutual

/-- What `f` makes of a data value, given what it makes of the items. -/
def fold (f : Layer β → β) : Datum → β
  | of (.int n) => f (.int n)
  | of (.text s) => f (.text s)
  | of (.bool b) => f (.bool b)
  | of .none => f .none
  | of (.tuple items) => f (.tuple (foldItems f items))
  | of (.list items) => f (.list (foldItems f items))
  | of (.dict entries) => f (.dict (foldEntries f entries))
termination_by structural t => t

def foldItems (f : Layer β → β) : List Datum → List β
  | [] => []
  | t :: rest => fold f t :: foldItems f rest
termination_by structural ts => ts

def foldEntries (f : Layer β → β) : List (String × Datum) → List (String × β)
  | [] => []
  | (key, t) :: rest => (key, fold f t) :: foldEntries f rest
termination_by structural entries => entries

end

theorem foldItems_eq (f : Layer β → β) (items : List Datum) :
    foldItems f items = items.map (fold f) := by
  induction items with
  | nil => rfl
  | cons t rest ih => rw [foldItems, ih, List.map_cons]

theorem foldEntries_eq (f : Layer β → β) (entries : List (String × Datum)) :
    foldEntries f entries = entries.map fun entry => (entry.1, fold f entry.2) := by
  induction entries with
  | nil => rfl
  | cons entry rest ih => rw [foldEntries, ih, List.map_cons]

theorem fold_of (f : Layer β → β) (l : Layer Datum) : fold f (of l) = f (l.map (fold f)) := by
  cases l with
  | tuple items => rw [fold, foldItems_eq, Layer.map]
  | list items => rw [fold, foldItems_eq, Layer.map]
  | dict entries => rw [fold, foldEntries_eq, Layer.map]
  | _ => rfl

/-- The number of levels: one for a leaf or an empty container, else one more than the deepest item
has. -/
def nesting : Datum → Nat := fold fun l => 1 + l.items.foldr max 0

theorem nesting_of (l : Layer Datum) : (of l).nesting = 1 + (l.items.map nesting).foldr max 0 := by
  rw [nesting, fold_of, Layer.items_map]

theorem foldr_max_le_iff {xs : List Nat} {n : Nat} : xs.foldr max 0 ≤ n ↔ ∀ x ∈ xs, x ≤ n := by
  induction xs with
  | nil => simp
  | cons x xs ih => rw [List.foldr_cons, Nat.max_le, ih, List.forall_mem_cons]

theorem nesting_le_iff {l : Layer Datum} {n : Nat} :
    (of l).nesting ≤ n + 1 ↔ ∀ t ∈ l.items, t.nesting ≤ n := by
  rw [nesting_of, Nat.add_comm, Nat.add_le_add_iff_right, foldr_max_le_iff, List.forall_mem_map]

theorem nesting_pos (t : Datum) : 0 < t.nesting := by
  obtain ⟨l⟩ := t
  rw [nesting_of]
  omega

/-- **A property of all items is a property of all data values.** -/
theorem induction {P : Datum → Prop} (h : ∀ l : Layer Datum, (∀ t ∈ l.items, P t) → P (of l))
    (t : Datum) : P t := by
  -- on the number of levels: the items have fewer
  induction hn : t.nesting using Nat.strongRecOn generalizing t with
  | ind n ih =>
    obtain ⟨l⟩ := t
    refine h l fun t ht => ih t.nesting ?_ t rfl
    have hle : (of l).nesting ≤ n - 1 + 1 := by
      have hpos := nesting_pos (of l)
      omega
    have hitem := nesting_le_iff.mp hle t ht
    have hpos := nesting_pos (of l)
    omega

/-- No mapping occurs. -/
def Dictless : Datum → Prop := fold fun l => l.type ≠ .dict ∧ ∀ p ∈ l.items, p

theorem dictless_of {l : Layer Datum} :
    (of l).Dictless ↔ l.type ≠ .dict ∧ ∀ t ∈ l.items, t.Dictless := by
  rw [Dictless, fold_of, Layer.items_map, Layer.type_map, List.forall_mem_map]

end Datum

/-! ## 5. Reading a heap -/

namespace Heap

/-- The layer that an object stands for. Lists and mappings count if they have the builtin type
itself. -/
def layer? (heap : Heap) (h : Handle) : Option (Layer Handle) := do
  let o ← heap.get? h
  match o.payload with
  | .int n => some (.int n)
  | .str text => some (.text text)
  | .bool b => some (.bool b)
  | .none => some .none
  | .tuple items => some (.tuple items)
  | .plain => if o.type = BuiltinType.list.handle
      then (heap.tupleAttribute h listCell).join.map .list else none
  | .dict entries => if o.type = BuiltinType.dict.handle then some (.dict entries.toList) else none
  | _ => none

/-- The data value behind an object, if it has at most so many levels. -/
def read (heap : Heap) : Nat → Handle → Option Datum
  | 0, _ => none
  | n + 1, h => do
    let l ← heap.layer? h
    return .of (← l.mapM (read heap n))

/-- **The data value that an object stands for.** -/
def Shows (heap : Heap) (h : Handle) (t : Datum) : Prop := ∃ n, heap.read n h = some t

/-- The ways to stand for a layer. -/
inductive Layered (heap : Heap) (h : Handle) (o : Object) : Layer Handle → Prop where
  | int {n : Int64} : o.payload = .int n → Layered heap h o (.int n)
  | text {text : String} : o.payload = .str text → Layered heap h o (.text text)
  | bool {b : Bool} : o.payload = .bool b → Layered heap h o (.bool b)
  | none : o.payload = .none → Layered heap h o .none
  | tuple {items : List Handle} : o.payload = .tuple items → Layered heap h o (.tuple items)
  | list {items : List Handle} : o.payload = .plain → o.type = BuiltinType.list.handle →
      heap.tupleAttribute h listCell = some (some items) → Layered heap h o (.list items)
  | dict {entries : OrderedMap Handle} : o.payload = .dict entries →
      o.type = BuiltinType.dict.handle → Layered heap h o (.dict entries.toList)

section

variable {heap heap' : Heap} {h k : Handle} {l : Layer Handle} {n m : Nat} {t t' : Datum}

theorem layer?_eq_some_iff :
    heap.layer? h = some l ↔ ∃ o, heap.get? h = some o ∧ heap.Layered h o l := by
  constructor
  · intro hl
    obtain ⟨o, hget, hl⟩ := Option.bind_eq_some_iff.mp hl
    refine ⟨o, hget, ?_⟩
    split at hl
    · cases hl
      exact .int ‹_›
    · cases hl
      exact .text ‹_›
    · cases hl
      exact .bool ‹_›
    · cases hl
      exact .none ‹_›
    · cases hl
      exact .tuple ‹_›
    · split at hl
      · obtain ⟨items, hitems, rfl⟩ := Option.map_eq_some_iff.mp hl
        exact .list ‹_› ‹_› (Option.join_eq_some_iff.mp hitems)
      · cases hl
    · split at hl
      · cases hl
        exact .dict ‹_› ‹_›
      · cases hl
    · cases hl
  · rintro ⟨o, hget, hl⟩
    refine Option.bind_eq_some_iff.mpr ⟨o, hget, ?_⟩
    cases hl with
    | int hp | text hp | bool hp | none hp | tuple hp => rw [hp]
    | list hp ht hcell => rw [hp, hcell, if_pos ht, Option.join_some, Option.map_some]
    | dict hp ht => simp only [hp, if_pos ht]

theorem read_succ_eq_some_iff :
    heap.read (n + 1) h = some t ↔ ∃ l d, heap.layer? h = some l ∧
    l.Matches (fun k u => heap.read n k = some u) d ∧ t = .of d := by
  simp only [read, Option.bind_eq_bind, Option.pure_def, Option.bind_eq_some_iff, Option.some.injEq,
    Layer.mapM_eq_some_iff]
  constructor
  · rintro ⟨l, hl, d, hd, rfl⟩
    exact ⟨l, d, hl, hd, rfl⟩
  · rintro ⟨l, d, hl, hd, rfl⟩
    exact ⟨l, hl, d, hd, rfl⟩

theorem read_mono (h' : heap.read n h = some t) (hnm : n ≤ m) : heap.read m h = some t := by
  induction m generalizing n h t with
  | zero =>
    rw [Nat.le_zero.mp hnm] at h'
    cases h'
  | succ m ih =>
    cases n with
    | zero => cases h'
    | succ n =>
      obtain ⟨l, d, hl, hd, rfl⟩ := read_succ_eq_some_iff.mp h'
      exact read_succ_eq_some_iff.mpr
        ⟨l, d, hl, hd.mono fun k _ u _ hk => ih hk (Nat.le_of_succ_le_succ hnm), rfl⟩

theorem Shows.unique (ht : heap.Shows h t) (ht' : heap.Shows h t') : t = t' := by
  obtain ⟨n, hn⟩ := ht
  obtain ⟨m, hm⟩ := ht'
  exact Option.some.inj ((read_mono hn (Nat.le_max_left n m)).symm.trans
    (read_mono hm (Nat.le_max_right n m)))

/-- **The levels that are needed are those that the data value has.** -/
theorem read_eq_some_iff : heap.read n h = some t ↔ heap.Shows h t ∧ t.nesting ≤ n := by
  constructor
  · intro hread
    refine ⟨⟨n, hread⟩, ?_⟩
    induction n generalizing h t with
    | zero => cases hread
    | succ n ih =>
      obtain ⟨l, d, _, hd, rfl⟩ := read_succ_eq_some_iff.mp hread
      refine Datum.nesting_le_iff.mpr fun u hu => ?_
      obtain ⟨k, _, hk⟩ := exists_of_forall₂_right hd.items u hu
      exact ih hk
  · rintro ⟨⟨m, hread⟩, hle⟩
    induction n generalizing m h t with
    | zero => exact absurd (Nat.le_zero.mp hle) t.nesting_pos.ne'
    | succ n ih =>
      cases m with
      | zero => cases hread
      | succ m =>
        obtain ⟨l, d, hl, hd, rfl⟩ := read_succ_eq_some_iff.mp hread
        refine read_succ_eq_some_iff.mpr ⟨l, d, hl, hd.mono fun k _ u hu hk => ?_, rfl⟩
        exact ih (Datum.nesting_le_iff.mp hle u hu) m hk

/-! ## 6. Graphs -/

/-- `k` is an item of `h`. -/
def ItemOf (heap : Heap) (k h : Handle) : Prop := ∃ l, heap.layer? h = some l ∧ k ∈ l.items

/-- **Whatever can be reached from `h` through items is a layer.** Items may be shared, and a path
may come back. -/
def Graph (heap : Heap) (h : Handle) : Prop :=
  ∀ k, Relation.ReflTransGen (fun x y => heap.ItemOf y x) h k → ∃ l, heap.layer? k = some l

/-- No path through items goes on for ever. -/
def PathsEnd (heap : Heap) (h : Handle) : Prop :=
  ¬ ∃ path : Nat → Handle, path 0 = h ∧ ∀ i, heap.ItemOf (path (i + 1)) (path i)

theorem Graph.exists_layer (hg : heap.Graph h) : ∃ l, heap.layer? h = some l := hg h .refl

theorem Graph.item (hg : heap.Graph h) (hk : heap.ItemOf k h) : heap.Graph k :=
  fun _ hpath => hg _ (.head hk hpath)

theorem pathsEnd_iff : heap.PathsEnd h ↔ Acc heap.ItemOf h := by
  rw [PathsEnd, ← not_acc_iff_exists_descending_chain, not_not]

/-- Enough levels for each of finitely many objects are enough for all of them. -/
theorem exists_levels {ks : List Handle} (h' : ∀ k ∈ ks, ∃ t, heap.Shows k t) :
    ∃ n, ∀ k ∈ ks, ∃ t, heap.read n k = some t := by
  induction ks with
  | nil => exact ⟨0, List.forall_mem_nil _⟩
  | cons k ks ih =>
    obtain ⟨n, hn⟩ := ih fun k' hk' => h' k' (List.mem_cons_of_mem _ hk')
    obtain ⟨t, m, hm⟩ := h' k List.mem_cons_self
    refine ⟨max n m, fun k' hk' => ?_⟩
    rcases List.mem_cons.mp hk' with rfl | hk'
    · exact ⟨t, read_mono hm (Nat.le_max_right n m)⟩
    · obtain ⟨t', ht'⟩ := hn k' hk'
      exact ⟨t', read_mono ht' (Nat.le_max_left n m)⟩

/-- An object whose items stand for data values stands for one too. -/
theorem Shows.of_layer {d : Layer Datum} (hl : heap.layer? h = some l)
    (hd : l.Matches heap.Shows d) : heap.Shows h (.of d) := by
  obtain ⟨n, hn⟩ := exists_levels fun k hk => by
    obtain ⟨t, _, ht⟩ := exists_of_forall₂_right hd.items.flip k hk
    exact ⟨t, ht⟩
  refine ⟨n + 1, read_succ_eq_some_iff.mpr ⟨l, d, hl, hd.mono fun k hk t _ ht => ?_, rfl⟩⟩
  obtain ⟨t', ht'⟩ := hn k hk
  rw [ht.unique ⟨n, ht'⟩]
  exact ht'

/-- The items of a data value are data values of fewer levels. -/
theorem exists_read_item (hread : heap.read (n + 1) h = some t) (hk : heap.ItemOf k h) :
    ∃ u, heap.read n k = some u := by
  obtain ⟨l, d, hl, hd, rfl⟩ := read_succ_eq_some_iff.mp hread
  obtain ⟨l', hl', hk⟩ := hk
  cases hl.symm.trans hl'
  obtain ⟨u, _, hu⟩ := exists_of_forall₂_right hd.items.flip k hk
  exact ⟨u, hu⟩

theorem Shows.acc (ht : heap.Shows h t) : Acc heap.ItemOf h := by
  obtain ⟨n, hread⟩ := ht
  induction n generalizing h t with
  | zero => cases hread
  | succ n ih =>
    refine .intro h fun k hk => ?_
    obtain ⟨u, hu⟩ := exists_read_item hread hk
    exact ih hu

theorem Shows.graph (ht : heap.Shows h t) : heap.Graph h := by
  intro k hpath
  have hshows : ∃ u, heap.Shows k u := by
    induction hpath with
    | refl => exact ⟨t, ht⟩
    | tail _ hk ih =>
      obtain ⟨u, n, hread⟩ := ih
      cases n with
      | zero => cases hread
      | succ n =>
        obtain ⟨v, hv⟩ := exists_read_item hread hk
        exact ⟨v, n, hv⟩
  obtain ⟨u, n, hread⟩ := hshows
  cases n with
  | zero => cases hread
  | succ n =>
    obtain ⟨l, _, hl, _⟩ := read_succ_eq_some_iff.mp hread
    exact ⟨l, hl⟩

/-- **A graph without endless paths is a data value**, and no other is. -/
theorem Graph.pathsEnd_iff (hg : heap.Graph h) : heap.PathsEnd h ↔ ∃ t, heap.Shows h t := by
  rw [Heap.pathsEnd_iff]
  constructor
  · intro hacc
    induction hacc with
    | intro h _ ih =>
      obtain ⟨l, hl⟩ := hg.exists_layer
      obtain ⟨d, hd⟩ := Layer.exists_matches fun k hk => ih k ⟨l, hl, hk⟩ (hg.item ⟨l, hl, hk⟩)
      exact ⟨.of d, .of_layer hl hd⟩
  · rintro ⟨t, ht⟩
    exact ht.acc

/-! ## 7. Objects that are added -/

section

variable (hkept : heap.KeptIn heap')
include hkept

theorem tupleAttribute_kept {name : String} {items : List Handle}
    (h' : heap.tupleAttribute h name = some (some items)) :
    heap'.tupleAttribute h name = some (some items) := by
  obtain ⟨o, cell, c, hget, hattr, hcell, hp⟩ := exists_of_tupleAttribute h'
  rw [tupleAttribute_of_get? (hkept hget) hattr (hkept hcell), Object.tupleItems, hp]

theorem layer?_kept (hl : heap.layer? h = some l) : heap'.layer? h = some l := by
  obtain ⟨o, hget, hl⟩ := layer?_eq_some_iff.mp hl
  refine layer?_eq_some_iff.mpr ⟨o, hkept hget, ?_⟩
  cases hl with
  | int hp => exact .int hp
  | text hp => exact .text hp
  | bool hp => exact .bool hp
  | none hp => exact .none hp
  | tuple hp => exact .tuple hp
  | list hp ht hcell => exact .list hp ht (tupleAttribute_kept hkept hcell)
  | dict hp ht => exact .dict hp ht

theorem Graph.itemOf_kept (hg : heap.Graph h) (hk : heap'.ItemOf k h) : heap.ItemOf k h := by
  obtain ⟨l, hl⟩ := hg.exists_layer
  obtain ⟨l', hl', hk⟩ := hk
  cases (layer?_kept hkept hl).symm.trans hl'
  exact ⟨l, hl, hk⟩

theorem Graph.kept (hg : heap.Graph h) : heap'.Graph h := by
  intro k hpath
  have hold : heap.Graph k := by
    induction hpath with
    | refl => exact hg
    | tail _ hitem ih => exact ih.item (ih.itemOf_kept hkept hitem)
  obtain ⟨l, hl⟩ := hold.exists_layer
  exact ⟨l, layer?_kept hkept hl⟩

/-- **What is read in a graph stays the same**, also that there are too many levels. -/
theorem Graph.read_kept (hg : heap.Graph h) : heap'.read n h = heap.read n h := by
  induction n generalizing h with
  | zero => rfl
  | succ n ih =>
    obtain ⟨l, hl⟩ := hg.exists_layer
    refine Option.ext fun t => ?_
    rw [read_succ_eq_some_iff, read_succ_eq_some_iff]
    constructor
    · rintro ⟨l', d, hl', hd, rfl⟩
      cases (layer?_kept hkept hl).symm.trans hl'
      exact ⟨l, d, hl, hd.mono fun k hk u _ hread => ih (hg.item ⟨l, hl, hk⟩) ▸ hread, rfl⟩
    · rintro ⟨l', d, hl', hd, rfl⟩
      cases hl.symm.trans hl'
      exact ⟨l, d, layer?_kept hkept hl, hd.mono fun k hk u _ hread =>
        (ih (hg.item ⟨l, hl, hk⟩)).symm ▸ hread, rfl⟩

end

end

end Heap

end ObjectModel
