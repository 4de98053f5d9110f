import ObjectModel.Proofs.Lists.Sequence
import ObjectModel.Proofs.Types.Naming

/-!
# What the members of `list` do

Each member is run on an object that stands for a sequence, and does to it what the operation on
sequences does.

* `Heap.ListOf.run_member` -- **every member that runs no other code** does what its operation does,
  and leaves every other object alone.
-/

namespace ObjectModel

/-! ## 1. Members with operands -/

/-- The number that an object is, if it is one. -/
def State.indexValue (s : State) (index : Handle) : Option Int :=
  ((s.heap.get? index).bind (·.intValue)).map Int64.toInt

namespace Sequence

/-- A member of `list` with its operands. -/
inductive Call where
  | init (iterable : Handle)
  | append (item : Handle)
  | pop
  | clear
  | copy
  | len
  | bool
  | getItem (index : Handle)
  | setItem (index value : Handle)

namespace Call

def member : Call → ListMember
  | init _ => .init
  | append _ => .append
  | pop => .pop
  | clear => .clear
  | copy => .copy
  | len => .len
  | bool => .bool
  | getItem _ => .getItem
  | setItem _ _ => .setItem

def args : Call → List Handle
  | init iterable => [iterable]
  | append item => [item]
  | getItem index => [index]
  | setItem index value => [index, value]
  | _ => []

/-- The operation that the member stands for: numbers are read in `s`, and an iterable is what it
delivers. -/
def op (s : State) (delivered : Handle → Except Fault (List Handle)) : Call → Op
  | init iterable => .init (delivered iterable)
  | append item => .append item
  | pop => .pop
  | clear => .clear
  | copy => .copy
  | len => .len
  | bool => .bool
  | getItem index => .getItem (s.indexValue index)
  | setItem index value => .setItem (s.indexValue index) value

def index? : Call → Option Handle
  | getItem index => some index
  | setItem index _ => some index
  | _ => none

def iterable? : Call → Option Handle
  | init iterable => some iterable
  | _ => none

end Call

/-- **How an answer shows** in `t`, if `s` was the state before. -/
inductive Reply.Shown (s t : State) : Reply → Except Fault Handle → Prop where
  | nothing : Shown s t .nothing (.ok .none)
  | item (h : Handle) : Shown s t (.item h) (.ok h)
  | number {n : Nat} {h : Handle} {i : Int64} : t.heap.get? h = some (.ofInt i) →
      (n < Nat.pow 2 63 → i.toInt = n) → Shown s t (.number n) (.ok h)
  | truth (b : Bool) : Shown s t (.truth b) (.ok (.ofBool b))
  | list {items : List Handle} {h : Handle} : s.heap.get? h = none → t.heap.ListOf h items →
      Shown s t (.list items) (.ok h)
  | error {kind : ExceptionKind} {args : List Handle} {fault : Fault} : fault.Carries t kind args →
      Shown s t (.error kind) (.error fault)
  | failed (fault : Fault) : Shown s t (.failed fault) (.error fault)

/-- **What was done to the list `h`**: the answer shows, the list stands for the sequence
afterwards, and what is to be kept was left alone. -/
structure Effect (keep : Handle → Prop) (s : State) (h : Handle) (result : Reply × List Handle)
    (r : Except Fault Handle) (t : State) : Prop where
  shown : result.1.Shown s t r
  list : t.heap.ListOf h result.2
  spares : s.Spares keep t

end Sequence

/-! ## 2. Parts of members -/

section

variable {α : Type} {s t : State} {h : Handle} {o : Object} {items : List Handle} {e : Engine}

open Sequence

/-- A member asks for the items first. -/
theorem Heap.ListOf.run_listReceiver (hl : s.heap.ListOf h items) (name : String)
    (f : List Handle → Run α) :
    (listReceiver name h >>= f).run.run e s = (f items).run.run e s := by
  unfold listReceiver
  rw [bind_assoc]
  refine (Run.run_inspect_bind hl.tupleAttribute_eq).trans ?_
  rfl

theorem Heap.IsList.run_splice (hl : s.heap.IsList h o) (hw : s.heap.WellFormed)
    (items : List Handle) (start count : Nat) (replacement : List Handle) (e : Engine) :
    ∃ t, (splice h items start count replacement).run.run e s = .done (.ok ()) t ∧ s.Spares (· ≠ h)
      t ∧ t.heap.ListOf h (items.take start ++ replacement ++ items.drop (start + count)) := by
  obtain ⟨cell, s₁, hs₁, hp₁⟩ := State.exists_placed hw
      (.ofItems (items.take start ++ replacement ++ items.drop (start + count)))
  obtain ⟨removed, s₂, hs₂, hp₂⟩ :=
    State.exists_placed hp₁.wellFormed (.ofItems ((items.drop start).take count))
  have hadds : s.Spares (fun _ => True) s₂ := .of_kept fun hget => hp₂.kept (hp₁.kept hget)
  obtain ⟨o', hl', _⟩ := hadds.isList trivial hl
  have hrun : (splice h items start count replacement).run.run e s
      = .done (.ok ()) (s₂.setAttribute h Heap.listCell cell) := by
    have heq : (splice h items start count replacement).run = .perform (.allocate
        (.ofItems (items.take start ++ replacement ++ items.drop (start + count)))) fun cell =>
          .perform (.allocate (.ofItems ((items.drop start).take count))) fun _ =>
          .perform (.setAttribute h Heap.listCell cell) fun _ => .pure (.ok ()) := rfl
    rw [heq]
    simp only [Program.run_perform, Action.perform, hs₁, hs₂, Outcome.andThen_done, whenLive,
      Heap.contains_of_get? hl'.get?_eq, if_true]
    rfl
  refine ⟨_, hrun, ?_, State.listOf_setAttribute hl' (hp₂.kept hp₁.found) rfl⟩
  exact (hadds.mono fun _ _ => trivial).trans (s₂.spares_setAttribute (fun hne => hne rfl) _ _)

theorem run_newList (hw : s.heap.WellFormed) (items : List Handle) (e : Engine) :
    ∃ k t, (newList items).run.run e s = .done (.ok k) t ∧ s.Spares (fun _ => True) t ∧
      s.heap.get? k = none ∧ t.heap.ListOf k items := by
  obtain ⟨cell, s₁, hs₁, hp₁⟩ := State.exists_placed hw (.ofItems items)
  obtain ⟨k, s₂, hs₂, hp₂⟩ := State.exists_placed hp₁.wellFormed
      ⟨.plain, BuiltinType.list.handle, .ofList [(Heap.listCell, cell)]⟩
  have hrun : (newList items).run.run e s = .done (.ok k) s₂ := by
    have heq : (newList items).run = .perform (.allocate (.ofItems items)) fun cell =>
        .perform (.allocate ⟨.plain, BuiltinType.list.handle, .ofList [(Heap.listCell, cell)]⟩)
            fun k => .pure (.ok k) := rfl
    rw [heq]
    simp only [Program.run_perform, Action.perform, hs₁, hs₂, Outcome.andThen_done]
    rfl
  have hfresh : s.heap.get? k = none := by
    cases hget : s.heap.get? k with
    | none => rfl
    | some o => cases hp₂.fresh.symm.trans (hp₁.kept hget)
  have hget? : ∀ name, (OrderedMap.ofList [(Heap.listCell, cell)]).get? name
      = if name = Heap.listCell then some cell else none :=
    fun name => OrderedMap.Coherent.empty.get?_insert Heap.listCell name cell
  refine ⟨k, s₂, hrun, .of_kept fun hget => hp₂.kept (hp₁.kept hget), hfresh, _, cell, _,
    ⟨hp₂.found, rfl, rfl, .ofList _, fun m => ?_⟩, ?_, hp₂.kept hp₁.found, rfl⟩
  · exact (hget? _).trans (if_neg (Heap.name_ne_listCell m))
  · exact (hget? _).trans (if_pos rfl)

theorem Heap.exists_of_className {heap : Heap} {index : Handle} {name : String}
    (h : heap.className index = some name) : ∃ o, heap.get? index = some o := by
  cases hget : heap.get? index with
  | some o => exact ⟨o, rfl⟩
  | none =>
    rw [className, typeOf, hget] at h
    cases h

theorem Heap.className_of_kept {heap heap' : Heap} {name : String} (hk : heap.KeptIn heap')
    (hn : heap.className h = some name) : heap'.className h = some name := by
  obtain ⟨o, hget⟩ := Heap.exists_of_className hn
  rw [className_of_get? hget] at hn
  rw [className_of_get? (hk hget)]
  obtain ⟨path, hway⟩ := Naming.exists_of_typeNameFrom hn
  exact (hway.transfer fun k _ o hget => ⟨o, hk hget, .refl o⟩).typeName_eq

theorem Sequence.place_toInt (size : Nat) (raw : Int64) :
    Sequence.place size raw.toInt
      = let counted := if raw < 0 then raw.toInt + size else raw.toInt
        if 0 ≤ counted ∧ counted < size then some counted.toNat else none := by
  have hsign : raw < 0 ↔ raw.toInt < 0 := Int64.lt_iff_toInt_lt
  unfold Sequence.place
  by_cases hneg : raw < 0
  · have hneg' : raw.toInt < 0 := hsign.mp hneg
    simp only [if_pos hneg]
    rw [if_neg (by omega)]
    by_cases hin : -(size : Int) ≤ raw.toInt
    · rw [if_pos (by omega), if_pos (by omega)]
    · rw [if_neg (by omega), if_neg (by omega)]
  · have hpos : ¬ raw.toInt < 0 := mt hsign.mpr hneg
    simp only [if_neg hneg]
    by_cases hin : raw.toInt < size
    · rw [if_pos (by omega), if_pos (by omega)]
    · rw [if_neg (by omega), if_neg (by omega), if_neg (by omega)]

/-- A number as an index denotes a position, or it is out of range. -/
theorem position_bind_of_int {α : Type} {index : Handle} {o : Object} {raw : Int64}
    (hget : s.heap.get? index = some o) (hraw : o.intValue = some raw) (what : String) (size : Nat)
    (f : Nat → Run α) (e : Engine) :
    (position what index size >>= f).run.run e s
      = ((Sequence.place size raw.toInt).elim (indexError (what ++ " index out of range"))
        f).run.run e s := by
  unfold position intValue
  rw [bind_assoc, bind_assoc, run_object_bind hget, pure_bind, hraw, Sequence.place_toInt]
  dsimp only
  generalize (if raw < 0 then raw.toInt + (size : Int) else raw.toInt) = counted
  split
  · rw [pure_bind, Option.elim_some]
  · rw [indexError, raiseMessage_bind, Option.elim_none, indexError]

/-- **An index is looked at**: it denotes a position, or an exception says why it does not. -/
theorem run_position {index : Handle} {name : String} (hw : s.heap.WellFormed)
    (hname : s.heap.className index = some name) (items : List Handle)
    (found : Nat → Reply × List Handle) (f : Nat → Run Handle) (e : Engine) :
    (∃ k, k < items.length ∧ Sequence.at? (s.indexValue index) items found = found k ∧
      (position "list" index items.length >>= f).run.run e s = (f k).run.run e s) ∨
    (∃ kind args fault t, Sequence.at? (s.indexValue index) items found = (.error kind, items) ∧
      (position "list" index items.length >>= f).run.run e s = .done (.error fault) t ∧
      s.heap.KeptIn t.heap ∧ fault.Carries t kind args) := by
  obtain ⟨o, hget⟩ := Heap.exists_of_className hname
  have hvalue : s.indexValue index = o.intValue.map Int64.toInt := by
    rw [State.indexValue, hget]
    rfl
  rw [hvalue]
  cases hraw : o.intValue with
  | none =>
    obtain ⟨fault, t, text, hraise, hkept, _, hcarries⟩ :=
      run_raiseMessage (α := Handle) hw .typeError
        ("list" ++ " indices must be int, not " ++ name) e
    refine Or.inr ⟨.typeError, [text], fault, t, rfl, ?_, hkept, hcarries⟩
    unfold position intValue
    rw [bind_assoc, bind_assoc, run_object_bind hget, pure_bind, hraw, bind_assoc, ← hraise]
    refine (Run.run_inspect_bind hname).trans ?_
    rw [typeError, raiseMessage_bind]
  | some raw =>
    rw [Option.map_some, Sequence.at?, position_bind_of_int hget hraw]
    cases hp : Sequence.place items.length raw.toInt with
    | some k => exact Or.inl ⟨k, Sequence.place_lt hp, rfl, rfl⟩
    | none =>
      obtain ⟨fault, t, text, hraise, hkept, _, hcarries⟩ :=
        run_raiseMessage (α := Handle) hw .indexError ("list" ++ " index out of range") e
      exact Or.inr ⟨.indexError, [text], fault, t, rfl, hraise, hkept, hcarries⟩

end

/-! ## 3. Members -/

namespace Heap.ListOf

open Sequence

variable {s t : State} {h : Handle} {items : List Handle} {c : Call}

/-- The list is only read. -/
theorem effect_of_kept {reply : Reply} {r : Except Fault Handle} (hl : s.heap.ListOf h items)
    (hr : reply.Shown s t r) (hk : s.heap.KeptIn t.heap) :
    Effect (· ≠ h) s h (reply, items) r t := by
  have hspares : s.Spares (fun _ => True) t := .of_kept hk
  exact ⟨hr, hspares.listOf trivial hl, .of_kept hk⟩

/-- The list is written in place; the answer is known beforehand. -/
theorem effect_of_splice {answer : Handle} {reply : Reply} (hl : s.heap.ListOf h items)
    (hw : s.heap.WellFormed) (start count : Nat) (replacement : List Handle)
    (hreply : ∀ t, reply.Shown s t (.ok answer)) (e : Engine) :
    ∃ r t, (do splice h items start count replacement; return answer : Run Handle).run.run e s
      = .done r t ∧
      Effect (· ≠ h) s h (reply, items.take start ++ replacement ++ items.drop (start + count)) r
        t := by
  obtain ⟨o, _, _, hlist, _⟩ := hl
  obtain ⟨t, hrun, hspares, hlist'⟩ := hlist.run_splice hw items start count replacement e
  exact ⟨.ok answer, t, (Run.run_bind_ok hrun).trans rfl, hreply t, hlist', hspares⟩

/-- **Every member that runs no other code** does to the list what its operation does to the
sequence. -/
theorem run_member (hl : s.heap.ListOf h items) (hw : s.heap.WellFormed)
    (delivered : Handle → Except Fault (List Handle)) (hiterable : c.iterable? = none)
    (hindex : ∀ index, c.index? = some index → ∃ name, s.heap.className index = some name)
    (e : Engine) :
    ∃ r t, (c.member.run (h :: c.args)).run.run e s = .done r t ∧
      Effect (· ≠ h) s h ((c.op s delivered).apply items) r t := by
  cases c with
  | init => cases hiterable
  | append item =>
    obtain ⟨r, t, hrun, heffect⟩ :=
      hl.effect_of_splice hw items.length 0 [item] (fun _ => .nothing) e
    refine ⟨r, t, (hl.run_listReceiver _ _).trans hrun, ?_⟩
    rw [List.take_length, Nat.add_zero, List.drop_length, List.append_nil] at heffect
    exact heffect
  | pop =>
    cases hlast : items.getLast? with
    | none =>
      obtain ⟨fault, t, text, hraise, hkept, _, hcarries⟩ :=
        run_raiseMessage (α := Handle) hw .indexError "`list.pop` on empty list" e
      refine ⟨.error fault, t, ?_, ?_⟩
      · refine (hl.run_listReceiver _ _).trans ?_
        rw [hlast]
        exact hraise
      · simp only [Call.op, Op.apply, hlast]
        exact hl.effect_of_kept (.error hcarries) hkept
    | some last =>
      obtain ⟨r, t, hrun, heffect⟩ :=
        hl.effect_of_splice hw (items.length - 1) 1 [] (fun _ => .item last) e
      refine ⟨r, t, ?_, ?_⟩
      · refine (hl.run_listReceiver _ _).trans ?_
        rw [hlast]
        exact hrun
      · have hne : items ≠ [] := by
          rintro rfl
          cases hlast
        have hpos : 0 < items.length := List.length_pos_iff.mpr hne
        rw [Nat.sub_add_cancel hpos, List.drop_length, List.append_nil, List.append_nil,
          ← List.dropLast_eq_take] at heffect
        simp only [Call.op, Op.apply, hlast]
        exact heffect
  | clear =>
    obtain ⟨r, t, hrun, heffect⟩ := hl.effect_of_splice hw 0 items.length [] (fun _ => .nothing) e
    refine ⟨r, t, (hl.run_listReceiver _ _).trans hrun, ?_⟩
    rw [List.take_zero, Nat.zero_add, List.drop_length] at heffect
    exact heffect
  | copy =>
    obtain ⟨k, t, hrun, hspares, hfresh, hnew⟩ := run_newList hw items e
    refine ⟨.ok k, t, (hl.run_listReceiver _ _).trans hrun, .list hfresh hnew,
      hspares.listOf trivial hl, hspares.mono fun _ _ => trivial⟩
  | len =>
    obtain ⟨k, t, hs, hp⟩ := State.exists_placed hw (.ofInt (Int64.ofNat items.length))
    refine ⟨.ok k, t, (hl.run_listReceiver _ _).trans ?_,
      hl.effect_of_kept (.number hp.found fun hlt => ?_) hp.kept⟩
    · have heq : (newInt (Int64.ofNat items.length)).run
          = .perform (.allocate (.ofInt (Int64.ofNat items.length))) fun k => .pure (.ok k) := rfl
      rw [heq]
      simp only [Program.run_perform, Action.perform, hs, Outcome.andThen_done]
      rfl
    · exact Int64.toInt_ofNat_of_lt hlt
  | bool => exact ⟨_, s, (hl.run_listReceiver _ _).trans rfl, hl.effect_of_kept (.truth _) id⟩
  | getItem index =>
    obtain ⟨name, hname⟩ := hindex index rfl
    rcases run_position hw hname items (fun k => (.item (items.getD k .none), items))
        (fun k => return itemAt items k) e with
      ⟨k, _, hplace, hrun⟩ | ⟨kind, args, fault, t, hplace, hrun, hkept, hcarries⟩
    · refine ⟨.ok (itemAt items k), s, (hl.run_listReceiver _ _).trans hrun, ?_⟩
      rw [Call.op, Op.apply, hplace]
      exact hl.effect_of_kept (.item _) id
    · refine ⟨.error fault, t, (hl.run_listReceiver _ _).trans hrun, ?_⟩
      rw [Call.op, Op.apply, hplace]
      exact hl.effect_of_kept (.error hcarries) hkept
  | setItem index value =>
    obtain ⟨name, hname⟩ := hindex index rfl
    rcases run_position hw hname items (fun k => (.nothing, items.set k value))
        (fun k => do splice h items k 1 [value]; return .none) e with
      ⟨k, hlt, hplace, hrun⟩ | ⟨kind, args, fault, t, hplace, hrun, hkept, hcarries⟩
    · obtain ⟨r, t, hsplice, heffect⟩ := hl.effect_of_splice hw k 1 [value] (fun _ => .nothing) e
      refine ⟨r, t, (hl.run_listReceiver _ _).trans (hrun.trans hsplice), ?_⟩
      rw [Call.op, Op.apply, hplace, List.set_eq_take_append_cons_drop, if_pos hlt]
      rw [List.append_assoc, List.singleton_append] at heffect
      exact heffect
    · refine ⟨.error fault, t, (hl.run_listReceiver _ _).trans hrun, ?_⟩
      rw [Call.op, Op.apply, hplace]
      exact hl.effect_of_kept (.error hcarries) hkept

end Heap.ListOf

/-! ## 4. Filling a list -/

/-- **`__init__` takes what its iterable delivered**; if the iterable failed, nothing else
happens. -/
theorem Heap.IsList.run_init {keep : Handle → Prop} {s t : State}
    {h iterable : Handle} {o : Object} {e : Engine} {delivered : Except Fault (List Handle)}
    (hl : s.heap.IsList h o) (hrun : (ObjectModel.collect iterable).run.run e s = .done delivered t)
    (hspares : s.Spares keep t) (hk : keep h) (hw : t.heap.WellFormed) :
    ∃ u, (ListMember.init.run [h, iterable]).run.run e s = .done (delivered.map fun _ => .none) u ∧
      s.Spares (fun k => keep k ∧ k ≠ h) u ∧
      (∀ {k o}, k ≠ h → t.heap.get? k = some o → u.heap.get? k = some o) ∧
      (∀ items, delivered = .ok items → u.heap.ListOf h items) ∧
      (∀ fault, delivered = .error fault → u = t) := by
  have hinit : (ListMember.init.run [h, iterable]).run.run e s
      = (ObjectModel.collect iterable >>= fun items => newTuple items >>= fun cell =>
      setAttribute h Heap.listCell cell >>= fun _ => return .none).run.run e s := rfl
  rw [hinit]
  cases delivered with
  | error fault =>
    refine ⟨t, ?_, hspares.mono fun _ hk => hk.1, fun _ => id, nofun, fun _ _ => rfl⟩
    rw [ExceptT.run_bind, Program.run_bind, hrun]
    rfl
  | ok items =>
    obtain ⟨cell, u, hu, hp⟩ := State.exists_placed hw (.ofItems items)
    have hadds : t.Spares keep u := .of_kept hp.kept
    obtain ⟨o', hl', _⟩ := (hspares.trans hadds).isList hk hl
    have hlive : u.heap.contains h = true := Heap.contains_of_get? hl'.get?_eq
    refine ⟨u.setAttribute h Heap.listCell cell, ?_, ?_, fun hne hget => ?_, ?_, nofun⟩
    · refine (Run.run_bind_ok hrun).trans ?_
      have heq : (newTuple items >>= fun cell => setAttribute h Heap.listCell cell
          >>= fun _ => (return .none : Run Handle)).run
          = .perform (.allocate (.ofItems items)) fun cell =>
              .perform (.setAttribute h Heap.listCell cell) fun _ => .pure (.ok .none) := rfl
      rw [heq]
      simp only [Program.run_perform, Action.perform, hu, Outcome.andThen_done, whenLive,
        hlive, if_true]
      rfl
    · exact ((hspares.trans hadds).mono fun _ hk => hk.1).trans
        (u.spares_setAttribute (fun hk => hk.2 rfl) _ _)
    · exact (State.get?_setAttribute_of_ne hne _ _).trans (hp.kept hget)
    · rintro _ ⟨⟩
      exact State.listOf_setAttribute hl' hp.found rfl

end ObjectModel
