import ObjectModel.Proofs.Data.Hooks

/-!
# Lists refine sequences

Lists are made, and their members called, in any order and on any of them; beside them runs a store
of plain sequences on which the same operations are carried out.

* `State.lists_refine` -- **every finite sequence of commands gives the same answers on lists and on
  sequences**, and every list has the items of its sequence after every command.
-/

namespace ObjectModel

open Sequence

variable {c : Command} {r : Except Fault Handle}

/-! ## 1. Commands -/

namespace Sequence

/-- The lists in play with their sequences. -/
def Store : Type := Handle → Option (List Handle)

def Store.empty : Store := fun _ => none

def Store.set (m : Store) (h : Handle) (items : List Handle) : Store :=
  fun k => if k = h then some items else m k

theorem Store.set_eq_some {m : Store} {h k : Handle} {items items' : List Handle} :
    m.set h items k = some items' ↔ (k = h ∧ items' = items) ∨ (k ≠ h ∧ m k = some items') := by
  unfold set
  split
  · rename_i he
    simp [he, eq_comm]
  · rename_i hne
    simp [hne]

theorem Store.known_set {m : Store} {h k : Handle} {given : List Handle}
    (hm : ∃ items, m h = some items) : ∃ items, m.set k given h = some items := by
  obtain ⟨items, hm⟩ := hm
  by_cases he : h = k
  · exact ⟨given, set_eq_some.mpr (Or.inl ⟨he, rfl⟩)⟩
  · exact ⟨items, set_eq_some.mpr (Or.inr ⟨he, hm⟩)⟩

/-- What is to be left alone: the lists in play and the builtin types. -/
def Store.Guards (m : Store) (k : Handle) : Prop := (m k).isSome = true ∨ k.IsBuiltin

theorem Store.guards_of_known {m : Store} {k : Handle} {items : List Handle}
    (hm : m k = some items) : m.Guards k :=
  Or.inl (by rw [hm]; rfl)

/-- What a host does with lists. -/
inductive Command where
  | make (items : List Handle)
  /-- `list(iterable)` -/
  | construct (iterable : Handle)
  | call (h : Handle) (c : Call)

/-- What an iterable delivers. -/
def delivered (n : Nat) (s : State) (iterable : Handle) : Except Fault (List Handle) :=
  match (collect iterable).exec n s with
  | .done items _ => items
  | .aborted _ _ => .ok []

namespace Command

def run : Command → Run Handle
  | make items => newList items
  | construct iterable => ObjectModel.call BuiltinType.list.handle [iterable]
  | call h c => callMethod h c.member.name c.args

def iterable? : Command → Option Handle
  | make _ => none
  | construct iterable => some iterable
  | call _ c => c.iterable?

/-- The object that is filled by the command, if it is a new one. -/
def made? (s : State) : Command → Option Handle
  | construct _ => some s.madeList
  | _ => none

/-- The state in which a member runs, and its iterable is asked. -/
def inside (s : State) : Command → State
  | make _ => s
  | construct _ => s.inMaking
  | call h c => s.inMethod h c.member.name

/-- The bound on nesting that is left there, of `n + 3`. -/
def bound (n : Nat) : Command → Nat
  | construct _ => n
  | _ => n + 1

/-- **What the command does to sequences**: its answer, and the store afterwards but for the list
that it answers with. -/
def result (n : Nat) (s : State) (m : Store) : Command → Reply × Store
  | make items => (.list items, m)
  | construct iterable =>
    match delivered n s.inMaking iterable with
    | .ok items => (.list items, m)
    | .error fault => (.failed fault, m)
  | call h c =>
    let (reply, items) :=
      (c.op s (delivered (n + 1) (s.inMethod h c.member.name))).apply ((m h).getD [])
    (reply, m.set h items)

/-- The store behind the command, if it returned `r`. -/
def after (n : Nat) (s : State) (m : Store) (c : Command) (r : Except Fault Handle) : Store :=
  match (c.result n s m).1, r with
  | .list items, .ok k => (c.result n s m).2.set k items
  | _, _ => (c.result n s m).2

theorem after_cases (n : Nat) (s : State) (m : Store) (c : Command) (r : Except Fault Handle) :
    c.after n s m r = (c.result n s m).2 ∨ ∃ items k, (c.result n s m).1 = .list items ∧ r = .ok k ∧
      c.after n s m r = (c.result n s m).2.set k items := by
  unfold after
  generalize c.result n s m = result
  obtain ⟨reply, store⟩ := result
  cases reply with
  | list items =>
    cases r with
    | error => exact Or.inl rfl
    | ok k => exact Or.inr ⟨items, k, rfl, rfl, rfl⟩
  | _ => exact Or.inl rfl

/-- What the code of an iterable is to leave alone: the lists in play, the one that is being made,
and the builtin types. -/
def Keeps (s : State) (m : Store) (c : Command) (k : Handle) : Prop :=
  (m k).isSome = true ∨ k.IsBuiltin ∨ c.made? s = some k

theorem keeps_of_guards {s : State} {m : Store} {k : Handle} (hk : m.Guards k) : c.Keeps s m k :=
  hk.imp_right Or.inl

/-- **The operands are in order**: the list is in play, an index is an object whose class can be
named, and an iterable comes to an end and leaves the lists alone. -/
structure Fits (n : Nat) (s : State) (m : Store) (c : Command) : Prop where
  known : ∀ h call, c = .call h call → ∃ items, m h = some items
  index : ∀ h call index, c = .call h call → call.index? = some index →
    ∃ name, s.heap.className index = some name
  iterable : ∀ iterable, c.iterable? = some iterable →
    (∃ items t, (collect iterable).exec (c.bound n) (c.inside s) = .done items t) ∧
      ∀ x ∈ (collect iterable).run.log (c.bound n) (c.inside s), x.Spares (c.Keeps s m)

end Command

end Sequence

/-! ## 2. Lists in play -/

/-- **Every list in play stands for its sequence**, the builtin members are in place, and there is
room for their calls. -/
structure State.Tracks (s : State) (m : Store) : Prop where
  orderly : s.Orderly
  furnished : s.heap.Furnished
  room : s.callDepth + 3 ≤ s.limits.callDepth
  lists : ∀ {h : Handle} {items : List Handle}, m h = some items → s.heap.ListOf h items

section

variable {keep : Handle → Prop} {s t u v : State} {m m' : Store} {h k : Handle} {o : Object}
  {items : List Handle} {n : Nat}

/-- What a program leaves of the lists that it spares. -/
theorem State.Tracks.of_run {x : Run Handle} (hs : s.Tracks m) (hx : x.Builds)
    (hrun : x.exec n s = .done r t) (hspares : s.Spares Handle.IsBuiltin t)
    (hlists : ∀ {h : Handle} {items : List Handle}, m' h = some items → t.heap.ListOf h items) :
    t.Tracks m' := by
  refine ⟨hx.orderly_done hs.orderly hrun,
    hspares.furnished (fun _ hk => hk) hs.orderly.heap hs.furnished, ?_, hlists⟩
  rw [State.depth_of_done hrun, (State.steps_of_done hrun).limits_eq]
  exact hs.room

theorem Heap.IsList.ne_builtin {heap : Heap} {bound : Nat} (hl : heap.IsList h o)
    (ho : heap.Orderly bound) (hk : k.IsBuiltin) : k ≠ h := by
  obtain ⟨b, rfl⟩ := hk
  rintro rfl
  obtain ⟨o', hget, hp⟩ := ho.builtin b
  cases hget.symm.trans hl.get?_eq
  cases hp.symm.trans hl.payload_eq

/-- An answer shows the same from further outside. -/
theorem Sequence.Reply.Shown.outside {reply : Reply} (hr : reply.Shown u v r) (hs : s.Spares keep u)
    (he : t.heap = v.heap) : reply.Shown s t r := by
  cases hr with
  | nothing => exact .nothing
  | item h => exact .item h
  | number hget hvalue => exact .number (he ▸ hget) hvalue
  | truth b => exact .truth b
  | list hfresh hl =>
    refine .list ?_ (he ▸ hl)
    cases hget : s.heap.get? _ with
    | none => rfl
    | some o =>
      obtain ⟨o', hget', _⟩ := hs.kept hget
      cases hfresh.symm.trans hget'
  | error hc => exact .error (hc.congr he)
  | failed fault => exact .failed fault

/-- The code of a member runs inside of calls. -/
theorem State.Tracks.callDepth_inMethod (hs : s.Tracks m) (hitems : m h = some items)
    (member : ListMember) : 0 < (s.inMethod h member.name).callDepth := by
  obtain ⟨o, _, _, hl, _⟩ := hs.lists hitems
  obtain ⟨f, _, _, hhook, _⟩ := hl.answers hs.orderly.heap hs.furnished member
  rw [State.inMethod, hhook]
  exact Nat.succ_pos _

/-! ## 3. What a member sees -/

namespace State

/-- A bound method is all that was made on the way in. -/
theorem inMethod_cases (s : State) (h : Handle) (name : String) :
    s.inMethod h name = s ∨ ∃ object, s.inMethod h name = (s.allocate object).2.enter.enter := by
  unfold inMethod
  split
  · exact Or.inr ⟨_, rfl⟩
  · exact Or.inl rfl

variable {name : String}

theorem spares_inMethod (keep : Handle → Prop) (h : Handle) (name : String) (hs : s.Regular) :
    s.Spares keep (s.inMethod h name) ∧ (s.inMethod h name).Regular := by
  rcases s.inMethod_cases h name with he | ⟨object, he⟩
  · rw [he]
    exact ⟨.refl keep s, hs⟩
  · rw [he]
    exact ⟨.of_kept (Heap.get?_allocate_of_live hs.heap),
      ((hs.step (.change (.allocate s object))).step (.enter _)).step (.enter _)⟩

theorem className_inMethod {index : Handle} {label : String} (hs : s.Regular)
    (hn : s.heap.className index = some label) :
    (s.inMethod h name).heap.className index = some label ∧
    (s.inMethod h name).indexValue index = s.indexValue index := by
  rcases s.inMethod_cases h name with he | ⟨object, he⟩
  · rw [he]
    exact ⟨hn, rfl⟩
  · obtain ⟨o, hget⟩ := Heap.exists_of_className hn
    have hget' : (s.allocate object).2.enter.enter.heap.get? index = some o :=
      Heap.get?_allocate_of_live hs.heap hget
    rw [he, indexValue, hget', indexValue, hget]
    exact ⟨Heap.className_of_kept (Heap.get?_allocate_of_live hs.heap) hn, rfl⟩

end State

/-- A member reads its operands as the command does. -/
theorem Sequence.Call.op_inMethod {c : Call} {name : String}
    {delivered : Handle → Except Fault (List Handle)} (hs : s.Regular)
    (hindex : ∀ index, c.index? = some index → ∃ label, s.heap.className index = some label) :
    c.op (s.inMethod h name) delivered = c.op s delivered := by
  cases c with
  | getItem index =>
    obtain ⟨label, hn⟩ := hindex index rfl
    rw [Call.op, Call.op, (State.className_inMethod hs hn).2]
  | setItem index value =>
    obtain ⟨label, hn⟩ := hindex index rfl
    rw [Call.op, Call.op, (State.className_inMethod hs hn).2]
  | _ => rfl

/-! ## 4. One command -/

/-- What an iterable delivers, where it comes to an end. -/
theorem Sequence.delivered_eq {iterable : Handle} {r : Except Fault (List Handle)}
    (h : (collect iterable).exec n s = .done r t) : delivered n s iterable = r := by
  rw [delivered, h]

/-- A list that is filled from an iterable which leaves some objects alone. -/
theorem Heap.IsList.effect_init {iterable : Handle} (hl : s.heap.IsList h o)
    (hs : s.Regular) (hd : 0 < s.callDepth) (hk : keep h)
    (hends : ∃ items t, (ObjectModel.collect iterable).exec n s = .done items t)
    (hlog : ∀ x ∈ (ObjectModel.collect iterable).run.log n s, x.Spares keep) :
    ∃ t u, (ListMember.init.run [h, iterable]).run.run (engine n) s
      = .done ((delivered n s iterable).map fun _ => .none) u ∧
      s.Spares keep t ∧ s.Spares (fun k => keep k ∧ k ≠ h) u ∧
      (∀ items, delivered n s iterable = .ok items → u.heap.ListOf h items) ∧
      (∀ fault, delivered n s iterable = .error fault → u = t) := by
  obtain ⟨r, t, hrun⟩ := hends
  have hstate : ((ObjectModel.collect iterable).run.run (engine n) s).state = t :=
    congrArg Outcome.state hrun
  have hspares : s.Spares keep t :=
    hstate ▸ State.spares_of_log (ObjectModel.collect iterable).run n hs hd hlog
  obtain ⟨u, hinit, hspares', _, hrest⟩ :=
    hl.run_init hrun hspares hk ((State.steps_of_done hrun).wellFormed hs.heap)
  rw [delivered_eq hrun]
  exact ⟨t, u, hinit, hspares, hspares', hrest⟩

/-- **A member call keeps the list and its sequence in step.** -/
theorem State.Tracks.effect_call {c : Call} (hs : s.Tracks m) (hitems : m h = some items)
    (hc : (Command.call h c).Fits n s m) :
    ∃ r t, (c.member.run (h :: c.args)).run.run (engine (n + 1)) (s.inMethod h c.member.name)
      = .done r t ∧
      Effect (fun k => m.Guards k ∧ k ≠ h) (s.inMethod h c.member.name) h
        ((c.op s (delivered (n + 1) (s.inMethod h c.member.name))).apply items) r t := by
  have hregular := hs.orderly.regular
  obtain ⟨hinside, hregular'⟩ := State.spares_inMethod (fun _ => True) h c.member.name hregular
  have hlist : (s.inMethod h c.member.name).heap.ListOf h items :=
    hinside.listOf trivial (hs.lists hitems)
  have hindex := fun index => hc.index h c index rfl
  cases hiterable : c.iterable? with
  | none =>
    have hindex' : ∀ index, c.index? = some index →
        ∃ label, (s.inMethod h c.member.name).heap.className index = some label := by
      intro index hi
      obtain ⟨label, hn⟩ := hindex index hi
      exact ⟨label, (State.className_inMethod hregular hn).1⟩
    obtain ⟨r, t, hrun, heffect⟩ := hlist.run_member hregular'.heap
        (delivered (n + 1) (s.inMethod h c.member.name)) hiterable hindex' (engine (n + 1))
    rw [Call.op_inMethod hregular hindex] at heffect
    exact ⟨r, t, hrun, heffect.shown, heffect.list, heffect.spares.mono fun _ hk => hk.2⟩
  | some iterable =>
    cases c with
    | init iterable =>
      have hknown : (Command.call h (.init iterable)).Keeps s m h :=
        Command.keeps_of_guards (Store.guards_of_known hitems)
      obtain ⟨o, _, _, hl, _⟩ := id hlist
      obtain ⟨t, u, hrun, hspares, hspares', hok, herror⟩ :=
        hl.effect_init (n := n + 1) hregular' (hs.callDepth_inMethod hitems .init) hknown
          (hc.iterable iterable rfl).1 (hc.iterable iterable rfl).2
      refine ⟨_, u, hrun, ?_⟩
      have hothers : (s.inMethod h ListMember.init.name).Spares (fun k => m.Guards k ∧ k ≠ h) u :=
        hspares'.mono fun k hk => ⟨Command.keeps_of_guards hk.1, hk.2⟩
      rw [Call.op]
      cases hd : delivered (n + 1) (s.inMethod h (Call.init iterable).member.name) iterable with
      | ok items' => exact ⟨.nothing, hok items' hd, hothers⟩
      | error fault =>
        exact ⟨.failed fault, (herror fault hd) ▸ hspares.listOf hknown hlist, hothers⟩
    | _ => cases hiterable

/-- The list that is answered with joins the others. -/
theorem Sequence.Command.listOf_after (hshown : (c.result n s m).1.Shown s t r)
    (hlists : ∀ {h : Handle} {items : List Handle}, (c.result n s m).2 h = some items →
      t.heap.ListOf h items) (hm : c.after n s m r h = some items) : t.heap.ListOf h items := by
  rcases after_cases n s m c r with he | ⟨items', k, hlist, rfl, he⟩
  · exact hlists (he ▸ hm)
  · rw [he] at hm
    rw [hlist] at hshown
    rcases Store.set_eq_some.mp hm with ⟨rfl, rfl⟩ | ⟨_, hm⟩
    · cases hshown with
      | list _ hl => exact hl
    · exact hlists hm

/-- What one command is to do: it returns, its answer shows, and the lists and their sequences are
in step afterwards. -/
def Sequence.Command.Steps (n : Nat) (s : State) (m : Store) (c : Command) : Prop :=
  ∃ r t, c.run.exec (n + 3) s = .done r t ∧ (c.result n s m).1.Shown s t r ∧
    t.Tracks (c.after n s m r)

theorem State.Tracks.step_make (hs : s.Tracks m) (items : List Handle) :
    (Command.make items).Steps n s m := by
  obtain ⟨k, t, hrun, hspares, hfresh, hl⟩ :=
    run_newList hs.orderly.regular.heap items (engine (n + 3))
  have hshown : ((Command.make items).result n s m).1.Shown s t (.ok k) := .list hfresh hl
  refine ⟨.ok k, t, hrun, hshown,
    hs.of_run (paired_newList (Renaming.known_all fun _ => .mem)).composed_known.builds hrun
      (hspares.mono fun _ _ => trivial) fun hm => ?_⟩
  exact Command.listOf_after hshown (fun hm => hspares.listOf trivial (hs.lists hm)) hm

theorem State.Tracks.step_construct {iterable : Handle} (hs : s.Tracks m)
    (hc : (Command.construct iterable).Fits n s m) : (Command.construct iterable).Steps n s m := by
  have hregular := hs.orderly.regular
  have hregular' : s.inMaking.Regular :=
    (((hregular.step (.change (.allocate s _))).step (.enter _)).step (.enter _)).step (.enter _)
  have hinside : s.Spares (fun _ => True) s.inMaking :=
    .of_kept (Heap.get?_allocate_of_live hregular.heap)
  have hfresh : s.heap.get? s.madeList = none := Heap.get?_allocate_fresh hregular.heap _
  have hkeep : (Command.construct iterable).Keeps s m s.madeList := Or.inr (Or.inr rfl)
  obtain ⟨hends, hlog⟩ := hc.iterable iterable rfl
  obtain ⟨t, u, hrun, _, hspares, hok, _⟩ :=
    (s.isList_madeList hregular.heap).effect_init (n := n) hregular'
      (Nat.succ_pos _) hkeep hends hlog
  have hexec : (Command.construct iterable).run.exec (n + 3) s
      = .done ((delivered n s.inMaking iterable).map fun _ => s.madeList) u.leave.leave.leave := by
    refine (run_construct hs.orderly hs.furnished hs.room iterable n).trans ?_
    rw [ExceptT.run_bind, Program.run_bind, hrun]
    cases delivered n s.inMaking iterable <;> rfl
  -- the new list is none of those that were in play
  have hothers : s.Spares m.Guards u.leave.leave.leave := by
    have hboth : s.Spares (fun k => (Command.construct iterable).Keeps s m k ∧
        k ≠ s.madeList) u.leave.leave.leave :=
      (hinside.mono fun _ _ => trivial).trans ⟨hspares.kept⟩
    refine hboth.mono_live fun hget hk => ⟨Command.keeps_of_guards hk, ?_⟩
    rintro rfl
    cases hfresh.symm.trans hget
  have hshown : ((Command.construct iterable).result n s m).1.Shown s u.leave.leave.leave
      ((delivered n s.inMaking iterable).map fun _ => s.madeList) := by
    rw [Command.result]
    cases hd : delivered n s.inMaking iterable with
    | ok items => exact .list hfresh (hok items hd)
    | error fault => exact .failed fault
  have hstore : ((Command.construct iterable).result n s m).2 = m := by
    rw [Command.result]
    cases delivered n s.inMaking iterable <;> rfl
  refine ⟨_, _, hexec, hshown, hs.of_run (.ask rfl) hexec (hothers.mono fun _ => Or.inr)
    fun hm => ?_⟩
  refine Command.listOf_after hshown (fun hm => ?_) hm
  rw [hstore] at hm
  exact hothers.listOf (Store.guards_of_known hm) (hs.lists hm)

theorem State.Tracks.step_call {c : Call} (hs : s.Tracks m) (hc : (Command.call h c).Fits n s m) :
    (Command.call h c).Steps n s m := by
  obtain ⟨items, hitems⟩ := hc.known h c rfl
  obtain ⟨o, _, _, hl, _⟩ := hs.lists hitems
  obtain ⟨r, t, hrun, heffect⟩ := hs.effect_call hitems hc
  obtain ⟨hinside, _⟩ :=
    State.spares_inMethod (fun k => m.Guards k ∧ k ≠ h) h c.member.name hs.orderly.regular
  have hspares : s.Spares (fun k => m.Guards k ∧ k ≠ h) t.leave.leave :=
    hinside.trans ⟨heffect.spares.kept⟩
  have hexec : (Command.call h c).run.exec (n + 3) s = .done r t.leave.leave := by
    refine (hl.run_callMethod hs.orderly hs.furnished (by have := hs.room; omega) c.member c.args
      (n + 1)).trans ?_
    rw [hrun]
    rfl
  have hresult : (Command.call h c).result n s m
      = (((c.op s (delivered (n + 1) (s.inMethod h c.member.name))).apply items).1,
        m.set h ((c.op s (delivered (n + 1) (s.inMethod h c.member.name))).apply items).2) := by
    rw [Command.result, hitems]
    rfl
  have hshown : ((Command.call h c).result n s m).1.Shown s t.leave.leave r := by
    rw [hresult]
    exact heffect.shown.outside hinside rfl
  refine ⟨r, t.leave.leave, hexec, hshown,
    hs.of_run (paired_callMethod (Known.mem List.mem_cons_self).related _ (Renaming.known_all
    fun _ hk => .mem (List.mem_cons_of_mem _ hk))).composed_known.builds hexec ?_ fun hm => ?_⟩
  · exact hspares.mono fun k hk => ⟨Or.inr hk, hl.ne_builtin hs.orderly.heap hk⟩
  · refine Command.listOf_after hshown (fun {h' items'} hm => ?_) hm
    rw [hresult] at hm
    rcases Store.set_eq_some.mp hm with ⟨rfl, rfl⟩ | ⟨hne, hm⟩
    · exact heffect.list
    · exact hspares.listOf ⟨Store.guards_of_known hm, hne⟩ (hs.lists hm)

/-- **One command** keeps the lists and their sequences in step. -/
theorem State.Tracks.step (hs : s.Tracks m) (hc : c.Fits n s m) : c.Steps n s m := by
  cases c with
  | make items => exact hs.step_make items
  | construct iterable => exact hs.step_construct hc
  | call h c => exact hs.step_call hc

/-! ## 5. Any number of commands -/

/-- The list that a command may change. -/
def Sequence.Command.target? : Command → Option Handle
  | .call h _ => some h
  | _ => none

/-- **What is seen of one command**: its answer shows, every list in play has the items of its
sequence, and a list that the command was not called on, or that saw it fail, has the items that it
had. -/
structure Sequence.Command.Refined (n : Nat) (s : State) (m : Store) (c : Command)
    (r : Except Fault Handle) (t : State) : Prop where
  shown : (c.result n s m).1.Shown s t r
  items : ∀ {k : Handle} {items : List Handle}, c.after n s m r k = some items →
    t.heap.listItems k = some (some items)
  others : ∀ {k : Handle} {items : List Handle}, m k = some items →
    c.target? ≠ some k ∨ (∃ fault, r = .error fault) → c.after n s m r k = some items

namespace Sequence

/-- Commands whose operands are in order, each in the state in which it comes. -/
def Admissible (n : Nat) : State → Store → List Command → Prop
  | _, _, [] => True
  | s, m, c :: rest => c.Fits n s m ∧ ∀ r t, c.run.exec (n + 3) s = .done r t →
      Admissible n t (c.after n s m r) rest

/-- Every command returns and is seen as one on sequences. -/
def Refines (n : Nat) : State → Store → List Command → Prop
  | _, _, [] => True
  | s, m, c :: rest => ∃ r t, c.run.exec (n + 3) s = .done r t ∧ c.Refined n s m r t ∧
      Refines n t (c.after n s m r) rest

theorem Op.apply_of_failing {op : Op} {fault : Fault}
    (h : (op.apply items).1.Shown s t (.error fault)) : (op.apply items).2 = items := by
  cases op with
  | init delivered =>
    cases delivered with
    | ok => cases h
    | error => rfl
  | pop =>
    rw [apply] at h ⊢
    split at h
    · rfl
    · cases h
  | getItem index =>
    rcases at?_cases index items fun k =>
      (.item (items.getD k .none), items) with ⟨kind, he⟩ | ⟨k, _, he⟩
    · exact congrArg Prod.snd he
    · exact congrArg Prod.snd he
  | setItem index value =>
    rcases at?_cases index items fun k => (.nothing, items.set k value) with ⟨kind, he⟩ | ⟨k, _, he⟩
    · exact congrArg Prod.snd he
    · rw [apply, he] at h
      cases h
  | len => rfl
  | copy => rfl
  | bool => rfl
  | append => cases h
  | clear => cases h

end Sequence

/-- What was not called, or failed, leaves the sequence of a list as it was. -/
theorem State.Tracks.after_eq (hs : s.Tracks m) (hshown : (c.result n s m).1.Shown s t r)
    (hm : m k = some items) (hk : c.target? ≠ some k ∨ ∃ fault, r = .error fault) :
    c.after n s m r k = some items := by
  have hstore : (c.result n s m).2 k = some items := by
    cases c with
    | make => exact hm
    | construct iterable =>
      rw [Command.result]
      cases delivered n s.inMaking iterable <;> exact hm
    | call h c =>
      refine Store.set_eq_some.mpr ?_
      by_cases he : k = h
      · subst he
        obtain ⟨fault, rfl⟩ := hk.resolve_left fun hne => hne rfl
        rw [hm]
        rw [Command.result, hm] at hshown
        exact Or.inl ⟨rfl, (Op.apply_of_failing hshown).symm⟩
      · exact Or.inr ⟨he, hm⟩
  obtain ⟨o, _, _, hl, _⟩ := hs.lists hm
  rcases Command.after_cases n s m c r with he | ⟨items', k', hlist, rfl, he⟩
  · rw [he]
    exact hstore
  · rw [he]
    rw [hlist] at hshown
    refine Store.set_eq_some.mpr (Or.inr ⟨?_, hstore⟩)
    rintro rfl
    cases hshown with
    | list hfresh _ => cases hfresh.symm.trans hl.get?_eq

/-- **Every finite sequence of commands** keeps lists and sequences in step. -/
theorem State.Tracks.refines (hs : s.Tracks m) (commands : List Command)
    (hc : Admissible n s m commands) : Refines n s m commands := by
  induction commands generalizing s m with
  | nil => trivial
  | cons c rest ih =>
    obtain ⟨r, t, hrun, hshown, ht⟩ := hs.step hc.1
    have hrefined : c.Refined n s m r t :=
      ⟨hshown, fun hm => (ht.lists hm).listItems_eq ht.orderly.heap,
        fun hm hk => hs.after_eq hshown hm hk⟩
    exact ⟨r, t, hrun, hrefined, ih ht (hc.2 r t hrun)⟩

/-- **Lists refine sequences.** Where the builtin members are in place and three more calls are
possible, every finite sequence of commands on lists gives the answers that it gives on sequences,
and every list in play has the items of its sequence after every command; a command that fails, or
is called on another list, leaves a list as it is. An index and the one that lies the length of the
sequence below it denote the same position, any other number is an `IndexError` and all else a
`TypeError`; so is `pop` of nothing an `IndexError`. -/
theorem State.lists_refine (hs : s.Reachable) (hf : s.heap.Furnished)
    (hroom : s.callDepth + 3 ≤ s.limits.callDepth)
    (hm : ∀ {h : Handle} {items : List Handle}, m h = some items → s.heap.ListOf h items)
    (commands : List Command) (hc : Admissible n s m commands) :
    Refines n s m commands ∧
      (∀ (items : List Handle) (i : Int) (value : Handle), 0 ≤ i → i < items.length →
        ∀ index ∈ [i, i - items.length],
        (Op.getItem (some index)).apply items = (.item (items.getD i.toNat .none), items) ∧
          (Op.setItem (some index) value).apply items = (.nothing, items.set i.toNat value)) ∧
      (∀ (items : List Handle) (i : Int) (value : Handle), i < -items.length ∨ items.length ≤ i →
        (Op.getItem (some i)).apply items = (.error .indexError, items) ∧
          (Op.setItem (some i) value).apply items = (.error .indexError, items)) ∧
      (∀ (items : List Handle) (value : Handle), (Op.getItem none).apply items
        = (.error .typeError, items) ∧
        (Op.setItem none value).apply items = (.error .typeError, items)) ∧
      Op.pop.apply [] = (.error .indexError, []) := by
  refine ⟨State.Tracks.refines ⟨hs.orderly, hf, hroom, hm⟩ commands hc, ?_, ?_,
    fun _ _ => ⟨rfl, rfl⟩, rfl⟩
  · intro items i value h0 h1 index hindex
    have hplace : place items.length index = some i.toNat := by
      obtain ⟨hfront, hback⟩ := place_eq h0 h1
      rcases List.mem_pair.mp hindex with rfl | rfl
      · exact hfront
      · exact hback
    exact ⟨by simp only [Op.apply, at?, hplace], by simp only [Op.apply, at?, hplace]⟩
  · intro items i value hi
    have hplace := place_eq_none hi
    exact ⟨by simp only [Op.apply, at?, hplace], by simp only [Op.apply, at?, hplace]⟩

/-- A list in play stays in play. -/
theorem Sequence.Command.known_after (hm : ∃ items, m h = some items) :
    ∃ items, c.after n s m r h = some items := by
  have hresult : ∃ items, (c.result n s m).2 h = some items := by
    cases c with
    | make => exact hm
    | construct iterable =>
      rw [result]
      cases delivered n s.inMaking iterable <;> exact hm
    | call => exact Store.known_set hm
  rcases after_cases n s m c r with he | ⟨_, _, _, _, he⟩
  · rw [he]
    exact hresult
  · rw [he]
    exact Store.known_set hresult

/-- Members without index and iterable can be called on a list in play, any number of times. -/
theorem Sequence.admissible_calls (hm : ∃ items, m h = some items) (calls : List Call)
    (hcalls : ∀ c ∈ calls, c.index? = none ∧ c.iterable? = none) :
    Admissible n s m (calls.map (Command.call h)) := by
  induction calls generalizing s m with
  | nil => trivial
  | cons c rest ih =>
    obtain ⟨hindex, hiterable⟩ := hcalls c List.mem_cons_self
    refine ⟨⟨?_, ?_, ?_⟩, fun r t _ => ih (Command.known_after hm) fun c' hc' =>
      hcalls c' (List.mem_cons_of_mem _ hc')⟩
    · rintro _ _ ⟨⟩
      exact hm
    · rintro _ _ index ⟨⟩ hi
      cases hindex.symm.trans hi
    · intro iterable hi
      cases hiterable.symm.trans hi

/-- A list of one item that is lengthened, copied and emptied. -/
theorem State.lists_refine_emptied :
    ∃ h, Admissible 0 (State.initial .standard (.ofLines [])) .empty
        (.make [.none] :: [Call.append .true, .copy, .pop, .pop, .pop].map (Command.call h)) ∧
      Refines 0 (State.initial .standard (.ofLines [])) .empty
        (.make [.none] :: [Call.append .true, .copy, .pop, .pop, .pop].map (Command.call h)) := by
  have hregular := State.regular_initial .standard (.ofLines [])
  obtain ⟨h, t, hrun, _, hfresh, hl⟩ := run_newList hregular.heap [.none] (engine 3)
  have hadmissible : Admissible 0 (State.initial .standard (.ofLines [])) .empty
      (.make [.none] :: [Call.append .true, .copy, .pop, .pop, .pop].map (Command.call h)) := by
    refine ⟨⟨?_, ?_, ?_⟩, fun r t' hrun' => admissible_calls ?_ _ (by decide)⟩
    · rintro _ _ ⟨⟩
    · rintro _ _ _ ⟨⟩
    · rintro _ ⟨⟩
    · cases (Outcome.done.inj (hrun.symm.trans hrun')).1
      exact ⟨[.none], Store.set_eq_some.mpr (Or.inl ⟨rfl, rfl⟩)⟩
  refine ⟨h, hadmissible, (State.lists_refine (.between .start)
    (State.unaltered_initial _ _).furnished ?_ ?_ _ hadmissible).1⟩
  · exact State.room_initial _ _ (by decide)
  · rintro _ _ ⟨⟩

end

end ObjectModel
