import ObjectModel.Proofs.Mappings.Construction
import ObjectModel.Proofs.Negation
import ObjectModel.Proofs.Ranges.Range

/-!
# `divmod` and its components

`divmod` asks its own hooks and falls back to the pair of `//` and `%`; `//` and `%` ask their own
hooks and fall back to the components of `divmod`. A hook passes if it is missing or answers
`NotImplemented`.

* `Hook.Passed`, `Hook.Answered` -- what one hook does when it is asked;
* `HookPair.Silent`, `HookPair.Answering` -- hooks that do the same in every state of a set;
* `Divmod.routes_agree` -- **the three operations agree** whichever of the two ways is open, and all
  complain if neither is.
-/

namespace ObjectModel

/-! ## 1. One hook -/

namespace Hook

variable {n : Nat} {h a : Handle} {name : String} {args : List Handle} {s t : State}

/-- **A hook that passes**: it is missing, or it declines. -/
inductive Passed (n : Nat) (h : Handle) (name : String) (args : List Handle) :
    State → State → Prop where
  | missing {s : State} : s.heap.hook h name = some none → Passed n h name args s s
  | declined {s t : State} {f : Handle} : s.heap.hook h name = some (some f) →
      (call f args).exec n s = .done (.ok .notImplemented) t → Passed n h name args s t

/-- **A hook that answers.** -/
inductive Answered (n : Nat) (h : Handle) (name : String) (args : List Handle) (s : State)
    (a : Handle) (t : State) : Prop where
  | called {f : Handle} : s.heap.hook h name = some (some f) →
      (call f args).exec n s = .done (.ok a) t → a ≠ .notImplemented → Answered n h name args s a t

theorem Passed.run (hp : Passed n h name args s t) :
    (askHook h name args).exec n s = .done (.ok none) t := by
  cases hp with
  | missing hhook => exact run_askHook_missing hhook _
  | declined hhook hcall =>
    exact (@Run.run_inspect_bind _ _ _ s (fun s => s.heap.hook h name) _ _ hhook).trans
      (Run.run_bind_ok hcall)

theorem Answered.run (ha : Answered n h name args s a t) :
    (askHook h name args).exec n s = .done (.ok (some a)) t := by
  obtain ⟨hhook, hcall, hne⟩ := ha
  refine (@Run.run_inspect_bind _ _ _ s (fun s => s.heap.hook h name) _ _ hhook).trans
    ((Run.run_bind_ok hcall).trans ?_)
  rw [if_neg hne]
  rfl

/-- There is no other way to go on without an answer. -/
theorem passed_of_run (hrun : (askHook h name args).exec n s = .done (.ok none) t) :
    Passed n h name args s t := by
  cases hhook : s.heap.hook h name with
  | none =>
    cases (@Run.run_inspect_bind_stale _ _ _ s (fun s => s.heap.hook h name) _ hhook).symm.trans
      hrun
  | some found =>
    have hrun :=
      (@Run.run_inspect_bind _ _ _ s (fun s => s.heap.hook h name) _ _ hhook).symm.trans hrun
    cases found with
    | none =>
      cases hrun
      exact .missing hhook
    | some f =>
      obtain ⟨a, u, hcall⟩ := Run.ok_of_bind hrun
      have hrun := (Run.run_bind_ok hcall).symm.trans hrun
      by_cases ha : a = .notImplemented
      · subst ha
        cases hrun
        exact .declined hhook hcall
      · rw [if_neg ha] at hrun
        cases hrun

end Hook

/-! ## 2. The two hooks of an operation -/

namespace HookPair

variable {p : HookPair} {n : Nat} {W : State → Prop} {x y : Handle} {V : State → Handle → Prop}
  {s t : State}

/-- **Both hooks pass**, in every state of `W`. -/
structure Silent (p : HookPair) (n : Nat) (W : State → Prop) (x y : Handle) : Prop where
  forward : ∀ s, W s → ∃ t, W t ∧ Hook.Passed n x p.forward [x, y] s t
  reflected : ∀ s, W s → ∃ t, W t ∧ Hook.Passed n y p.reflected [y, x] s t

/-- **One of the hooks answers**, in every state of `W`, with an object that is as `V` says: the
forward one, or the reflected one of an operation whose forward hook passes. -/
inductive Answering (p : HookPair) (n : Nat) (W : State → Prop) (x y : Handle)
    (V : State → Handle → Prop) : Prop where
  | forward : (∀ s, W s → ∃ a t, W t ∧ V t a ∧ Hook.Answered n x p.forward [x, y] s a t) →
      Answering p n W x y V
  | reflected : (∀ s, W s → ∃ t, W t ∧ Hook.Passed n x p.forward [x, y] s t) → (∀ s, W s →
      ∃ a t, W t ∧ V t a ∧ Hook.Answered n y p.reflected [y, x] s a t) → Answering p n W x y V

theorem run_of_passed (hp : Hook.Passed n x p.forward [x, y] s t) :
    (askHooks p x y).exec n s = (askHook y p.reflected [y, x]).exec n t := Run.run_bind_ok hp.run

theorem run_of_not_passed (hp : ∀ t, ¬ Hook.Passed n x p.forward [x, y] s t) :
    (askHooks p x y).exec n s = (askHook x p.forward [x, y]).exec n s := by
  unfold Run.exec askHooks
  rw [ExceptT.run_bind, Program.run_bind]
  cases hrun : (askHook x p.forward [x, y]).run.run (engine n) s with
  | aborted => rfl
  | done r t =>
    cases r with
    | error => rfl
    | ok answer =>
      cases answer with
      | none => exact absurd (Hook.passed_of_run hrun) (hp t)
      | some => rfl

theorem Silent.run (hp : p.Silent n W x y) (hs : W s) :
    ∃ t, W t ∧ (askHooks p x y).exec n s = .done (.ok none) t := by
  obtain ⟨t, ht, hforward⟩ := hp.forward s hs
  obtain ⟨u, hu, hreflected⟩ := hp.reflected t ht
  exact ⟨u, hu, (run_of_passed hforward).trans hreflected.run⟩

theorem Answering.run (hp : p.Answering n W x y V) (hs : W s) :
    ∃ a t, W t ∧ V t a ∧ (askHooks p x y).exec n s = .done (.ok (some a)) t := by
  cases hp with
  | forward hforward =>
    obtain ⟨a, t, ht, ha, hrun⟩ := hforward s hs
    exact ⟨a, t, ht, ha, Run.run_bind_ok hrun.run⟩
  | reflected hforward hreflected =>
    obtain ⟨t, ht, hpassed⟩ := hforward s hs
    obtain ⟨a, u, hu, ha, hrun⟩ := hreflected t ht
    exact ⟨a, u, hu, ha, (run_of_passed hpassed).trans hrun.run⟩

end HookPair

/-! ## 3. The three operations -/

/-- An item of a tuple, by a number. -/
theorem run_getItem_tuple {s : State} {a key : Handle} {o : Object} {raw : Int64}
    {items : List Handle} {k n : Nat} (hs : s.Orderly) (hp : s.heap.Provides .tuple)
    (hroom : s.Room) (hl : s.heap.layer? a = some (.tuple items)) (hkey : s.heap.get? key = some o)
    (hraw : o.intValue = some raw) (hplace : Sequence.place items.length raw.toInt = some k) :
    (getItem a key).exec (n + 1) s = .done (.ok (items.getD k .none)) s := by
  obtain ⟨tuple, hget, hlayer⟩ := Heap.layer?_eq_some_iff.mp hl
  have hm : s.heap.Answers a "__getitem__" (.tuple .getItem) :=
    hp.answers hs.heap hget (hlayer.type_eq hs.heap hget) (m := .tuple .getItem) (by decide) rfl
  have hrun : ((Member.tuple .getItem).run [a, key]).run.run (engine n) s.enter
      = .done (.ok (items.getD k .none)) s.enter := by
    refine (Run.run_bind_ok (run_tupleReceiver_layer (s := s.enter) hl _)).trans ?_
    rw [position_bind_of_int (s := s.enter) hkey hraw, hplace]
    rfl
  refine (run_hook _ (fun _ => rfl) hm hroom).trans ?_
  rw [hrun]
  rfl

theorem complains_raise {α : Type} {s : State} (hw : s.heap.WellFormed) (kind : ExceptionKind)
    (message : String) (e : Engine) :
    ((raiseMessage kind message : Run α).run.run e s).Complains s kind message := by
  obtain ⟨fault, t, text, hraised, hkept, htext, hcarries⟩ :=
    run_raiseMessage (α := α) hw kind message e
  exact ⟨fault, text, t, hraised, htext, hcarries, fun _ _ hget => hkept hget⟩

namespace Divmod

/-- **States in which the tuples can be asked for their items.** -/
structure Ready (W : State → Prop) : Prop where
  orderly : ∀ s, W s → s.Orderly
  provides : ∀ s, W s → s.heap.Provides .tuple
  room : ∀ s, W s → s.callDepth < s.limits.callDepth

/-- **How the three operations on `x` and `y` agree**, in the states of `W`. -/
structure Coherent (n : Nat) (W : State → Prop) (x y : Handle) : Prop where
  /-- The reflected hook is asked where the forward one has passed, and only there. -/
  ordered : ∀ (p : HookPair) (s : State),
    (∀ t, Hook.Passed n x p.forward [x, y] s t →
      (askHooks p x y).exec n s = (askHook y p.reflected [y, x]).exec n t) ∧
      ((∀ t, ¬ Hook.Passed n x p.forward [x, y] s t) →
        (askHooks p x y).exec n s = (askHook x p.forward [x, y]).exec n s)
  /-- Where only the hooks of `divmod` answer, with a tuple of two, its items are the answers of
  `//` and `%`. -/
  components : ∀ Q : State → Handle → Handle → Handle → Prop,
    BinaryOp.floorDiv.hooks.Silent n W x y →
    BinaryOp.mod.hooks.Silent n W x y →
    divmodHooks.Answering n W x y (fun t a => ∃ q m, t.heap.layer? a = some (.tuple [q, m]) ∧
      Q t a q m) → ∀ s, W s →
      (∃ a q m t, (divmod x y).exec n s = .done (.ok a) t ∧ t.heap.layer? a = some (.tuple [q, m]) ∧
        Q t a q m) ∧
      (∃ a q m t u, (binaryOp .floorDiv x y).exec n s = .done (.ok q) u ∧ Q t a q m ∧
        t.heap.KeptIn u.heap) ∧
      ∃ a q m t u, (binaryOp .mod x y).exec n s = .done (.ok m) u ∧ Q t a q m ∧ t.heap.KeptIn u.heap
  /-- Where only the hooks of `//` and `%` answer, `divmod` is the tuple of their answers. -/
  paired : ∀ Q R : State → Handle → Prop, divmodHooks.Silent n W x y →
    BinaryOp.floorDiv.hooks.Answering n W x y Q →
    BinaryOp.mod.hooks.Answering n W x y R → ∀ s, W s →
      (∃ q t, (binaryOp .floorDiv x y).exec n s = .done (.ok q) t ∧ Q t q) ∧
      (∃ m t, (binaryOp .mod x y).exec n s = .done (.ok m) t ∧ R t m) ∧
      ∃ q t m u a v, (divmod x y).exec n s = .done (.ok a) v ∧
        v.heap.layer? a = some (.tuple [q, m]) ∧ Q t q ∧ R u m ∧ u.heap.KeptIn v.heap
  /-- Where no hook answers, each of the three raises `TypeError`. -/
  refused : divmodHooks.Silent n W x y → BinaryOp.floorDiv.hooks.Silent n W x y →
    BinaryOp.mod.hooks.Silent n W x y → ∀ s, W s →
    (∃ t, W t ∧ ((divmod x y).exec n s).Complains t .typeError "`//` is not implemented") ∧ (∃ t,
    W t ∧ ((binaryOp .floorDiv x y).exec n s).Complains t .typeError "`//` is not implemented") ∧
    ∃ t, W t ∧ ((binaryOp .mod x y).exec n s).Complains t .typeError "`%` is not implemented"

variable {n : Nat} {W : State → Prop} {x y : Handle} {s : State} {V : State → Handle → Prop}

theorem run_own {op : BinaryOp} (hown : op.hooks.Answering n W x y V) (hs : W s) :
    ∃ a t, W t ∧ V t a ∧ (binaryOp op x y).exec n s = .done (.ok a) t := by
  obtain ⟨a, t, ht, ha, hrun⟩ := hown.run hs
  exact ⟨a, t, ht, ha, Run.run_bind_ok hrun⟩

/-- What an operation whose own hooks pass takes from the tuple that `divmod` answers. -/
theorem run_component {op : BinaryOp} {i : Int64} {k : Nat}
    {Q : State → Handle → Handle → Handle → Prop} (hready : Ready W)
    (hown : op.hooks.Silent (n + 1) W x y) (hop : fallback op x y = divmodComponent op i x y)
    (hplace : Sequence.place 2 i.toInt = some k) (hboth : divmodHooks.Answering (n + 1) W x y
      fun t a => ∃ q m, t.heap.layer? a = some (.tuple [q, m]) ∧ Q t a q m) (hs : W s) :
    ∃ a q m t u, (binaryOp op x y).exec (n + 1) s = .done (.ok ([q, m].getD k .none)) u ∧
      Q t a q m ∧ t.heap.KeptIn u.heap := by
  obtain ⟨s', hs', hsilent⟩ := hown.run hs
  obtain ⟨a, t, ht, ⟨q, m, hl, hq⟩, hrun⟩ := hboth.run hs'
  have horderly := hready.orderly t ht
  have hw := horderly.regular.heap
  obtain ⟨o, hget, hlayer⟩ := Heap.layer?_eq_some_iff.mp hl
  have hkept : t.heap.KeptIn (t.allocate (.ofInt i)).2.heap := Heap.get?_allocate_of_live hw
  have hl' : (t.allocate (.ofInt i)).2.heap.layer? a = some (.tuple [q, m]) := by
    cases hlayer with
    | tuple hp => exact Heap.layer?_eq_some_iff.mpr ⟨o, hkept hget, .tuple hp⟩
  have hitem : (getItem a (t.allocate (.ofInt i)).1).exec (n + 1) (t.allocate (.ofInt i)).2
      = .done (.ok ([q, m].getD k .none)) (t.allocate (.ofInt i)).2 :=
    run_getItem_tuple (horderly.allocate (.int i)) ((hready.provides t ht).allocate hw _)
      (hready.room t ht) hl' (Heap.get?_allocate_self hw _) rfl hplace
  refine ⟨a, q, m, t, _, (Run.run_bind_ok hsilent).trans ?_, hq, hkept⟩
  rw [hop]
  exact (Run.run_bind_ok hrun).trans hitem

theorem run_unanswered {op : BinaryOp} {i : Int64} (hready : Ready W)
    (hboth : divmodHooks.Silent n W x y) (hown : op.hooks.Silent n W x y)
    (hop : fallback op x y = divmodComponent op i x y) (hs : W s) :
    ∃ t, W t ∧ ((binaryOp op x y).exec n s).Complains t .typeError
      ("`" ++ op.symbol ++ "` is not implemented") := by
  obtain ⟨s', hs', hsilent⟩ := hown.run hs
  obtain ⟨t, ht, hrun⟩ := hboth.run hs'
  have heq : (binaryOp op x y).exec n s = (notSupported op : Run Handle).exec n t := by
    refine (Run.run_bind_ok hsilent).trans ?_
    rw [hop]
    exact Run.run_bind_ok hrun
  refine ⟨t, ht, ?_⟩
  rw [heq]
  exact complains_raise (hready.orderly t ht).regular.heap _ _ _

/-- The pair of the answers of `//` and `%`. -/
theorem run_pair {Q R : State → Handle → Prop} (hready : Ready W)
    (hboth : divmodHooks.Silent n W x y) (hq : BinaryOp.floorDiv.hooks.Answering n W x y Q)
    (hr : BinaryOp.mod.hooks.Answering n W x y R) (hs : W s) :
    ∃ q t m u a v, (divmod x y).exec n s = .done (.ok a) v ∧
      v.heap.layer? a = some (.tuple [q, m]) ∧ Q t q ∧ R u m ∧ u.heap.KeptIn v.heap := by
  obtain ⟨s', hs', hsilent⟩ := hboth.run hs
  obtain ⟨q, t, ht, hqt, hquotient⟩ := run_own hq hs'
  obtain ⟨m, u, hu, hmu, hremainder⟩ := run_own hr ht
  have hw := (hready.orderly u hu).regular.heap
  have hlayer :=
    Heap.layer?_eq_some_iff.mpr ⟨_, Heap.get?_allocate_self hw (.ofItems [q, m]), .tuple rfl⟩
  exact ⟨q, t, m, u, _, (u.allocate (.ofItems [q, m])).2, (Run.run_bind_ok hsilent).trans
    ((Run.run_bind_ok hquotient).trans (Run.run_bind_ok hremainder)), hlayer, hqt, hmu,
    Heap.get?_allocate_of_live hw⟩

/-- `divmod` complains as `//` does. -/
theorem run_divmod_unanswered {message : String} (hboth : divmodHooks.Silent n W x y)
    (hquotient : ∀ s, W s → ∃ t, W t ∧ ((binaryOp .floorDiv x y).exec n s).Complains t .typeError
      message) (hs : W s) : ∃ t, W t ∧ ((divmod x y).exec n s).Complains t .typeError message := by
  obtain ⟨s', hs', hsilent⟩ := hboth.run hs
  obtain ⟨t, ht, fault, text, u, hrun, hcomplains⟩ := hquotient s' hs'
  exact ⟨t, ht, fault, text, u, (Run.run_bind_ok hsilent).trans (Run.run_bind_error hrun),
    hcomplains⟩

/-- **The three operations agree**, for all operands and whatever their hooks are, as long as each
hook does the same in every state that can occur. -/
theorem routes_agree (n : Nat) (hready : Ready W) (x y : Handle) : Coherent (n + 1) W x y where
  ordered _ _ := ⟨fun _ hp => HookPair.run_of_passed hp, HookPair.run_of_not_passed⟩
  components Q hq hm hboth s hs := by
    refine ⟨?_, run_component hready hq rfl (i := 0) (k := 0) (by decide) hboth hs,
      run_component hready hm rfl (i := 1) (k := 1) (by decide) hboth hs⟩
    obtain ⟨a, t, _, ⟨q, m, hl, hqm⟩, hrun⟩ := hboth.run hs
    exact ⟨a, q, m, t, Run.run_bind_ok hrun, hl, hqm⟩
  paired Q R hboth hq hr s hs := by
    obtain ⟨q, t, _, hqt, hquotient⟩ := run_own hq hs
    obtain ⟨m, u, _, hmu, hremainder⟩ := run_own hr hs
    exact ⟨⟨q, t, hquotient, hqt⟩, ⟨m, u, hremainder, hmu⟩, run_pair hready hboth hq hr hs⟩
  refused hboth hq hm s hs :=
    have hquotient := fun s hs => run_unanswered hready hboth hq (i := 0) rfl (s := s) hs
    ⟨run_divmod_unanswered hboth hquotient hs, hquotient s hs,
      run_unanswered hready hboth hm (i := 1) rfl hs⟩

/-! ## 4. A type that only answers `divmod` -/

/-- `t` is orderly, has all objects of `s` and as many levels left. -/
structure Continues (s t : State) : Prop where
  orderly : t.Orderly
  kept : s.heap.KeptIn t.heap
  callDepth_eq : t.callDepth = s.callDepth
  limits_eq : t.limits = s.limits

theorem Continues.ready (hp : s.heap.Provides .tuple) (hroom : s.Room) : Ready (Continues s) where
  orderly _ ht := ht.orderly
  provides t ht := by
    have hspares : s.Spares (fun _ => True) t := .of_kept ht.kept
    exact fun m hm howner => hspares.offers trivial (hp m hm howner)
  room t ht := by
    rw [ht.callDepth_eq, ht.limits_eq]
    exact hroom

theorem Continues.silent {p : HookPair} (hs : s.Orderly) (hx : s.heap.hook x p.forward = some none)
    (hy : s.heap.hook y p.reflected = some none) : p.Silent n (Continues s) x y where
  forward t ht := ⟨t, ht, .missing (Heap.hook_of_kept ht.kept hx hs.heap)⟩
  reflected t ht := ⟨t, ht, .missing (Heap.hook_of_kept ht.kept hy hs.heap)⟩

/-- Whether a function answers with a new tuple of `False` and `True`. -/
def splits : Payload → Bool
  | .function _ (.script (.list .tuple [.bool false, .bool true])) => true
  | _ => false

theorem exists_of_splits {p : Payload} (h : splits p = true) :
    ∃ label, p = .function label (.script (.list .tuple [.bool false, .bool true])) := by
  unfold splits at h
  split at h
  · exact ⟨_, rfl⟩
  · cases h

/-- A `__divmod__` that is such a function. -/
theorem Continues.answering {f : Handle} {o : Object} (hs : s.Orderly) (hsingles : s.heap.Singles)
    (hx : s.heap.hook x "__divmod__" = some (some f)) (hget : s.heap.get? f = some o)
    (hsplits : splits o.payload = true) (hroom : s.Room) :
    divmodHooks.Answering (n + 1) (Continues s) x y fun t a =>
      ∃ q m, t.heap.layer? a = some (.tuple [q, m]) ∧ q = .false ∧ m = .true := by
  refine .forward fun t ht => ?_
  obtain ⟨label, hp⟩ := exists_of_splits hsplits
  have hw := ht.orderly.regular.heap
  have hroom' : t.callDepth < t.limits.callDepth := by
    rw [ht.callDepth_eq, ht.limits_eq]
    exact hroom
  have hcall : (call f [x, y]).exec (n + 1) t
      = .done (.ok (t.allocate (.ofItems [.false, .true])).1)
          (t.allocate (.ofItems [.false, .true])).2 :=
    run_call hroom' (ht.kept hget) hp
  obtain ⟨a, u, hu, hp⟩ := State.exists_placed hw (.ofItems [.false, .true])
  have horderly := ht.orderly.allocate (.items [.false, .true])
  rw [hu] at hcall horderly
  have hlayer := Heap.layer?_eq_some_iff.mpr ⟨_, hp.found, .tuple rfl⟩
  have hne : a ≠ .notImplemented := by
    obtain ⟨_, hsingle, _⟩ := hsingles .notImplemented .notImplemented rfl
    exact (hp.ne (ht.kept hsingle)).symm
  obtain ⟨heap, rfl⟩ := hp.rest
  exact ⟨a, _, ⟨horderly, fun hget => hp.kept (ht.kept hget), ht.callDepth_eq, ht.limits_eq⟩,
    ⟨_, _, hlayer, rfl, rfl⟩, .called (Heap.hook_of_kept ht.kept hx hs.heap) hcall hne⟩

/-- There `divmod(None, None)` is a tuple of `False` and `True`, `None // None` is `False` and `None
% None` is `True`. -/
theorem routes_agree_splitting :
    ∃ s : State, s.Reachable ∧ Ready (Continues s) ∧
    BinaryOp.floorDiv.hooks.Silent 1 (Continues s) .none .none ∧
    BinaryOp.mod.hooks.Silent 1 (Continues s) .none .none ∧
    divmodHooks.Answering 1 (Continues s) .none .none
      (fun t a => ∃ q m, t.heap.layer? a = some (.tuple [q, m]) ∧ q = .false ∧ m = .true) ∧
    (∃ a t, (divmod .none .none).exec 1 s = .done (.ok a) t ∧
      t.heap.layer? a = some (.tuple [.false, .true])) ∧
    (∃ t, (binaryOp .floorDiv .none .none).exec 1 s = .done (.ok .false) t) ∧
    ∃ t, (binaryOp .mod .none .none).exec 1 s = .done (.ok .true) t := by
  obtain ⟨_, s, hs, hp, hroom, ⟨_, hhook, f, rfl, o, hf, hsplits⟩, hmissing⟩ :=
    Session.exists_reached (fun _ => True) .standard 0
      [.pair (.setAttribute "__divmod__") (.builtinType .noneType)
        (.function "divmod" (.list .tuple [.bool false, .bool true]))]
      (fun _ s => s.heap.Provides .tuple ∧ s.Room ∧
        (∃ hook ∈ s.heap.hook .none "__divmod__", ∃ f ∈ hook, ∃ o ∈ s.heap.get? f,
          splits o.payload = true) ∧
        ∀ name ∈ ["__floordiv__", "__rfloordiv__", "__mod__", "__rmod__"], s.heap.hook .none name
          = some none) (by decide +kernel)
  have hready := Continues.ready hp hroom
  have hq : BinaryOp.floorDiv.hooks.Silent 1 (Continues s) .none .none :=
    Continues.silent hs.orderly (hmissing _ (by decide)) (hmissing _ (by decide))
  have hm : BinaryOp.mod.hooks.Silent 1 (Continues s) .none .none :=
    Continues.silent hs.orderly (hmissing _ (by decide)) (hmissing _ (by decide))
  have hboth :=
    Continues.answering (n := 0) (y := .none) hs.orderly hs.singles hhook hf hsplits hroom
  obtain ⟨⟨a, q, m, t, hrun, hl, rfl, rfl⟩, ⟨_, q, m, _, u, hquotient, ⟨rfl, rfl⟩, _⟩,
      ⟨_, q, m, _, v, hremainder, ⟨rfl, rfl⟩, _⟩⟩ :=
    (routes_agree 0 hready .none .none).components (fun _ _ q m => q = .false ∧ m = .true) hq hm
      hboth s ⟨hs.orderly, id, rfl, rfl⟩
  exact ⟨s, hs, hready, hq, hm, hboth, ⟨a, t, hrun, hl⟩, ⟨u, hquotient⟩, v, hremainder⟩

end Divmod

end ObjectModel
