import ObjectModel.Proofs.Ranges.Iteration
import ObjectModel.Proofs.Types.Making
import ObjectModel.Proofs.Types.Shadowing

/-!
# Ranges

A range has its bounds in three attributes that anybody may assign. Its members look at them when
they are called.

* `State.Follows`, `State.Ranging.follows` -- **the members of a range that has bounds**: the
  iterator runs through them, the length is the number of values or refused, the text shows them.
-/

namespace ObjectModel

variable {α : Type} {s t u : State} {g h r v : Handle} {p : Progression} {i : Int64} {name : String}
  {n : Nat} {e : Engine}

/-! ## 1. Bounds -/

/-- The integer that `h` is, if it is one. -/
def Heap.intAt? (heap : Heap) (h : Handle) : Option Int64 := (heap.get? h).bind Object.intValue

/-- The integer that `h` itself has as its attribute `name`. -/
def Heap.intAttribute? (heap : Heap) (h : Handle) (name : String) : Option Int64 :=
  (heap.ownAttribute h name).join.bind heap.intAt?

/-- Three integers under the names of bounds, the step not zero. -/
def Progression.read? (ints : String → Option Int64) : Option Progression :=
  match ints "start", ints "end", ints "step" with
  | some start, some stop, some step => if step = 0 then none else some ⟨start, stop, step⟩
  | _, _, _ => none

/-- **The bounds that a range has now.** -/
def Heap.bounds? (heap : Heap) (r : Handle) : Option Progression :=
  Progression.read? (heap.intAttribute? r)

theorem Progression.step_ne_zero_of_read {ints : String → Option Int64} (hp : read? ints = some p) :
    p.step ≠ 0 := by
  unfold read? at hp
  split at hp
  · split at hp
    · cases hp
    · rename_i hstep
      cases hp
      exact hstep
  · cases hp

/-- An object of type `range`. Its attributes are live. -/
structure State.IsRange (s : State) (r : Handle) : Prop where
  found : ∃ o, s.heap.get? r = some o ∧ o.type = BuiltinType.range.handle
  live : ∀ name value, s.heap.ownAttribute r name = some (some value) →
    ∃ o, s.heap.get? value = some o

/-- A text that names the member, for a range without bounds. -/
def unfitText (name : String) : String := "`" ++ name ++ "` requires an initialized range"

namespace State.IsRange

theorem run_intAttribute (hr : s.IsRange r) (name : String) (e : Engine) :
    (intAttribute r name).run.run e s = .done (.ok (s.heap.intAttribute? r name)) s := by
  obtain ⟨o, hget, _⟩ := hr.found
  refine (run_object_bind hget).trans ?_
  rw [Heap.intAttribute?, Heap.ownAttribute_of_get? hget]
  cases hvalue : o.attributes.get? name with
  | none => rfl
  | some value =>
    obtain ⟨w, hw⟩ :=
      hr.live name value ((Heap.ownAttribute_of_get? hget name).trans (congrArg some hvalue))
    refine (run_object_bind hw).trans ?_
    change _ = Outcome.done (Except.ok ((s.heap.get? value).bind Object.intValue)) s
    rw [hw]
    rfl

/-- **What a member finds**: the bounds, or a `TypeError`. -/
theorem run_rangeReceiver (hr : s.IsRange r) (name : String) (e : Engine) :
    (rangeReceiver name r).run.run e s
      = ((s.heap.bounds? r).elim (typeError (unfitText name)) pure : Run Progression).run.run e
        s := by
  unfold rangeReceiver Heap.bounds? Progression.read?
  refine (Run.run_bind_ok (hr.run_intAttribute "start" e)).trans ?_
  refine (Run.run_bind_ok (hr.run_intAttribute "end" e)).trans ?_
  refine (Run.run_bind_ok (hr.run_intAttribute "step" e)).trans ?_
  cases s.heap.intAttribute? r "start" with
  | none => rfl
  | some start =>
    cases s.heap.intAttribute? r "end" with
    | none => rfl
    | some stop =>
      cases s.heap.intAttribute? r "step" with
      | none => rfl
      | some step =>
        dsimp only
        split <;> rfl

theorem run_rangeReceiver_bind (hr : s.IsRange r) (hb : s.heap.bounds? r = some p) (name : String)
    (rest : Progression → Run α) :
    (rangeReceiver name r >>= rest).run.run e s = (rest p).run.run e s := by
  have hrun := hr.run_rangeReceiver name e
  rw [hb] at hrun
  exact Run.run_bind_ok hrun

theorem run_rangeReceiver_bind_unfit (hr : s.IsRange r) (hb : s.heap.bounds? r = none)
    (name : String) (rest : Progression → Run α) :
    (rangeReceiver name r >>= rest).run.run e s
      = (typeError (unfitText name) : Run α).run.run e s := by
  have hrun := hr.run_rangeReceiver name e
  rw [hb] at hrun
  rw [ExceptT.run_bind, Program.run_bind, hrun, ← Program.run_bind, ← ExceptT.run_bind]
  exact congrArg (fun x : Run α => x.run.run e s) (raiseMessage_bind ..)

end State.IsRange

/-! ## 2. Members -/

/-- **The program ends with an exception of this kind and text.** Nothing else changes. -/
def Outcome.Complains (s : State) (kind : ExceptionKind) (message : String)
    (o : Outcome (Except Fault α)) : Prop :=
  ∃ fault text t, o = .done (.error fault) t ∧ t.heap.get? text = some (.ofText message) ∧
    fault.Carries t kind [text] ∧ ∀ k o, s.heap.get? k = some o → t.heap.get? k = some o

section

variable {c : Handle} {m : Member} {onHook : Option Handle → Run α} {rest : Handle → Run α}

/-- A complaint of the member is one of the hook. -/
theorem complains_hook {kind : ExceptionKind} {message : String}
    (hcall : ∀ hook, onHook (some hook) = call hook [c] >>= rest) (hm : s.heap.Answers c name m)
    (hd : s.Room) (hw : s.heap.WellFormed) (hrun : (m.run [c]).run.run (engine n) s.enter
      = (raiseMessage kind message : Run Handle).run.run (engine n) s.enter) :
    ((findHook c name >>= onHook).run.run (engine (n + 1)) s).Complains s kind message := by
  obtain ⟨fault, t, text, hraised, hkept, htext, hcarries⟩ :=
    run_raiseMessage (α := Handle) (s := s.enter) hw kind message (engine n)
  exact ⟨fault, text, t.leave, run_hook_error hcall hm hd (hrun.trans hraised), htext,
    hcarries.congr rfl, fun k o hk => hkept hk⟩

end

/-- The length is the number that the member makes. -/
theorem run_length_of_int {size : Nat} {i : Int64} {c : Handle} {m : Member}
    (hm : s.heap.Answers c "__len__" m) (hd : s.Room) (hw : s.heap.WellFormed) (hi : i.toInt = size)
    (hrun : (m.run [c]).run.run (engine n) s.enter = (newInt i).run.run (engine n) s.enter) :
    (ObjectModel.length c).exec (n + 1) s = .done (.ok size) (s.allocate (.ofInt i)).2 := by
  have hint : (s.enter.allocate (.ofInt i)).2.leave.IsInt (s.enter.allocate (.ofInt i)).1 i :=
    ⟨.ofInt i, State.get?_made (s := s.enter) hw _, rfl⟩
  have hnonneg : 0 ≤ i := by
    rw [Int64.le_iff_toInt_le, Int64.toInt_zero]
    omega
  refine (run_hook_bind (fun _ => rfl) hm hd hrun).trans
    ((Run.run_bind_ok (hint.run_intValue _)).trans ?_)
  show (if 0 ≤ i then pure i.toInt.toNat
    else valueError "__len__() should return >= 0" : Run Nat).run.run _ _ = _
  rw [if_pos hnonneg, hi]
  rfl

/-- **The members of a range that has the bounds `p`.** All its items are the values of the
progression; an iterator is a new generator that counts them whatever is done behind it; the length
is their number, if it is an integer; the text shows the bounds. -/
structure State.Follows (s : State) (r : Handle) (p : Progression) : Prop where
  drained : ∀ n, p.length < n + 2 → ∃ items u, (ObjectModel.collect r).exec (n + 2) s
    = .done (.ok items) u ∧ items.length = p.length ∧ u.Lists p items
  iterated : ∀ n, ∃ g u, (iter r).exec (n + 1) s = .done (.ok g) u ∧ s.heap.get? g = none ∧
    ∀ {β : Type} (q : Program β) (m : Nat), Generator.Counts g p 0 (Generator.answers g (q.log m u))
  measured : ∀ n, p.length ≤ 9223372036854775807 →
    ∃ u, (ObjectModel.length r).exec (n + 1) s = .done (.ok p.length) u
  unmeasured : ∀ n, 9223372036854775807 < p.length →
    ((ObjectModel.length r).exec (n + 1) s).Complains s .valueError
      "range length does not fit in an int"
  shown : ∀ n, ∃ u, (repr r).exec (n + 1) s = .done (.ok p.text) u

/-- The members of a range that has no bounds. -/
structure State.Unfit (s : State) (r : Handle) : Prop where
  iter : ∀ n, ((ObjectModel.iter r).exec (n + 1) s).Complains s .typeError
    (unfitText "range.__iter__")
  length : ∀ n, ((ObjectModel.length r).exec (n + 1) s).Complains s .typeError
    (unfitText "range.__len__")
  repr : ∀ n, ((ObjectModel.repr r).exec (n + 1) s).Complains s .typeError
    (unfitText "range.__repr__")

/-- **A range whose members can be called.** -/
structure State.Ranging (s : State) (r : Handle) : Prop where
  requests : s.Requests
  provides : s.heap.Provides .range
  coherent : s.heap.Coherent
  range : s.IsRange r

theorem RangeMember.mem_all (m : RangeMember) : Member.range m ∈ Member.all := by
  cases m <;> decide

namespace State.Ranging

theorem answers (hs : s.Ranging r) (m : RangeMember) : s.heap.Answers r m.name (.range m) := by
  obtain ⟨o, hget, ht⟩ := hs.range.found
  exact hs.provides.answers hs.requests.orderly.heap hget ht m.mem_all rfl

theorem wellFormed (hs : s.Ranging r) : s.heap.WellFormed := hs.requests.orderly.regular.heap

theorem inside (hs : s.Ranging r) : s.enter.IsRange r := ⟨hs.range.found, hs.range.live⟩

theorem allocate {object : Object} (hs : s.Ranging r) (hobject : object.attributes.Coherent)
    (horderly : (s.allocate object).2.Orderly) : (s.allocate object).2.Ranging r := by
  have hw := hs.wellFormed
  have hkept : ∀ {k : Handle} {o : Object}, s.heap.get? k = some o →
      (s.allocate object).2.heap.get? k = some o :=
    Heap.get?_allocate_of_live hw
  obtain ⟨o, hget, ht⟩ := hs.range.found
  have hleaves : s.Leaves (fun _ => False) (s.allocate object).2 := .of_kept hkept
  refine ⟨hs.requests.of_leaves hleaves horderly, hs.provides.allocate hw object,
    hs.coherent.allocate hw hobject, ⟨o, hkept hget, ht⟩, ?_⟩
  intro name value hown
  have hold : s.heap.ownAttribute r name = some (some value) := by
    rw [Heap.ownAttribute_of_get? (hkept hget)] at hown
    exact (Heap.ownAttribute_of_get? hget name).trans hown
  obtain ⟨w, hvalue⟩ := hs.range.live name value hold
  exact ⟨w, hkept hvalue⟩

/-- **An iterator is made**, which stands at the start. -/
theorem run_iter (hs : s.Ranging r) (hb : s.heap.bounds? r = some p) (hd : s.Room) (n : Nat) :
    ∃ hstep g u, (iter r).run.run (engine (n + 1)) s = .done (.ok g) u ∧ s.heap.get? g = none ∧
      u.Dealing g (p.deal hstep) 0 ∧ u.Ranging r := by
  have hw := hs.wellFormed
  have hrun : (iter r).run.run (engine (n + 1)) s
      = .done (.ok (s.allocate (.ofCoroutine (.progression p (some p.start)))).1)
        (s.allocate (.ofCoroutine (.progression p (some p.start)))).2 := by
    have hhook : (iter r).run.run (engine (n + 1)) s
        = (((Member.range .iter).run [r]).run.run (engine n) s.enter).onState State.leave :=
      run_hook _ (fun _ => rfl) (hs.answers .iter) hd
    have hmember : ((Member.range .iter).run [r]).run.run (engine n) s.enter
        = (newGenerator (.progression p (some p.start))).run.run (engine n) s.enter :=
          hs.inside.run_rangeReceiver_bind hb _ _
    rw [hhook, hmember]
    rfl
  rw [← Progression.rest_zero] at hrun
  have hranging : (s.allocate (.ofCoroutine (p.rest 0))).2.Ranging r :=
    hs.allocate .empty
      ((composed_newGenerator (c := p.rest 0) fun _ => .mem).builds.orderly hs.requests.orderly 0)
  exact ⟨Progression.step_ne_zero_of_read hb, _, _, hrun, Heap.get?_allocate_fresh hw _,
    ⟨hranging.requests, hd, _, State.stands_allocate hw rfl, Or.inl rfl⟩, hranging⟩

theorem run_len (hs : s.Ranging r) (hb : s.heap.bounds? r = some p) (e : Engine) :
    ((Member.range .len).run [r]).run.run e s.enter
      = ((Arithmetic.fit? p.length).elim (valueError "range length does not fit in an int")
        newInt).run.run e s.enter := by
  refine (hs.inside.run_rangeReceiver_bind hb _ _).trans ?_
  cases Arithmetic.fit? p.length <;> rfl

/-- **The members of a range with bounds.** -/
theorem follows (hs : s.Ranging r) (hb : s.heap.bounds? r = some p) (hd : s.Room) :
    s.Follows r p where
  drained n hn := by
    obtain ⟨_, g, t, hiter, _, hdealing, _⟩ := hs.run_iter hb hd (n + 1)
    obtain ⟨items, u, hcollect, hlength, hlists, _⟩ := hdealing.run_drain hiter hn
    exact ⟨items, u, hcollect, hlength, hlists⟩
  iterated n := by
    obtain ⟨_, g, t, hiter, hfresh, hdealing, _⟩ := hs.run_iter hb hd n
    obtain ⟨x, hx, hat⟩ := hdealing.stands
    exact ⟨g, t, hiter, hfresh, fun q m => Generator.counts_of_log q m
      hdealing.requests.orderly.regular.heap hx hat⟩
  measured n hn := by
    obtain ⟨i, hi⟩ := Arithmetic.exists_fit (n := (p.length : Int)) (by omega) (by omega)
    have hmember := hs.run_len hb (engine n)
    rw [hi] at hmember
    exact ⟨_, run_length_of_int (hs.answers .len) hd hs.wellFormed
      (Arithmetic.fit?_eq_some_iff.mp hi) hmember⟩
  unmeasured n hn := by
    have hnone : Arithmetic.fit? (p.length : Int) = none :=
      Arithmetic.fit?_eq_none_iff.mpr (Or.inr (by omega))
    have hmember := hs.run_len hb (engine n)
    rw [hnone] at hmember
    exact complains_hook (fun _ => rfl) (hs.answers .len) hd hs.wellFormed hmember
  shown n := by
    have hmember : ((Member.range .repr).run [r]).run.run (engine n) s.enter
        = .done (.ok (s.enter.allocate (.ofText p.text)).1) (s.enter.allocate (.ofText p.text)).2 :=
      hs.inside.run_rangeReceiver_bind hb _ _
    have htext := State.get?_made (s := s.enter) hs.wellFormed (.ofText p.text)
    have hrun : (repr r).exec (n + 1) s
        = .done (.ok p.text) (s.enter.allocate (.ofText p.text)).2.leave := by
      refine (run_hook_bind (fun _ => rfl) (hs.answers .repr) hd hmember).trans ?_
      rw [textValue, bind_assoc]
      exact run_object_bind (s := (s.enter.allocate (.ofText p.text)).2.leave) htext
    exact ⟨_, hrun⟩

/-- **The members of a range without bounds.** -/
theorem unfit (hs : s.Ranging r) (hb : s.heap.bounds? r = none) (hd : s.Room) : s.Unfit r where
  iter _ := complains_hook (fun hook => (bind_pure (call hook [r])).symm)
      (hs.answers .iter) hd hs.wellFormed (hs.inside.run_rangeReceiver_bind_unfit hb _ _)
  length _ := complains_hook (fun _ => rfl) (hs.answers .len) hd hs.wellFormed
      (hs.inside.run_rangeReceiver_bind_unfit hb _ _)
  repr _ := complains_hook (fun _ => rfl) (hs.answers .repr) hd hs.wellFormed
      (hs.inside.run_rangeReceiver_bind_unfit hb _ _)

end State.Ranging

/-- **What a range is asked it answers from its bounds.** -/
def State.Behaves (s : State) (r : Handle) : Option Progression → Prop
  | some p => s.Follows r p
  | none => s.Unfit r

theorem State.Ranging.behaves (hs : s.Ranging r) (hd : s.Room) :
    s.Behaves r (s.heap.bounds? r) := by
  cases hb : s.heap.bounds? r with
  | some p => exact hs.follows hb hd
  | none => exact hs.unfit hb hd

/-! ## 3. Assignments -/

/-- Assigns attributes of `r`, one after another. -/
def assign (r : Handle) : List (String × Handle) → Run Unit
  | [] => return ()
  | (name, value) :: rest => do
    setAttribute r name value
    assign r rest

/-- The integers among the attributes of `r` behind assignments: the last value that was assigned to
a name counts. -/
def Heap.reassigned (heap : Heap) (r : Handle) (assignments : List (String × Handle)) :
    String → Option Int64 :=
  assignments.foldl (fun ints x => Function.update ints x.1 (heap.intAt? x.2))
    (heap.intAttribute? r)

theorem State.intAt?_setAttribute (s : State) (r : Handle) (name : String) (value k : Handle) :
    (s.setAttribute r name value).heap.intAt? k = s.heap.intAt? k := by
  unfold Heap.intAt? setAttribute modify
  rw [Heap.get?_modify]
  split
  · rename_i hk
    subst hk
    cases s.heap.get? k <;> rfl
  · rfl

namespace State.Ranging

theorem intAttribute?_setAttribute (hs : s.Ranging r) (name : String) (value : Handle) :
    (s.setAttribute r name value).heap.intAttribute? r
      = Function.update (s.heap.intAttribute? r) name (s.heap.intAt? value) := by
  obtain ⟨o, hget, _⟩ := hs.range.found
  have hint : (s.setAttribute r name value).heap.intAt? = s.heap.intAt? :=
    funext (s.intAt?_setAttribute r name value)
  funext m
  unfold Heap.intAttribute?
  rw [State.ownAttribute_setAttribute hs.coherent hget, hint]
  by_cases hm : m = name
  · subst hm
    rw [if_pos ⟨rfl, rfl⟩, Function.update_self]
    rfl
  · rw [if_neg fun h => hm h.2, Function.update_of_ne hm]

theorem ne_builtin (hs : s.Ranging r) (b : BuiltinType) : r ≠ b.handle := by
  rintro rfl
  obtain ⟨o, hget, ht⟩ := hs.range.found
  obtain ⟨o', hget', hp⟩ := hs.requests.orderly.heap.builtin b
  cases hget.symm.trans hget'
  have hkind : o.type = BuiltinType.type.handle :=
    hs.requests.orderly.heap.kind hget (by rw [hp]; rfl)
  exact absurd (ht.symm.trans hkind) (by decide)

theorem spares_builtin (hs : s.Ranging r) (b : BuiltinType) (name : String) (value : Handle) :
    s.Spares (· = b.handle) (s.setAttribute r name value) := by
  refine s.spares_setAttribute ?_ name value
  exact hs.ne_builtin b

theorem stands_setAttribute {x : Generator} (hx : s.Stands g x) (r : Handle) (name : String)
    (value : Handle) : (s.setAttribute r name value).Stands g x := by
  obtain ⟨o, hget, hp⟩ := hx
  by_cases he : g = r
  · subst he
    exact ⟨_, State.get?_setAttribute_self hget name value, hp⟩
  · exact ⟨o, (State.get?_setAttribute_of_ne he name value).trans hget, hp⟩

/-- **An assignment leaves a range.** -/
theorem setAttribute (hs : s.Ranging r) (name : String) {value : Handle} {w : Object}
    (hv : s.heap.get? value = some w) : (s.setAttribute r name value).Ranging r := by
  obtain ⟨o, hget, ht⟩ := hs.range.found
  have hlive : ∀ {k : Handle} {x : Object}, s.heap.get? k = some x →
      ∃ y, (s.setAttribute r name value).heap.get? k = some y := by
    intro k x hk
    by_cases he : k = r
    · subst he
      exact ⟨_, State.get?_setAttribute_self hk name value⟩
    · exact ⟨x, (State.get?_setAttribute_of_ne he name value).trans hk⟩
  have hbuilds : (ObjectModel.setAttribute r name value).Builds := .act rfl
  have horderly := hbuilds.orderly_done hs.requests.orderly
      (State.run_setAttribute (Heap.contains_of_get? hget) name value (engine 0))
  have hleaves : s.Leaves (fun _ => False) (s.setAttribute r name value) :=
    ⟨hs.spares_builtin .generator name value, fun hk => hk.elim⟩
  refine ⟨hs.requests.of_leaves hleaves horderly,
    fun m hm howner => (hs.spares_builtin .range name value).offers rfl (hs.provides m hm howner),
    hs.coherent.modify r fun o ho => ho.insert name value,
    ⟨_, State.get?_setAttribute_self hget name value, ht⟩, fun m k hk => ?_⟩
  rw [State.ownAttribute_setAttribute hs.coherent hget] at hk
  split at hk
  · cases hk
    exact hlive hv
  · obtain ⟨x, hx⟩ := hs.range.live m k hk
    exact hlive hx

/-- **Assignments**, by induction on their list: the range is one, and has the integers that were
assigned last. Generators are as they were. -/
theorem run_assign (assignments : List (String × Handle)) :
    ∀ {s : State}, s.Ranging r → (∀ x ∈ assignments, s.heap.contains x.2 = true) →
    ∃ t, (assign r assignments).run.run e s = .done (.ok ()) t ∧ t.Ranging r ∧
      t.heap.intAttribute? r = s.heap.reassigned r assignments ∧ t.callDepth = s.callDepth ∧
      t.limits = s.limits ∧
      ∀ {g : Handle} {x : Generator}, s.Stands g x → t.Stands g x := by
  induction assignments with
  | nil => exact fun hs _ => ⟨_, rfl, hs, rfl, rfl, rfl, id⟩
  | cons first rest ih =>
    obtain ⟨name, value⟩ := first
    intro s hs hlive
    obtain ⟨o, hget, _⟩ := hs.range.found
    obtain ⟨w, hw⟩ := Heap.contains_iff.mp (hlive (name, value) List.mem_cons_self)
    have hkept : ∀ x ∈ rest, (s.setAttribute r name value).heap.contains x.2 = true := by
      intro x hx
      have hold := hlive x (List.mem_cons_of_mem _ hx)
      rw [State.setAttribute, State.modify, Heap.contains_modify]
      exact hold
    obtain ⟨t, hrun, ht, hints, hdepth, hlimits, hstands⟩ := ih (hs.setAttribute name hw) hkept
    refine ⟨t,
      (Run.run_bind_ok (State.run_setAttribute (Heap.contains_of_get? hget) name value e)).trans
      hrun, ht, ?_, hdepth, hlimits, fun hx => hstands (stands_setAttribute hx r name value)⟩
    have hint : (s.setAttribute r name value).heap.intAt? = s.heap.intAt? :=
      funext (s.intAt?_setAttribute r name value)
    rw [hints, Heap.reassigned, Heap.reassigned, List.foldl_cons,
      hs.intAttribute?_setAttribute, hint]

end State.Ranging

/-! ## 4. Making a range -/

/-- `range` makes its instances as `object` does, and the members that this takes are where they
were placed. -/
structure Heap.MakesRanges (heap : Heap) : Prop where
  provides : ∀ b ∈ [BuiltinType.object, .type, .range, .generator], heap.Provides b
  bare : ∀ o, heap.get? BuiltinType.range.handle = some o → o.attributes.get? "__new__" = none

theorem Heap.MakesRanges.makes {heap : Heap} (hm : heap.MakesRanges) :
    heap.Makes .range (.range .init) where
  typeCall := hm.provides .type (by decide) (.type .call) (by decide) rfl
  objectNew := hm.provides .object (by decide) (.object .new) (by decide) rfl
  init := hm.provides .range (by decide) (.range .init) (by decide) rfl
  bare := hm.bare
  base := rfl
  proper := by decide

theorem Heap.Unaltered.makesRanges {heap : Heap} (hu : heap.Unaltered) : heap.MakesRanges :=
  ⟨fun b _ => hu.provides b, fun o hget => hu.lacks .range o hget (.object .new) (by decide)
    (by decide)⟩

section

variable {a b c : Handle}

theorem State.IsInt.run_rangeBound (hi : s.IsInt h i) (field : String) (e : Engine) :
    (rangeBound field h).run.run e s = .done (.ok i) s := Run.run_bind_ok (hi.run_intValue e)

/-- **The bounds are stored**, if they are three integers and the step is not zero. -/
theorem run_rangeInit (ha : s.IsInt a p.start) (hb : s.IsInt b p.stop) (hc : s.IsInt c p.step)
    (hstep : p.step ≠ 0) :
    (rangeInit r a b c).run.run e s = (assign r [("start", a), ("end", b), ("step", c)]
      >>= fun _ => return .none).run.run e s := by
  refine (Run.run_bind_ok (ha.run_rangeBound "start" e)).trans ?_
  refine (Run.run_bind_ok (hb.run_rangeBound "end" e)).trans ?_
  refine (Run.run_bind_ok (hc.run_rangeBound "step" e)).trans ?_
  rw [if_neg hstep]
  rfl

theorem Heap.MakesRanges.ranging (hm : s.heap.MakesRanges) (hs : s.Orderly) (hc : s.heap.Coherent) :
    (s.inInit .range).Ranging (s.made .range) := by
  have hw := hs.regular.heap
  have hget : (s.inInit .range).heap.get? (s.made .range) = some (.bare BuiltinType.range.handle) :=
    Heap.get?_allocate_self hw _
  have horderly : (s.inInit .range).Orderly := by
    have hbuilds : (ObjectModel.allocate (.bare BuiltinType.range.handle)).Builds :=
      .allocate fun t ht => .plain .empty (ht.heap.isType_builtin .range) .empty
    exact (hbuilds.orderly hs 0).enter.enter.enter
  have hleaves : s.Leaves (fun _ => False) (s.inInit .range) :=
    .of_kept (Heap.get?_allocate_of_live hw)
  have hrequests : s.Requests := ⟨hs, hm.provides .generator (by decide) (.generator .iter)
      (by decide) rfl, hm.provides .generator (by decide) (.generator .next) (by decide) rfl⟩
  refine ⟨hrequests.of_leaves hleaves horderly, (hm.provides .range (by decide)).allocate hw _,
    hc.allocate hw .empty, ⟨_, hget, rfl⟩, ?_⟩
  intro name value hown
  rw [Heap.ownAttribute, hget] at hown
  cases hown

theorem State.Ranging.leave (hs : s.Ranging r) : s.leave.Ranging r :=
  ⟨⟨hs.requests.orderly.leave, hs.requests.iter, hs.requests.next⟩, hs.provides, hs.coherent,
    hs.range.found, hs.range.live⟩

/-- **A range is made from three integers** and has them as its bounds. -/
theorem Heap.MakesRanges.run_call (hm : s.heap.MakesRanges) (hs : s.Orderly)
    (hcoherent : s.heap.Coherent) (hroom : s.callDepth + 3 ≤ s.limits.callDepth)
    (ha : s.IsInt a p.start) (hb : s.IsInt b p.stop) (hc : s.IsInt c p.step)
    (hstep : p.step ≠ 0) (n : Nat) :
    ∃ r t, (call BuiltinType.range.handle [a, b, c]).exec (n + 3) s = .done (.ok r) t ∧ t.Ranging r
      ∧ t.heap.bounds? r = some p ∧ t.callDepth = s.callDepth ∧ t.limits = s.limits := by
  have hw := hs.regular.heap
  have hkept : s.heap.KeptIn (s.inInit .range).heap := Heap.get?_allocate_of_live hw
  have hints : ∀ {h : Handle} {i : Int64}, s.IsInt h i →
      (s.inInit .range).heap.contains h = true ∧ (s.inInit .range).heap.intAt? h = some i := by
    intro h i hi
    obtain ⟨o, hget, hp⟩ := hi.of_kept hkept
    refine ⟨Heap.contains_of_get? hget, ?_⟩
    rw [Heap.intAt?, hget, Option.bind_some, Object.intValue, hp]
  have hranging := hm.ranging hs hcoherent
  have hlive : ∀ x ∈ [("start", a), ("end", b), ("step", c)], (s.inInit .range).heap.contains x.2
      = true := by
    intro x hx
    simp only [List.mem_cons, List.not_mem_nil, or_false] at hx
    rcases hx with rfl | rfl | rfl
    · exact (hints ha).1
    · exact (hints hb).1
    · exact (hints hc).1
  -- `__init__` stores the bounds one after another; the last word on each name is read back
  obtain ⟨t, hassign, ht, hattributes, hdepth, hlimits, _⟩ :=
    State.Ranging.run_assign (e := engine n) _ hranging hlive
  have hinit : (rangeInit (s.made .range) a b c).run.run (engine n) (s.inInit .range)
      = .done (.ok .none) t :=
    (run_rangeInit (ha.of_kept hkept) (hb.of_kept hkept) (hc.of_kept hkept) hstep).trans
      (Run.run_bind_ok hassign)
  refine ⟨s.made .range, t.leave.leave.leave, ?_, ht.leave.leave.leave, ?_, ?_, hlimits⟩
  · have hmade : ((Member.range .init).run [s.made .range, a, b, c]
        >>= fun _ => return s.made .range : Run Handle).run.run (engine n)
        (s.inInit .range) = .done (.ok (s.made .range)) t := Run.run_bind_ok hinit
    rw [hm.makes.run_construct hs hroom, hmade]
    rfl
  · show Progression.read? (t.heap.intAttribute? (s.made .range)) = some p
    rw [hattributes]
    show Progression.read? (Function.update (Function.update (Function.update _ "start" _) "end" _)
      "step" _) = some p
    rw [(hints ha).2, (hints hb).2, (hints hc).2]
    exact if_neg hstep
  · show t.callDepth - 1 - 1 - 1 = s.callDepth
    rw [hdepth]
    rfl

/-- **Ranges.** In every state of a session, with room for three calls more and the members of the
types where they were placed, three integers make a range, if the step is not zero. Its length is
the number of integers `start + k * step` before the end, computed without overflow or a division by
zero. All its items are these integers in order; an iterator hands them out, whatever is done behind
it, and then stops; `len` is their number, or a `ValueError` if it is no integer. Behind any
assignments to its attributes the members use the integers that are there then, or raise
`TypeError`, and an iterator that was made before has the items of the range as it was. -/
theorem State.ranges_count (hs : s.Reachable) (hm : s.heap.MakesRanges)
    (hroom : s.callDepth + 3 ≤ s.limits.callDepth) (ha : s.IsInt a p.start) (hb : s.IsInt b p.stop)
    (hc : s.IsInt c p.step) (hstep : p.step ≠ 0) (n : Nat) :
    (p.length = {k : Nat | p.Before (p.value k)}.ncard ∧ (∀ k, p.Before (p.value k) ↔ k < p.length)
      ∧ Progression.unitWord p.step ≠ 0 ∧ p.lengthWord.toNat = p.length) ∧
    ∃ r t, (call BuiltinType.range.handle [a, b, c]).exec (n + 3) s = .done (.ok r) t ∧
      t.Follows r p ∧
      ∃ g u, (iter r).exec (n + 1) t = .done (.ok g) u ∧
        ∀ assignments : List (String × Handle), (∀ x ∈ assignments, u.heap.contains x.2 = true) →
          ∃ v, (assign r assignments).exec n u = .done (.ok ()) v ∧
            v.Behaves r (Progression.read? (u.heap.reassigned r assignments)) ∧
            ∀ m, p.length < m + 2 → ∃ items w, (ObjectModel.collect g).exec (m + 2) v
              = .done (.ok items) w ∧ items.length = p.length ∧ w.Lists p items := by
  refine ⟨⟨Progression.length_eq_ncard hstep, fun k => Progression.before_value_iff hstep,
    Progression.unitWord_ne_zero hstep, Progression.toNat_lengthWord hstep⟩, ?_⟩
  obtain ⟨r, t, hrun, ht, hbounds, hdepth, hlimits⟩ :=
    hm.run_call hs.orderly hs.coherent hroom ha hb hc hstep n
  have hd : t.callDepth < t.limits.callDepth := by
    rw [hdepth, hlimits]
    omega
  obtain ⟨_, g, u, hiter, _, hdealing, hu⟩ := ht.run_iter hbounds hd n
  refine ⟨r, t, hrun, ht.follows hbounds hd, g, u, hiter, fun assignments hlive => ?_⟩
  obtain ⟨v, hassign, hv, hints, hdepth', hlimits', hstands⟩ :=
    hu.run_assign (e := engine n) assignments hlive
  have hroom' : v.callDepth < v.limits.callDepth := by
    rw [hdepth', hlimits']
    exact hdealing.room
  refine ⟨v, hassign, ?_, fun m hlength => ?_⟩
  · rw [← hints]
    exact hv.behaves hroom'
  · -- the iterator still stands at its start
    obtain ⟨x, hx, hat⟩ := hdealing.stands
    have hstarted : v.Dealing g (p.deal hstep) 0 := ⟨hv.requests, hroom', x, hstands hx, hat⟩
    obtain ⟨items, w, hcollect, hsize, hlists, _⟩ :=
      hstarted.run_drain (hv.requests.run_iter hroom' (hstands hx) (m + 1)) hlength
    exact ⟨items, w, hcollect, hsize, hlists⟩

end

theorem State.exists_bounds (start stop step : Int64) :
    ∃ (s : State) (a b c : Handle), s.Reachable ∧ s.heap.MakesRanges ∧
    s.callDepth + 3 ≤ s.limits.callDepth ∧ s.IsInt a start ∧ s.IsInt b stop ∧ s.IsInt c step := by
  obtain ⟨s, _, hs, hu, hlevels, _ | ⟨ha, _ | ⟨hb, _ | ⟨hc, _⟩⟩⟩⟩ :=
    State.exists_literals [.int start, .int stop, .int step]
  have hroom : s.limits.callDepth - s.callDepth = Limits.standard.callDepth := hlevels
  have hthree : 3 ≤ Limits.standard.callDepth := by decide
  exact ⟨s, _, _, _, hs, hu.makesRanges, by omega, ⟨_, ha, rfl⟩, ⟨_, hb, rfl⟩, _, hc, rfl⟩

theorem Progression.read?_of_step_none {ints : String → Option Int64} (h : ints "step" = none) :
    read? ints = none := by
  unfold read?
  rw [h]
  cases ints "start" <;> cases ints "end" <;> rfl

/-- `range(9223372036854775806, 9223372036854775807, 2)` has one item, although the value behind it
is out of the range. With `None` for a step it has no members to speak of; the iterator that was
made before still has the item. -/
theorem State.ranges_count_at_limit :
    ∃ (s : State) (a b c r g : Handle) (t u v : State), s.Reachable ∧
      s.IsInt a 9223372036854775806 ∧ s.IsInt b 9223372036854775807 ∧
      s.IsInt c 2 ∧ (call BuiltinType.range.handle [a, b, c]).exec 3 s = .done (.ok r) t ∧
      (∃ items w, (ObjectModel.collect r).exec 2 t = .done (.ok items) w ∧ items.length = 1 ∧
        w.Lists ⟨9223372036854775806, 9223372036854775807, 2⟩ items) ∧
      (iter r).exec 1 t = .done (.ok g) u ∧
      (assign r [("step", .none)]).exec 0 u = .done (.ok ()) v ∧ v.Unfit r ∧
      ∃ items w, (ObjectModel.collect g).exec 2 v = .done (.ok items) w ∧ items.length = 1 ∧
        w.Lists ⟨9223372036854775806, 9223372036854775807, 2⟩ items := by
  obtain ⟨s, a, b, c, hs, hm, hroom, ha, hb, hc⟩ :=
    State.exists_bounds 9223372036854775806 9223372036854775807 2
  have hlength : (⟨9223372036854775806, 9223372036854775807, 2⟩ : Progression).length
      = 1 := by decide
  obtain ⟨_, r, t, hrun, hfollows, g, u, hiter, hassign⟩ :=
    State.ranges_count (p := ⟨9223372036854775806, 9223372036854775807, 2⟩) hs hm hroom ha hb hc
      (by decide) 0
  -- `None` is there in every state behind the first one
  have hsingles : u.heap.Singles :=
    State.Steps.singles ((State.steps_of_done hrun).trans (State.steps_of_done hiter))
      hs.orderly.regular.heap hs.singles
  obtain ⟨o, hnone, hpayload⟩ := hsingles .none .none rfl
  have hlive : ∀ x ∈ [("step", Handle.none)], u.heap.contains x.2 = true := by
    intro x hx
    rw [List.mem_singleton.mp hx]
    exact Heap.contains_of_get? hnone
  obtain ⟨v, hrun', hbehaves, hitems⟩ := hassign _ hlive
  have hunfit : Progression.read? (u.heap.reassigned r [("step", .none)]) = none := by
    refine Progression.read?_of_step_none ?_
    show u.heap.intAt? Handle.none = _
    rw [Heap.intAt?, hnone, Option.bind_some, Object.intValue, hpayload]
  rw [hunfit] at hbehaves
  obtain ⟨items, w, hcollect, hsize, hlists⟩ := hfollows.drained 0 (by rw [hlength]; decide)
  obtain ⟨items', w', hcollect', hsize', hlists'⟩ := hitems 0 (by rw [hlength]; decide)
  exact ⟨s, a, b, c, r, g, t, u, v, hs, ha, hb, hc, hrun, ⟨items, w, hcollect, hsize.trans hlength,
    hlists⟩, hiter, hrun', hbehaves, items', w', hcollect', hsize'.trans hlength, hlists'⟩

end ObjectModel
