import ObjectModel.Proofs.Data.Literals
import ObjectModel.Proofs.Negation
import ObjectModel.Proofs.Ranges.Range
import ObjectModel.Proofs.Renaming.Reachable
import ObjectModel.Proofs.Run.Evaluation

/-!
# Failed changes

A member that changes its receiver makes its checks first and then writes. So a call that raises
leaves the receiver as it was, and any other object too, as long as the hooks that it runs on the
way leave it alone.

* `Run.Intact` -- what a program leaves of an object where it raises;
* `Member.failure_intact` -- **a failed call leaves its receiver as it was**.
-/

namespace ObjectModel

variable {α β σ : Type} {n : Nat} {h c : Handle} {calls always : Prop}

/-! ## 1. Programs that raise before they write -/

/-- A call leaves `h` as it finds it. -/
def Entry.Leaves (h : Handle) (x : Entry) : Prop :=
  match x.event with
  | .performed (.call _ _) s o => ∀ object, s.heap.get? h = some object →
      o.state.heap.get? h = some object
  | _ => True

/-- A program that never raises. -/
def Run.Calm (n : Nat) (x : Run α) : Prop := ∀ s fault t, x.exec n s ≠ .done (.error fault) t

theorem Run.Calm.value (a : α) : (pure a : Run α).Calm n := by
  intro s fault t hrun
  cases hrun

theorem Run.Calm.act (action : Action α) : (Run.act action).Calm n := by
  intro s fault t hrun
  have hact : (action.perform (engine n) s).andThen (fun a t => .done (Except.ok a) t)
      = .done (.error fault) t := by
    rw [← hrun, Run.exec, Run.act, ExceptT.run_lift, map_eq_pure_bind, Program.run_bind,
      Program.run_act]
    rfl
  cases hperform : action.perform (engine n) s <;> rw [hperform] at hact <;> cases hact

theorem Run.Calm.bind {x : Run α} {f : α → Run β} (hx : x.Calm n) (hf : ∀ a, (f a).Calm n) :
    (x >>= f).Calm n := by
  intro s fault t hrun
  rcases hx' : x.exec n s with ⟨fault' | a, u⟩ | ⟨reason, u⟩
  · exact hx s fault' u hx'
  · exact hf a u fault t ((Run.run_bind_ok hx').symm.trans hrun)
  · cases (Run.run_bind_aborted hx').symm.trans hrun

/-- **A program that leaves `h` as it is where it raises**, if the calls that it makes do; there may
be none. It may do so `always`, also where it does not raise. -/
def Run.Intact (n : Nat) (h : Handle) (calls always : Prop) (x : Run α) : Prop :=
  ∀ s o r t, s.heap.WellFormed → s.heap.get? h = some o → (calls → ∀ y ∈ x.run.log n s, y.Leaves h)
    → x.exec n s = .done r t → (always ∨ ∃ fault, r = .error fault) → t.heap.get? h = some o

namespace Run.Intact

variable {x : Run α} {f : α → Run β}

theorem of_same (hx : ∀ s r t, x.exec n s = .done r t → t = s) : x.Intact n h calls always :=
  fun s _ r t _ hs _ hrun _ => hx s r t hrun ▸ hs

theorem value (a : α) : (pure a : Run α).Intact n h calls always :=
  .of_same fun _ _ _ hrun => (Outcome.done.inj hrun).2.symm

theorem throwing (fault : Fault) : (throw fault : Run α).Intact n h calls always :=
  .of_same fun _ _ _ hrun => (Outcome.done.inj hrun).2.symm

theorem inspect (look : State → Option α) : (inspect look).Intact n h calls always := by
  refine .of_same fun s r t hrun => ?_
  cases hlook : look s with
  | none => cases (Run.run_inspect_stale hlook).symm.trans hrun
  | some a =>
    cases (Run.run_inspect hlook).symm.trans hrun
    rfl

theorem making (object : Object) : (allocate object).Intact n h calls always := by
  intro s o r t hw hs _ hrun _
  cases hrun
  exact Heap.get?_allocate_of_live hw hs

theorem raising (kind : ExceptionKind) (message : String) :
    (raiseMessage kind message : Run α).Intact n h calls always := by
  intro s o r t hw hs _ hrun _
  obtain ⟨fault, u, _, hraise, hkept, _⟩ := run_raiseMessage (α := α) hw kind message (engine n)
  cases hraise.symm.trans hrun
  exact hkept hs

/-- What a call leaves is noted in the log. -/
theorem calling (hc : calls) (callee : Handle) (args : List Handle) :
    (call callee args).Intact n h calls always := by
  intro s o r t _ hs hlog hrun _
  have hperform : (Action.call callee args).perform (engine n) s = .done r t :=
    (Program.run_act (engine n) _ s).symm.trans hrun
  have hentry := hlog hc ⟨[], .performed (.call callee args) s
      ((Action.call callee args).perform (engine n) s)⟩ (by
    rw [Program.log, show (call callee args).run = Program.act (.call callee args) from rfl,
      Program.record_act]
    exact List.mem_append_right _ List.mem_cons_self)
  rw [hperform] at hentry
  exact hentry o hs

theorem bind (hx : x.Intact n h calls True) (hf : ∀ a, (f a).Intact n h calls always) :
    (x >>= f).Intact n h calls always := by
  intro s o r t hw hs hlog hrun hend
  have hfirst : calls → ∀ y ∈ x.run.log n s, y.Leaves h := fun hc y hy => hlog hc y (by
    rw [ExceptT.run_bind]
    exact Program.mem_record_bind hy)
  cases hx' : x.exec n s with
  | aborted reason u => cases (Run.run_bind_aborted hx').symm.trans hrun
  | done r' u =>
    have hu := hx s o r' u hw hs hfirst hx' (Or.inl trivial)
    cases r' with
    | error fault =>
      cases (Run.run_bind_error hx').symm.trans hrun
      exact hu
    | ok a =>
      refine hf a u o r t ((State.steps_of_done hx').wellFormed hw) hu (fun hc y hy => hlog hc y ?_)
        ((Run.run_bind_ok hx').symm.trans hrun) hend
      rw [Program.log, Run.record_bind_ok hx']
      exact List.mem_append_right _ hy

/-- Behind a write nothing is raised. -/
theorem of_calm (hx : x.Calm n) : x.Intact n h calls False := by
  rintro s o r t _ _ _ hrun (hfalse | ⟨fault, rfl⟩)
  · exact hfalse.elim
  · exact absurd hrun (hx s fault t)

theorem before (hx : x.Intact n h calls False) (hf : ∀ a, (f a).Calm n) :
    (x >>= f).Intact n h calls False := by
  rintro s o r t hw hs hlog hrun (hfalse | ⟨fault, rfl⟩)
  · exact hfalse.elim
  · rcases hx' : x.exec n s with ⟨fault' | a, u⟩ | ⟨reason, u⟩
    · cases (Run.run_bind_error hx').symm.trans hrun
      refine hx s o _ t hw hs (fun hc y hy => hlog hc y ?_) hx' (Or.inr ⟨fault, rfl⟩)
      rw [ExceptT.run_bind]
      exact Program.mem_record_bind hy
    · exact absurd ((Run.run_bind_ok hx').symm.trans hrun) (hf a u fault t)
    · cases (Run.run_bind_aborted hx').symm.trans hrun

theorem attempt (hx : x.Intact n h calls True) : (Run.attempt x).Intact n h calls always := by
  intro s o r t hw hs hlog hrun _
  have hinner : calls → ∀ y ∈ x.run.log n s, y.Leaves h :=
    fun hc y hy => hlog hc y (Program.mem_record_bind (p := x.run) hy)
  rw [Run.exec, Run.run_attempt] at hrun
  cases hx' : x.exec n s with
  | aborted reason u =>
    rw [show x.run.run (engine n) s = .aborted reason u from hx'] at hrun
    cases hrun
  | done r' u =>
    rw [show x.run.run (engine n) s = .done r' u from hx'] at hrun
    cases hrun
    exact hx s o r' t hw hs hinner hx' (Or.inl trivial)

theorem loop {body : σ → Run (σ ⊕ β)} (hbody : ∀ acc, (body acc).Intact n h calls True)
    (start : σ) : (Run.loop start body).Intact n h calls always := by
  intro s o r t hw hs hlog hrun _
  rw [Run.exec, Run.loop_eq, Program.loop, Program.run_iterate] at hrun
  rw [Program.log, Run.loop_eq, Program.loop, Program.record_iterate] at hlog
  replace hlog := fun hc => (List.forall_mem_append.mp (hlog hc)).1
  generalize (engine n).rounds = rounds at hrun hlog
  induction rounds generalizing start s with
  | zero => cases hrun
  | succ rounds ih =>
    rw [recordUntil_succ] at hlog
    rw [repeatUntil_succ] at hrun
    have hround := fun hc => (List.forall_mem_append.mp (hlog hc)).1
    have hrest := fun hc => (List.forall_mem_append.mp (hlog hc)).2
    dsimp only at hrun
    rw [Program.run_bind] at hrun hrest
    have hinner : calls → ∀ y ∈ (body start).run.log n s, y.Leaves h :=
      fun hc y hy => hround hc y (Program.mem_record_bind hy)
    cases hb : (body start).exec n s with
    | aborted reason u =>
      rw [show (body start).run.run (engine n) s = .aborted reason u from hb] at hrun
      cases hrun
    | done r' u =>
      have hu := hbody start s o r' u hw hs hinner hb (Or.inl trivial)
      rw [show (body start).run.run (engine n) s = .done r' u from hb] at hrun hrest
      rcases r' with fault | acc | answer
      · cases hrun
        exact hu
      · exact ih acc u ((State.steps_of_done hb).wellFormed hw) hu hrun hrest
      · cases hrun
        exact hu

/-- What is handed on where it is there. -/
theorem required {x : Run (Option α)} {f : Option α → Run α} (hx : x.Intact n h calls True)
    (hsome : ∀ a, f (some a) = pure a) (hnone : (f none).Intact n h calls always) :
    (x >>= f).Intact n h calls always := by
  refine .bind hx fun found => ?_
  cases found with
  | none => exact hnone
  | some a =>
    rw [hsome]
    exact .value a

end Run.Intact

/-! ## 2. Operations that check -/

open Run (Intact)

theorem intact_reading (g : Object → α) :
    (do return g (← object c) : Run α).Intact n h calls always :=
  .bind (.inspect _) fun _ => .value _

/-- A hook is called where it is there. -/
theorem intact_hook {f : Option Handle → Run β}
    {message name : String} (hmissing : f none = typeError message)
    (hfound : ∀ hook, (f (some hook)).Intact n h calls always) :
    (findHook c name >>= f).Intact n h calls always := by
  refine .bind (.inspect _) fun found => ?_
  cases found with
  | none =>
    rw [hmissing]
    exact .raising _ _
  | some hook => exact hfound hook

theorem intact_nextItem (hc : calls) : (nextItem c).Intact n h calls always := by
  have hstop : ∀ fault, (isStopIteration fault).Intact n h calls True := by
    intro fault
    unfold isStopIteration isException
    split
    · exact .inspect _
    · exact .value _
  refine .bind (.attempt (intact_hook rfl fun _ => .calling hc _ _)) fun r => ?_
  cases r with
  | ok item => exact .value _
  | error fault =>
    refine .bind (hstop fault) fun stop => ?_
    cases stop with
    | true => exact .value _
    | false => exact .throwing fault

/-- However far an iterable gets. -/
theorem intact_collect (hc : calls) : (collect c).Intact n h calls always := by
  refine .bind (.bind (intact_hook rfl fun _ => .calling hc _ _) fun g =>
    .loop (fun acc => .bind (intact_nextItem hc) fun item => ?_) _) fun _ => .value _
  cases item <;> exact .value _

theorem intact_repr (hc : calls) : (repr c).Intact n h calls always :=
  intact_hook rfl fun _ => .bind (.calling hc _ _) fun _ => .required (intact_reading _)
    (fun _ => rfl) (.raising _ _)

theorem intact_position {what : String} {index : Handle} {size : Nat} :
    (position what index size).Intact n h calls always := by
  refine .bind (intact_reading _) fun raw => ?_
  cases raw with
  | none => exact .bind (.inspect _) fun _ => .raising _ _
  | some raw =>
    dsimp only
    generalize (if raw < 0 then raw.toInt + size else raw.toInt) = place
    split
    · exact .value _
    · exact .raising _ _

theorem intact_listReceiver {name : String} : (listReceiver name c).Intact n h calls always :=
  .required (.inspect _) (fun _ => rfl) (.raising _ _)

theorem intact_rangeBound {field : String} : (rangeBound field c).Intact n h calls always :=
  .required (intact_reading _) (fun _ => rfl) (.raising _ _)

theorem intact_dictKey : (dictKey c).Intact n h calls always :=
  .required (intact_reading _) (fun _ => rfl) (.bind (.inspect _) fun _ => .raising _ _)

theorem intact_dictReceiver {name : String} : (dictReceiver name c).Intact n h calls always :=
  .required (intact_reading _) (fun _ => rfl) (.raising _ _)

/-! ## 3. Operations that change -/

/-- The new cell is made and then stored. -/
theorem intact_splice {items replacement : List Handle} {start count : Nat} :
    (splice c items start count replacement).Intact n h calls False :=
  .bind (.making _) fun _ => .bind (.making _) fun _ => .of_calm (.act _)

/-- All bounds are known to be fit before the first is stored. -/
theorem intact_rangeInit {start stop step : Handle} :
    (rangeInit c start stop step).Intact n h calls False := by
  have hstores : (do
      setAttribute c "start" start
      setAttribute c "end" stop
      setAttribute c "step" step
      return Handle.none : Run Handle).Calm n :=
    .bind (.act _) fun _ => .bind (.act _) fun _ => .bind (.act _) fun _ => .value _
  refine .bind intact_rangeBound fun _ => .bind intact_rangeBound fun _ =>
    .bind intact_rangeBound fun width => ?_
  dsimp only
  split
  · exact .bind (.raising _ _) fun _ => .of_calm hstores
  · exact .of_calm hstores

theorem intact_dictSet {key value : Handle} : (dictSet c key value).Intact n h calls False :=
  .bind intact_dictKey fun _ => .bind intact_dictReceiver fun _ => .of_calm (.act _)

/-- A key that is missing is rendered for the message. -/
theorem intact_dictDelete (hc : calls) {key : Handle} :
    (dictDelete c key).Intact n h calls False := by
  refine .bind intact_dictKey fun text => .bind intact_dictReceiver fun entries => ?_
  split
  · exact .of_calm (.act _)
  · exact .bind (intact_repr hc) fun _ => .raising _ _

theorem intact_deleteAttribute {name : String} :
    (deleteAttribute c name).Intact n h calls False := by
  refine .bind (.inspect _) fun object => ?_
  split
  · exact .of_calm (.act _)
  · exact .raising _ _

/-! ## 4. Failed calls -/

/-- The members that change their receiver. -/
def Member.mutators : List Member :=
  [.list .init, .list .append, .list .pop, .list .clear, .list .setItem, .range .init,
    .dict .setItem, .dict .delItem]

/-- Those that run hooks: of an iterable, or the `__repr__` of a key that is missing. -/
def Member.askers : List Member := [.list .init, .dict .delItem]

theorem Member.intact_of_mutates {m : Member} (hm : m ∈ mutators) (args : List Handle) :
    (m.run args).Intact n h (m ∈ askers) False := by
  have hrefused : ∀ {name : String} {least most : Nat},
      (wrongArity name least most args : Run Handle).Intact n h (m ∈ askers) False :=
    .raising _ _
  simp only [mutators, List.mem_cons, List.not_mem_nil, or_false] at hm
  rcases hm with rfl | rfl | rfl | rfl | rfl | rfl | rfl | rfl
  · rcases args with _ | ⟨c, _ | ⟨iterable, _ | _⟩⟩
    case cons.nil => exact .bind (.making _) fun _ => .of_calm (.bind (.act _) fun _ => .value _)
    case cons.cons.nil =>
      exact .bind (intact_collect (by decide)) fun _ => .bind (.making _) fun _ =>
        .of_calm (.bind (.act _) fun _ => .value _)
    all_goals exact hrefused
  · rcases args with _ | ⟨c, _ | ⟨item, _ | _⟩⟩
    case cons.cons.nil =>
      exact .bind intact_listReceiver fun _ => .before intact_splice fun _ => .value _
    all_goals exact hrefused
  · rcases args with _ | ⟨c, _ | _⟩
    case cons.nil =>
      refine .bind intact_listReceiver fun items => ?_
      split
      · exact .raising _ _
      · exact .before intact_splice fun _ => .value _
    all_goals exact hrefused
  · rcases args with _ | ⟨c, _ | _⟩
    case cons.nil =>
      exact .bind intact_listReceiver fun _ => .before intact_splice fun _ => .value _
    all_goals exact hrefused
  · rcases args with _ | ⟨c, _ | ⟨index, _ | ⟨value, _ | _⟩⟩⟩
    case cons.cons.cons.nil =>
      exact .bind intact_listReceiver fun _ => .bind intact_position fun _ =>
        .before intact_splice fun _ => .value _
    all_goals exact hrefused
  · rcases args with _ | ⟨c, _ | ⟨first, _ | ⟨second, _ | ⟨third, _ | _⟩⟩⟩⟩
    case cons.cons.nil =>
      exact .bind (.making _) fun _ => .bind (.making _) fun _ => intact_rangeInit
    case cons.cons.cons.nil => exact .bind (.making _) fun _ => intact_rangeInit
    case cons.cons.cons.cons.nil => exact intact_rangeInit
    all_goals exact hrefused
  · rcases args with _ | ⟨c, _ | ⟨key, _ | ⟨value, _ | _⟩⟩⟩
    case cons.cons.cons.nil => exact .before intact_dictSet fun _ => .value _
    all_goals exact hrefused
  · rcases args with _ | ⟨c, _ | ⟨key, _ | _⟩⟩
    case cons.cons.nil => exact .before (intact_dictDelete (by decide)) fun _ => .value _
    all_goals exact hrefused

/-- **A failed call leaves its receiver as it was**, with the order of its attributes and entries: a
member that runs hooks does if they leave the receiver alone, all others and the deletion of an
attribute do in any case. -/
theorem Member.failure_intact {s t : State} {o : Object} {fault : Fault} (hw : s.heap.WellFormed)
    (hget : s.heap.get? h = some o) :
    (∀ m ∈ mutators, ∀ args, (m ∈ askers → ∀ x ∈ (m.run (h :: args)).run.log n s, x.Leaves h) →
      (m.run (h :: args)).exec n s = .done (.error fault) t → t.heap.get? h = some o) ∧
    ∀ name, (deleteAttribute h name).exec n s = .done (.error fault) t →
      t.heap.get? h = some o := by
  refine ⟨fun m hm args hhooks hrun => ?_, fun name hrun => ?_⟩
  · exact intact_of_mutates hm (h :: args) s o _ t hw hget hhooks hrun (Or.inr ⟨fault, rfl⟩)
  · have hdelete : (deleteAttribute h name).Intact n h False False := intact_deleteAttribute
    exact hdelete s o _ t hw hget False.elim hrun (Or.inr ⟨fault, rfl⟩)

/-! ## 5. A list over a generator that fails -/

/-- Whether a call is seen to leave `h` as it finds it. -/
def Entry.leaves (h : Handle) (x : Entry) : Bool :=
  match x.event with
  | .performed (.call _ _) s o =>
    match s.heap.get? h, o.state.heap.get? h with
    | some object, some object' => object.same object'
    | _, _ => false
  | _ => true

theorem Entry.leaves_of_seen {x : Entry} (hx : x.leaves h = true) : x.Leaves h := by
  unfold leaves at hx
  unfold Leaves
  split at hx
  case h_1 =>
    intro object hget
    rw [hget] at hx
    split at hx
    case h_1 hfound hbehind =>
      cases hfound
      rw [hbehind, Object.eq_of_same hx]
    case h_2 => cases hx
  case h_2 => trivial

/-- A list of one item, and a generator that hands out `None` and then fails. -/
def listAndFailing : List Script.Expr :=
  [.setLocal "list" (.list .list [.null]),
    .setLocal "source"
      (.generator [.yield .null, .yield (.list (.raise .valueError) [])] [] .completes)]

/-- `list.__init__` on a list of one item, over a generator that hands out an item and then fails:
the list is as it was. -/
theorem Member.failure_intact_of_failing :
    ∃ (s t : State) (c g : Handle) (o : Object) (fault : Fault), s.Reachable ∧
      s.heap.get? c = some o ∧ s.heap.listItems c = some (some [.none]) ∧
      (∃ u, (next g).exec 2 s = .done (.ok .none) u) ∧
      (∀ x ∈ (Member.run (.list .init) [c, g]).run.log 2 s, x.Leaves c) ∧
      (Member.run (.list .init) [c, g]).exec 2 s = .done (.error fault) t ∧
      t.heap.get? c = some o := by
  obtain ⟨frame, s, hs, c, -, g, -, o, hget, hitems, hnext, hlog, fault, hfault⟩ :=
    Session.exists_reached (fun _ => True) .standard 2 listAndFailing
      (fun frame s => ∃ c ∈ frame.locals.get? "list", ∃ g ∈ frame.locals.get? "source",
        ∃ o ∈ s.heap.get? c, s.heap.listItems c = some (some [.none]) ∧
        .none ∈ ((next g).exec 2 s).value? ∧
        (∀ x ∈ (Member.run (.list .init) [c, g]).run.log 2 s, x.leaves c = true) ∧
        ∃ fault ∈ ((Member.run (.list .init) [c, g]).exec 2 s).fault?, True) (by decide +kernel)
  have hlog := fun x hx => Entry.leaves_of_seen (hlog x hx)
  have hrun := Outcome.eq_error hfault.1
  exact ⟨s, _, c, g, o, fault, hs, hget, hitems, ⟨_, Outcome.eq_ok hnext⟩, hlog, hrun,
    (failure_intact hs.orderly.regular.heap hget).1 _ (by decide) [g]
    (fun _ => hlog) hrun⟩

/-! ## 6. A hook that does not leave the receiver alone -/

/-- A mapping, a text, and a `__repr__` of texts that writes to the mapping. -/
def mappingAndIntruder : List Script.Expr :=
  [.setShared "d" (.list .dict []), .setLocal "key" (.text "b"),
    .pair (.setAttribute "__repr__") (.builtinType .str)
      (.function "repr" (.block [.pair (.setAttribute "z") (.name "d") .null, .text "x"]))]

/-- **A failed call that changes its receiver**: the key is missing, and rendering it for the
message writes to the mapping. -/
theorem Member.delItem_intruded :
    ∃ (s t : State) (d key text : Handle) (fault : Fault), s.Reachable ∧
      s.heap.get? d = some (.emptyDict BuiltinType.dict.handle) ∧
      (Member.run (.dict .delItem) [d, key]).exec 1 s = .done (.error fault) t ∧
      Fault.Carries t .keyError [text] fault ∧
      t.heap.get? d = some { Object.emptyDict BuiltinType.dict.handle with
        attributes := OrderedMap.empty.insert "z" .none } := by
  obtain ⟨frame, s, hs, d, -, key, -, hget, fault, hfault,
      ⟨_, -, _, -, text, -, hcarries⟩, hget'⟩ :=
    Session.exists_reached (fun _ => True) .standard 1 mappingAndIntruder
      (fun frame s => ∃ d ∈ s.shared.get? "d", ∃ key ∈ frame.locals.get? "key",
        s.heap.Exhibits d (.emptyDict BuiltinType.dict.handle) ∧
        ∃ fault ∈ ((Member.run (.dict .delItem) [d, key]).exec 1 s).fault?,
        (∃ e ∈ fault.exception,
          ∃ args ∈ ((Member.run (.dict .delItem) [d, key]).exec 1 s).state.heap.exceptionArgs e,
          ∃ text ∈ args.head?, Fault.Carries ((Member.run (.dict .delItem) [d, key]).exec 1 s).state
            .keyError [text] fault) ∧
        ((Member.run (.dict .delItem) [d, key]).exec 1 s).state.heap.Exhibits d
          { Object.emptyDict BuiltinType.dict.handle with
            attributes := OrderedMap.empty.insert "z" .none }) (by decide +kernel)
  exact ⟨s, _, d, key, text, fault, hs, hget.get?_eq, Outcome.eq_error hfault, hcarries,
    hget'.get?_eq⟩

end ObjectModel
