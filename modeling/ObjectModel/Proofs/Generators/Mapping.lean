import ObjectModel.Proofs.Generators.Asking
import ObjectModel.Proofs.Types.Subtyping

/-!
# Maps over a generator

A map is a generator whose computation asks another one, its source, and calls a function on what it
gets.

* `run_mapping_item`, `calls_mapping_item` -- **the computation of a map asks its source once and
  calls its function once**, and comes back as the function does.
-/

namespace ObjectModel

variable {α β : Type} {keep : Handle → Prop} {s t u : State} {f g h k v : Handle}
  {rest : List Handle} {n : Nat}

/-! ## 1. The source -/

/-- How a computation comes back that has `pending` to hand out: with the first of them, or at its
end with a final value whose type has a name. -/
inductive Resumption.Hands (s : State) : List Handle → Resumption → Prop where
  | item {v : Handle} {rest : List Handle} : Hands s (v :: rest) (.yielded v)
  | ended {result : Option Handle} : (∀ a ∈ result, ∃ path name, s.heap.Naming a path name) →
      Hands s [] (.completed result)

namespace State

/-- **If it is asked now, the computation of `g` hands out the first of `pending`**, and leaves the
generators alone that are to be kept. -/
def Yields (n : Nat) (s : State) (g : Handle) (pending : List Handle) (keep : Handle → Prop) :
    Prop :=
  ∀ c, s.Stands g (.suspended c) → ∃ r t, c.resume.run.run (engine n) (s.asked g) = .done (.ok r) t
    ∧ r.resumption.Hands t pending ∧ ∀ x ∈ c.resume.run.log n (s.asked g), x.Quiet keep

/-- The generator has something to hand out, or has stopped behind the last item. -/
def Owing (s : State) (g : Handle) (pending : List Handle) : Prop :=
  (∃ c, s.Stands g (.suspended c)) ∨ (pending = [] ∧ ∃ result, s.Stands g (.stopped result))

/-- What a request to `g` leaves alone. -/
def Others (s : State) (keep : Handle → Prop) (g k : Handle) : Prop :=
  k ≠ g ∧ (keep k ∨ ∃ result, s.Stands k (.stopped result))

theorem Leaves.owing (h : s.Leaves keep t) (hg : keep g) (hs : s.Owing g rest) :
    t.Owing g rest := by
  rcases hs with ⟨c, hc⟩ | ⟨hnil, result, hc⟩
  · exact Or.inl ⟨c, h.stands hg (Generator.suspended_ne_running c) hc⟩
  · exact Or.inr ⟨hnil, result, h.stands hg (Generator.stopped_ne_running result) hc⟩

theorem Owing.stands (hs : s.Owing g rest) : ∃ x, s.Stands g x := by
  rcases hs with ⟨c, hc⟩ | ⟨_, result, hc⟩
  · exact ⟨_, hc⟩
  · exact ⟨_, hc⟩

namespace Requests

/-- What the computation of a generator leaves alone while it is running. -/
theorem leaves_resume {c : Coroutine} {r : Except Fault Resumed} (hs : s.Requests)
    (hrun : c.resume.run.run (engine n) (s.asked g) = .done r t)
    (hlog : ∀ x ∈ c.resume.run.log n (s.asked g), x.Quiet keep) :
    (s.asked g).Leaves (s.Others keep g) t := by
  refine (leaves_of_log (hs.asked g).orderly.regular (Nat.succ_pos _) hrun hlog).mono ?_
  rintro k ⟨hne, hk | ⟨result, hk⟩⟩
  · exact Or.inl hk
  · exact Or.inr ⟨result, hk.asked hne⟩

theorem not_others (s : State) (keep : Handle → Prop) (g : Handle) : ¬ s.Others keep g g :=
  fun h => h.1 rfl

/-- **A request hands out the first of the items.** -/
theorem ask_item (hs : s.Requests) (hd : s.Room) (hg : s.Owing g (v :: rest))
    (hy : s.Yields n g (v :: rest) keep) :
    ∃ t, (ObjectModel.next g).run.run (engine (n + 2)) s = .done (.ok v) t ∧
      s.Leaves (s.Others keep g) t ∧ t.Owing g rest := by
  obtain ⟨c, hc⟩ := hg.resolve_right fun h => absurd h.1 (List.cons_ne_nil _ _)
  obtain ⟨⟨resumption, left⟩, t, hrun, hhands, hlog⟩ := hy c hc
  cases hhands
  have hinner := hs.leaves_resume hrun hlog
  exact ⟨_, hs.run_next_yielded hd hc hrun, (hinner.request (not_others s keep g) _).trans
    (leaves_leave _), Or.inl ⟨left, (hinner.stands_request hc _).congr rfl⟩⟩

/-- It resumes the generator once, with this item. -/
theorem history_item (hs : s.Requests) (hd : s.Room) (hg : s.Owing g (v :: rest))
    (hy : s.Yields n g (v :: rest) keep) :
    ∃ c left t back, Generator.history g ((ObjectModel.next g).run.log (n + 2) s)
      = [.resumed g c (s.asked g) (.done (.ok ⟨.yielded v, left⟩) t),
        .performed (.advance g) s.enter back] := by
  obtain ⟨c, hc⟩ := hg.resolve_right fun h => absurd h.1 (List.cons_ne_nil _ _)
  obtain ⟨⟨resumption, left⟩, t, hrun, hhands, _⟩ := hy c hc
  cases hhands
  exact ⟨c, left, t, _, hs.history_next_suspended hd hc hrun⟩

/-- **Behind the last item every request is a `StopIteration`.** -/
theorem ask_end (hs : s.Requests) (hd : s.Room) (hg : s.Owing g []) (hy : s.Yields n g [] keep) :
    ∃ fault args t, (ObjectModel.next g).run.run (engine (n + 2)) s = .done (.error fault) t ∧
      fault.Carries t .stopIteration args ∧ s.Leaves (s.Others keep g) t ∧ t.Owing g [] := by
  rcases hg with ⟨c, hc⟩ | ⟨_, result, hc⟩
  · obtain ⟨⟨resumption, left⟩, t, hrun, hhands, hlog⟩ := hy c hc
    cases hhands with
    | @ended result hnamed =>
      have hinner := hs.leaves_resume hrun hlog
      obtain ⟨fault, u, hnext, hkept, hcarries⟩ := hs.run_next_completed hd hc hrun hnamed
      have hstopped : u.Stands g (.stopped result) := (hinner.stands_request hc _).of_kept hkept
      exact ⟨fault, _, u, hnext, hcarries, (hinner.request (not_others s keep g) _).trans
        (.of_kept hkept), Or.inr ⟨rfl, _, hstopped⟩⟩
  · obtain ⟨fault, u, hnext, hkept, hcarries⟩ := hs.run_next_stopped hd hc n
    exact ⟨fault, [], u, hnext, hcarries, .of_kept hkept, Or.inr ⟨rfl, result, hc.of_kept hkept⟩⟩

end Requests

end State

/-- An exception that was made as a `StopIteration` is one. -/
theorem Fault.Carries.isStop {fault : Fault} {args : List Handle}
    (h : fault.Carries s .stopIteration args) (hs : s.Orderly) : fault.IsStop s := by
  cases h with
  | @raised exception object message found type_eq _ _ _ =>
    obtain ⟨links, hl, hlinks⟩ := hs.heap.lineage_kind .stopIteration
    refine ⟨exception, rfl, ?_⟩
    rw [Heap.isInstance_eq found, type_eq, hl.chain_eq, Option.map_some, List.contains_eq_mem]
    exact congrArg some (decide_eq_true ((hlinks _).mpr (Or.inl rfl)))

/-! ## 2. Calls -/

/-- The call that an event is, if it came to an answer. -/
def Event.called? : Event → Option (Handle × List Handle × Except Fault Handle)
  | .performed (.call callee args) _ (.done answer _) => some (callee, args, answer)
  | _ => none

/-- The calls that a program makes itself, with their answers. -/
def Run.calls (x : Run α) (e : Engine) (s : State) :
    List (Handle × List Handle × Except Fault Handle) :=
  (x.run.own e s).filterMap Event.called?

namespace Run

variable {e : Engine} {x : Run α} {y : α → Run β} {a : α}

theorem calls_bind_ok (hx : x.run.run e s = .done (.ok a) t) :
    (x >>= y).calls e s = x.calls e s ++ (y a).calls e t := by
  rw [calls, calls, calls, ← List.filterMap_append, Program.own, record_bind_ok hx, List.map_append]
  rfl

theorem calls_bind_error {fault : Fault} (hx : x.run.run e s = .done (.error fault) t) :
    (x >>= y).calls e s = x.calls e s := by
  have hrecord : (x >>= y).run.record e (recorder 0) [] s = x.run.record e (recorder 0) [] s := by
    rw [ExceptT.run_bind, Program.record_bind, hx]
    exact List.append_nil _
  rw [calls, calls, Program.own, hrecord]
  rfl

theorem calls_attempt (x : Run α) (e : Engine) (s : State) :
    (Run.attempt x).calls e s = x.calls e s := by
  have hrecord : (Run.attempt x).run.record e (recorder 0) [] s
      = x.run.record e (recorder 0) [] s ++ recordAfter (x.run.run e s) fun _ _ => [] :=
        Program.record_bind x.run _ s
  have hrest : recordAfter (x.run.run e s) (fun _ _ => []) = [] := by
    cases x.run.run e s <;> rfl
  rw [calls, calls, Program.own, hrecord, hrest, List.append_nil]
  rfl

theorem calls_inspect (look : State → Option α) (e : Engine) (s : State) :
    (inspect look).calls e s = [] := by
  rw [calls, inspect, own_act]
  rfl

theorem calls_allocate (object : Object) (e : Engine) (s : State) :
    (allocate object).calls e s = [] := by
  rw [calls, allocate, own_act]
  rfl

theorem calls_call {args : List Handle} {r : Except Fault Handle}
    (hrun : (call f args).run.run e s = .done r t) : (call f args).calls e s = [(f, args, r)] := by
  have hown : (call f args).run.own e s
      = [.performed (.call f args) s ((Action.call f args).perform e s)] := Program.own_act _
  have hperform : (Action.call f args).perform e s = .done r t :=
    (Program.run_act _ _ _).symm.trans hrun
  rw [calls, hown, hperform]
  rfl

/-- A hook that is there is the only call. -/
theorem calls_hook {name : String} {hook : Handle} {r : Except Fault Handle}
    {onHook : Option Handle → Run Handle} (hcall : ∀ hook, onHook (some hook) = call hook [g])
    (hhook : s.heap.hook g name = some (some hook))
    (hrun : (findHook g name >>= onHook).run.run e s = .done r t) :
    (findHook g name >>= onHook).calls e s = [(hook, [g], r)] := by
  have hfound : (findHook g name).run.run e s = .done (.ok (some hook)) s := run_inspect hhook
  have hcalled : (call hook [g]).run.run e s = .done r t := by
    rw [← hcall]
    exact (run_bind_ok hfound).symm.trans hrun
  have hsilent : (findHook g name).calls e s = [] := calls_inspect _ e s
  rw [calls_bind_ok hfound, hsilent, hcall, calls_call hcalled]
  rfl

theorem calls_next {hook : Handle} {r : Except Fault Handle}
    (hhook : s.heap.hook g "__next__" = some (some hook))
    (hrun : (next g).run.run e s = .done r t) : (next g).calls e s = [(hook, [g], r)] :=
  calls_hook (fun _ => rfl) hhook hrun

theorem calls_iter {hook : Handle} {r : Except Fault Handle}
    (hhook : s.heap.hook g "__iter__" = some (some hook))
    (hrun : (iter g).run.run e s = .done r t) : (iter g).calls e s = [(hook, [g], r)] :=
  calls_hook (fun _ => rfl) hhook hrun

end Run

/-! ## 3. The computation of a map -/

section

variable {e : Engine} {r : Except Fault Handle} {fault : Fault} {hook : Handle}

theorem run_nextItem_ok (hnext : (next g).run.run e s = .done (.ok v) t) :
    (nextItem g).run.run e s = .done (.ok (some v)) t :=
  Run.run_bind_ok (Run.run_attempt_done hnext)

/-- **An item of the source**: the computation comes back as the function does. -/
theorem run_mapping_item (hnext : (next g).run.run e s = .done (.ok v) t)
    (hcall : (call f [v]).run.run e t = .done r u) :
    (Coroutine.mapping f g).resume.run.run e s
      = .done (r.map fun w => .yield w (.mapping f g)) u := by
  refine (Run.run_bind_ok (run_nextItem_ok hnext)).trans ?_
  rw [ExceptT.run_bind, Program.run_bind, hcall]
  cases r <;> rfl

/-- **The end of the source** is the end of the computation. -/
theorem run_mapping_end (hnext : (next g).run.run e s = .done (.error fault) t)
    (hstop : fault.IsStop t) :
    (Coroutine.mapping f g).resume.run.run e s = .done (.ok ⟨.completed none, .mapping f g⟩) t :=
  Run.run_bind_ok (Run.run_nextItem_of_isStop hnext hstop)

theorem calls_isStopIteration (fault : Fault) (e : Engine) (s : State) :
    (isStopIteration fault).calls e s = [] := by
  unfold isStopIteration isException
  split
  · exact Run.calls_inspect _ e s
  · rfl

/-- Looking for the next item makes no other call. -/
theorem calls_nextItem_ok (hhook : s.heap.hook g "__next__" = some (some hook))
    (hnext : (next g).run.run e s = .done (.ok v) t) :
    (nextItem g).calls e s = [(hook, [g], .ok v)] := by
  refine (Run.calls_bind_ok (Run.run_attempt_done hnext)).trans ?_
  rw [Run.calls_attempt, Run.calls_next hhook hnext]
  rfl

theorem calls_nextItem_end (hhook : s.heap.hook g "__next__" = some (some hook))
    (hnext : (next g).run.run e s = .done (.error fault) t) (hstop : fault.IsStop t) :
    (nextItem g).calls e s = [(hook, [g], .error fault)] := by
  have hrest : (isStopIteration fault >>= fun stop =>
      if stop = true then pure none else throw fault : Run (Option Handle)).calls e t = [] := by
    refine (Run.calls_bind_ok (run_isStopIteration_of_isStop hstop e)).trans ?_
    rw [calls_isStopIteration]
    rfl
  refine (Run.calls_bind_ok (Run.run_attempt_done hnext)).trans ?_
  rw [Run.calls_attempt, Run.calls_next hhook hnext]
  exact congrArg _ hrest

theorem calls_mapping_item (hhook : s.heap.hook g "__next__" = some (some hook))
    (hnext : (next g).run.run e s = .done (.ok v) t)
    (hcall : (call f [v]).run.run e t = .done r u) :
    (Coroutine.mapping f g).resume.calls e s = [(hook, [g], .ok v), (f, [v], r)] := by
  refine (Run.calls_bind_ok (run_nextItem_ok hnext)).trans ?_
  rw [calls_nextItem_ok hhook hnext]
  have hrest : (call f [v] >>= fun w => pure (Resumed.yield w (.mapping f g)) : Run Resumed).calls e
      t = [(f, [v], r)] := by
    cases r with
    | error fault => exact (Run.calls_bind_error hcall).trans (Run.calls_call hcall)
    | ok w =>
      refine (Run.calls_bind_ok hcall).trans ?_
      rw [Run.calls_call hcall]
      rfl
  exact congrArg _ hrest

theorem calls_mapping_end (hhook : s.heap.hook g "__next__" = some (some hook))
    (hnext : (next g).run.run e s = .done (.error fault) t) (hstop : fault.IsStop t) :
    (Coroutine.mapping f g).resume.calls e s = [(hook, [g], .error fault)] := by
  refine (Run.calls_bind_ok (Run.run_nextItem_of_isStop hnext hstop)).trans ?_
  rw [calls_nextItem_end hhook hnext hstop]
  rfl

end

/-- **Whom a map asks**: its source, and those that its source and its function ask. -/
theorem untouched_mapping (hnext : ∀ x ∈ (next g).run.log n s, Generator.concerns k x.event = false)
    (hcall : ∀ v t, (nextItem g).run.run (engine n) s = .done (.ok (some v)) t →
      ∀ x ∈ (call f [v]).run.log n t, Generator.concerns k x.event = false) :
    ∀ x ∈ (Coroutine.mapping f g).resume.run.log n s, Generator.concerns k x.event = false := by
  have hinspect : ∀ {γ : Type} (look : State → Option γ) (s : State),
      ∀ x ∈ (inspect look).run.log n s, Generator.concerns k x.event = false := by
    intro γ look s x hx
    rw [Program.log, Run.record_inspect] at hx
    rw [List.mem_singleton.mp hx]
    rfl
  have hstop : ∀ fault (s : State), ∀ x ∈ (isStopIteration fault).run.log n s,
      Generator.concerns k x.event = false := by
    intro fault s
    unfold isStopIteration isException
    split
    · exact hinspect _ s
    · exact List.forall_mem_nil _
  refine Run.forall_record_bind (Run.forall_record_bind (Run.forall_record_attempt hnext)
    fun outcome t _ => ?_) fun item t hrun => ?_
  · cases outcome with
    | ok item => exact List.forall_mem_nil _
    | error fault =>
      refine Run.forall_record_bind (hstop fault t) fun stop u _ => ?_
      cases stop <;> exact List.forall_mem_nil _
  · cases item with
    | none => exact List.forall_mem_nil _
    | some v => exact Run.forall_record_bind (hcall v t hrun) fun _ _ _ => List.forall_mem_nil _

end ObjectModel
