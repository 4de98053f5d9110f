import ObjectModel.Proofs.Mappings.Changes

/-!
# Runs that leave a mapping aside

A run that neither reads nor writes the entries of a `dict` goes the same way whatever these entries
are.

* `State.Aside.run_modifyEntries` -- **it is the same to change the entries before the run or behind
  it**, by induction over the run.
-/

namespace ObjectModel

variable {s t : State} {h k g : Handle} {o : Object} {m : OrderedMap Handle}
  {change : OrderedMap Handle → OrderedMap Handle} {n : Nat}

/-! ## 1. Actions -/

/-- What is done neither depends on the entries of `h` nor changes them. -/
def Entry.Ignores (h : Handle) (x : Entry) : Prop :=
  match x.event with
  | .performed (.inspect look) s _ => ∀ change, look (s.modifyEntries h change) = look s
  | .performed (.setEntry k _ _) _ _ => k ≠ h
  | .performed (.eraseEntry k _) _ _ => k ≠ h
  | _ => True

/-- **What a run starts from that leaves `h` aside**: the object is there, and nothing can be
collected inside of a call. -/
structure State.Aside (s : State) (h : Handle) : Prop where
  regular : s.Regular
  live : s.Live h
  running : 0 < s.callDepth

theorem whenLive_modifyEntries {f : State → State}
    (hf : f (s.modifyEntries h change) = (f s).modifyEntries h change) (k : Handle) :
    whenLive (s.modifyEntries h change) k f
      = (whenLive s k f).onState (·.modifyEntries h change) := by
  unfold whenLive
  rw [State.contains_modifyEntries, hf]
  split <;> rfl

/-- A primitive action that ignores the entries. -/
theorem Action.perform_modifyEntries {β : Type} (a : Action β) (e : Engine)
    {w : List Handle} (ha : a.isPrimitive = true) (hs : s.Aside h)
    (hx : Entry.Ignores h ⟨w, .performed a s (a.perform e s)⟩) :
    a.perform e (s.modifyEntries h change)
      = (a.perform e s).onState (·.modifyEntries h change) := by
  cases a with
  | inspect look =>
    have hlook : look (s.modifyEntries h change) = look s := hx change
    simp only [perform, hlook]
    cases look s <;> rfl
  | allocate object =>
    simp only [perform, State.allocate_modifyEntries hs.regular.heap hs.live]
    rfl
  | setAttribute target name value =>
    exact whenLive_modifyEntries (f := fun s => s.setAttribute target name value)
      (s.setAttribute_modifyEntries h target name value) target
  | eraseAttribute target name =>
    exact whenLive_modifyEntries (f := fun s => s.eraseAttribute target name)
      (s.eraseAttribute_modifyEntries h target name) target
  | setEntry dict key value =>
    exact whenLive_modifyEntries (f := fun s => s.modifyEntries dict fun m => m.insert key value)
      (s.modify_modifyEntries (Or.inl (Ne.symm hx))) dict
  | eraseEntry dict key =>
    exact whenLive_modifyEntries (f := fun s => s.modifyEntries dict fun m => m.erase key)
      (s.modify_modifyEntries (Or.inl (Ne.symm hx))) dict
  | setGlobal | setShared | pin | unpin | handOver => rfl
  | collect extra =>
    have hd : 0 < (s.modifyEntries h change).callDepth := hs.running
    simp only [perform, State.collect, if_pos hs.running, if_pos hd]
    rfl
  | write text =>
    simp only [perform, State.write, State.console_modifyEntries]
    cases s.console.write text <;> rfl
  | flush =>
    simp only [perform, State.flush, State.console_modifyEntries]
    cases s.console.flush <;> rfl
  | readLine =>
    simp only [perform, State.readLine, State.console_modifyEntries]
    cases s.console.readLine.1 <;> rfl
  | call | advance => cases ha

theorem settle_modifyEntries (g : Handle) (r : Except Fault Resumed) (s : State) :
    settle g r (s.modifyEntries h change) = (settle g r s).onState (·.modifyEntries h change) := by
  unfold settle
  split <;> rw [State.setGenerator_modifyEntries] <;> rfl

/-- What an object answers that is not resumed does not depend on its entries. -/
theorem refusal_mapEntries (o : Object) :
    refusal (o.mapEntries change).payload = refusal o.payload := by
  obtain ⟨payload, type, attributes⟩ := o
  cases payload <;> rfl

/-- Without attributes to be kept, any entry will do. -/
theorem Entry.spares_nothing (x : Entry) : x.Spares fun _ => False := by
  unfold Entry.Spares
  split
  · exact id
  · exact id
  · trivial

namespace State.Aside

variable {α β σ : Type} {w : List Handle}

theorem enter (hs : s.Aside h) : s.enter.Aside h :=
  ⟨hs.regular.step (.enter s), hs.live, Nat.succ_pos _⟩

theorem leave (hs : s.Aside h) (hd : 1 < s.callDepth) : s.leave.Aside h :=
  ⟨hs.regular.step (.leave s), hs.live, Nat.sub_pos_of_lt hd⟩

theorem setGenerator (hs : s.Aside h) (g : Handle) (x : Generator) : (s.setGenerator g x).Aside h :=
  ⟨hs.regular.step (.setGenerator s g x), (s.heap.contains_modify g _ h).trans hs.live, hs.running⟩

/-- A run that comes to an answer keeps what it starts from. -/
theorem of_run {p : Program α} {a : α} (hs : s.Aside h) (hrun : p.run (engine n) s = .done a t) :
    t.Aside h := by
  have hstate : (p.run (engine n) s).state = t := congrArg Outcome.state hrun
  refine ⟨hs.regular.steps (State.steps_of_done hrun), ?_, State.depth_of_done hrun ▸ hs.running⟩
  obtain ⟨o, hget⟩ := Heap.contains_iff.mp hs.live
  have hspares := State.spares_of_log p n hs.regular hs.running fun x _ => x.spares_nothing
  obtain ⟨o', hget', _⟩ := hspares.kept hget
  exact hstate ▸ Heap.contains_of_get? hget'

theorem rounds_modifyEntries {body : σ → Program (σ ⊕ β)}
    (hbody : ∀ (acc : σ) (s : State), s.Aside h → (∀ x ∈ (body acc).record (engine n)
      (recorder n) w s, x.Ignores h) → (body acc).run (engine n) (s.modifyEntries h change)
      = ((body acc).run (engine n) s).onState (·.modifyEntries h change)) (rounds : Nat) (acc : σ)
    (hs : s.Aside h) (hlog : ∀ x ∈ recordUntil (fun acc s => (body acc).run (engine n) s)
      (fun acc s => (body acc).record (engine n) (recorder n) w s) rounds acc s, x.Ignores h) :
    repeatUntil (fun acc s => (body acc).run (engine n) s) rounds acc (s.modifyEntries h change)
      = (repeatUntil (fun acc s => (body acc).run (engine n) s) rounds acc s).onState
        (·.modifyEntries h change) := by
  induction rounds generalizing acc s with
  | zero => rfl
  | succ rounds ih =>
    unfold recordUntil at hlog
    have hround := hbody acc s hs fun x hx => hlog x (List.mem_append_left _ hx)
    unfold repeatUntil
    rw [hround]
    cases hrun : (body acc).run (engine n) s with
    | aborted reason t => rfl
    | done answer t =>
      cases answer with
      | inr answer => rfl
      | inl next =>
        refine ih next (hs.of_run hrun) fun x hx => hlog x (List.mem_append_right _ ?_)
        rw [hrun]
        exact hx

/-- A program, given what its actions do. -/
theorem program_modifyEntries (hact : ∀ {β : Type} (a : Action β) (s : State), s.Aside h →
      (∀ x ∈ a.inside (recorder n) w s ++ [⟨w, .performed a s (a.perform (engine n) s)⟩],
      x.Ignores h) → a.perform (engine n) (s.modifyEntries h change)
      = (a.perform (engine n) s).onState (·.modifyEntries h change)) (p : Program α)
    (hs : s.Aside h) (hlog : ∀ x ∈ p.record (engine n) (recorder n) w s, x.Ignores h) :
    p.run (engine n) (s.modifyEntries h change)
      = (p.run (engine n) s).onState (·.modifyEntries h change) := by
  induction p generalizing s with
  | pure value => rfl
  | perform a next ih =>
    rw [Program.record_perform] at hlog
    have hfirst := hact a s hs fun x hx => hlog x (List.mem_append_left _ hx)
    rw [Program.run_perform, Program.run_perform, hfirst]
    cases hrun : a.perform (engine n) s with
    | aborted reason t => rfl
    | done answer t =>
      have ht : t.Aside h := hs.of_run (p := Program.act a) (n := n) (by rw [Program.run_act, hrun])
      refine ih answer ht fun x hx => hlog x (List.mem_append_right _ ?_)
      rw [hrun]
      exact hx
  | iterate body start next ihb ihn =>
    rw [Program.record_iterate] at hlog
    have hloop := rounds_modifyEntries (fun acc s hs hlog => ihb acc hs hlog)
        (engine n).rounds start hs fun x hx => hlog x (List.mem_append_left _ hx)
    rw [Program.run_iterate, Program.run_iterate, hloop]
    cases hrun : repeatUntil (fun acc s => (body acc).run (engine n) s)
      (engine n).rounds start s with
    | aborted reason t => rfl
    | done answer t =>
      have ht : t.Aside h := hs.of_run (p := Program.loop start body) (n := n) (by
        rw [Program.loop, Program.run_iterate, hrun]
        rfl)
      refine ihn answer ht fun x hx => hlog x (List.mem_append_right _ ?_)
      rw [hrun]
      exact hx

section Nested

variable (ih : ∀ {γ : Type} (w : List Handle) (p : Program γ) (s : State), s.Aside h →
  (∀ x ∈ p.record (engine n) (recorder n) w s, x.Ignores h) → p.run (engine n)
  (s.modifyEntries h change) = (p.run (engine n) s).onState (·.modifyEntries h change))

include ih

/-- A call, given what is done inside of it. -/
theorem call_modifyEntries (hs : s.Aside h) (callee : Handle) (args : List Handle)
    (hlog : ∀ x ∈ recordCall (engine n) (recorder n) w callee args s, x.Ignores h) :
    belowLimit ((dispatch callee args).run.run (engine n)) (s.modifyEntries h change)
      = (belowLimit ((dispatch callee args).run.run (engine n)) s).onState
        (·.modifyEntries h change) := by
  unfold belowLimit
  rw [State.limits_modifyEntries, State.callDepth_modifyEntries]
  by_cases hl : s.limits.callDepth ≤ s.callDepth
  · rw [if_pos hl, if_pos hl]
    rfl
  · rw [recordCall, if_neg hl] at hlog
    rw [if_neg hl, if_neg hl, nested_eq, nested_eq]
    change ((dispatch callee args).run.run (engine n) (s.enter.modifyEntries h change)).onState
      State.leave = _
    rw [ih w _ s.enter hs.enter hlog]
    cases (dispatch callee args).run.run (engine n) s.enter <;> rfl

/-- A request, given what is done inside of it. -/
theorem advance_modifyEntries (hs : s.Aside h) (g : Handle)
    (hlog : ∀ x ∈ recordAdvance (engine n) (recorder n) w g s, x.Ignores h) :
    advanceWith (engine n) g (s.modifyEntries h change)
      = (advanceWith (engine n) g s).onState (·.modifyEntries h change) := by
  cases hget : s.heap.get? g with
  | none =>
    unfold advanceWith
    rw [hget, State.get?_modifyEntries_of_none hget]
    rfl
  | some object =>
    by_cases hc : ∃ c, object.payload = .generator (.suspended c)
    · obtain ⟨c, hc⟩ := hc
      have hget' : (s.modifyEntries h change).heap.get? g = some object :=
        State.get?_modifyEntries_of_payload hget fun m hm => by cases hc.symm.trans hm
      rw [recordAdvance_suspended _ _ _ hget hc] at hlog
      -- the change passes the computation, then what it leaves in the generator, then the answer
      have hinner := (hs.setGenerator g .running).enter
      have hresume :=
        ih (g :: w) c.resume.run _ hinner fun x hx => hlog x (List.mem_append_left _ hx)
      rw [advanceWith_suspended _ hget hc, advanceWith_suspended _ hget' hc, resumeWith, resumeWith,
        nested_eq, nested_eq, State.setGenerator_modifyEntries]
      change (((c.resume.run.run (engine n) ((s.setGenerator g .running).enter.modifyEntries h
        change)).onState State.leave).andThen (settle g)).andThen _ = _
      rw [hresume]
      cases hrun : c.resume.run.run (engine n) (s.setGenerator g .running).enter with
      | aborted reason t => rfl
      | done r t =>
        obtain ⟨back, y, hsettle⟩ := exists_settle g r t.leave
        have hdepth : t.callDepth = s.callDepth + 1 := State.depth_of_done hrun
        have hback : t.leave.Aside h :=
          (hinner.of_run hrun).leave (hdepth ▸ Nat.succ_lt_succ hs.running)
        change ((settle g r (t.leave.modifyEntries h change)).andThen _) = _
        rw [settle_modifyEntries, Outcome.onState_done, Outcome.andThen_done, hsettle]
        refine ih w (conclude back).run _ (hback.setGenerator g y) fun x hx => hlog x ?_
        refine List.mem_append_right _ (List.mem_cons_of_mem _ ?_)
        rw [resumeWith, nested_eq, hrun, Outcome.onState_done, Outcome.andThen_done, hsettle]
        exact hx
    · have hne : ∀ c, object.payload ≠ .generator (.suspended c) := fun c h => hc ⟨c, h⟩
      rw [recordAdvance_refusal _ _ _ hget hne] at hlog
      obtain ⟨o', hget', hp⟩ := s.exists_get?_modifyEntries h hget change
      have hrefusal : refusal o'.payload = refusal object.payload := by
        rcases hp with rfl | rfl
        · rfl
        · exact refusal_mapEntries object
      have hne' : ∀ c, o'.payload ≠ .generator (.suspended c) := by
        rcases hp with rfl | rfl
        · exact hne
        · exact object.mapEntries_ne_suspended hne
      rw [advanceWith_refusal _ hget hne, advanceWith_refusal _ hget' hne', hrefusal]
      exact ih w _ s hs hlog

end Nested

/-- **A run goes the same way whatever the entries are that it leaves aside**: by induction on the
bound on nesting, for every program. -/
theorem run_modifyEntries (hs : s.Aside h) (p : Program α)
    (hlog : ∀ x ∈ p.record (engine n) (recorder n) w s, x.Ignores h) :
    p.run (engine n) (s.modifyEntries h change)
      = (p.run (engine n) s).onState (·.modifyEntries h change) := by
  induction n generalizing α w p s with
  | zero =>
    refine program_modifyEntries (fun a s hs hlog => ?_) p hs hlog
    cases a with
    | call | advance => rfl
    | _ => exact Action.perform_modifyEntries _ _ rfl hs (hlog _ List.mem_cons_self)
  | succ n ih =>
    refine program_modifyEntries (fun a s hs hlog => ?_) p hs hlog
    cases a with
    | call callee args =>
      exact call_modifyEntries (fun w p s hs hlog => ih hs p hlog) hs callee args fun x hx =>
        hlog x (List.mem_append_left _ hx)
    | advance g =>
      exact advance_modifyEntries (fun w p s hs hlog => ih hs p hlog) hs g fun x hx =>
        hlog x (List.mem_append_left _ hx)
    | _ => exact Action.perform_modifyEntries _ _ rfl hs (hlog _ List.mem_cons_self)

/-- **The entries are left as they were.** -/
theorem dictOf {a : α} {p : Program α} (hs : s.Aside h)
    (hd : s.heap.DictOf h m) (hrun : p.run (engine n) s = .done a t)
    (hlog : ∀ x ∈ p.record (engine n) (recorder n) w s, x.Ignores h) : t.heap.DictOf h m := by
  obtain ⟨o, hget, hp⟩ := id hd
  have hspares := State.spares_of_log p n hs.regular hs.running fun x _ => x.spares_nothing
  rw [hrun] at hspares
  obtain ⟨o', hget', halike, _⟩ := hspares.kept hget
  obtain ⟨m', hp'⟩ := halike.payload_dict hp
  -- to put the old entries back is the same before the run and behind it, and before the run it
  -- changes nothing
  have hsame : p.run (engine n) (s.modifyEntries h fun _ => m)
      = (p.run (engine n) s).onState (·.modifyEntries h fun _ => m) :=
    hs.run_modifyEntries p hlog
  rw [hd.modifyEntries_eq_self rfl, hrun] at hsame
  have ht : t = t.modifyEntries h fun _ => m := congrArg Outcome.state hsame
  rw [ht]
  exact Heap.DictOf.modifyEntries ⟨o', hget', hp'⟩ fun _ => m

end State.Aside

end ObjectModel
