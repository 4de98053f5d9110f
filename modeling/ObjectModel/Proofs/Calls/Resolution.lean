import ObjectModel.Proofs.Data.Hooks

/-!
# Where a call leads

A function takes a call itself. A bound method passes it on to its function, any other object to the
`__call__` of its type, which may be anything again: an object that passes it on, even the same one.
Only the depth limit puts an end to that.

* `State.call_resolution` -- **every call gets to the end of its way** within the levels that are
  left.
-/

namespace ObjectModel

/-! ## 1. What an object makes of a call -/

inductive Reception where
  /-- A function: its code is entered. -/
  | enters (code : Code)
  /-- The call is passed on to `next`, with `front` before its arguments. -/
  | passes (front next : Handle)
  | uncallable
  /-- A handle that has to be looked up names nothing. -/
  | stale

namespace Reception

/-- What a dispatch does then. -/
def answer (e : Engine) (args : List Handle) (s : State) : Reception → Outcome (Except Fault Handle)
  | enters code => (code.run args).run.run e s
  | passes front next => (call next (front :: args)).run.run e s
  | uncallable => (typeError "Call to uncallable object" : Run Handle).run.run e s
  | stale => .aborted .stale s

/-- Whether the object is callable. -/
def callable : Reception → Option Bool
  | enters _ => some true
  | passes _ _ => some true
  | uncallable => some false
  | stale => none

theorem callable_eq_some_false_iff {r : Reception} : r.callable = some false ↔ r = .uncallable := by
  cases r <;> simp [callable]

/-- By the `__call__` of the type. -/
def ofHook (callee : Handle) : Option (Option Handle) → Reception
  | none => stale
  | some none => uncallable
  | some (some hook) => passes callee hook

end Reception

namespace Heap

/-- What an object makes of a call: its payload tells, else the `__call__` that its type offers. -/
def reception (heap : Heap) (callee : Handle) : Reception :=
  match heap.get? callee with
  | none => .stale
  | some object =>
    match object.payload with
    | .function _ code => .enters code
    | .bound receiver function => .passes receiver function
    | _ => .ofHook callee (heap.hook callee "__call__")

variable {heap : Heap} {h callee front next last : Handle} {passed : List Handle} {o : Object}
  {code : Code}

theorem callable_ofHook (callee : Handle) (hook : Option (Option Handle)) :
    (Reception.ofHook callee hook).callable = hook.map Option.isSome := by
  rcases hook with _ | _ | hook <;> rfl

theorem reception_cases (ho : heap.get? h = some o) :
    (∃ name code, o.payload = .function name code ∧ heap.reception h = .enters code) ∨
    (∃ receiver function, o.payload = .bound receiver function ∧
      heap.reception h = .passes receiver function) ∨
    heap.reception h = .ofHook h (heap.hook h "__call__") := by
  rw [reception, ho]
  dsimp only
  cases o.payload with
  | function name code => exact .inl ⟨name, code, rfl, rfl⟩
  | bound receiver function => exact .inr (.inl ⟨receiver, function, rfl, rfl⟩)
  | _ => exact .inr (.inr rfl)

theorem reception_function {name : String} (ho : heap.get? h = some o)
    (hp : o.payload = .function name code) : heap.reception h = .enters code := by
  simp only [reception, ho, hp]

theorem reception_bound (ho : heap.get? h = some o) (hp : o.payload = .bound front next) :
    heap.reception h = .passes front next := by
  simp only [reception, ho, hp]

/-- **The callable objects are those that take a call.** -/
theorem isCallable_eq (heap : Heap) (h : Handle) :
    heap.isCallable h = (heap.reception h).callable := by
  unfold isCallable reception
  cases ho : heap.get? h with
  | none => rfl
  | some o =>
    have hhook : (Reception.ofHook h (heap.hook h "__call__")).callable
        = (heap.lookup o.type "__call__").map Option.isSome := by
      rw [callable_ofHook, hook_of_get? ho]
    dsimp only [Option.bind_eq_bind, Option.bind_some]
    cases o.payload with
    | function _ _ => rfl
    | bound _ _ => rfl
    | _ =>
      refine Eq.trans ?_ hhook.symm
      cases heap.lookup o.type "__call__" <;> rfl

end Heap

theorem run_dispatch (callee : Handle) (args : List Handle) (e : Engine) (s : State) :
    (dispatch callee args).run.run e s = (s.heap.reception callee).answer e args s := by
  unfold Heap.reception
  cases ho : s.heap.get? callee with
  | none => exact @Run.run_inspect_bind_stale _ _ _ s (fun s => s.heap.get? callee) _ ho
  | some o =>
    refine (run_object_bind ho).trans ?_
    dsimp only
    cases o.payload with
    | function _ _ => rfl
    | bound _ _ => rfl
    | _ =>
      cases hhook : s.heap.hook callee "__call__" with
      | none =>
        exact @Run.run_inspect_bind_stale _ _ _ s (fun s => s.heap.hook callee "__call__") _ hhook
      | some found =>
        refine (@Run.run_inspect_bind _ _ _ s (fun s => s.heap.hook callee "__call__") _ _
          hhook).trans ?_
        cases found <;> rfl

/-! ## 2. The way of a call -/

/-- **The way of a call** from `callee` on: where it has come to, and what was put in front of its
arguments, the last one first. -/
inductive Heap.Route (heap : Heap) (callee : Handle) : List Handle → Handle → Prop where
  | start : Route heap callee [] callee
  | pass {passed : List Handle} {h front next : Handle} : Route heap callee passed h →
      heap.reception h = .passes front next → Route heap callee (front :: passed) next

namespace State

/-- So many levels deeper. -/
def down (s : State) (k : Nat) : State := { s with callDepth := s.callDepth + k }

/-- So many levels less deep. -/
def up (s : State) (k : Nat) : State := { s with callDepth := s.callDepth - k }

variable {s : State} {h callee front next last : Handle} {args passed : List Handle} {n k : Nat}

theorem up_down (s : State) (k : Nat) : (s.down k).up k = s := by
  rw [up, down]
  simp only [Nat.add_sub_cancel]

theorem down_zero (s : State) : s.down 0 = s := rfl

theorem onState_up_zero (o : Outcome (Except Fault Handle)) : o.onState (·.up 0) = o := by
  cases o <;> rfl

theorem enter_down (s : State) (k : Nat) : (s.down k).enter = s.down (k + 1) := rfl

theorem up_leave (s : State) (k : Nat) : s.leave.up k = s.up (k + 1) := by
  simp only [up, leave, Nat.sub_sub, Nat.add_comm 1 k]

/-- **How a call comes out** that has come to `last`, each link of its way one level deeper. -/
inductive Ending (s : State) (n : Nat) (args passed : List Handle) (last : Handle) :
    Outcome (Except Fault Handle) → Prop where
  /-- The code of a function is run. -/
  | entered {code : Code} : s.heap.reception last = .enters code → passed.length < s.levels →
      Ending s n args passed last
        (((code.run (passed ++ args)).run.run (engine (n - (passed.length + 1)))
          (s.down (passed.length + 1))).onState
          (·.up (passed.length + 1)))
  | uncallable {fault : Fault} {u : State} {text : Handle} : s.heap.reception last = .uncallable →
      passed.length < s.levels → fault.Carries u .typeError [text] →
      u.heap.get? text = some (.ofText "Call to uncallable object") →
      Ending s n args passed last (.done (.error fault) u)
  /-- No level is left. -/
  | refused : passed.length = s.levels →
      Ending s n args passed last (.done (.error (.callDepthExceeded s.limits.callDepth)) s)
  | stale : s.heap.reception last = .stale → passed.length < s.levels →
      Ending s n args passed last (.aborted .stale s)

/-- A call below the limit is answered one level deeper. -/
theorem run_call_admitted (hroom : 0 < s.levels) (callee : Handle) (args : List Handle) :
    (call callee args).run.run (engine (n + 1)) s
      = ((s.heap.reception callee).answer (engine n) args s.enter).onState State.leave := by
  rw [run_call_dispatch (Nat.lt_of_sub_pos hroom), run_dispatch]
  rfl

theorem levels_down (s : State) (k : Nat) : (s.down k).levels = s.levels - k := Nat.sub_add_eq _ _ _

/-- The same, as it looks from above. -/
theorem run_call_down (hk : k < s.levels) (callee : Handle) (args : List Handle) :
    ((call callee args).run.run (engine (n + 1)) (s.down k)).onState (·.up k)
      = ((s.heap.reception callee).answer (engine n) args (s.down (k + 1))).onState
        (·.up (k + 1)) := by
  rw [run_call_admitted (by rw [levels_down]; exact Nat.sub_pos_of_lt hk), enter_down]
  change (((s.heap.reception callee).answer (engine n) args (s.down (k + 1))).onState leave).onState
    (·.up k) = _
  cases (s.heap.reception callee).answer (engine n) args (s.down (k + 1)) with
  | done r t => rw [Outcome.onState_done, Outcome.onState_done, Outcome.onState_done, up_leave]
  | aborted reason t =>
    rw [Outcome.onState_aborted, Outcome.onState_aborted, Outcome.onState_aborted, up_leave]

/-- The dispatch of an uncallable object fails with its complaint. -/
theorem run_uncallable (hw : s.heap.WellFormed) (e : Engine) (args : List Handle) (k : Nat) :
    ∃ fault u text, (Reception.uncallable.answer e args (s.down k)).onState (·.up k)
      = .done (.error fault) u ∧
      fault.Carries u .typeError [text] ∧
        u.heap.get? text = some (.ofText "Call to uncallable object") := by
  obtain ⟨fault, u, text, hrun, _, htext, hcarries⟩ :=
    run_raiseMessage (α := Handle) (s := s.down k) hw .typeError "Call to uncallable object" e
  refine ⟨fault, u.up k, text, ?_, hcarries.congr rfl, htext⟩
  change ((raiseMessage .typeError "Call to uncallable object" : Run Handle).run.run e
    (s.down k)).onState (·.up k) = _
  rw [hrun, Outcome.onState_done]

/-- A call that has come to `h` gets to the end of its way. -/
theorem exists_ending (hw : s.heap.WellFormed) {m rest : Nat}
    (hroute : s.heap.Route callee passed h) (hlevels : passed.length + rest = s.levels)
    (hrest : rest < m) (hn : passed.length + m = n) :
    ∃ passed' last, s.heap.Route callee passed' last ∧ passed'.length ≤ s.levels ∧
      s.Ending n args passed' last
        (((call h (passed ++ args)).run.run (engine m) (s.down passed.length)).onState
          (·.up passed.length)) := by
  obtain ⟨m, rfl⟩ := Nat.exists_eq_succ_of_ne_zero (Nat.ne_of_gt (Nat.zero_lt_of_lt hrest))
  -- on the levels that are left: a call that is passed on has one less
  induction rest generalizing h passed m with
  | zero =>
    have hfull : (s.down passed.length).levels
        = 0 := by rw [levels_down, ← hlevels, Nat.add_zero, Nat.sub_self]
    refine ⟨passed, h, hroute, Nat.le_of_eq hlevels, ?_⟩
    rw [run_call_refused hfull, Outcome.onState_done, up_down]
    exact .refused hlevels
  | succ rest ih =>
    have hlt : passed.length < s.levels := by omega
    rw [run_call_down hlt]
    cases hr : s.heap.reception h with
    | enters code =>
      have hm : n - (passed.length + 1) = m := by omega
      refine ⟨passed, h, hroute, Nat.le_of_lt hlt, ?_⟩
      rw [← hm]
      exact .entered hr hlt
    | passes front next =>
      obtain ⟨m, rfl⟩ := Nat.exists_eq_succ_of_ne_zero (n := m) (by omega)
      exact ih (hroute.pass hr) (by rw [List.length_cons]; omega) m (by omega)
        (by rw [List.length_cons]; omega)
    | uncallable =>
      obtain ⟨fault, u, text, hrun, hcarries, htext⟩ :=
        run_uncallable hw (engine m) (passed ++ args) (passed.length + 1)
      refine ⟨passed, h, hroute, Nat.le_of_lt hlt, ?_⟩
      rw [hrun]
      exact .uncallable hr hlt hcarries htext
    | stale =>
      refine ⟨passed, h, hroute, Nat.le_of_lt hlt, ?_⟩
      change s.Ending n args passed h
        (.aborted .stale ((s.down (passed.length + 1)).up (passed.length + 1)))
      rw [up_down]
      exact .stale hr hlt

/-! ## 3. Live handles -/

namespace Sound

/-- In a sound state a live object has a chain. -/
theorem exists_chainFrom (hs : s.Sound) (hlive : s.Live h) (fuel : Nat) :
    ∃ links, s.heap.chainFrom fuel h = some links := by
  induction fuel generalizing h with
  | zero => exact ⟨[], rfl⟩
  | succ fuel ih =>
    obtain ⟨o, ho⟩ := Heap.contains_iff.mp hlive
    cases hb : o.base with
    | none =>
      exact ⟨[h], by simp only [Heap.chainFrom, ho, hb, Option.bind_eq_bind, Option.bind_some,
        Option.pure_def]⟩
    | some base =>
      obtain ⟨links, hlinks⟩ := ih (hs.stored ho (.base hb))
      exact ⟨h :: links, by simp only [Heap.chainFrom, ho, hb, hlinks, Option.bind_eq_bind,
        Option.bind_some, Option.pure_def]⟩

/-- The hook of a live object can be looked for, and is live if there is one. -/
theorem exists_hook (hs : s.Sound) (hlive : s.Live h) (name : String) :
    ∃ found, s.heap.hook h name = some found ∧ ∀ v, found = some v → s.Live v := by
  obtain ⟨o, ho⟩ := Heap.contains_iff.mp hlive
  obtain ⟨links, hlinks⟩ := hs.exists_chainFrom (hs.stored ho .type) s.heap.slots.size
  exact ⟨_, (Heap.hook_of_get? ho name).trans (Heap.lookup_of_chain hlinks name),
    fun v hv => live_firstDefined hs hv⟩

/-- **A live object knows what to make of a call**, and passes it on to a live one. -/
theorem reception (hs : s.Sound) (hlive : s.Live h) :
    s.heap.reception h ≠ .stale ∧ ∀ front next, s.heap.reception h = .passes front next →
    s.Live next := by
  obtain ⟨o, ho⟩ := Heap.contains_iff.mp hlive
  rcases Heap.reception_cases ho with ⟨name, code, _, hr⟩ | ⟨receiver, function, hp, hr⟩ | hr
  · rw [hr]
    exact ⟨Reception.noConfusion, fun _ _ hpasses => Reception.noConfusion hpasses⟩
  · rw [hr]
    refine ⟨Reception.noConfusion, fun _ _ hpasses => ?_⟩
    cases hpasses
    exact hs.stored ho (.function hp)
  · obtain ⟨found, hfound, hv⟩ := hs.exists_hook hlive "__call__"
    rw [hr, hfound]
    cases found with
    | none => exact ⟨Reception.noConfusion, fun _ _ hpasses => Reception.noConfusion hpasses⟩
    | some hook =>
      refine ⟨Reception.noConfusion, fun _ _ hpasses => ?_⟩
      cases hpasses
      exact hv _ rfl

theorem live_route (hs : s.Sound) (hlive : s.Live callee) (hr : s.heap.Route callee passed last) :
    s.Live last := by
  induction hr with
  | start => exact hlive
  | pass _ hpasses ih => exact (hs.reception ih).2 _ _ hpasses

end Sound

/-! ## 4. Resolution -/

/-- **Every call gets to the end of its way.** Whatever the objects pass calls on to, there are at
most as many dispatches as levels are left. The last one enters a function, with the receivers and
callees that were passed in front of the arguments, the last one first; or it meets an object that
is not callable, or no level is left for it. That the very first one meets such an object is the
same as that the callee is not callable. In a state without dangling references no call of a live
object meets a stale handle. -/
theorem call_resolution (s : State) (hw : s.heap.WellFormed) (callee : Handle) (args : List Handle)
    {n : Nat} (hn : s.levels < n) :
    (∃ passed last, s.heap.Route callee passed last ∧ passed.length ≤ s.levels ∧
      s.Ending n args passed last ((call callee args).exec n s)) ∧
    (0 < s.levels →
      ((s.heap.reception callee = .uncallable ∧
        ∃ fault u text, (call callee args).exec n s = .done (.error fault) u ∧
          fault.Carries u .typeError [text] ∧
            u.heap.get? text = some (.ofText "Call to uncallable object")) ↔
        s.heap.isCallable callee = some false)) ∧
    (s.Sound → s.Live callee → ∀ passed last, s.heap.Route callee passed last →
      s.heap.reception last ≠ .stale) := by
  refine ⟨?_, fun hroom => ?_, fun hs hlive passed last hr =>
    (hs.reception (hs.live_route hlive hr)).1⟩
  · obtain ⟨passed, last, hr, hlength, hend⟩ :=
      exists_ending hw .start (Nat.zero_add _) hn (Nat.zero_add n)
    rw [List.nil_append, List.length_nil, down_zero, onState_up_zero] at hend
    exact ⟨passed, last, hr, hlength, hend⟩
  · rw [Heap.isCallable_eq, Reception.callable_eq_some_false_iff]
    refine ⟨fun h => h.1, fun hr => ⟨hr, ?_⟩⟩
    obtain ⟨m, rfl⟩ := Nat.exists_eq_succ_of_ne_zero (Nat.ne_of_gt (Nat.zero_lt_of_lt hn))
    obtain ⟨fault, u, text, hrun, hcarries, htext⟩ := run_uncallable hw (engine m) args 1
    refine ⟨fault, u, text, ?_, hcarries, htext⟩
    refine (run_call_admitted hroom callee args).trans ?_
    rw [hr]
    exact hrun

end State

/-- An object that passes calls on to itself. -/
theorem Heap.Route.eq_of_self {heap : Heap} {h last : Handle} {passed : List Handle}
    (hself : heap.reception h = .passes h h) (hr : heap.Route h passed last) : last = h := by
  induction hr with
  | start => rfl
  | pass _ hpasses ih =>
    subst ih
    cases hself.symm.trans hpasses
    rfl

/-- Defines a type and gives it an object of its own for `__call__`. -/
def makeSelfCaller : List Script.Expr :=
  [.setLocal "T" (.defineType "T" none []), .setLocal "x" (.apply .call (.name "T") []),
    .pair (.setAttribute "__call__") (.name "T") (.name "x")]

/-- **A call that goes round in circles is refused**: the `__call__` of the type is an object of
that type. -/
theorem State.call_resolution_self :
    ∃ (s : State) (x : Handle), s.heap.WellFormed ∧ s.levels < s.levels + 1 ∧ 0 < s.levels ∧
      s.heap.reception x = .passes x x ∧
      (call x []).exec (s.levels + 1) s
        = .done (.error (.callDepthExceeded s.limits.callDepth)) s := by
  obtain ⟨_, s, hs, x, -, hlevels, type, -, hx, hhook⟩ :=
    Session.exists_reached (fun _ => True) .standard 4 makeSelfCaller
      (fun frame s => ∃ x ∈ frame.locals.get? "x", 0 < s.levels ∧
        ∃ type ∈ frame.locals.get? "T", s.heap.Exhibits x (.bare type) ∧
        s.heap.hook x "__call__" = some (some x)) (by decide +kernel)
  have hw := hs.orderly.regular.heap
  have hself : s.heap.reception x = .passes x x := by
    rw [Heap.reception, hx.get?_eq]
    dsimp only [Object.bare]
    rw [hhook]
    rfl
  obtain ⟨⟨passed, last, hr, _, hend⟩, _, _⟩ :=
    State.call_resolution s hw x [] (Nat.lt_succ_self s.levels)
  have hlast := hr.eq_of_self hself
  refine ⟨s, x, hw, Nat.lt_succ_self _, hlevels, hself, ?_⟩
  generalize (call x []).exec (s.levels + 1) s = outcome at hend
  subst hlast
  cases hend with
  | entered henters _ => cases hself.symm.trans henters
  | uncallable hnot _ _ _ => cases hself.symm.trans hnot
  | refused _ => rfl
  | stale hstale _ => cases hself.symm.trans hstale

end ObjectModel
