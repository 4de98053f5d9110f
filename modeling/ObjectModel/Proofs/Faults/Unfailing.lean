import ObjectModel.Proofs.Generators.Loop
import ObjectModel.Proofs.Types.Naming
import ObjectModel.Proofs.Types.Shadowing
import ObjectModel.Proofs.Types.Subtyping

/-!
# Raising never fails

Raising has to work where nothing else does: at the depth limit, and whatever was done to the
members of the exception types. It makes its exception and its text from payloads alone, and all
that it looks at is there in a careful session.

* `State.raising_unfailing` -- **in a careful session, raising an exception of a builtin kind and
  raising an object end with it**, whatever its type does.
-/

namespace ObjectModel

namespace State

variable {α : Type} {s t : State} {kind : ExceptionKind} {args : List Handle} {x : Handle}

/-! ## 1. Raising an exception of a builtin kind -/

/-- **A new exception was raised, and nothing else happened.** It is an instance of its kind, of
`Exception` and of `object`, and of nothing else. -/
structure Raises (s : State) (kind : ExceptionKind) (args : List Handle) (fault : Fault)
    (t : State) : Prop where
  carries : fault.Carries t kind args
  fresh : ∃ exception, fault.exception = some exception ∧ s.heap.get? exception = none
  matched : ∀ type n, (isException fault type).exec n t = .done (.ok (decide (type = kind.type ∨
    type = ExceptionKind.exception.type ∨ type = BuiltinType.object.handle))) t
  kept : ∀ {k : Handle} {o : Object}, s.heap.get? k = some o → t.heap.get? k = some o
  /-- The call depth, the global names and all else that is not in the heap. -/
  rest : ∃ heap, t = { s with heap := heap }

/-- What an exception that was just made is an instance of. -/
theorem Made.isInstance {exception : Handle} (hm : s.Made kind args exception t) (hs : s.Orderly)
    (type : Handle) :
    t.heap.isInstance exception type
      = some (decide (type = kind.type ∨ type = ExceptionKind.exception.type ∨
        type = BuiltinType.object.handle)) := by
  obtain ⟨_, _, hfound, _⟩ := hm.found
  obtain ⟨links, hl, hlinks⟩ := hs.heap.lineage_kind kind
  have hl' : t.heap.Lineage kind.type links := hl.transfer fun _ _ o ho => ⟨o, hm.kept ho, rfl⟩
  rw [Heap.isInstance_eq hfound, hl'.chain_eq, Option.map_some, List.contains_eq_mem]
  exact congrArg some (decide_eq_decide.mpr (hlinks type))

/-- **Raising ends with its exception** if its arguments have names. -/
theorem raises (hs : s.Orderly) (hargs : ∀ a ∈ args, ∃ path name, s.heap.Naming a path name)
    (kind : ExceptionKind) (n : Nat) :
    ∃ fault t, (raise kind args : Run α).exec n s = .done (.error fault) t ∧
      s.Raises kind args fault t := by
  have hm := made_makeException hs.regular.heap kind args
  generalize hmade : s.makeException kind args = made at hm
  obtain ⟨message, hmessage⟩ : ∃ message, made.2.heap.plainMessage args = some message := by
    refine Heap.plainMessage_total fun a ha => ?_
    obtain ⟨path, name, hway⟩ := hargs a ha
    exact ⟨path, name, hway.transfer fun _ _ o ho => ⟨o, hm.kept ho, .refl o⟩⟩
  refine ⟨.raised made.1 (rendered kind.name message), made.2, ?_, hm.carries hmessage,
    ⟨_, rfl, hm.fresh⟩, fun type n => ?_, hm.kept, hm.rest⟩
  · have hrun := run_raise (α := α) hs.regular.heap kind args (engine n)
    simp only [hmade, hmessage] at hrun
    exact hrun
  · exact exec_isException_iff.mpr (Or.inl ⟨made.1, rfl, hm.isInstance hs type⟩)

/-! ## 2. Raising an object -/

theorem exists_rendered_eq (name message : String) :
    ∃ rest, rendered name message = name ++ rest := by
  unfold rendered
  split
  · exact ⟨"", String.append_empty.symm⟩
  · exact ⟨": " ++ message, String.append_assoc ..⟩

theorem exists_className (hs : s.Sound) (hn : s.heap.Named) (hx : s.Live x) :
    ∃ name, s.heap.className x = some name := by
  obtain ⟨o, hget⟩ := Heap.contains_iff.mp hx
  obtain ⟨_, name, hway⟩ := hn.way (hs.stored hget .type)
  exact ⟨name, (Heap.className_of_get? hget).trans hway.typeName_eq⟩

/-- What an object was made with can be shown, also when other objects were made since. -/
theorem exists_plainMessage (hs : s.Sound) (hn : s.heap.Named) (hx : s.Live x)
    (hkept : s.heap.KeptIn t.heap) :
    ∃ args message, t.heap.exceptionArgs x = some args ∧
      t.heap.plainMessage args = some message := by
  obtain ⟨o, hget⟩ := Heap.contains_iff.mp hx
  have hget' := hkept hget
  cases hargs : o.attributes.get? "args" with
  | none =>
    refine ⟨[], "", ?_, rfl⟩
    rw [Heap.exceptionArgs, Heap.tupleAttribute, Heap.ownAttribute_of_get? hget', hargs]
    rfl
  | some cell =>
    obtain ⟨label, hlabel⟩ := OrderedMap.mem_values.mp (OrderedMap.mem_values_of_get? hargs)
    obtain ⟨c, hcell⟩ := Heap.contains_iff.mp (hs.stored hget (.attributeValue hlabel))
    have heq : t.heap.exceptionArgs x = some (c.tupleItems.getD []) := by
      rw [Heap.exceptionArgs, Heap.tupleAttribute_of_get? hget' hargs (hkept hcell)]
      rfl
    have hnamed : ∀ a ∈ c.tupleItems.getD [], ∃ path name, t.heap.Naming a path name := by
      intro a ha
      cases hitems : c.tupleItems with
      | none =>
        rw [hitems] at ha
        exact absurd ha List.not_mem_nil
      | some items =>
        rw [hitems] at ha
        obtain ⟨path, name, hway⟩ :=
          hn.way (hs.stored hcell (.item (Object.payload_of_tupleItems hitems) ha))
        exact ⟨path, name, hway.transfer fun _ _ o ho => ⟨o, hkept ho, .refl o⟩⟩
    obtain ⟨message, hmessage⟩ := Heap.plainMessage_total hnamed
    exact ⟨_, message, heq, hmessage⟩

section

variable {name : String} {e : Engine} (hname : s.heap.className x = some name)

include hname

/-- The rest of raising an object, behind its `__str__`. -/
theorem run_raiseValue_ok {text : String} (hrun : (toText x).run.run e s = .done (.ok text) t) :
    (raiseValue x : Run α).run.run e s = .done (.error (.raised x (rendered name text))) t := by
  have hattempt : (Run.attempt (toText x)).run.run e s = .done (.ok (.ok text)) t := by
    rw [Run.run_attempt, hrun]
    rfl
  exact (Run.run_inspect_bind hname).trans ((Run.run_bind_ok hattempt).trans rfl)

theorem run_raiseValue_error {fault : Fault} {message : String} (hrun : (toText x).run.run e s
      = .done (.error fault) t) (hargs : t.heap.exceptionArgs x = some args)
    (hmessage : t.heap.plainMessage args = some message) :
    (raiseValue x : Run α).run.run e s = .done (.error (.raised x (rendered name message))) t := by
  have hattempt : (Run.attempt (toText x)).run.run e s = .done (.ok (.error fault)) t := by
    rw [Run.run_attempt, hrun]
    rfl
  refine (Run.run_inspect_bind hname).trans
    ((Run.run_bind_ok hattempt).trans ((Run.run_inspect_bind hargs).trans ?_))
  exact (Run.run_inspect_bind hmessage).trans rfl

theorem run_raiseValue_aborted {reason : Abort}
    (hrun : (toText x).run.run e s = .aborted reason t) :
    (raiseValue x : Run α).run.run e s = .aborted reason t := by
  have hattempt : (Run.attempt (toText x)).run.run e s = .aborted reason t := by
    rw [Run.run_attempt, hrun]
    rfl
  refine (Run.run_inspect_bind hname).trans ?_
  rw [ExceptT.run_bind, Program.run_bind, hattempt]
  rfl

/-- **Raising an object carries it**, however its `__str__` came back, if what it was made with can
be shown then. -/
theorem run_raiseValue {r : Except Fault String} (hrun : (toText x).run.run e s = .done r t)
    (hshown : ∃ args message, t.heap.exceptionArgs x = some args ∧
      t.heap.plainMessage args = some message) :
    ∃ rest, (raiseValue x : Run α).run.run e s = .done (.error (.raised x (name ++ rest))) t := by
  obtain ⟨message, hmessage⟩ : ∃ message, (raiseValue x : Run α).run.run e s
      = .done (.error (.raised x (rendered name message))) t := by
    cases r with
    | ok text => exact ⟨text, run_raiseValue_ok hname hrun⟩
    | error fault =>
      obtain ⟨args, message, hargs, hmessage⟩ := hshown
      exact ⟨message, run_raiseValue_error hname hrun hargs hmessage⟩
  obtain ⟨rest, hrest⟩ := exists_rendered_eq name message
  exact ⟨rest, hrest ▸ hmessage⟩

end

/-! ## 3. At the depth limit -/

/-- No hook is run at the depth limit, and asking for the text comes back at once. -/
theorem run_toText_at_limit (hs : s.Orderly) (hsound : s.Sound) (hx : s.Live x)
    (hlimit : s.limits.callDepth ≤ s.callDepth) (n : Nat) :
    ∃ fault t, (toText x).run.run (engine (n + 1)) s = .done (.error fault) t ∧
      s.heap.KeptIn t.heap := by
  obtain ⟨o, hget⟩ := Heap.contains_iff.mp hx
  obtain ⟨links, hchain⟩ := hs.heap.exists_chain (hsound.stored hget .type)
  have hhook := (Heap.hook_of_get? hget "__str__").trans (Heap.lookup_of_chain hchain _)
  have hrest :
      ∀ f : Option Handle → Run String, (findHook x "__str__" >>= f).run.run (engine (n + 1)) s
      = (f (s.heap.firstDefined links "__str__")).run.run (engine (n + 1)) s :=
        fun _ => Run.run_inspect_bind hhook
  cases hf : s.heap.firstDefined links "__str__" with
  | none =>
    obtain ⟨fault, t, _, hraise, hkept, _⟩ := run_raiseMessage
        (α := String) hs.regular.heap .typeError "object has no __str__" (engine (n + 1))
    refine ⟨fault, t, (hrest _).trans ?_, hkept⟩
    rw [hf]
    exact hraise
  | some hook =>
    refine ⟨.callDepthExceeded s.limits.callDepth, s, (hrest _).trans ?_, id⟩
    rw [hf]
    have hcall : (call hook [x]).run.run (engine (n + 1)) s
        = .done (.error (.callDepthExceeded s.limits.callDepth)) s :=
      (Program.run_act _ _ _).trans (if_pos hlimit)
    rw [ExceptT.run_bind, Program.run_bind, hcall]
    rfl

/-! ## 4. Careful sessions -/

/-- What a hook leaves behind in a careful session: all objects have names, no handle dangles, and
what was there is still there. -/
theorem intact_behind_toText {r : Except Fault String} {n : Nat} (hs : s.Intact)
    (hn : s.heap.Named) (hx : s.Live x) (hcareful : ∀ y ∈ (toText x).run.log n s, y.Careful)
    (hrun : (toText x).exec n s = .done r t) : t.Intact ∧ t.heap.Named ∧ t.Live x := by
  have hens := (paired_renderWith "__str__"
      (Known.mem (List.mem_singleton_self x)).related).composed_known.safe s hs fun h hh =>
      List.mem_singleton.mp hh ▸ hx
  have hpasses := naming_governs.upheld.run n [] _ s _ ⟨hs, hn⟩ (hens.also _) hcareful
  have hinv := hpasses.inv
  have hends := hpasses.ends r t hrun
  rw [show (renderWith "__str__" x).run.run (engine n) s = .done r t from hrun] at hinv
  exact ⟨hinv.1, hinv.2, hends.1.live hx⟩

/-- **Raising never fails** in a careful session. An exception of a builtin kind is made, matched
and shown without running any function; and whatever object is raised, it is carried with a text
that begins with the name of its type, however its `__str__` came back, and at once where no call is
allowed any more. -/
theorem raising_unfailing (hs : s.ReachableBy Entry.Careful) :
    (∀ (α : Type) kind args n, (∀ a ∈ args, s.Live a) →
      (∀ y ∈ (raise kind args : Run α).run.log n s, Program.Noted [] y) ∧
      ∃ fault t, (raise kind args : Run α).exec n s = .done (.error fault) t ∧
        s.Raises kind args fault t) ∧
    (∀ (α : Type) x n, s.Live x → ∃ name, s.heap.className x = some name ∧
      ((∀ y ∈ (toText x).run.log n s, y.Careful) →
        (∀ r t, (toText x).exec n s = .done r t →
          ∃ rest, (raiseValue x : Run α).exec n s = .done (.error (.raised x (name ++ rest))) t) ∧
        (∀ reason t, (toText x).exec n s = .aborted reason t →
          (raiseValue x : Run α).exec n s = .aborted reason t)) ∧
      (s.limits.callDepth ≤ s.callDepth →
        ∃ rest t, (raiseValue x : Run α).exec (n + 1) s
          = .done (.error (.raised x (name ++ rest))) t)) := by
  have hintact := hs.intact
  have hnamed := hs.named
  refine ⟨fun α kind args n hlive => ⟨(direct_raise kind args).record _ _ _ _,
    raises hs.orderly (fun a ha => hnamed.way (hlive a ha)) kind n⟩, fun α x n hx => ?_⟩
  obtain ⟨name, hname⟩ := exists_className hintact.sound hnamed hx
  refine ⟨name, hname, fun hcareful =>
    ⟨fun r t hrun => ?_, fun reason t => run_raiseValue_aborted hname⟩, fun hlimit => ?_⟩
  · obtain ⟨ht, hn, hx'⟩ := intact_behind_toText hintact hnamed hx hcareful hrun
    exact run_raiseValue hname hrun (exists_plainMessage ht.sound hn hx' id)
  · obtain ⟨fault, t, hrun, hkept⟩ := run_toText_at_limit hs.orderly hintact.sound hx hlimit n
    obtain ⟨rest, hraised⟩ :=
      run_raiseValue (α := α) hname hrun (exists_plainMessage hintact.sound hnamed hx hkept)
    exact ⟨rest, t, hraised⟩

/-- Catches an exception and gives its type a `__str__` that answers no text. -/
def textless : List Script.Expr :=
  [.setLocal "x" (.rescue (.list (.raise .valueError) []) none (.name "err")),
    .pair (.setAttribute "__str__") (.builtinType (.exception .valueError)) (.function "str" .null)]

/-- An exception whose `__str__` was replaced by a function that answers no text: it is raised as
well as others, and so is another one that it is the argument of. -/
theorem raising_unfailing_of_textless :
    ∃ (s : State) (x text : Handle) (o : Object) (name rest : String) (fault stop : Fault)
      (t u : State),
      s.ReachableBy Entry.Careful ∧ s.heap.get? x = some o ∧
      o.type = ExceptionKind.valueError.type ∧
      (toText x).exec 1 s = .done (.error fault) t ∧ fault.Carries t .typeError [text] ∧
      s.heap.className x = some name ∧
      (raiseValue x : Run Handle).exec 1 s = .done (.error (.raised x (name ++ rest))) t ∧
      (raise .stopIteration [x] : Run Handle).exec 0 s = .done (.error stop) u ∧
      s.Raises .stopIteration [x] stop u := by
  obtain ⟨frame, s, hs, x, -, o, hx, ho, hcareful, fault, hfault, _, -, _, -, text, -,
      hcarries⟩ :=
    Session.exists_reached Entry.Careful .standard 1 textless
      (fun frame s => ∃ x ∈ frame.locals.get? "x", ∃ o ∈ s.heap.get? x,
        o.type = ExceptionKind.valueError.type ∧
        (∀ y ∈ (toText x).run.log 1 s, y.Careful) ∧
          ∃ fault ∈ ((toText x).exec 1 s).fault?, ∃ e ∈ fault.exception,
          ∃ args ∈ ((toText x).exec 1 s).state.heap.exceptionArgs e, ∃ text ∈ args.head?,
            fault.Carries ((toText x).exec 1 s).state .typeError [text]) (by decide +kernel)
  have hrun := Outcome.eq_error hfault
  have hlive : s.Live x := Heap.contains_of_get? hx
  obtain ⟨hraise, hvalue⟩ := raising_unfailing hs
  obtain ⟨_, stop, u, hstop, hraises⟩ :=
    hraise Handle .stopIteration [x] 0 (List.forall_mem_singleton.mpr hlive)
  obtain ⟨name, hname, hshown, _⟩ := hvalue Handle x 1 hlive
  obtain ⟨rest, hraised⟩ := (hshown hcareful).1 _ _ hrun
  exact ⟨s, x, text, o, name, rest, fault, stop, _, u, hs, hx, ho, hrun, hcarries, hname, hraised,
    hstop, hraises⟩

end State

end ObjectModel
