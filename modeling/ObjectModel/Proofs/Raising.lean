import ObjectModel.Proofs.Run.Steps

/-!
# Raising exceptions

Raising runs no code and touches no object that was there before.

* `run_raise` -- raising ends with a new exception of its kind and with its arguments, unless an
  argument that the text has to show is gone.
-/

namespace ObjectModel

/-! ## 1. Programs that run no code -/

namespace Program

/-- A program that asks for no calls and no requests. -/
def Direct {α : Type} : Program α → Prop
  | pure _ => True
  | perform action next => action.isPrimitive = true ∧ ∀ answer, (next answer).Direct
  | iterate body _ next => (∀ acc, (body acc).Direct) ∧ ∀ answer, (next answer).Direct

variable {α : Type}

/-- What such a program does is noted as primitive actions, one after another. -/
def Noted (within : List Handle) (x : Entry) : Prop :=
  ∃ (β : Type) (a : Action β) (s : State) (o : Outcome β), a.isPrimitive = true ∧
    x = ⟨within, .performed a s o⟩

theorem Direct.record {p : Program α} (hp : p.Direct) (e : Engine) (r : Recorder) (w : List Handle)
    (s : State) : ∀ x ∈ p.record e r w s, Noted w x := by
  induction p generalizing s with
  | pure value => exact List.forall_mem_nil _
  | perform action next ih =>
    intro x hx
    rw [record_perform] at hx
    rcases List.mem_append.mp hx with hx | hx
    · have hinside : action.inside r w s = [] := by
        cases action with
        | call callee args => exact absurd hp.1 Bool.false_ne_true
        | advance generator => exact absurd hp.1 Bool.false_ne_true
        | _ => rfl
      rw [hinside, List.nil_append, List.mem_singleton] at hx
      exact ⟨_, action, s, _, hp.1, hx⟩
    · exact forall_recordAfter (fun answer s => ih answer (hp.2 answer) s) x hx
  | iterate body start next ihb ihn =>
    intro x hx
    rw [record_iterate] at hx
    rcases List.mem_append.mp hx with hx | hx
    · exact forall_recordUntil (fun acc s => ihb acc (hp.1 acc) s) _ _ _ x hx
    · exact forall_recordAfter (fun answer s => ihn answer (hp.2 answer) s) x hx

end Program

/-! ## 2. What raising does -/

section

variable {α : Type} {s : State} {kind : ExceptionKind} {args : List Handle}

/-- The text of the exception is made last. -/
def raiseMade (kind : ExceptionKind) (args : List Handle) (exception : Handle) :
    Program (Except Fault α) :=
  .perform (.inspect fun s => s.heap.plainMessage args) fun message =>
    .pure (.error (.raised exception (rendered kind.name message)))

theorem raise_eq (kind : ExceptionKind) (args : List Handle) :
    (raise kind args : Run α).run
      = .perform (.allocate (.bare kind.type)) fun exception =>
        .perform (.allocate (.ofItems args)) fun tuple =>
        .perform (.setAttribute exception "args" tuple) fun _ =>
          if kind = .stopIteration then
            .perform (.setAttribute exception "value" (args.head?.getD .none)) fun _ =>
              raiseMade kind args exception
          else raiseMade kind args exception := by
  cases kind <;> rfl

theorem raise_bind {β : Type} (kind : ExceptionKind) (args : List Handle) (f : α → Run β) :
    raise kind args >>= f = raise kind args := by
  unfold raise
  simp only [bind_assoc]
  congr 1
  funext exception
  congr 1
  funext _
  split
  · rw [bind_assoc]
    rfl
  · rfl

theorem raiseMessage_bind {β : Type} (kind : ExceptionKind) (message : String) (f : α → Run β) :
    raiseMessage kind message >>= f = raiseMessage kind message := by
  unfold raiseMessage
  rw [bind_assoc]
  simp only [raise_bind]

theorem direct_raise (kind : ExceptionKind) (args : List Handle) :
    (raise kind args : Run α).run.Direct := by
  have hmade : ∀ exception, (raiseMade kind args exception : Program (Except Fault α)).Direct :=
    fun _ => ⟨rfl, fun _ => trivial⟩
  rw [raise_eq]
  refine ⟨rfl, fun exception => ⟨rfl, fun tuple => ⟨rfl, fun _ => ?_⟩⟩⟩
  split
  · exact ⟨rfl, fun _ => hmade exception⟩
  · exact hmade exception

/-- Makes an exception with its arguments. -/
def State.makeException (s : State) (kind : ExceptionKind) (args : List Handle) : Handle × State :=
  let (exception, s) := s.allocate (.bare kind.type)
  let (tuple, s) := s.allocate (.ofItems args)
  let s := s.setAttribute exception "args" tuple
  (exception,
    if kind = .stopIteration then s.setAttribute exception "value" (args.head?.getD .none) else s)

/-- The object `h` is new in `t`, and the others are as in `s`. -/
structure State.Placed (s : State) (object : Object) (h : Handle) (t : State) : Prop where
  wellFormed : t.heap.WellFormed
  fresh : s.heap.get? h = none
  found : t.heap.get? h = some object
  kept : ∀ {k : Handle} {o : Object}, s.heap.get? k = some o → t.heap.get? k = some o
  rest : ∃ heap, t = { s with heap := heap }

theorem State.exists_placed (hw : s.heap.WellFormed) (object : Object) :
    ∃ h t, s.allocate object = (h, t) ∧ s.Placed object h t :=
  ⟨_, _, rfl, hw.allocate object, Heap.get?_allocate_fresh hw object,
    Heap.get?_allocate_self hw object, Heap.get?_allocate_of_live hw, _, rfl⟩

theorem State.Placed.ne {object o : Object} {h k : Handle} {t : State} (hp : s.Placed object h t)
    (hk : s.heap.get? k = some o) : k ≠ h := by
  rintro rfl
  rw [hp.fresh] at hk
  cases hk

theorem State.get?_setAttribute_of_ne {h k : Handle} (hne : k ≠ h) (name : String)
    (value : Handle) : (s.setAttribute h name value).heap.get? k = s.heap.get? k := by
  rw [setAttribute, modify, Heap.get?_modify, if_neg hne]

theorem State.get?_setAttribute_self {h : Handle} {o : Object} (hget : s.heap.get? h = some o)
    (name : String) (value : Handle) :
    (s.setAttribute h name value).heap.get? h
      = some { o with attributes := o.attributes.insert name value } := by
  rw [setAttribute, modify, Heap.get?_modify_self, hget]
  rfl

/-- **An exception and its arguments are made** without changing any object that was there. -/
structure State.Made (s : State) (kind : ExceptionKind) (args : List Handle) (exception : Handle)
    (t : State) : Prop where
  kept : ∀ {k : Handle} {o : Object}, s.heap.get? k = some o → t.heap.get? k = some o
  fresh : s.heap.get? exception = none
  rest : ∃ heap, t = { s with heap := heap }
  found : ∃ tuple attributes, t.heap.get? exception = some ⟨.plain, kind.type, attributes⟩ ∧
    attributes.get? "args" = some tuple ∧ t.heap.get? tuple = some (.ofItems args) ∧
    (kind = .stopIteration → attributes.get? "value" = some (args.head?.getD .none))

theorem State.made_makeException (hw : s.heap.WellFormed) (kind : ExceptionKind)
    (args : List Handle) :
    s.Made kind args (s.makeException kind args).1 (s.makeException kind args).2 := by
  obtain ⟨exception, s₁, hs₁, hp₁⟩ := exists_placed hw (.bare kind.type)
  obtain ⟨tuple, s₂, hs₂, hp₂⟩ := exists_placed hp₁.wellFormed (.ofItems args)
  have hne : tuple ≠ exception := (hp₂.ne hp₁.found).symm
  have hself := get?_setAttribute_self (hp₂.kept hp₁.found) "args" tuple
  have hcoherent := (OrderedMap.Coherent.empty (α := Handle)).insert "args" tuple
  have hargs : ((OrderedMap.empty.insert "args" tuple).get? "args") = some tuple := by
    rw [OrderedMap.Coherent.empty.get?_insert, if_pos rfl]
  have hrest : ∃ heap, s₂ = { s with heap := heap } := by
    obtain ⟨_, rfl⟩ := hp₁.rest
    exact hp₂.rest
  unfold makeException
  rw [hs₁]
  dsimp only
  rw [hs₂]
  dsimp only
  by_cases hk : kind = .stopIteration
  · rw [if_pos hk]
    refine ⟨fun hget => ?_, hp₁.fresh, ?_, tuple, (OrderedMap.empty.insert "args" tuple).insert
      "value" _, get?_setAttribute_self hself _ _, ?_, ?_, fun _ => ?_⟩
    · rw [get?_setAttribute_of_ne (hp₁.ne hget), get?_setAttribute_of_ne (hp₁.ne hget)]
      exact hp₂.kept (hp₁.kept hget)
    · obtain ⟨_, rfl⟩ := hrest
      exact ⟨_, rfl⟩
    · rw [hcoherent.get?_insert, if_neg (by decide)]
      exact hargs
    · rw [get?_setAttribute_of_ne hne, get?_setAttribute_of_ne hne]
      exact hp₂.found
    · rw [hcoherent.get?_insert, if_pos rfl]
  · rw [if_neg hk]
    refine ⟨fun hget => ?_, hp₁.fresh, ?_, tuple, OrderedMap.empty.insert "args" tuple, hself,
      hargs, ?_, fun h => absurd h hk⟩
    · rw [get?_setAttribute_of_ne (hp₁.ne hget)]
      exact hp₂.kept (hp₁.kept hget)
    · obtain ⟨_, rfl⟩ := hrest
      exact ⟨_, rfl⟩
    · rw [get?_setAttribute_of_ne hne]
      exact hp₂.found

/-! ## 3. What a raised fault carries -/

/-- **The fault carries an exception** of this kind with these arguments, which its text shows. A
`StopIteration` also carries its first argument, or `None`, as its value. -/
inductive Fault.Carries (s : State) (kind : ExceptionKind) (args : List Handle) : Fault → Prop where
  | raised {exception : Handle} {object : Object} {message : String}
      (found : s.heap.get? exception = some object) (type_eq : object.type = kind.type)
      (args_eq : s.heap.exceptionArgs exception = some args) (value_eq : kind = .stopIteration →
      object.attributes.get? "value" = some (args.head?.getD .none))
      (shown : s.heap.plainMessage args = some message) :
      Carries s kind args (.raised exception (rendered kind.name message))

/-- Whether a raised exception is of this kind and has these arguments can be read off the heap. -/
theorem Fault.carries_raised_iff {exception : Handle} {text : String} :
    (Fault.raised exception text).Carries s kind args ↔ s.heap.exceptionArgs exception = some args ∧
      (∃ o ∈ s.heap.get? exception, o.type = kind.type ∧
        (kind = .stopIteration → o.attributes.get? "value" = some (args.head?.getD .none))) ∧
      ∃ message ∈ s.heap.plainMessage args, rendered kind.name message = text := by
  constructor
  · rintro ⟨found, type_eq, args_eq, value_eq, shown⟩
    exact ⟨args_eq, ⟨_, found, type_eq, value_eq⟩, _, shown, rfl⟩
  · rintro ⟨args_eq, ⟨o, found, type_eq, value_eq⟩, message, shown, rfl⟩
    exact .raised found type_eq args_eq value_eq shown

instance Fault.decidableCarries (fault : Fault) : Decidable (fault.Carries s kind args) :=
  match fault with
  | .raised _ _ => decidable_of_iff _ carries_raised_iff.symm
  | .intrinsic _ | .callDepthExceeded _ | .baseChainTooDeep _ _ | .console _ => .isFalse nofun

theorem Fault.Carries.congr {t : State} {fault : Fault} (h : fault.Carries s kind args)
    (he : t.heap = s.heap) : fault.Carries t kind args := by
  cases h with
  | raised found type_eq args_eq value_eq shown =>
    exact .raised (he ▸ found) type_eq (he ▸ args_eq) value_eq (he ▸ shown)

theorem State.Made.carries {exception : Handle} {t : State} {message : String}
    (h : s.Made kind args exception t) (hm : t.heap.plainMessage args = some message) :
    Fault.Carries t kind args (.raised exception (rendered kind.name message)) := by
  obtain ⟨tuple, attributes, hfound, hargs, htuple, hvalue⟩ := h.found
  refine .raised hfound rfl ?_ hvalue hm
  simp [Heap.exceptionArgs, Heap.tupleAttribute, Heap.ownAttribute, hfound, hargs, htuple,
    Object.ofItems, Object.tupleItems]

/-- **Raising ends with its exception**, unless an argument that the text has to show is gone. -/
theorem run_raise (hw : s.heap.WellFormed) (kind : ExceptionKind) (args : List Handle)
    (e : Engine) :
    (raise kind args : Run α).run.run e s
      = match (s.makeException kind args).2.heap.plainMessage args with
        | some message =>
          .done (.error (.raised (s.makeException kind args).1 (rendered kind.name message)))
            (s.makeException kind args).2
        | none => .aborted .stale (s.makeException kind args).2 := by
  have hmade : ∀ exception (t : State), (raiseMade kind args exception : Program
      (Except Fault α)).run e t = match t.heap.plainMessage args with
        | some message => .done (.error (.raised exception (rendered kind.name message))) t
        | none => .aborted .stale t := by
    intro exception t
    simp only [raiseMade, Program.run, Action.perform]
    cases t.heap.plainMessage args <;> rfl
  obtain ⟨exception, s₁, hs₁, hp₁⟩ := State.exists_placed hw (.bare kind.type)
  obtain ⟨tuple, s₂, hs₂, hp₂⟩ := State.exists_placed hp₁.wellFormed (.ofItems args)
  have hlive : s₂.heap.contains exception = true := Heap.contains_of_get? (hp₂.kept hp₁.found)
  have hlive' : (s₂.setAttribute exception "args" tuple).heap.contains exception = true :=
    Heap.contains_of_get? (State.get?_setAttribute_self (hp₂.kept hp₁.found) "args" tuple)
  rw [raise_eq]
  unfold State.makeException
  simp only [Program.run_perform, Action.perform, hs₁, hs₂, Outcome.andThen_done, whenLive,
    hlive, if_true]
  by_cases hk : kind = .stopIteration
  · simp only [if_pos hk, Program.run_perform, Action.perform, whenLive, hlive', if_true,
      Outcome.andThen_done, hmade]
  · simp only [if_neg hk, hmade]

/-- Raising, by its end. -/
theorem raise_cases (hw : s.heap.WellFormed) (kind : ExceptionKind) (args : List Handle)
    (e : Engine) :
    ∃ u, s.heap.KeptIn u.heap ∧
      ((∃ fault, (raise kind args : Run α).run.run e s = .done (.error fault) u ∧
        Fault.Carries u kind args fault) ∨
        ((raise kind args : Run α).run.run e s = .aborted .stale u ∧
          u.heap.plainMessage args = none)) := by
  have hmade := State.made_makeException hw kind args
  refine ⟨_, hmade.kept, ?_⟩
  rw [run_raise hw]
  cases hm : (s.makeException kind args).2.heap.plainMessage args with
  | none => exact Or.inr ⟨rfl, rfl⟩
  | some message => exact Or.inl ⟨_, rfl, hmade.carries hm⟩

theorem run_raiseMessage (hw : s.heap.WellFormed) (kind : ExceptionKind) (message : String)
    (e : Engine) :
    ∃ fault u text, (raiseMessage kind message : Run α).run.run e s = .done (.error fault) u ∧
      s.heap.KeptIn u.heap ∧ u.heap.get? text = some (.ofText message) ∧
        Fault.Carries u kind [text] fault := by
  obtain ⟨text, s₁, hs₁, hp₁⟩ := State.exists_placed hw (.ofText message)
  have hrun : (raiseMessage kind message : Run α).run.run e s
      = (raise kind [text] : Run α).run.run e s₁ := by
    have heq : (raiseMessage kind message : Run α).run
        = .perform (.allocate (.ofText message)) fun text => (raise kind [text] : Run α).run := rfl
    rw [heq, Program.run_perform]
    simp only [Action.perform, hs₁, Outcome.andThen_done]
  obtain ⟨u, hkept, hend⟩ := raise_cases (α := α) hp₁.wellFormed kind [text] e
  have htext := hkept hp₁.found
  rw [hrun]
  rcases hend with ⟨fault, hdone, hcarries⟩ | ⟨_, hnone⟩
  · exact ⟨fault, u, text, hdone, fun hget => hkept (hp₁.kept hget), htext, hcarries⟩
  · simp [Heap.plainMessage, htext, Object.ofText] at hnone

theorem direct_raiseMessage (kind : ExceptionKind) (message : String) :
    (raiseMessage kind message : Run α).run.Direct :=
  ⟨rfl, fun text => direct_raise kind [text]⟩

end

/-! ## 4. Logs of builtin code -/

/-- **What holds of all that builtin code does** itself, where it makes
objects, asks for hooks and raises exceptions. -/
structure Entry.Suits (P : Entry → Prop) : Prop where
  allocate : ∀ {w object s o}, P ⟨w, .performed (.allocate object) s o⟩
  setAttribute : ∀ {w target name value s o}, P
    ⟨w, .performed (.setAttribute target name value) s o⟩
  message : ∀ {w args s o}, P ⟨w, .performed (.inspect fun s => s.heap.plainMessage args) s o⟩
  isInstance : ∀ {w h type s o}, P ⟨w, .performed (.inspect fun s => s.heap.isInstance h type) s o⟩
  hook : ∀ {w h name s o}, P ⟨w, .performed (.inspect fun s => s.heap.hook h name) s o⟩
  object : ∀ {w h s o} {object : Object}, s.heap.get? h = some object →
    (∀ entries, object.payload ≠ .dict entries) →
    P ⟨w, .performed (.inspect fun s => s.heap.get? h) s o⟩

namespace Entry.Suits

variable {α : Type} {P : Entry → Prop} {e : Engine} {r : Recorder} {w : List Handle} {s : State}

theorem raise (hP : Suits P) (kind : ExceptionKind) (args : List Handle) (s : State) :
    ∀ x ∈ (ObjectModel.raise kind args : Run α).run.record e r w s, P x := by
  have hmade : ∀ exception s,
      ∀ x ∈ (raiseMade kind args exception : Program (Except Fault α)).record e r w s, P x :=
    fun exception s =>
    Program.forall_record_perform rfl hP.message fun _ _ => List.forall_mem_nil _
  rw [raise_eq]
  refine Program.forall_record_perform rfl hP.allocate fun exception s₁ => ?_
  refine Program.forall_record_perform rfl hP.allocate fun tuple s₂ => ?_
  refine Program.forall_record_perform rfl hP.setAttribute fun _ s₃ => ?_
  split
  · exact Program.forall_record_perform rfl hP.setAttribute fun _ s₄ => hmade exception s₄
  · exact hmade exception s₃

theorem raiseMessage (hP : Suits P) (kind : ExceptionKind) (message : String) (s : State) :
    ∀ x ∈ (ObjectModel.raiseMessage kind message : Run α).run.record e r w s, P x :=
  Program.forall_record_perform rfl hP.allocate fun text t => hP.raise kind [text] t

theorem conclude (hP : Suits P) (back : Except Fault Resumption) (s : State) :
    ∀ x ∈ (ObjectModel.conclude back).run.record e r w s, P x := by
  rcases back with fault | value | result
  · exact List.forall_mem_nil _
  · exact List.forall_mem_nil _
  · exact hP.raise .stopIteration result.toList s

theorem isStopIteration (hP : Suits P) (fault : Fault) (s : State) :
    ∀ x ∈ (ObjectModel.isStopIteration fault).run.record e r w s, P x := by
  unfold ObjectModel.isStopIteration isException
  cases fault.exception with
  | none => exact List.forall_mem_nil _
  | some exception =>
    exact Program.forall_record_perform rfl hP.isInstance fun _ _ => List.forall_mem_nil _

theorem look (hP : Suits P) {h : Handle} {object : Object} (hget : s.heap.get? h = some object)
    (hne : ∀ entries, object.payload ≠ .dict entries) :
    ∀ x ∈ (ObjectModel.object h).run.record e r w s, P x :=
  Program.forall_record_perform rfl (hP.object hget hne) fun _ _ => List.forall_mem_nil _

end Entry.Suits

end ObjectModel
