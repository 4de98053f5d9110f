import ObjectModel.Proofs.Pairing.Member

/-!
# How scripts are composed

An expression is composed of the operations of the library. It hands over the operands of an
operation right before the operation, so the operation knows them. Of a handle that it keeps in a
local name it knows nothing: a collection may have come between.

* `Script.Expr.composed_eval` -- **every expression is composed of operations that know their
  operands.**
* `Script.Eval.Composed.ensures` -- **a contract that these operations keep to is kept by all
  scripts**, and so do `Contract.Carries.dispatch` and `Contract.Carries.resume`.
-/

namespace ObjectModel

open HasHandles (handles)

variable {α β σ : Type}

/-! ## 1. Computations in a frame -/

namespace Script.Eval

/-- How a computation goes on behind its first part. -/
def after (f : α → Eval β) : Except Fault α × Frame → Program (Except Fault β × Frame)
  | (.ok a, frame) => (f a).run.run frame
  | (.error fault, frame) => Pure.pure (.error fault, frame)

theorem run_bind (x : Eval α) (f : α → Eval β) (frame : Frame) :
    (x >>= f).run.run frame = x.run.run frame >>= after f := by
  change (StateT.bind x.run _) frame = _
  unfold StateT.bind
  congr 1
  funext r
  obtain ⟨r, frame⟩ := r
  cases r <;> rfl

theorem run_ofRun_bind (x : Run α) (f : α → Eval β) (frame : Frame) :
    (ofRun x >>= f).run.run frame = x.run >>= fun r => after f (r, frame) := by
  rw [run_bind]
  change (x.run >>= fun r => Pure.pure (r, frame)) >>= after f = _
  simp only [bind_assoc, pure_bind]

/-- Composed operations may be lifted one by one. -/
theorem ofRun_bind (x : Run α) (f : α → Run β) :
    ofRun (x >>= f) = ofRun x >>= fun a => ofRun (f a) := by
  funext frame
  change (x >>= f).run >>= _ = (x.run >>= fun r => Pure.pure (r, frame)) >>= _
  rw [ExceptT.run_bind]
  simp only [bind_assoc, pure_bind]
  congr 1
  funext r
  cases r <;> rfl

/-- **How a computation in a frame is composed** that knows these handles. What an operation answers
is known to what comes next, but nothing is known behind a computation that may collect. -/
inductive Composed : {α : Type} → List Handle → Eval α → Prop where
  | pure {α : Type} {K : List Handle} (a : α) : Composed K (Pure.pure a : Eval α)
  | throw {α : Type} {K : List Handle} (fault : Fault) :
      Composed K (MonadExcept.throw fault : Eval α)
  | frame {K : List Handle} : Composed K Eval.frame
  | setLocal {K : List Handle} (name : String) (value : Handle) :
      Composed K (Eval.setLocal name value)
  | step {α β : Type} [HasHandles α] {K : List Handle} {x : Run α} {f : α → Eval β} :
      x.Composed True K → (∀ a, Composed (knowing (handles a) K) (f a)) → Composed K (ofRun x >>= f)
  | raised {α : Type} {K : List Handle} {exception : Handle} : exception ∈ K →
      Composed K (ofRun (raiseValue exception : Run α))
  | collected {K : List Handle} (extra : List Handle) : Composed K (ofRun (collectGarbage extra))
  | bind {α β : Type} {K : List Handle} {x : Eval α} {f : α → Eval β} : Composed K x →
      (∀ a, Composed [] (f a)) → Composed K (x >>= f)
  | attempt {α : Type} {K : List Handle} {x : Eval α} : Composed K x → Composed K (Eval.attempt x)
  | loop {σ β : Type} {K : List Handle} {start : σ} {body : σ → Eval (σ ⊕ β)} :
      (∀ acc, Composed [] (body acc)) → Composed K (Eval.loop start body)

namespace Composed

variable {K L : List Handle}

theorem ofRun [HasHandles α] {x : Run α} (hx : x.Composed True K) : Composed K (Eval.ofRun x) := by
  rw [← bind_pure (Eval.ofRun x)]
  exact .step hx fun a => .pure a

theorem handOver {f : Unit → Eval β} (hf : Composed (knowing L K) (f ())) :
    Composed K (Eval.ofRun (ObjectModel.handOver L) >>= f) :=
  @step _ _ ⟨fun _ => L⟩ _ _ _ (composed_handOver L) fun _ => hf

theorem answer [HasHandles α] {x : Run α} (make : α → Answer) (hx : x.Composed True K) :
    Composed K (do return make (← x)) :=
  .step hx fun _ => .pure _

theorem times {x : Eval Answer} (hx : ∀ K, Composed K x) (n : Nat) :
    ∀ (K : List Handle) (last : Answer), Composed K (Eval.times x n last) := by
  induction n with
  | zero => exact fun _ last => .pure last
  | succ n ih => exact fun K _ => (hx K).bind fun answer => ih [] answer

end Composed

end Script.Eval

/-! ## 2. Answers -/

namespace Script

open List (Forall₂)
open Compared (rel)
open Run (Composed Paired)

variable {K : List Handle} {I : Prop} {M : Mode} {ρ : Renaming} {h h' x x' y y' z z' : Handle}
  {xs xs' : List Handle}

/-- Answers of the same kind with related handles. -/
inductive Answer.Matches (R : Handle → Handle → Prop) : Answer → Answer → Prop where
  | value {h h' : Handle} : R h h' → Matches R (.value h) (.value h')
  | bool (b : Bool) : Matches R (.bool b) (.bool b)
  | int (n : Int64) : Matches R (.int n) (.int n)
  | text (s : String) : Matches R (.text s) (.text s)
  | optional {h h' : Option Handle} : Option.Rel R h h' → Matches R (.optional h) (.optional h')
  | items {hs hs' : List Handle} : Forall₂ R hs hs' → Matches R (.items hs) (.items hs')
  | nothing : Matches R .nothing .nothing
  | report (r : Report) : Matches R (.report r) (.report r)

theorem Answer.Matches.mono {R R' : Handle → Handle → Prop} (hr : ∀ a b, R a b → R' a b)
    {a a' : Answer} (h : a.Matches R a') : a.Matches R' a' := by
  cases h with
  | value hh => exact .value (hr _ _ hh)
  | optional hh => exact .optional (rel_mono hr hh)
  | items hh => exact .items (hh.imp hr)
  | _ => constructor

instance : HasHandles Answer where
  handles
    | .value h => [h]
    | .optional h => h.toList
    | .items hs => hs
    | _ => []

instance : Compared Answer where
  rel _ ρ := Answer.Matches ρ
  mono h := .mono fun _ _ hab => h hab
  refl K a := by
    cases a with
    | value h => exact .value ⟨rfl, known_of_new List.mem_cons_self⟩
    | optional h =>
      cases h with
      | none => exact .optional .none
      | some h => exact .optional (.some ⟨rfl, known_of_new List.mem_cons_self⟩)
    | items hs => exact .items (Renaming.known_all fun _ hk => known_of_new hk)
    | _ => constructor
  known h := by
    cases h with
    | value hh => exact fun _ hk => List.mem_singleton.mp hk ▸ hh.2
    | optional hh =>
      cases hh with
      | none => exact List.forall_mem_nil _
      | some hh => exact fun _ hk => List.mem_singleton.mp hk ▸ hh.2
    | items hh => exact Renaming.all_known hh
    | _ => exact List.forall_mem_nil _

@[grind ←] theorem rel_value (hh : ρ h h') : rel M ρ (Answer.value h) (.value h') := .value hh

@[grind ←] theorem rel_optional {a a' : Option Handle} (ha : rel M ρ a a') :
    rel M ρ (Answer.optional a) (.optional a') :=
  .optional ha

@[grind ←] theorem rel_items (hx : Forall₂ ρ xs xs') : rel M ρ (Answer.items xs) (.items xs') :=
  .items hx

@[grind ←] theorem rel_answerBool {b b' : Bool} (h : b = b') : rel M ρ (Answer.bool b) (.bool b') :=
  h ▸ .bool b

@[grind ←] theorem rel_answerInt {n n' : Int64} (h : n = n') : rel M ρ (Answer.int n) (.int n') :=
  h ▸ .int n

@[grind ←] theorem rel_answerText {text text' : String} (h : text = text') :
    rel M ρ (Answer.text text) (.text text') :=
  h ▸ .text text

@[grind .] theorem rel_nothing : rel M ρ Answer.nothing .nothing := .nothing

/-- A result that may be missing. -/
@[grind ←] theorem rel_ofOption {α : Type} [HasHandles α] [Compared α] {make : α → Answer}
    {a a' : Option α} (ha : rel M ρ a a') (hmake : ∀ a b, rel M ρ a b → rel M ρ (make a) (make b)) :
    rel M ρ (Answer.ofOption make a) (.ofOption make a') := by
  cases ha with
  | none => exact .nothing
  | some h => exact hmake _ _ h

/-! ## 3. Operations of scripts -/

@[grind ←] theorem paired_pin (hh : ρ h h') : Paired M I ρ (.act (.pin h)) (.act (.pin h')) :=
  ⟨fun _ _ => (lockstep_pin hh).imp fun _ _ _ _ _ => rfl, fun _ _ hρ => composed_pin (hρ ▸ hh).2⟩

@[grind ←] theorem paired_unpin (hh : ρ h h') : Paired M I ρ (.act (.unpin h)) (.act (.unpin h')) :=
  ⟨fun _ _ => (lockstep_unpin hh).imp fun _ _ _ _ _ => rfl, fun _ _ _ => composed_unpin h⟩

/-- The operations that ask for a number of their operand, or raise it, are told apart. -/
def UnaryOp.plain : UnaryOp → Bool
  | raiseValue => false
  | id => false
  | slot => false
  | _ => true

theorem UnaryOp.paired_run (op : UnaryOp) (hop : op.plain = true)
    (hi : op = .nextItem ∨ op = .collect → I) (hh : ρ h h') :
    Paired M I ρ (op.run h) (op.run h') := by
  cases op with
  | raiseValue | id | slot => cases hop
  | isLive =>
    exact (paired_read fun _ _ hs => congrArg some (hs.contains_eq hh)).bind fun _ _ _ _ h =>
      .pure (rel_answerBool h)
  | baseOf => exact paired_ofObject hh fun _ _ _ ho => .optional ho.base
  | boundParts =>
    refine paired_ofObject hh fun _ o o' ho => ?_
    have hparts := ho.boundParts
    generalize o.boundParts = parts at hparts ⊢
    generalize o'.boundParts = parts' at hparts ⊢
    cases hparts with
    | none => exact .nothing
    | some hp => exact .items (.cons hp.1 (.cons hp.2 .nil))
  | isGenerator => exact paired_ofObject hh fun _ _ _ ho => rel_answerBool ho.isGenerator_eq
  | isNone => exact .pure (rel_answerBool (ρ.beq_eq hh ρ.none))
  | _ =>
    dsimp only [UnaryOp.run]
    grind

theorem Answer.composed_toValue (a : Answer) : @Composed I Handle .data K a.toValue := by
  cases a with
  | value | bool | optional | nothing | report => exact @Composed.pure _ _ .data _ _ (by simp)
  | int n => exact (paired_newInt n).composed_known.forget
  | text s => exact (paired_newText s).composed_known.forget
  | items hs => exact @composed_handOver_bind _ _ _ .data _ _ (composed_newTuple (by grind)).forget

/-- The object that stands for an answer, handed over. -/
def Answer.handed (answer : Answer) : Run Handle := do
  let value ← answer.toValue
  handOver [value]
  return value

theorem Answer.composed_handed (answer : Answer) : Composed I K answer.handed :=
  @Composed.bind _ _ _ .data _ _ _ _ answer.composed_toValue fun _ =>
    composed_handOver_bind (.pure (by simp))

theorem composed_answer {a : Answer} (ha : handles a = []) : Composed I K (pure a) :=
  .pure (by simp [ha])

theorem UnaryOp.composed_run (h : Handle) (op : UnaryOp) (hraise : op ≠ .raiseValue)
    (hi : op = .nextItem ∨ op = .collect → I) : Composed I [h] (op.run h) := by
  have hh : Renaming.known [h] h h := Known.related (by simp)
  cases op with
  | raiseValue => exact absurd rfl hraise
  | id => exact composed_answer rfl
  | slot => exact (composed_inspect (by simp)).bind fun _ => composed_answer rfl
  | _ => exact (UnaryOp.paired_run _ rfl hi hh).composed_known

theorem PairOp.paired_run (op : PairOp) (hi : op = .nextOr → I) (hop : op ≠ .sameId) (hx : ρ x x')
    (hy : ρ y y') : Paired M I ρ (op.run x y) (op.run x' y') := by
  cases op with
  | sameId => exact absurd rfl hop
  | identical => exact .pure (rel_answerBool (ρ.beq_eq hx hy))
  | _ =>
    dsimp only [PairOp.run]
    grind

theorem PairOp.composed_run (x y : Handle) (op : PairOp) (hi : op = .nextOr → I) :
    Composed I [x, y] (op.run x y) := by
  have hx : Renaming.known [x, y] x x := Known.related (by simp)
  have hy : Renaming.known [x, y] y y := Known.related (by simp)
  cases op with
  | sameId => exact composed_answer rfl
  | _ => exact (PairOp.paired_run _ hi nofun hx hy).composed_known

theorem TripleOp.paired_run (op : TripleOp) (hx : ρ x x') (hy : ρ y y') (hz : ρ z z') :
    Paired M I ρ (op.run x y z) (op.run x' y' z') := by
  cases op <;> dsimp only [TripleOp.run] <;> grind

theorem TripleOp.composed_run (x y z : Handle) (op : TripleOp) :
    Composed I [x, y, z] (op.run x y z) :=
  (op.paired_run (Known.related (by simp)) (Known.related (by simp))
    (Known.related (by simp))).composed_known

@[grind ←] theorem paired_fillDict (hh : ρ h h') (hx : Forall₂ ρ xs xs') :
    Paired M I ρ (fillDict h xs) (fillDict h' xs') := by
  fun_induction fillDict h xs generalizing ρ xs' with
  | case1 key value rest ih =>
    rcases hx with _ | ⟨hk, _ | ⟨hv, hrest⟩⟩
    exact (paired_dictSet hh hk hv).bind fun σ hσ _ _ _ => ih (hσ hh) (Renaming.all hσ hrest)
  | case2 xs hshort =>
    rcases hx with _ | ⟨hk, _ | ⟨hv, hrest⟩⟩
    · exact .pure rfl
    · exact .pure rfl
    · exact absurd rfl (hshort _ _ _)

/-- Two of these operations ask for a collection. -/
def ListOp.collects : ListOp → Bool
  | collectGarbage => true
  | reclaim => true
  | _ => false

theorem ListOp.paired_run (op : ListOp) (hop : op.collects = false)
    (hn : ∀ f, op = .callBuiltin f → M.numbers ∨ f ≠ .id)
    (hi : ∀ f, op = .callBuiltin f → f.takesItems xs = true → I) (hx : Forall₂ ρ xs xs') :
    Paired M I ρ (op.run xs) (op.run xs') := by
  cases op with
  | collectGarbage | reclaim => cases hop
  | callBuiltin f =>
    exact (f.paired_run (hn f rfl) (hi f rfl) hx).bind fun _ _ _ _ h => .pure (.value h)
  | _ =>
    clear hn hi
    dsimp only [ListOp.run]
    grind

theorem ListOp.composed_run (xs : List Handle) (op : ListOp) (hop : op.collects = false)
    (hi : ∀ f, op = .callBuiltin f → f.takesItems xs = true → I) : Composed I xs (op.run xs) := by
  have hx : Forall₂ (Renaming.known xs) xs xs := Renaming.known_all fun _ hk => .mem hk
  cases op with
  | callBuiltin f =>
    exact (f.composed_run xs (hi f rfl)).bind fun _ => .pure fun _ hk => known_of_new hk
  | _ => exact (ListOp.paired_run _ hop nofun hi hx).composed_known

theorem ApplyOp.paired_run (op : ApplyOp) (hh : ρ h h') (hx : Forall₂ ρ xs xs') :
    Paired M I ρ (op.run h xs) (op.run h' xs') := by
  cases op <;> dsimp only [ApplyOp.run] <;> grind

theorem ApplyOp.composed_run (x : Handle) (args : List Handle) (op : ApplyOp) :
    Composed I (x :: args) (op.run x args) :=
  (op.paired_run (Known.related (by simp))
    (Renaming.known_all fun _ hk => .mem (List.mem_cons_of_mem _ hk))).composed_known

theorem composed_probeReport (fault : Fault) (types : List Handle) :
    Composed I K (probeReport fault types) := by
  have hmatched : ∀ (K : List Handle) (types : List Handle), Composed I K
      (types.mapM fun type => isException fault type) := by
    intro K types
    induction types generalizing K with
    | nil => exact .pure (by simp)
    | cons type rest ih =>
      rw [List.mapM_cons]
      exact (composed_isException fault type).bind fun _ => (ih _).bind fun _ => .pure (by simp)
  refine (hmatched K types).bind fun matched => (composed_isException fault _).bind fun stop => ?_
  exact (composed_look _).bind fun seen => composed_answer rfl

/-! ## 4. Expressions -/

section

open Eval (Composed)

theorem Constant.composed_run (op : Constant) : Composed K op.run := by
  cases op with
  | notImplemented => exact .pure _
  | arguments | argumentCount => exact Composed.frame.bind fun _ => .pure _
  | globalNames | limits | output | flushes | objectCount =>
    exact .step (composed_look _) fun _ => .pure _
  | stop => exact .ofRun (paired_stopIteration rel_none).composed_known

theorem composed_nameValue (name : String) : Composed K (nameValue name) := by
  refine Composed.frame.bind fun frame => ?_
  split
  · exact .pure _
  · refine @Composed.step _ _ .data _ _ _ (composed_look _) fun value => ?_
    split
    · exact .pure _
    · exact .ofRun (paired_nameError name).composed_known

theorem composed_argument (index : Nat) : Composed K (argument index) := by
  refine Composed.frame.bind fun frame => ?_
  split
  · exact .pure _
  · exact .ofRun (paired_typeError _).composed_known

/-- The object that stands for the answer of an expression, and what is done with it. -/
theorem composed_toValue_bind {x : Eval Answer} {f : Handle → Eval α} (hx : Composed K x)
    (hf : ∀ h, Composed [] (f h)) :
    Composed K (x >>= fun answer => Eval.ofRun answer.toValue >>= f) :=
  hx.bind fun answer => @Composed.step _ _ .data _ _ _ answer.composed_toValue hf

theorem UnaryOp.composed_ofRun (h : Handle) (op : UnaryOp) :
    Composed [h] (Eval.ofRun (op.run h)) := by
  by_cases hop : op = .raiseValue
  · rw [hop]
    exact .raised List.mem_cons_self
  · exact .ofRun (op.composed_run h hop fun _ => trivial)

theorem ListOp.composed_ofRun (xs : List Handle) (op : ListOp) :
    Composed xs (Eval.ofRun (op.run xs)) := by
  have hcollected (f : Nat → Run Answer) (hf : ∀ n, (f n).Composed True []) :
      Eval.Composed xs (Eval.ofRun (ObjectModel.collectGarbage xs >>= f)) := by
    rw [Eval.ofRun_bind]
    exact (Composed.collected xs).bind fun n => .ofRun (hf n)
  cases op with
  | collectGarbage =>
    exact hcollected _ fun _ => (composed_look _).bind fun _ => composed_answer rfl
  | reclaim => exact hcollected _ fun _ => composed_answer rfl
  | _ => exact .ofRun (ListOp.composed_run xs _ rfl fun _ _ _ => trivial)

/-- The definition of a type whose base and members were evaluated. -/
theorem composed_define (name : String) (base : Option Handle) (members : List (String × Handle)) :
    Composed K (do
      handOver (base.toList ++ members.map (·.2))
      return .value (← ObjectModel.defineType name base members) : Eval Answer) := by
  refine .handOver (.answer _ (composed_defineType name
    (fun h hh => known_of_new (List.mem_append_left _ hh)) fun m hm => ?_))
  exact known_of_new (List.mem_append_right _ (List.mem_map_of_mem hm))

mutual

/-- **Every expression is composed of operations.** -/
theorem Expr.composed_eval : (e : Expr) → (K : List Handle) → Composed K e.eval
  | .null, _ => .pure _
  | .bool _, _ => .pure _
  | .int n, _ => .answer _ (paired_newInt n).composed_known
  | .text s, _ => .answer _ (paired_newText s).composed_known
  | .name n, _ => (composed_nameValue n).bind fun _ => .pure _
  | .setLocal n e, _ =>
    composed_toValue_bind (e.composed_eval _) fun _ => (Composed.setLocal n _).bind fun _ => .pure _
  | .setShared n e, _ => composed_toValue_bind (e.composed_eval _) fun _ =>
      .step (composed_setShared n _) fun _ => .pure _
  | .block es, K => Expr.composed_evalBlock es K _
  | .times count e, K => .times e.composed_eval count K _
  | .choose condition yes no, _ => composed_toValue_bind (condition.composed_eval _) fun value =>
      .handOver (.step (paired_truthy (Known.related (by simp))).composed_known fun truth => by
        split
        · exact yes.composed_eval _
        · exact no.composed_eval _)
  | .rescue e guard handler, _ => by
      unfold Expr.eval
      refine (e.composed_eval _).attempt.bind fun outcome => ?_
      cases outcome with
      | ok answer => exact .pure _
      | error fault =>
        have hhandler (K) : Composed K (do
            Eval.setLocal "err" (fault.exception.getD .none)
            handler.eval) := (Composed.setLocal _ _).bind fun _ => handler.composed_eval _
        cases guard with
        | none => exact hhandler _
        | some type =>
          refine composed_toValue_bind (type.composed_eval _) fun type =>
            .handOver (.step (composed_isException fault type) fun matched => ?_)
          split
          · exact (Eval.Composed.throw fault).bind fun _ => hhandler _
          · exact hhandler _
  | .probe e types, _ => by
      refine (e.composed_eval _).attempt.bind fun outcome => ?_
      cases outcome with
      | ok answer => exact .step (composed_look _) fun _ => .pure _
      | error fault =>
        exact (Expr.composed_evalAll types _).bind fun types =>
          .handOver (.ofRun (composed_probeReport fault types))
  | .argument index, _ => (composed_argument index).bind fun _ => .pure _
  | .builtinType _, _ => .pure _
  | .global n, _ => .answer _ (paired_globalValue n).composed_known
  | .setGlobal n e, _ => composed_toValue_bind (e.composed_eval _) fun _ =>
      .handOver (.step (composed_setGlobal n (by simp)) fun _ => .pure _)
  | .function n body, _ => .answer _ (.allocate (fun _ _ => .code n _)
      (known_references (.type _) rfl (List.forall_mem_nil _)))
  | .generator steps held ending, _ => (Expr.composed_evalAll held _).bind fun held =>
      .handOver (.answer _ (composed_newGenerator fun h hh => known_of_new hh))
  | .defineType n none members, _ =>
    (Expr.composed_evalMembers members _).bind fun members => composed_define n none members
  | .defineType n (some e) members, _ => by
      refine Composed.bind (x := some <$> (do (← e.eval).toValue : Eval Handle)) ?_ fun base =>
        (Expr.composed_evalMembers members _).bind fun members => composed_define n base members
      rw [map_eq_pure_bind]
      exact ((e.composed_eval _).bind fun answer =>
        @Composed.ofRun _ _ .data _ answer.composed_toValue).bind fun _ => .pure _
  | .forEach iterable body, _ => composed_toValue_bind (iterable.composed_eval _) fun iterable =>
      .handOver (.step (paired_iter (Known.related (by simp))).composed_known fun iterator => by
        refine (Composed.loop fun count => .step (composed_nextItem trivial iterator) fun item =>
          ?_).bind fun _ => .pure _
        cases item with
        | none => exact .pure _
        | some item =>
          exact (Composed.setLocal _ _).bind fun _ => (body.composed_eval _).bind fun _ => .pure _)
  | .operatorInfo _, _ => .pure _
  | .exceptionInfo kind, _ => .step (composed_look _) fun _ => .pure _
  | .builtinInfo _, _ => .pure _
  | .constant op, _ => op.composed_run
  | .unary op x, _ =>
    composed_toValue_bind (x.composed_eval _) fun x => .handOver (op.composed_ofRun x)
  | .pair op x y, _ => composed_toValue_bind (x.composed_eval _) fun x =>
      composed_toValue_bind (y.composed_eval _) fun y =>
      .handOver (.ofRun (op.composed_run x y fun _ => trivial))
  | .triple op x y z, _ => composed_toValue_bind (x.composed_eval _) fun x =>
      composed_toValue_bind (y.composed_eval _) fun y =>
      composed_toValue_bind (z.composed_eval _) fun z => .handOver (.ofRun (op.composed_run x y z))
  | .list op xs, _ => (Expr.composed_evalAll xs _).bind fun xs => .handOver (by
      rw [knowing_nil]
      exact op.composed_ofRun xs)
  | .apply op x args, _ => composed_toValue_bind (x.composed_eval _) fun x =>
      (Expr.composed_evalAll args _).bind fun args =>
      .handOver (by
        rw [knowing_nil]
        exact .ofRun (op.composed_run x args))

theorem Expr.composed_evalAll : (es : List Expr) → (K : List Handle) → Composed K (Expr.evalAll es)
  | [], _ => .pure _
  | e :: es, _ => composed_toValue_bind (e.composed_eval _) fun _ =>
      (Expr.composed_evalAll es _).bind fun _ => .pure _

theorem Expr.composed_evalBlock :
    (es : List Expr) → (K : List Handle) → (last : Answer) → Composed K (Expr.evalBlock es last)
  | [], _, _ => .pure _
  | e :: es, _, _ => (e.composed_eval _).bind fun answer => Expr.composed_evalBlock es _ answer

theorem Expr.composed_evalMembers :
    (es : List (String × Expr)) → (K : List Handle) → Composed K (Expr.evalMembers es)
  | [], _ => .pure _
  | (_, e) :: es, _ => composed_toValue_bind (e.composed_eval _) fun _ =>
      (Expr.composed_evalMembers es _).bind fun _ => .pure _

end

end

theorem Expr.value_eq (e : Expr) : e.value = e.eval >>= fun answer => Eval.ofRun answer.handed := by
  unfold Expr.value Answer.handed
  simp only [Eval.ofRun_bind]
  rfl

end Script

/-! ## 5. Contracts -/

/-- **A contract that composed programs keep to.** `R` relates the states before and behind a
program. What `holds` of the handles that the program knows holds of those that it answers with. -/
structure Contract.Carries (C : Contract) (R : State → State → Prop)
    (holds : State → Handle → Prop) : Prop where
  refl : ∀ s : State, R s s
  trans : ∀ {s t u : State}, R s t → R t u → R s u
  run : ∀ {α : Type} [HasHandles α] {K : List Handle} {x : Run α}, x.Composed True K →
    ∀ {s : State}, C.inv s → (∀ h ∈ K, holds s h) →
    x.run.Ensures C (fun r t => R s t ∧ ∀ a, r = .ok a → ∀ h ∈ knowing (handles a) K, holds t h) s
  raised : ∀ {α : Type} {exception : Handle} {s : State}, C.inv s → holds s exception →
    (raiseValue exception : Run α).run.Ensures C (fun _ t => R s t) s
  collected : ∀ (extra : List Handle) {s : State}, C.inv s →
    (collectGarbage extra).run.Ensures C (fun _ t => R s t) s

variable {C : Contract} {R : State → State → Prop} {holds : State → Handle → Prop} {s : State}

/-- **A computation in a frame keeps to the contract.** -/
theorem Script.Eval.Composed.ensures (hC : C.Carries R holds) {K : List Handle} {x : Eval α}
    (hx : Composed K x) :
    ∀ (frame : Frame) {s : State}, C.inv s → (∀ h ∈ K, holds s h) →
      (x.run.run frame).Ensures C (fun _ t => R s t) s := by
  induction hx with
  | pure | throw | frame | setLocal => exact fun _ s _ _ => hC.refl s
  | step hx _ ih =>
    intro frame s hs hK
    rw [run_ofRun_bind]
    refine (hC.run hx hs hK).bind hs fun r t ht hr => ?_
    cases r with
    | error fault => exact hr.1
    | ok a => exact (ih a frame ht (hr.2 a rfl)).mono ht fun _ _ _ hr' => hC.trans hr.1 hr'
  | raised hm => exact fun frame s hs hK => (hC.raised hs (hK _ hm)).bind hs fun _ _ _ hr => hr
  | collected extra => exact fun frame s hs _ => (hC.collected extra hs).bind hs fun _ _ _ hr => hr
  | bind _ _ ihx ihf =>
    intro frame s hs hK
    rw [run_bind]
    refine (ihx frame hs hK).bind hs fun r t ht hr => ?_
    obtain ⟨r, frame⟩ := r
    cases r with
    | ok a => exact (ihf a frame ht (by simp)).mono ht fun _ _ _ hr' => hC.trans hr hr'
    | error fault => exact hr
  | attempt _ ih => exact fun frame s hs hK => (ih frame hs hK).bind hs fun _ _ _ hr => hr
  | loop _ ih =>
    intro frame s _ _
    refine Program.Ensures.loop (fun _ t => R s t) (hC.refl s) fun acc t ht hacc => ?_
    refine (ih acc.1 acc.2 ht (by simp)).bind ht fun r u _ hr => ?_
    obtain ⟨r, frame⟩ := r
    match r with
    | .ok (.inl next) => exact hC.trans hacc hr
    | .ok (.inr answer) => exact hC.trans hacc hr
    | .error fault => exact hC.trans hacc hr

namespace Contract.Carries

/-- From `s` on, `x` keeps to the contract, and so it holds of the handles that `x` answers with. -/
def Ends (C : Contract) (R : State → State → Prop) (holds : State → Handle → Prop) [HasHandles α]
    (x : Run α) (s : State) : Prop :=
  x.run.Ensures C (fun r t => R s t ∧ ∀ a, r = .ok a → ∀ h ∈ handles a, holds t h) s

theorem ends [HasHandles α] {x : Run α} {K : List Handle} (hC : C.Carries R holds)
    (hx : x.Composed True K) (hs : C.inv s) (hK : ∀ h ∈ K, holds s h) : Ends C R holds x s :=
  (hC.run hx hs hK).mono hs fun _ _ _ hr =>
    ⟨hr.1, fun a ha h hh => hr.2 a ha h (List.mem_append_left _ hh)⟩

/-- What an expression gives back was handed over. -/
theorem value (hC : C.Carries R holds) (e : Script.Expr) (frame : Script.Frame) (hs : C.inv s) :
    (e.value.run.run frame).Ensures C (fun r t => R s t ∧ ∀ h, r.1 = .ok h → holds t h) s := by
  rw [e.value_eq, Script.Eval.run_bind]
  refine ((e.composed_eval []).ensures hC frame hs (by simp)).bind hs fun r t ht hr => ?_
  obtain ⟨r, frame⟩ := r
  cases r with
  | error fault => exact ⟨hr, nofun⟩
  | ok answer =>
    refine (hC.ends (answer.composed_handed (K := [])) ht (by simp)).bind ht fun r u _ hr' => ?_
    exact ⟨hC.trans hr hr'.1, fun h hh => hr'.2 h hh h List.mem_cons_self⟩

theorem code (hC : C.Carries R holds) (code : Code) (args : List Handle) (hs : C.inv s)
    (ha : ∀ h ∈ args, holds s h) : Ends C R holds (code.run args) s := by
  cases code with
  | member m => exact hC.ends (m.composed_run args fun _ => trivial) hs ha
  | builtin f => exact hC.ends (f.composed_run args fun _ => trivial) hs ha
  | script body =>
    refine (hC.value body _ hs).bind hs fun r t _ hr => ⟨hr.1, fun a hr' h hh => ?_⟩
    rw [List.mem_singleton.mp hh]
    exact hr.2 a hr'

/-- **Every call** keeps to the contract. -/
theorem dispatch (hC : C.Carries R holds) (callee : Handle) (args : List Handle) (hs : C.inv s)
    (hK : ∀ h ∈ callee :: args, holds s h) :
    Ends C R holds (ObjectModel.dispatch callee args) s := by
  refine Run.ensures_bind hs (hC.run (composed_object callee) hs hK) (fun o t ht hr => ?_)
    fun fault t _ hr => ⟨hr.1, nofun⟩
  have hrest {x : Run Handle} (hx : Ends C R holds x t) :
      x.run.Ensures C (fun r u => R s u ∧ ∀ a, r = .ok a → ∀ h ∈ handles a, holds u h) t :=
    hx.mono ht fun _ _ _ hr' => ⟨hC.trans hr.1 hr'.1, hr'.2⟩
  split
  · exact hrest (hC.code _ args ht fun h hh => hr.2 o rfl h
      (List.mem_append_right _ (List.mem_cons_of_mem _ hh)))
  · rename_i receiver function hp
    have hreceiver : receiver ∈ o.references := Object.mem_references_iff.mpr (.receiver hp)
    have hfunction : function ∈ o.references := Object.mem_references_iff.mpr (.function hp)
    exact hrest (hC.ends (composed_call (known_of_new hfunction) (by grind)) ht (hr.2 o rfl))
  · refine hrest (hC.ends ((composed_findHook callee _).bind fun hook => ?_) ht (hr.2 o rfl))
    split <;> grind

theorem step (hC : C.Carries R holds) (step : Option (Script.Step Script.Expr))
    (frame : Script.Frame) (hs : C.inv s) :
    (Script.Step.run step frame).run.Ensures C (fun r t => R s t ∧ ∀ a, r = .ok a →
      ∀ h ∈ a.1.handles, holds t h) s := by
  have htake : ∀ (e : Script.Expr) (make : Handle → Resumption), (∀ h, (make h).handles = [h]) →
      (e.value.run.run frame >>= fun r => pure (r.1.map fun h => (make h, r.2))).Ensures C
        (fun r t => R s t ∧ ∀ a, r = .ok a → ∀ h ∈ a.1.handles, holds t h) s := by
    intro e make hmake
    refine (hC.value e frame hs).bind hs fun r t _ hr => ⟨hr.1, ?_⟩
    rintro a ha k hk
    obtain ⟨outcome, frame⟩ := r
    cases outcome with
    | error fault => cases ha
    | ok h =>
      cases ha
      have hk : k ∈ (make h).handles := hk
      rw [hmake] at hk
      rw [List.mem_singleton.mp hk]
      exact hr.2 h rfl
  have hnone : R s s ∧ ∀ a, (.ok (.completed none, frame) : Except Fault
      (Resumption × Script.Frame)) = .ok a → ∀ h ∈ a.1.handles, holds s h := by
    refine ⟨hC.refl s, ?_⟩
    rintro _ ⟨⟩ h hh
    cases hh
  unfold Script.Step.run
  dsimp only
  split
  · exact htake _ _ fun _ => rfl
  · exact htake _ _ fun _ => rfl
  · exact hnone
  · exact hnone

/-- **Every resumed computation** keeps to the contract, if nothing that it holds is lost
meanwhile. -/
theorem resume (hC : C.Carries R holds) (c : Coroutine) (hs : C.inv s)
    (hK : ∀ h ∈ c.held, holds s h) (hkept : ∀ {t : State}, R s t → ∀ h ∈ c.held, holds t h) :
    Ends C R holds c.resume s := by
  cases c with
  | script steps ending held position frame =>
    refine Run.ensures_bind hs (hC.step _ frame hs) (fun r t _ hr => ⟨hr.1, ?_⟩) fun _ _ _ hr =>
      ⟨hr.1, nofun⟩
    rintro _ ⟨⟩ h hh
    rcases List.mem_append.mp hh with hh | hh
    · exact hr.2 r rfl h hh
    · exact hkept hr.1 h hh
  | _ => exact hC.ends (Coroutine.composed_resume _ rfl fun _ => trivial) hs hK

end Contract.Carries

end ObjectModel
