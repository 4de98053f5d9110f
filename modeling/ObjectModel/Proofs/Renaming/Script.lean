import ObjectModel.Proofs.Composition.Script

/-!
# Scripts in lockstep

A script may keep handles under its names that have died since, so names are compared loosely: they
are related, or dead. What it hands over to an operation is not dead and therefore related. Answers
are compared as far as their use allows.

* `Script.Expr.lockstep_eval` -- **every discreet expression keeps in lockstep**.
-/

namespace ObjectModel

open List (Forall₂)
open Run (Lockstep Paired)
open Renaming (all)

variable {α β : Type} {S : Setting} {ρ : Renaming} {R : Relation α} {T : Relation β} {h h' : Handle}
variable {fault fault' : Fault} {members members' : List (String × Handle)}

/-! ## 1. Raising -/

/-- Nothing comes after an exception, so that what would come back does not matter. -/
theorem lockstep_raise (kind : ExceptionKind) {args args' : List Handle}
    (ha : Forall₂ ρ args args') : Lockstep S ρ (raise kind args : Run α) (raise kind args') R := by
  rw [← raise_bind (α := Empty) kind args Empty.elim,
    ← raise_bind (α := Empty) kind args' Empty.elim]
  exact (paired_raise kind ha).at_setting.bind fun _ _ none => none.elim

theorem lockstep_raiseMessage (kind : ExceptionKind) (message : String) :
    Lockstep S ρ (raiseMessage kind message : Run α) (raiseMessage kind message) R :=
  (paired_newText message).at_setting.bind fun _ _ _ _ ht => lockstep_raise kind (.cons ht .nil)

theorem lockstep_raiseValue (hh : ρ h h') :
    Lockstep S ρ (raiseValue h : Run α) (raiseValue h') R := by
  refine (paired_className hh).at_setting.bindSame fun σ hσ name => ?_
  refine (paired_toText (hσ hh)).at_setting.attempt.bind fun τ hτ r r' hr => ?_
  have hh := hτ (hσ hh)
  cases hr with
  | ok he =>
    cases he
    exact .throw (.raised _ hh)
  | error _ =>
    refine (paired_exceptionArgs hh).at_setting.bind fun υ hυ args args' ha => ?_
    have hread : Lockstep S υ (inspectHeap fun heap => heap.plainMessage args)
        (inspectHeap fun heap => heap.plainMessage args') Same :=
      lockstep_read fun _ _ hs => hs.plainMessage ha
    exact hread.bindSame fun ω hω message => .throw (.raised _ (hω (hυ hh)))

namespace Script

/-! ## 2. Answers -/

theorem Answer.Matches.toReport_eq {M : Mode} {heap heap' : Heap} (hs : heap.Similar M ρ heap')
    {a a' : Answer} (h : a.Matches ρ a') : a.toReport heap = a'.toReport heap' := by
  cases h with
  | value hh => simp only [Answer.toReport, hs.shown hh]
  | bool b => rfl
  | int n => rfl
  | text s => rfl
  | optional hh =>
    cases hh with
    | none => rfl
    | some hh => simp only [Answer.toReport, hs.shown hh]
  | items hh => simp only [Answer.toReport, Heap.Similar.mapM_eq (fun _ _ hab => hs.shown hab) hh]
  | nothing => rfl
  | report r => rfl

/-- What a host sees of a number, or of a comparison of two. -/
def Report.isNumber : Report → Bool
  | bool _ => true
  | int _ => true
  | numbers _ => true
  | _ => false

/-- The answers of operations that are asked for a number, or to compare two of them. -/
def Answer.isNumber : Answer → Bool
  | bool _ => true
  | int _ => true
  | report r => r.isNumber
  | _ => false

/-- **How far answers agree that are used so.** -/
def Use.Relates (M : Mode) : Use → Relation Answer
  | dropped => Any
  | noted => fun ρ a a' => a.Matches (M.Loose ρ) a' ∨ a.isNumber = true ∧ a'.isNumber = true
  | stored => fun ρ a a' => a.Matches (M.Loose ρ) a'
  | shown => fun ρ a a' => a.Matches ρ a'

/-- How far the objects agree that stand for such answers. -/
def Use.RelatesValue (M : Mode) : Use → Relation Handle
  | shown => Renaming.rel
  | _ => fun ρ => M.Loose ρ

/-- Answers that are numbers of one side each: they agree where numbers may be asked for. -/
structure Guarded (M : Mode) (ρ : Renaming) (a a' : Answer) : Prop where
  left : a.isNumber = true
  right : a'.isNumber = true
  agree : M.numbers → a.Matches ρ a'

namespace Use

variable {M : Mode} {a a' : Answer}

theorem relates (use : Use) (ha : a.Matches ρ a') : use.Relates M ρ a a' := by
  cases use with
  | dropped => trivial
  | noted => exact Or.inl (ha.mono fun _ _ hab => .of hab)
  | stored => exact ha.mono fun _ _ hab => .of hab
  | shown => exact ha

theorem relates_loose {use : Use} (hu : M.numbers ∨ use ≠ .shown) (ha : a.Matches (M.Loose ρ) a') :
    use.Relates M ρ a a' := by
  rcases hu with hn | hu
  · exact use.relates (ha.mono fun a _ hab => hab.strict (M.exact hn a))
  · cases use with
    | dropped => trivial
    | noted => exact Or.inl ha
    | stored => exact ha
    | shown => exact absurd rfl hu

theorem relates_guarded {use : Use} (hu : M.numbers ∨ use.anyNumber = true)
    (ha : Guarded M ρ a a') : use.Relates M ρ a a' := by
  rcases hu with hn | hu
  · exact use.relates (ha.agree hn)
  · cases use with
    | dropped => trivial
    | noted => exact Or.inr ⟨ha.left, ha.right⟩
    | stored => cases hu
    | shown => cases hu

theorem relates_value (use : Use) (hv : use.RelatesValue M ρ h h') :
    use.Relates M ρ (.value h) (.value h') := by
  cases use with
  | dropped => trivial
  | noted => exact Or.inl (.value hv)
  | stored => exact .value hv
  | shown => exact .value hv

theorem loose (use : Use) (hv : use.RelatesValue M ρ h h') : M.Loose ρ h h' := by
  cases use with
  | shown => exact .of hv
  | _ => exact hv

theorem relatesValue (use : Use) (hv : ρ h h') : use.RelatesValue M ρ h h' := by
  cases use with
  | shown => exact hv
  | _ => exact .of hv

end Use

/-- What is handed over is related. -/
theorem lockstep_handOverRelated {hs hs' : List Handle} (hh : Forall₂ (S.Loose ρ) hs hs') :
    Lockstep S ρ (handOver hs) (handOver hs') (fun σ _ _ => Forall₂ σ hs hs') :=
  (lockstep_handOver hs hs').imp fun _ hσ _ _ hlive => Mode.strict_all
    (hh.imp fun _ _ hab => hab.mono hσ) hlive

theorem lockstep_toValueOf {P : Relation Handle} (hof : ∀ σ a b, σ a b → P σ a b)
    (hloose : ∀ a b, P ρ a b → S.Loose ρ a b) {a a' : Answer} (ha : a.Matches (P ρ) a') :
    Lockstep S ρ a.toValue a'.toValue P := by
  cases ha with
  | value hh => exact .pure hh
  | bool b => exact .pure (hof _ _ _ (ρ.ofBool b))
  | int n => exact (paired_newInt n).at_setting.imp fun σ _ => hof σ
  | text s => exact (paired_newText s).at_setting.imp fun σ _ => hof σ
  | optional hh => exact .pure (rel_getD hh (hof _ _ _ (ρ.fixed .none)))
  | items hh =>
    refine (lockstep_handOverRelated (hh.imp hloose)).bind fun σ _ _ _ hh => ?_
    exact (paired_newTuple hh).at_setting.imp fun σ _ => hof σ
  | nothing => exact .pure (hof _ _ _ (ρ.fixed .none))
  | report r => exact .pure (hof _ _ _ (ρ.fixed .none))

theorem lockstep_toValue (use : Use) {a a' : Answer} (ha : use.orStored.Relates S.toMode ρ a a') :
    Lockstep S ρ a.toValue a'.toValue (use.RelatesValue S.toMode) := by
  refine lockstep_toValueOf (fun _ _ _ => use.relatesValue) (fun _ _ => use.loose) ?_
  cases use with
  | dropped => exact ha
  | noted => exact ha
  | stored => exact ha
  | shown => exact ha

/-! ## 3. Operations -/

theorem lockstep_use (use : Use) {x y : Run Answer} (hx : Paired S.toMode True ρ x y) :
    Lockstep S ρ x y (use.Relates S.toMode) :=
  hx.at_setting.imp fun _ _ _ _ h => use.relates h

/-- An answer that is a number of one side. -/
theorem lockstep_guarded {use : Use} {x y : Run Answer} (hu : S.numbers ∨ use.anyNumber = true)
    (hx : Lockstep S ρ x y (Guarded S.toMode)) : Lockstep S ρ x y (use.Relates S.toMode) :=
  hx.imp fun _ _ _ _ h => Use.relates_guarded hu h

/-- Numbers of both sides, which agree where they may be asked for. -/
theorem lockstep_count {look : State → β} {make make' : β → Answer}
    (hleft : ∀ n, (make n).isNumber = true) (hright : ∀ n, (make' n).isNumber = true)
    (hmake : ∀ (σ : Renaming) n, S.numbers → (make n).Matches σ (make' n)) :
    Lockstep S ρ (do return make (← inspect fun s => some (look s)))
      (do return make' (← inspect fun s => some (look s)))
      (Guarded S.toMode) := by
  have hlook : Lockstep S ρ (inspect fun s => some (look s)) (inspect fun s => some (look s))
      (fun _ n n' => S.numbers → n = n') :=
    lockstep_inspect fun s s' hs => .some fun hn => by rw [(hs.same hn).1]
  refine hlook.bind fun σ _ n n' hn => .pure ⟨hleft n, hright n', fun hnum => ?_⟩
  cases hn hnum
  exact hmake σ n hnum

theorem UnaryOp.lockstep_run (op : UnaryOp) (use : Use) (hd : S.numbers ∨ op.discreet use = true)
    (hh : ρ h h') : Lockstep S ρ (op.run h) (op.run h') (use.Relates S.toMode) := by
  cases op with
  | raiseValue => exact lockstep_raiseValue hh
  | id =>
    refine lockstep_guarded hd fun s s' hs => ?_
    refine Lockstep.pure ⟨rfl, rfl, fun hn => ?_⟩ s s' hs
    cases hs.eq_of_numbers hn hh
    exact .int _
  | slot =>
    refine lockstep_guarded hd fun s s' hs => ?_
    refine lockstep_count (fun _ => rfl) (fun _ => rfl) (fun σ start hn => ?_) s s' hs
    cases hs.eq_of_numbers hn hh
    exact .report _
  | _ => exact lockstep_use use (UnaryOp.paired_run _ rfl (fun _ => trivial) hh)

theorem PairOp.lockstep_run (op : PairOp) (use : Use) (hd : S.numbers ∨ op.discreet use = true)
    {x x' y y' : Handle} (hx : ρ x x') (hy : ρ y y') :
    Lockstep S ρ (op.run x y) (op.run x' y') (use.Relates S.toMode) := by
  by_cases hop : op = .sameId
  · subst hop
    refine lockstep_guarded hd fun s s' hs => ?_
    refine Lockstep.pure ⟨rfl, rfl, fun hn => ?_⟩ s s' hs
    cases hs.eq_of_numbers hn hx
    cases hs.eq_of_numbers hn hy
    exact .bool _
  · exact lockstep_use use (op.paired_run (fun _ => trivial) hop hx hy)

variable {xs xs' : List Handle}

/-- The number that a handle is, asked for by name. -/
theorem lockstep_callId (hx : Forall₂ ρ xs xs') :
    Lockstep S ρ (do return .value (← BuiltinFunction.id.run xs))
      (do return .value (← BuiltinFunction.id.run xs')) (Use.dropped.Relates S.toMode) := by
  by_cases hn : S.numbers
  · exact (BuiltinFunction.paired_run _ (Or.inl hn) (fun _ => trivial) hx).at_setting.bind
      fun _ _ _ _ _ => .pure trivial
  · have hwrong : Lockstep S ρ (wrongArity BuiltinFunction.id.name 1 1 xs : Run Handle)
        (wrongArity BuiltinFunction.id.name 1 1 xs') Any :=
      (paired_wrongArity _ 1 1 hx).at_setting.imp fun _ _ _ _ _ => trivial
    refine Lockstep.bind (R := Any) ?_ fun _ _ _ _ _ => .pure trivial
    rcases hx with _ | ⟨hh, _ | ⟨_, _⟩⟩
    · exact hwrong
    · exact lockstep_allocateApart hn rfl
    · exact hwrong

theorem ListOp.lockstep_run (op : ListOp) (use : Use) (hd : S.numbers ∨ op.discreet use = true)
    (hx : Forall₂ ρ xs xs') : Lockstep S ρ (op.run xs) (op.run xs') (use.Relates S.toMode) := by
  cases op with
  | callBuiltin f =>
    by_cases hf : S.numbers ∨ f ≠ .id
    · refine lockstep_use use (ListOp.paired_run _ rfl ?_ (fun _ _ _ => trivial) hx)
      rintro _ ⟨⟩
      exact hf
    · obtain ⟨hn, hf⟩ := not_or.mp hf
      cases not_not.mp hf
      cases of_decide_eq_true (hd.resolve_left hn)
      exact lockstep_callId hx
  | collectGarbage =>
    refine lockstep_guarded hd ?_
    exact (lockstep_collectGarbage hx).bind fun _ _ _ _ _ => lockstep_count (fun _ => rfl)
      (fun _ => rfl) fun _ n _ => .int _
  | reclaim =>
    refine lockstep_guarded hd ((lockstep_collectGarbage hx).bind fun σ _ n n' hn =>
      .pure ⟨rfl, rfl, fun hnum => ?_⟩)
    rw [hn hnum]
    exact .int _
  | _ => exact lockstep_use use (ListOp.paired_run _ rfl nofun nofun hx)

theorem lockstep_probeReport (use : Use) (hf : fault.Matches ρ fault') (hx : Forall₂ ρ xs xs') :
    Lockstep S ρ (probeReport fault xs) (probeReport fault' xs') (use.Relates S.toMode) := by
  have hmatched : ∀ {σ : Renaming} {xs xs' : List Handle}, ρ ≤ σ → Forall₂ σ xs xs' →
      Lockstep S σ (xs.mapM fun type => isException fault type)
      (xs'.mapM fun type => isException fault' type) Same := by
    intro σ xs
    induction xs generalizing σ with
    | nil =>
      intro xs' hσ hx
      cases hx
      exact .pure rfl
    | cons type rest ih =>
      intro xs' hσ hx
      rcases hx with _ | ⟨ht, hrest⟩
      rw [List.mapM_cons, List.mapM_cons]
      refine (lockstep_isException (hf.mono fun _ _ hab => hσ hab) ht).bindSame fun τ hτ _ => ?_
      exact (ih (Renaming.le_trans hσ hτ) (all hτ hrest)).bindSame fun _ _ _ => .pure rfl
  refine (hmatched (Renaming.le_refl ρ) hx).bindSame fun σ hσ matched => ?_
  refine (lockstep_isException (hf.mono fun _ _ hab => hσ hab) (σ.exceptionType _)).bindSame
    fun τ hτ stop => ?_
  have hseen : Lockstep S τ (inspectHeap fun heap => FaultView.ofFault heap fault)
      (inspectHeap fun heap => FaultView.ofFault heap fault') Same :=
    lockstep_read fun _ _ hs => hs.faultView (hf.mono fun _ _ hab => hτ (hσ hab))
  exact hseen.bind fun _ _ _ _ h => .pure (use.relates (h ▸ .report _))

/-! ## 4. Computations in a frame -/

namespace Eval

/-- **Computations in matching frames keep in lockstep**, and leave matching frames. -/
def Lockstep (S : Setting) (ρ : Renaming) (x y : Eval α) (R : Relation α) : Prop :=
  ∀ frame frame' : Frame, frame.Matches (S.Loose ρ) frame' → Program.Lockstep S ρ (x.run.run frame)
    (y.run.run frame') (fun σ r r' => Answers R σ r.1 r'.1 ∧ r.2.Matches (S.Loose σ) r'.2)

namespace Lockstep

variable {x y : Eval α} {f g : α → Eval β}

theorem pure {a b : α} (h : R ρ a b) : Lockstep S ρ (Pure.pure a : Eval α) (Pure.pure b) R :=
  fun _ _ hframe => Program.Lockstep.pure ⟨.ok h, hframe⟩

theorem throw (h : fault.Matches ρ fault') :
    Lockstep S ρ (MonadExcept.throw fault : Eval α) (MonadExcept.throw fault') R :=
  fun _ _ hframe => Program.Lockstep.pure ⟨.error h, hframe⟩

theorem frame :
    Lockstep S ρ Eval.frame Eval.frame (fun σ frame frame' => frame.Matches (S.Loose σ) frame') :=
  fun _ _ hframe => Program.Lockstep.pure ⟨.ok hframe, hframe⟩

theorem setLocal (name : String) (hv : S.Loose ρ h h') :
    Lockstep S ρ (Eval.setLocal name h) (Eval.setLocal name h') Any :=
  fun _ _ hframe => Program.Lockstep.pure ⟨.ok trivial, hframe.args, hframe.locals.insert name hv⟩

theorem bind (hx : Lockstep S ρ x y R)
    (hf : ∀ σ, ρ ≤ σ → ∀ a b, R σ a b → Lockstep S σ (f a) (g b) T) :
    Lockstep S ρ (x >>= f) (y >>= g) T := by
  intro frame frame' hframe
  rw [run_bind, run_bind]
  refine Program.Lockstep.bind (hx frame frame' hframe) fun σ hσ r r' hr => ?_
  obtain ⟨r, frame⟩ := r
  obtain ⟨r', frame'⟩ := r'
  obtain ⟨hr, hframe⟩ := hr
  cases hr with
  | ok h => exact hf σ hσ _ _ h frame frame' hframe
  | error he => exact Program.Lockstep.pure ⟨.error he, hframe⟩

/-- A computation that does not look at the frame. -/
theorem ofRun {x y : Run α} (hx : Run.Lockstep S ρ x y R) :
    Lockstep S ρ (Eval.ofRun x) (Eval.ofRun y) R :=
  fun _ _ hframe => Program.Lockstep.bind hx fun _ hσ _ _ hr =>
    Program.Lockstep.pure ⟨hr, hframe.mono fun _ _ hab => hab.mono hσ⟩

theorem ofRun_bind {x y : Run α} (hx : Run.Lockstep S ρ x y R)
    (hf : ∀ σ, ρ ≤ σ → ∀ a b, R σ a b → Lockstep S σ (f a) (g b) T) :
    Lockstep S ρ (Eval.ofRun x >>= f) (Eval.ofRun y >>= g) T :=
  (ofRun hx).bind hf

theorem ite {c c' : Prop} [Decidable c] [Decidable c'] {x' y' : Eval α} (hc : c ↔ c')
    (hx : c → Lockstep S ρ x x' R) (hy : ¬ c → Lockstep S ρ y y' R) :
    Lockstep S ρ (if c then x else y) (if c' then x' else y') R := by
  by_cases h : c
  · rw [if_pos h, if_pos (hc.mp h)]
    exact hx h
  · rw [if_neg h, if_neg (mt hc.mpr h)]
    exact hy h

theorem attempt (hx : Lockstep S ρ x y R) :
    Lockstep S ρ (Eval.attempt x) (Eval.attempt y) (Answers R) :=
  fun frame frame' hframe => Program.Lockstep.bind (hx frame frame' hframe) fun _ _ _ _ hr =>
    Program.Lockstep.pure ⟨.ok hr.1, hr.2⟩

/-- **Loops.** `J` relates the accumulators. -/
theorem loop {ι : Type} {acc acc' : ι} {body body' : ι → Eval (ι ⊕ β)} (J : Relation ι)
    (hJ : J ρ acc acc') (hbody : ∀ σ, ρ ≤ σ → ∀ acc acc', J σ acc acc' → Lockstep S σ (body acc)
      (body' acc') (Turn J T)) : Lockstep S ρ (Eval.loop acc body) (Eval.loop acc' body') T := by
  intro frame frame' hframe
  refine Program.Lockstep.loop (J := fun σ p p' => J σ p.1 p'.1 ∧
    p.2.Matches (S.Loose σ) p'.2) ⟨hJ, hframe⟩ fun σ hσ acc acc' hacc => ?_
  refine Program.Lockstep.bind (hbody σ hσ acc.1 acc'.1 hacc.1 acc.2 acc'.2 hacc.2)
    fun τ _ r r' hr => ?_
  obtain ⟨r, frame⟩ := r
  obtain ⟨r', frame'⟩ := r'
  obtain ⟨hr, hframe⟩ := hr
  cases hr with
  | error he => exact Program.Lockstep.pure (.ended ⟨.error he, hframe⟩)
  | ok hr =>
    cases hr with
    | again hJ => exact Program.Lockstep.pure (.again ⟨hJ, hframe⟩)
    | ended hT => exact Program.Lockstep.pure (.ended ⟨.ok hT, hframe⟩)

theorem times {R : Relation Answer} {x : Eval Answer} (hx : ∀ σ, Lockstep S σ x x R) (n : Nat)
    {last last' : Answer} (hlast : R ρ last last') :
    Lockstep S ρ (Eval.times x n last) (Eval.times x n last') R := by
  induction n generalizing ρ last last' with
  | zero => exact .pure hlast
  | succ n ih => exact (hx ρ).bind fun _ _ _ _ h => ih h

/-- The objects that stand for the answers of two expressions, and what is done with them. -/
theorem toValue_bind (use : Use) {x y : Eval Answer} {f g : Handle → Eval β}
    (hx : Lockstep S ρ x y (use.orStored.Relates S.toMode))
    (hf : ∀ σ, ρ ≤ σ → ∀ h h', use.RelatesValue S.toMode σ h h' → Lockstep S σ (f h) (g h') T) :
    Lockstep S ρ (x >>= fun answer => Eval.ofRun answer.toValue >>= f)
      (y >>= fun answer => Eval.ofRun answer.toValue >>= g) T :=
  hx.bind fun _ hσ _ _ ha => .ofRun_bind (lockstep_toValue use ha) fun τ hτ h h' hv =>
    hf τ (Renaming.le_trans hσ hτ) h h' hv

/-- What comes behind handing over is done with related handles. -/
theorem handOver_bind {x y : Eval β} (hx : Forall₂ (S.Loose ρ) xs xs')
    (hf : ∀ σ, ρ ≤ σ → Forall₂ σ xs xs' → Lockstep S σ x y T) :
    Lockstep S ρ (Eval.ofRun (handOver xs) >>= fun _ => x)
      (Eval.ofRun (handOver xs') >>= fun _ => y) T :=
  .ofRun_bind (lockstep_handOverRelated hx) fun σ hσ _ _ hxs => hf σ hσ hxs

end Lockstep

end Eval

/-! ## 5. Expressions -/

theorem Use.relatesValue_mono {M : Mode} (use : Use) {σ : Renaming} (hσ : ρ ≤ σ)
    (hv : use.RelatesValue M ρ h h') : use.RelatesValue M σ h h' := by
  cases use with
  | shown => exact hσ hv
  | _ => exact hv.mono hσ

theorem discreet_and {p : Prop} {a b : Bool} (h : p ∨ (a && b) = true) :
    (p ∨ a = true) ∧ (p ∨ b = true) := by
  rw [Bool.and_eq_true] at h
  exact ⟨h.imp_right And.left, h.imp_right And.right⟩

theorem Constant.lockstep_run (op : Constant) (use : Use)
    (hd : S.numbers ∨ op.discreet use = true) :
    Eval.Lockstep S ρ op.run op.run (use.Relates S.toMode) := by
  cases op with
  | notImplemented => exact .pure (use.relates (.value (ρ.fixed .notImplemented)))
  | arguments =>
    exact Eval.Lockstep.frame.bind fun _ _ _ _ hf =>
      .pure (Use.relates_loose (hd.imp_right of_decide_eq_true) (.items hf.args))
  | argumentCount =>
    refine Eval.Lockstep.frame.bind fun σ _ frame frame' hf => .pure (use.relates ?_)
    rw [hf.args.length_eq]
    exact .int _
  | globalNames =>
    have hnames : Lockstep S ρ (inspect fun s => some s.globals.keys)
        (inspect fun s => some s.globals.keys) Same :=
      lockstep_inspect fun _ _ hs => .some hs.globals.keys_eq
    exact .ofRun_bind hnames fun _ _ _ _ h => .pure (use.relates (h ▸ .report _))
  | limits =>
    have hlimits : Lockstep S ρ (inspect fun s => some s.limits)
        (inspect fun s => some s.limits) Same :=
      lockstep_inspect fun _ _ hs => .some hs.limits
    exact .ofRun_bind hlimits fun _ _ _ _ h => .pure (use.relates (h ▸ .report _))
  | output =>
    have houtput : Lockstep S ρ (inspect fun s => some s.console.output)
        (inspect fun s => some s.console.output) Same :=
      lockstep_inspect fun _ _ hs => .some (congrArg Console.output hs.console)
    exact .ofRun_bind houtput fun _ _ _ _ h => .pure (use.relates (h ▸ .text _))
  | flushes =>
    have hflushes : Lockstep S ρ (inspect fun s => some s.console.flushes)
        (inspect fun s => some s.console.flushes) Same :=
      lockstep_inspect fun _ _ hs => .some (congrArg Console.flushes hs.console)
    exact .ofRun_bind hflushes fun _ _ _ _ h => .pure (use.relates (h ▸ .int _))
  | objectCount =>
    have hcount : Lockstep S ρ (inspect fun s => some s.objectCount)
        (inspect fun s => some s.objectCount) (fun _ n n' => S.numbers → n = n') :=
      lockstep_inspect fun s s' hs => .some fun hn => by rw [(hs.same hn).1]
    refine .ofRun_bind hcount fun σ _ n n' hn =>
      .pure (Use.relates_guarded hd ⟨rfl, rfl, fun hnum => ?_⟩)
    rw [hn hnum]
    exact .int _
  | stop => exact .ofRun (lockstep_raise _ .nil)

/-- Names are compared loosely. -/
theorem lockstep_nameValue (name : String) :
    Eval.Lockstep S ρ (nameValue name) (nameValue name) (fun σ => S.Loose σ) := by
  refine Eval.Lockstep.frame.bind fun σ _ frame frame' hf => ?_
  have hlocal := hf.locals.get? name
  generalize frame.locals.get? name = x at hlocal ⊢
  generalize frame'.locals.get? name = y at hlocal ⊢
  cases hlocal with
  | some hv => exact .pure hv
  | none =>
    have hshared : Lockstep S σ (inspect fun s => some (s.shared.get? name))
        (inspect fun s => some (s.shared.get? name))
        (fun τ => Option.Rel (S.Loose τ)) :=
          lockstep_inspect fun _ _ hs => .some (hs.shared.get? name)
    refine .ofRun_bind hshared fun τ _ value value' hvalue => ?_
    cases hvalue with
    | some hv => exact .pure hv
    | none => exact .ofRun (lockstep_raiseMessage _ _)

theorem lockstep_argument (index : Nat) :
    Eval.Lockstep S ρ (argument index) (argument index) (fun σ => S.Loose σ) := by
  refine Eval.Lockstep.frame.bind fun σ _ frame frame' hf => ?_
  have harg := rel_getElem? hf.args index
  generalize frame.args[index]? = x at harg ⊢
  generalize frame'.args[index]? = y at harg ⊢
  cases harg with
  | some hv => exact .pure hv
  | none => exact .ofRun (lockstep_raiseMessage _ _)

theorem strict_members {M : Mode} (hm : Forall₂ (SameKey (M.Loose ρ)) members members')
    (hlive : ∀ m ∈ members, ¬ M.dead m.2) : Forall₂ (SameKey ρ) members members' := by
  induction hm with
  | nil => exact .nil
  | cons h _ ih =>
    exact .cons ⟨h.1, h.2.strict (hlive _ List.mem_cons_self)⟩
      (ih fun m hm => hlive m (List.mem_cons_of_mem _ hm))

/-- The definition of a type whose base and members were evaluated. -/
theorem lockstep_definedType (name : String) (use : Use) {base base' : Option Handle}
    (hb : Option.Rel (S.Loose ρ) base base') (hm : Forall₂ (SameKey (S.Loose ρ)) members members') :
    Eval.Lockstep S ρ
      (do
        handOver (base.toList ++ members.map (·.2))
        return .value (← ObjectModel.defineType name base members) : Eval Answer)
      (do
        handOver (base'.toList ++ members'.map (·.2))
        return .value (← ObjectModel.defineType name base' members')) (use.Relates S.toMode) := by
  refine .ofRun_bind (lockstep_handOver _ _) fun σ hσ _ _ hlive => ?_
  have hbase : Option.Rel σ base base' := by
    cases hb with
    | none => exact .none
    | some hv => exact .some ((hv.mono hσ).strict (hlive _ (by simp)))
  have hloose : Forall₂ (SameKey (S.Loose σ)) members members' :=
    hm.imp fun _ _ h => ⟨h.1, h.2.mono hσ⟩
  have hmembers : Forall₂ (SameKey σ) members members' :=
    strict_members hloose fun m hm => hlive m.2 (List.mem_append_right _ (List.mem_map_of_mem hm))
  exact .ofRun_bind (paired_defineType name hbase hmembers).at_setting fun _ _ _ _ hv =>
    .pure (use.relates (.value hv))

open Eval.Lockstep (toValue_bind handOver_bind)

/-- What is done behind a fault that was caught. -/
theorem lockstep_handler (hf : fault.Matches ρ fault') {x : Eval α}
    (hx : ∀ σ, Eval.Lockstep S σ x x R) :
    Eval.Lockstep S ρ
      (do
        Eval.setLocal "err" (fault.exception.getD .none)
        x)
      (do
        Eval.setLocal "err" (fault'.exception.getD .none)
        x) R :=
  (Eval.Lockstep.setLocal "err" (.of (rel_getD hf.exception (ρ.fixed .none)))).bind
    fun σ _ _ _ _ => hx σ

mutual

/-- **Every discreet expression keeps in lockstep.** -/
theorem Expr.lockstep_eval :
    (e : Expr) → (use : Use) → S.numbers ∨ e.discreet use = true → (ρ : Renaming) →
    Eval.Lockstep S ρ e.eval e.eval (use.Relates S.toMode)
  | .null, use, _, ρ => .pure (use.relates (.value (ρ.fixed .none)))
  | .bool b, use, _, ρ => .pure (use.relates (.value (ρ.ofBool b)))
  | .int n, use, _, _ =>
    .ofRun_bind (paired_newInt n).at_setting fun _ _ _ _ hv => .pure (use.relates (.value hv))
  | .text s, use, _, _ =>
    .ofRun_bind (paired_newText s).at_setting fun _ _ _ _ hv => .pure (use.relates (.value hv))
  | .name n, _, hd, _ => (lockstep_nameValue n).bind fun _ _ _ _ hv =>
      .pure (Use.relates_loose (hd.imp_right of_decide_eq_true) (.value hv))
  | .setLocal n e, use, hd, ρ =>
    toValue_bind use (e.lockstep_eval use.orStored hd ρ) fun _ _ _ _ hv =>
      (Eval.Lockstep.setLocal n (use.loose hv)).bind fun _ hτ _ _ _ =>
        .pure (use.relates_value (use.relatesValue_mono hτ hv))
  | .setShared n e, use, hd, ρ =>
    toValue_bind use (e.lockstep_eval use.orStored hd ρ) fun _ _ _ _ hv =>
      .ofRun_bind (lockstep_setShared (use.loose hv) n) fun _ hτ _ _ _ =>
        .pure (use.relates_value (use.relatesValue_mono hτ hv))
  | .block es, use, hd, ρ =>
    Expr.lockstep_evalBlock es use hd ρ fun _ => use.relates (.value (ρ.fixed .none))
  | .times count e, use, hd, ρ =>
    .times (e.lockstep_eval use hd) count (use.relates (.value (ρ.fixed .none)))
  | .choose condition yes no, use, hd, ρ =>
      have hd := discreet_and hd
      have hc := discreet_and hd.1
      toValue_bind .stored (condition.lockstep_eval .stored hc.1 ρ) fun _ _ _ _ hv =>
          handOver_bind (.cons hv .nil) fun _ _ (.cons hv .nil) =>
        .ofRun_bind (paired_truthy hv).at_setting fun τ _ _ _ hb => .ite (by rw [hb])
          (fun _ => yes.lockstep_eval use hc.2 τ) fun _ => no.lockstep_eval use hd.2 τ
  | .rescue e none handler, use, hd, ρ => by
      have hd := discreet_and hd
      unfold Expr.eval
      refine (e.lockstep_eval use hd.1 ρ).attempt.bind fun σ _ r r' hr => ?_
      cases hr with
      | ok ha => exact .pure ha
      | error hf => exact lockstep_handler hf (handler.lockstep_eval use hd.2)
  | .rescue e (some type) handler, use, hd, ρ => by
      have hd := discreet_and hd
      have hc := discreet_and hd.1
      unfold Expr.eval
      refine (e.lockstep_eval use hc.1 ρ).attempt.bind fun σ _ r r' hr => ?_
      cases hr with
      | ok ha => exact .pure ha
      | error hf =>
        refine toValue_bind .stored (type.lockstep_eval .stored hc.2 σ) fun τ hτ _ _ hv =>
          handOver_bind (.cons hv .nil) fun υ hυ (.cons hv .nil) => ?_
        have hf := hf.mono fun _ _ hab => hυ (hτ hab)
        refine .ofRun_bind (lockstep_isException hf hv) fun ω hω is is' his => ?_
        have hf := hf.mono fun _ _ hab => hω hab
        refine .ite (by rw [his]) (fun _ => .throw hf) fun _ => ?_
        exact lockstep_handler hf (handler.lockstep_eval use hd.2)
  | .probe e types, use, hd, ρ => by
    have hd := discreet_and hd
    refine (e.lockstep_eval .shown hd.1 ρ).attempt.bind fun σ _ r r' hr => ?_
    cases hr with
    | @ok a a' ha =>
      have hseen : Lockstep S σ (inspectHeap fun heap => a.toReport heap)
          (inspectHeap fun heap => a'.toReport heap) Same :=
        lockstep_read fun _ _ hs => Answer.Matches.toReport_eq hs ha
      exact .ofRun_bind hseen fun _ _ _ _ h => .pure (use.relates (h ▸ .report _))
    | error hf =>
      refine (Expr.lockstep_evalAll types hd.2 σ).bind fun τ hτ _ _ ht =>
        handOver_bind ht fun υ hυ ht => ?_
      exact .ofRun (lockstep_probeReport use (hf.mono fun _ _ hab => hυ (hτ hab)) ht)
  | .argument index, _, hd, _ => (lockstep_argument index).bind fun _ _ _ _ hv =>
      .pure (Use.relates_loose (hd.imp_right of_decide_eq_true) (.value hv))
  | .builtinType t, use, _, ρ => .pure (use.relates (.value (ρ.fixed (.type t))))
  | .global n, use, _, _ =>
    .ofRun_bind (paired_globalValue n).at_setting fun _ _ _ _ hv => .pure (use.relates (.value hv))
  | .setGlobal n e, use, hd, ρ =>
    toValue_bind .stored (e.lockstep_eval .stored hd ρ) fun _ _ _ _ hv =>
      handOver_bind (.cons hv .nil) fun _ _ (.cons hv .nil) =>
          .ofRun_bind (lockstep_setGlobal hv n) fun _ hτ _ _ _ =>
        .pure (use.relates (.value (hτ hv)))
  | .function n body, use, _, ρ =>
      .ofRun_bind (lockstep_allocate ⟨.function n (.script body), ρ.fixed (.type .function), .empty⟩
          rfl) fun _ _ _ _ hv =>
        .pure (use.relates (.value hv))
  | .generator steps held ending, use, hd, ρ =>
    (Expr.lockstep_evalAll held hd ρ).bind fun _ _ _ _ hh =>
      handOver_bind hh fun _ _ hh => .ofRun_bind (paired_newGenerator
          (.script steps ending 0 hh ⟨.nil, .empty⟩)).at_setting fun _ _ _ _ hv =>
        .pure (use.relates (.value hv))
  | .defineType n none members, use, hd, ρ =>
    (Expr.lockstep_evalMembers members hd ρ).bind fun _ _ _ _ hm =>
      lockstep_definedType n use .none hm
  | .defineType n (some e) members, use, hd, ρ => by
      have hd := discreet_and hd
      have hbase : Eval.Lockstep S ρ (some <$> (do (← e.eval).toValue : Eval Handle))
          (some <$> (do (← e.eval).toValue : Eval Handle))
          (fun σ => Option.Rel (S.Loose σ)) := by
        rw [map_eq_pure_bind]
        refine Eval.Lockstep.bind (R := fun σ => S.Loose σ) ?_ fun _ _ _ _ hv => .pure (.some hv)
        exact (e.lockstep_eval .stored hd.1 ρ).bind fun _ _ _ _ ha =>
          .ofRun (lockstep_toValue .stored ha)
      refine hbase.bind fun σ _ _ _ hb => (Expr.lockstep_evalMembers members hd.2 σ).bind
        fun τ hτ _ _ hm => ?_
      exact lockstep_definedType n use (rel_mono (fun _ _ h => h.mono hτ) hb) hm
  | .forEach iterable body, use, hd, ρ => by
      have hd := discreet_and hd
      refine toValue_bind .stored (iterable.lockstep_eval .stored hd.1 ρ) fun _ _ _ _ hv =>
        handOver_bind (.cons hv .nil) fun σ _ (.cons hv .nil) => ?_
      refine .ofRun_bind (paired_iter hv).at_setting fun τ _ iterator iterator' hi => ?_
      refine (Eval.Lockstep.loop (T := Same) Same rfl fun υ hυ count count' hcount => ?_).bind
        fun _ _ _ _ h => .pure (use.relates (h ▸ .int _))
      refine .ofRun_bind (paired_nextItem trivial (hυ hi)).at_setting fun ω _ item item' hitem => ?_
      cases hitem with
      | none => exact .pure (.ended hcount)
      | some hitem =>
        refine (Eval.Lockstep.setLocal "it" (.of hitem)).bind fun ψ _ _ _ _ =>
          (body.lockstep_eval .dropped hd.2 ψ).bind fun _ _ _ _ _ => ?_
        exact .pure (.again (congrArg (· + 1) hcount))
  | .operatorInfo _, use, _, _ => .pure (use.relates (.report _))
  | .exceptionInfo kind, use, _, ρ =>
    .ofRun_bind (paired_typeName (ρ.fixed (.exceptionType kind))).at_setting fun _ _ _ _ h =>
      .pure (use.relates (h ▸ .report _))
  | .builtinInfo _, use, _, _ => .pure (use.relates (.report _))
  | .constant op, use, hd, _ => op.lockstep_run use hd
  | .unary op x, use, hd, ρ =>
      have hd := discreet_and hd
      toValue_bind .stored (x.lockstep_eval .stored hd.1 ρ) fun _ _ _ _ hx =>
          handOver_bind (.cons hx .nil) fun _ _ (.cons hx .nil) =>
        .ofRun (op.lockstep_run use hd.2 hx)
  | .pair op x y, use, hd, ρ =>
      have hd := discreet_and hd
      have hc := discreet_and hd.1
      toValue_bind .stored (x.lockstep_eval .stored hc.1 ρ) fun σ _ _ _ hx =>
          toValue_bind .stored (y.lockstep_eval .stored hc.2 σ) fun _ hτ _ _ hy =>
          handOver_bind (.cons (hx.mono hτ) (.cons hy .nil)) fun _ _ (.cons hx (.cons hy .nil)) =>
          .ofRun (op.lockstep_run use hd.2 hx hy)
  | .triple op x y z, use, hd, ρ =>
      have hd := discreet_and hd
      have hc := discreet_and hd.1
      toValue_bind .stored (x.lockstep_eval .stored hc.1 ρ) fun σ _ _ _ hx =>
          toValue_bind .stored (y.lockstep_eval .stored hc.2 σ) fun τ hτ _ _ hy =>
          toValue_bind .stored (z.lockstep_eval .stored hd.2 τ) fun _ hυ _ _ hz =>
          handOver_bind (.cons ((hx.mono hτ).mono hυ) (.cons (hy.mono hυ) (.cons hz .nil)))
              fun _ _ (.cons hx (.cons hy (.cons hz .nil))) =>
            .ofRun (lockstep_use use (op.paired_run hx hy hz))
  | .list op xs, use, hd, ρ =>
      have hd := discreet_and hd
      (Expr.lockstep_evalAll xs hd.1 ρ).bind fun _ _ _ _ hx => handOver_bind hx fun _ _ hx =>
        .ofRun (op.lockstep_run use hd.2 hx)
  | .apply op x args, use, hd, ρ =>
      have hd := discreet_and hd
      toValue_bind .stored (x.lockstep_eval .stored hd.1 ρ) fun σ _ _ _ hx =>
        (Expr.lockstep_evalAll args hd.2 σ).bind fun _ hτ _ _ ha =>
          handOver_bind (.cons (hx.mono hτ) ha) fun _ _ (.cons hx ha) =>
            .ofRun (lockstep_use use (op.paired_run hx ha))

theorem Expr.lockstep_evalAll :
    (es : List Expr) → S.numbers ∨ Expr.discreetAll es = true → (ρ : Renaming) →
    Eval.Lockstep S ρ (Expr.evalAll es) (Expr.evalAll es) (fun σ => Forall₂ (S.Loose σ))
  | [], _, _ => .pure .nil
  | e :: es, hd, ρ =>
      have hd := discreet_and hd
      toValue_bind .stored (e.lockstep_eval .stored hd.1 ρ) fun σ _ _ _ hv =>
          (Expr.lockstep_evalAll es hd.2 σ).bind fun _ hτ _ _ hvs =>
        .pure (.cons (hv.mono hτ) hvs)

theorem Expr.lockstep_evalBlock :
    (es : List Expr) → (use : Use) → S.numbers ∨ Expr.discreetBlock es use = true → (ρ : Renaming) →
    {last last' : Answer} → (es = [] → use.Relates S.toMode ρ last last') →
    Eval.Lockstep S ρ (Expr.evalBlock es last) (Expr.evalBlock es last') (use.Relates S.toMode)
  | [], _, _, _, _, _, hlast => .pure (hlast rfl)
  | [e], use, hd, ρ, _, _, _ => (e.lockstep_eval use hd ρ).bind fun _ _ _ _ ha => .pure ha
  | e :: e' :: es, use, hd, ρ, _, _, _ =>
      have hd := discreet_and hd
      (e.lockstep_eval .dropped hd.1 ρ).bind fun σ _ _ _ _ =>
        Expr.lockstep_evalBlock (e' :: es) use hd.2 σ fun h => absurd h (by simp)

theorem Expr.lockstep_evalMembers :
    (es : List (String × Expr)) → S.numbers ∨ Expr.discreetMembers es = true → (ρ : Renaming) →
    Eval.Lockstep S ρ (Expr.evalMembers es) (Expr.evalMembers es)
      (fun σ => Forall₂ (SameKey (S.Loose σ)))
  | [], _, _ => .pure .nil
  | (_, e) :: es, hd, ρ =>
      have hd := discreet_and hd
      toValue_bind .stored (e.lockstep_eval .stored hd.1 ρ) fun σ _ _ _ hv =>
        (Expr.lockstep_evalMembers es hd.2 σ).bind fun _ hτ _ _ hvs =>
        .pure (.cons ⟨rfl, hv.mono hτ⟩ hvs)

end

/-! ## 6. Functions and generators -/

/-- **What an expression gives back is related**, because it was handed over. -/
theorem Expr.lockstep_value (e : Expr) (hd : S.numbers ∨ e.discreet .stored = true) :
    Eval.Lockstep S ρ e.value e.value Renaming.rel := by
  refine toValue_bind .stored (e.lockstep_eval .stored hd ρ) fun σ _ h h' hv => ?_
  exact handOver_bind (.cons hv .nil) fun _ _ (.cons hv .nil) => .pure hv

theorem Expr.lockstep_applyTo (body : Expr) (hd : S.numbers ∨ body.discreet .stored = true)
    (hx : Forall₂ ρ xs xs') : Lockstep S ρ (body.applyTo xs) (body.applyTo xs') Renaming.rel := by
  have hframe : (Frame.ofArgs xs).Matches (S.Loose ρ) (.ofArgs xs') := ⟨Mode.loose_all hx, .empty⟩
  exact Program.Lockstep.bind (body.lockstep_value hd _ _ hframe) fun _ _ _ _ hr =>
    Program.Lockstep.pure hr.1

/-- One step of a generator: it comes back alike and leaves matching frames. -/
theorem Step.lockstep_run (step : Option (Step Expr))
    (hd : S.numbers ∨ ∀ taken ∈ step, taken.discreet = true) {frame frame' : Frame}
    (hframe : frame.Matches (S.Loose ρ) frame') :
    Lockstep S ρ (Step.run step frame) (Step.run step frame')
      (fun σ r r' => r.1.Matches σ r'.1 ∧ r.2.Matches (S.Loose σ) r'.2) := by
  have htake : ∀ (e : Expr) (make : Handle → Resumption), S.numbers ∨ e.discreet .stored = true →
      (∀ (σ : Renaming) h h', σ h h' → (make h).Matches σ (make h')) →
      Lockstep S ρ
        (ExceptT.mk (e.value.run.run frame >>= fun r => pure (r.1.map fun h => (make h, r.2))))
        (ExceptT.mk (e.value.run.run frame' >>= fun r => pure (r.1.map fun h => (make h, r.2))))
        (fun σ r r' => r.1.Matches σ r'.1 ∧ r.2.Matches (S.Loose σ) r'.2) := by
    intro e make hd hmake
    refine Program.Lockstep.bind (e.lockstep_value hd frame frame' hframe) fun σ _ r r' hr => ?_
    obtain ⟨r, frame⟩ := r
    obtain ⟨r', frame'⟩ := r'
    obtain ⟨hr, hframe⟩ := hr
    cases hr with
    | error he => exact Program.Lockstep.pure (.error he)
    | ok hv => exact Program.Lockstep.pure (.ok ⟨hmake σ _ _ hv, hframe⟩)
  have hcompleted : Lockstep S ρ (return (.completed none, frame) : Run (Resumption × Frame))
      (return (.completed none, frame'))
      (fun σ r r' => r.1.Matches σ r'.1 ∧ r.2.Matches (S.Loose σ) r'.2) :=
        .pure ⟨.completed .none, hframe⟩
  match step with
  | none => exact hcompleted
  | some (.yield e) => exact htake e _ (hd.imp_right fun h => h _ rfl) fun _ _ _ hv => .yielded hv
  | some (.complete (some e)) =>
    exact htake e _ (hd.imp_right fun h => h _ rfl) fun _ _ _ hv => .completed (.some hv)
  | some (.complete none) => exact hcompleted

theorem mem_of_stepAt? {steps : List (Step Expr)} {ending : Ending} {position : Nat}
    {step : Step Expr} (h : stepAt? steps ending position = some step) : step ∈ steps := by
  cases ending with
  | completes => exact List.mem_of_getElem? h
  | repeats => exact List.mem_of_getElem? h

end Script

/-- Resumptions that came back alike, with matching computations left. -/
def Resumed.Matches (M : Mode) (ρ : Renaming) (r r' : Resumed) : Prop :=
  r.resumption.Matches ρ r'.resumption ∧ r.rest.Matches ρ (M.Loose ρ) r'.rest

/-- **A resumed computation** keeps in lockstep. -/
theorem Coroutine.lockstep_resume {c c' : Coroutine} (hd : S.numbers ∨ c.Discreet)
    (hc : c.Matches ρ (S.Loose ρ) c') :
    Lockstep S ρ c.resume c'.resume (Resumed.Matches S.toMode) := by
  have hmono : ∀ {σ : Renaming}, ρ ≤ σ → c.Matches σ (S.Loose σ) c' :=
    fun hσ => hc.imp_of_mem (fun _ _ hab => hab.mono hσ) fun _ _ _ hab => hσ hab
  cases hc with
  | items hh hp =>
    rcases hp with _ | ⟨hv, hrest⟩
    · exact .pure ⟨.completed .none, .items hh .nil⟩
    · exact .pure ⟨.yielded hv, .items hh hrest⟩
  | entries hh hp =>
    cases hp with
    | nil => exact .pure ⟨.completed .none, .entries hh .nil⟩
    | @cons entry entry' rest rest' hentry hrest =>
      obtain ⟨key, value⟩ := entry
      obtain ⟨key', value'⟩ := entry'
      obtain ⟨rfl, hv⟩ := hentry
      refine (paired_newText key).at_setting.bind fun σ hσ name name' hn => ?_
      refine (paired_newTuple (.cons hn (.cons (hσ hv) .nil))).at_setting.bind
        fun τ hτ pair pair' hpair => ?_
      have hle := Renaming.le_trans hσ hτ
      exact .pure ⟨.yielded hpair, .entries (all hle hh) (hrest.imp fun _ _ h => ⟨h.1, hle h.2⟩)⟩
  | characters pending =>
    cases pending with
    | nil => exact .pure ⟨.completed .none, .characters _⟩
    | cons char rest =>
      exact (paired_newText _).at_setting.bind fun _ _ _ _ hv =>
        .pure ⟨.yielded hv, .characters rest⟩
  | progression bounds next =>
    cases next with
    | none => exact .pure ⟨.completed .none, .progression _ _⟩
    | some current =>
      refine .ite Iff.rfl (fun _ => ?_) fun _ => .pure ⟨.completed .none, .progression _ _⟩
      exact (paired_newInt current).at_setting.bind fun _ _ _ _ hv =>
        .pure ⟨.yielded hv, .progression _ _⟩
  | mapping hf hi =>
    refine (paired_nextItem trivial hi).at_setting.bind fun σ hσ item item' hitem => ?_
    cases hitem with
    | none => exact .pure ⟨.completed .none, hmono hσ⟩
    | some hitem =>
      refine (lockstep_call (hσ hf) (.cons hitem .nil)).bind fun τ hτ value value' hv => ?_
      exact .pure ⟨.yielded hv, hmono (Renaming.le_trans hσ hτ)⟩
  | callUntil hf hsentinel =>
    refine (lockstep_call hf .nil).bind fun σ hσ value value' hv => ?_
    refine (paired_valuesEqual hv (hσ hsentinel)).at_setting.bindSame fun τ hτ _ => ?_
    have hle := Renaming.le_trans hσ hτ
    exact .ite Iff.rfl (fun _ => .pure ⟨.completed .none, hmono hle⟩) fun _ =>
      .pure ⟨.yielded (hτ hv), hmono hle⟩
  | script steps ending position hh hframe =>
    have hstep : S.numbers ∨
        ∀ taken ∈ Script.stepAt? steps ending position, taken.discreet = true :=
      hd.imp_right fun h taken ht => h taken (Script.mem_of_stepAt? ht)
    refine (Script.Step.lockstep_run _ hstep hframe).bind fun σ hσ r r' hr => ?_
    exact .pure ⟨hr.1, .script steps ending (position + 1) (all hσ hh) hr.2⟩

end ObjectModel
