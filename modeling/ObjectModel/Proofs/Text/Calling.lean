import ObjectModel.Proofs.Calls.Methods
import ObjectModel.Proofs.Data.Literals
import ObjectModel.Proofs.Ranges.Iteration

/-!
# Calling a member on texts

A member is run by calling the function that was placed for it, or as a method of its first
argument. Either way it runs in a state that has all the objects that were there before.

* `State.Invokes` -- **the ways to run a member**, with the number of levels that they take.
-/

namespace ObjectModel

variable {s t u : State} {x : Run Handle} {args : List Handle} {depth n : Nat} {m : Member}
  {c h : Handle} {made : Object} {text : String} {e : Engine}
variable {o : Outcome (Except Fault Handle)}

/-! ## 1. Ways to run a member -/

/-- **The ways to run a member** with these arguments, and the levels that they take: a call of the
function that was placed for it, or a method call on the first argument, if nothing shadows the
member. -/
inductive State.Invokes (s : State) (m : Member) : List Handle → Nat → Run Handle → Prop where
  | function {f : Handle} {o : Object} {label : String} {args : List Handle} :
      s.heap.get? f = some o → o.payload = .function label (.member m) → 1 ≤ s.levels →
      Invokes s m args 1 (call f args)
  | method {c : Handle} {args : List Handle} : s.heap.lookup c m.name = some none →
      s.heap.Answers c m.name m → 2 ≤ s.levels →
      Invokes s m (c :: args) 2 (callMethod c m.name args)

/-- **The state that a member runs in**, so many levels down: no object is lost. -/
structure State.Entered (s : State) (depth : Nat) (t : State) : Prop where
  kept : s.heap.KeptIn t.heap
  wellFormed : t.heap.WellFormed
  native : s.Native → t.Native
  callDepth_eq : t.callDepth = s.callDepth + depth
  limits_eq : t.limits = s.limits

/-- **Both ways come down to the member.** -/
theorem State.Invokes.exec (hx : s.Invokes m args depth x) (hw : s.heap.WellFormed) (n : Nat) :
    ∃ t, s.Entered depth t ∧
      x.exec (n + depth) s = ((m.run args).run.run (engine n) t).onState (·.up depth) := by
  cases hx with
  | @function f o label args hget hp hlevels =>
    refine ⟨s.enter, ⟨id, hw, Native.enter, rfl, rfl⟩, ?_⟩
    exact run_call (room_of_levels hlevels) hget hp
  | @method c args hlookup hanswers hlevels =>
    obtain ⟨f, o, label, hhook, hget, hp⟩ := hanswers
    have hkept : s.heap.KeptIn (s.allocate (.ofBound c f)).2.heap := Heap.get?_allocate_of_live hw
    have hentered : s.Entered 2 (s.allocate (.ofBound c f)).2.enter.enter :=
      ⟨hkept, hw.allocate _, fun hs => (hs.grows_allocate (.bound c f)).native.enter.enter, rfl,
        rfl⟩
    have hroom : (s.allocate (.ofBound c f)).2.enter.callDepth
        < (s.allocate (.ofBound c f)).2.enter.limits.callDepth := by
      change s.callDepth + 1 < s.limits.callDepth
      unfold levels at hlevels
      omega
    have hcall : (call f (c :: args)).exec (n + 1) (s.allocate (.ofBound c f)).2.enter = _ :=
      run_call (s := (s.allocate (.ofBound c f)).2.enter) hroom (hkept hget) hp
    refine ⟨_, hentered, (run_callMethod_bound hw hlookup hhook hget hp args).trans ?_⟩
    rw [hcall]
    exact Outcome.onState_onState _ _ _

/-! ## 2. What comes back -/

/-- A number that is given from a later state on. -/
theorem Outcome.Gives.back {answer : Except String Int64} (ho : o.Gives t answer)
    (hkept : s.heap.KeptIn t.heap) : o.Gives s answer := by
  cases ho with
  | number hfresh hget hk =>
    exact .number (Heap.fresh_of_kept hkept hfresh) hget fun k o ho => hk k o (hkept ho)
  | refused htext hcarries hk => exact .refused htext hcarries fun k o ho => hk k o (hkept ho)

/-- **The program ends with a new object.** All other objects stay as they are. -/
def Outcome.Brings (s : State) (object : Object) (o : Outcome (Except Fault Handle)) : Prop :=
  ∃ h t, o = .done (.ok h) t ∧ s.heap.get? h = none ∧ t.heap.get? h = some object ∧
    s.heap.KeptIn t.heap

theorem Outcome.Brings.allocate (hw : s.heap.WellFormed) (object : Object) :
    ((ObjectModel.allocate object).run.run e s).Brings s object :=
  ⟨_, _, rfl, Heap.get?_allocate_fresh hw _, Heap.get?_allocate_self hw _,
    Heap.get?_allocate_of_live hw⟩

namespace State.Entered

theorem brings (ht : s.Entered depth t) (ho : o.Brings t made) :
    (o.onState (·.up depth)).Brings s made := by
  obtain ⟨h, u, rfl, hfresh, hget, hkept⟩ := ho
  exact ⟨h, u.up depth, rfl, Heap.fresh_of_kept ht.kept hfresh, hget, fun hk => hkept (ht.kept hk)⟩

theorem gives {answer : Except String Int64} (ht : s.Entered depth t) (ho : o.Gives t answer) :
    (o.onState (·.up depth)).Gives s answer := by
  cases ho.back ht.kept with
  | number hfresh hget hkept => exact .number hfresh hget hkept
  | refused htext hcarries hkept => exact .refused htext (hcarries.congr rfl) hkept

end State.Entered

/-! ## 3. Arguments -/

/-- `h` is the text `text`. -/
def State.IsText (s : State) (h : Handle) (text : String) : Prop :=
  ∃ o, s.heap.get? h = some o ∧ o.payload = .str text

namespace State.IsText

theorem of_kept (hi : s.IsText h text) (hk : s.heap.KeptIn t.heap) : t.IsText h text := by
  obtain ⟨o, hget, hp⟩ := hi
  exact ⟨o, hk hget, hp⟩

theorem run_textValue (hi : s.IsText h text) (e : Engine) :
    (textValue h).run.run e s = .done (.ok (some text)) s := by
  obtain ⟨o, hget, hp⟩ := hi
  have hvalue : o.textValue = some text := by rw [Object.textValue, hp]
  refine (run_object_bind hget).trans ?_
  rw [hvalue]
  rfl

theorem run_textReceiver (hi : s.IsText h text) (name : String) (e : Engine) :
    (textReceiver name h).run.run e s = .done (.ok text) s := Run.run_bind_ok (hi.run_textValue e)

theorem run_textArgument (hi : s.IsText h text) (name argument : String) (e : Engine) :
    (textArgument name argument h).run.run e s = .done (.ok text) s :=
  Run.run_bind_ok (hi.run_textValue e)

end State.IsText

theorem State.IsInt.run_intArgument {i : Int64} (hi : s.IsInt h i) (name argument : String)
    (e : Engine) : (intArgument name argument h).run.run e s = .done (.ok i) s :=
  Run.run_bind_ok (hi.run_intValue e)

/-! ## 4. New texts -/

theorem StrMember.mem_all (m : StrMember) : Member.str m ∈ Member.all := by
  cases m with
  | compare c => cases c <;> decide
  | _ => decide

/-- A member of `str` can be called as a method of a new text. -/
theorem State.Native.invokes_text (hs : s.Native) (hget : s.heap.get? c = some (.ofText text))
    (m : StrMember) (args : List Handle) (hlevels : 2 ≤ s.levels) :
    s.Invokes (.str m) (c :: args) 2 (callMethod c (Member.str m).name args) := by
  refine .method (Heap.lookup_of_base_none hget rfl _) ?_ hlevels
  exact .of_offers hs.orderly.heap hget (hs.orderly.heap.isType_builtin .str)
    (hs.unaltered.offers (.str m) m.mem_all)

end ObjectModel
