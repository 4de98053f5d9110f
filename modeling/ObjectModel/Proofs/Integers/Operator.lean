import ObjectModel.Proofs.Data.Literals
import ObjectModel.Proofs.Integers.Arithmetic

/-!
# Operators on integers

An operator on two objects of type `int` is answered by the member of `int` for it, one level down.

* `BinaryOp.exactValue`, `BinaryOp.Refuses` -- **the exact value of an operator**, where it has one,
  and the operands that are refused although their value is in the range.
-/

namespace ObjectModel

/-! ## 1. Members of a type -/

/-- **The members of `t` are where they were placed.** -/
def Heap.Provides (heap : Heap) (t : BuiltinType) : Prop :=
  ∀ m ∈ Member.all, m.owner = t →
    Bootstrap.Offers heap t.handle m.name (.function m.qualifiedName (.member m))

instance (heap : Heap) (t : BuiltinType) : Decidable (heap.Provides t) :=
  inferInstanceAs (Decidable (∀ m ∈ Member.all, m.owner = t →
    Bootstrap.Offers heap t.handle m.name (.function m.qualifiedName (.member m))))

theorem Heap.Unaltered.provides {heap : Heap} (hu : heap.Unaltered) (t : BuiltinType) :
    heap.Provides t := by
  rintro m hm rfl
  exact hu.offers m hm

theorem Heap.Provides.allocate {heap : Heap} {t : BuiltinType} (hp : heap.Provides t)
    (hw : heap.WellFormed) (object : Object) : (heap.allocate object).2.Provides t :=
  fun m hm ht => (hp m hm ht).allocate hw object

theorem Heap.Provides.answers {heap : Heap} {t : BuiltinType} {bound : Nat} {h : Handle}
    {o : Object} (hp : heap.Provides t) (ho : heap.Orderly bound) (hget : heap.get? h = some o)
    (ht : o.type = t.handle) {m : Member} (hm : m ∈ Member.all) (howner : m.owner = t) :
    heap.Answers h m.name m :=
  .of_offers ho hget (ht ▸ ho.isType_builtin t) (ht ▸ hp m hm howner)

theorem IntMember.mem_all (m : IntMember) : Member.int m ∈ Member.all := by
  cases m with
  | binary op => cases op <;> decide
  | _ => decide

section

variable {s t : State} {h left right : Handle} {l r n : Int64} {e : Engine}

/-! ## 2. Hooks -/

/-- A hook that does not decline: what the member gives, one level down. -/
theorem run_askHook_bind {name : String} {args : List Handle} {m : Member} {bound : Nat}
    {next : Option Handle → Run Handle} (hnext : ∀ a, next (some a) = pure a)
    (hm : s.heap.Answers h name m) (hroom : s.Room) (hne : ∀ a t, (m.run args).run.run
      (engine bound) s.enter = .done (.ok a) t → a ≠ .notImplemented) :
    (askHook h name args >>= next).run.run (engine (bound + 1)) s
      = ((m.run args).run.run (engine bound) s.enter).onState State.leave := by
  obtain ⟨f, o, label, hhook, hget, hp⟩ := hm
  have hcall : (call f args).run.run (engine (bound + 1)) s
      = ((m.run args).run.run (engine bound) s.enter).onState State.leave :=
    run_call hroom hget hp
  unfold askHook
  rw [bind_assoc]
  refine (@Run.run_inspect_bind _ _ _ s (fun s => s.heap.hook h name) _ _ hhook).trans ?_
  dsimp only
  rw [bind_assoc, ExceptT.run_bind, Program.run_bind, hcall]
  cases hrun : (m.run args).run.run (engine bound) s.enter with
  | aborted reason t => rfl
  | done answer t =>
    cases answer with
    | error fault => rfl
    | ok a =>
      have hkeep : (if a = .notImplemented then none else some a) = some a := if_neg (hne a t hrun)
      show ((pure (if a = .notImplemented then none else some a) : Run (Option Handle))
        >>= next).run.run _ t.leave = _
      rw [pure_bind, hkeep, hnext]
      rfl

/-! ## 3. Numbers and refusals -/

/-- `h` is the integer `n`. -/
def State.IsInt (s : State) (h : Handle) (n : Int64) : Prop :=
  ∃ o, s.heap.get? h = some o ∧ o.payload = .int n

theorem State.IsInt.of_kept {t : State} (hi : s.IsInt h n) (hk : s.heap.KeptIn t.heap) :
    t.IsInt h n := by
  obtain ⟨o, hget, hp⟩ := hi
  exact ⟨o, hk hget, hp⟩

theorem State.IsInt.run_intValue (hi : s.IsInt h n) (e : Engine) :
    (intValue h).run.run e s = .done (.ok (some n)) s := by
  obtain ⟨o, hget, hp⟩ := hi
  have hvalue : o.intValue = some n := by rw [Object.intValue, hp]
  refine (run_object_bind hget).trans ?_
  rw [hvalue]
  rfl

theorem State.IsInt.run_intReceiver (hi : s.IsInt h n) (name : String) (e : Engine) :
    (intReceiver name h).run.run e s = .done (.ok n) s := Run.run_bind_ok (hi.run_intValue e)

/-- **A program that computes a number** from the state `s` ends with a new object for it, or with a
`ValueError`. Nothing else changes. -/
inductive Outcome.Gives (s : State) :
    Except String Int64 → Outcome (Except Fault Handle) → Prop where
  | number {n : Int64} {h : Handle} {t : State} : s.heap.get? h = none →
      t.heap.get? h = some (.ofInt n) → (∀ k o, s.heap.get? k = some o → t.heap.get? k = some o) →
      Gives s (.ok n) (.done (.ok h) t)
  | refused {message : String} {fault : Fault} {text : Handle} {t : State} :
      t.heap.get? text = some (.ofText message) → Fault.Carries t .valueError [text] fault →
      (∀ k o, s.heap.get? k = some o → t.heap.get? k = some o) →
      Gives s (.error message) (.done (.error fault) t)

namespace Outcome.Gives

theorem leave {answer : Except String Int64} {o : Outcome (Except Fault Handle)}
    (h : Gives s.enter answer o) : Gives s answer (o.onState State.leave) := by
  cases h with
  | number hfresh hget hkept => exact .number hfresh hget hkept
  | refused htext hcarries hkept => exact .refused htext (hcarries.congr rfl) hkept

theorem newInt (hw : s.heap.WellFormed) (n : Int64) :
    Gives s (.ok n) ((ObjectModel.newInt n).run.run e s) := by
  have hrun : (ObjectModel.newInt n).run.run e s
      = .done (.ok (s.allocate (.ofInt n)).1) (s.allocate (.ofInt n)).2 := rfl
  rw [hrun]
  exact .number (Heap.get?_allocate_fresh hw _) (Heap.get?_allocate_self hw _) fun k o hk =>
    Heap.get?_allocate_of_live hw hk

theorem valueError (hw : s.heap.WellFormed) (message : String) :
    Gives s (.error message) ((ObjectModel.valueError message : Run Handle).run.run e s) := by
  obtain ⟨fault, u, text, hrun, hkept, htext, hcarries⟩ :=
    run_raiseMessage (α := Handle) hw .valueError message e
  have hrun : (ObjectModel.valueError message : Run Handle).run.run e s = .done (.error fault) u :=
    hrun
  rw [hrun]
  exact .refused htext hcarries fun k o hk => hkept hk

/-- The value of a checked operation, or the text of its refusal. -/
theorem inRange (hw : s.heap.WellFormed) (symbol : String) (value : Option Int64) :
    Gives s (value.elim (.error ("integer overflow in `" ++ symbol ++ "`")) .ok)
      ((ObjectModel.inRange symbol value).run.run e s) := by
  cases value with
  | some n => exact newInt hw n
  | none => exact valueError hw _

end Outcome.Gives

/-! ## 4. From the operators to the members -/

/-- **Two integers** in a state that has room for one call more, with the members of `int` where
they were placed. -/
structure State.Operands (s : State) (left right : Handle) (l r : Int64) : Prop where
  orderly : s.Orderly
  singles : s.heap.Singles
  provides : s.heap.Provides .int
  room : s.callDepth < s.limits.callDepth
  left : s.IsInt left l
  right : s.IsInt right r

namespace State.Operands

theorem of_reachable (hs : s.Reachable) (hp : s.heap.Provides .int) (hroom : s.Room)
    (hl : s.IsInt left l) (hr : s.IsInt right r) : s.Operands left right l r :=
  ⟨hs.orderly, hs.singles, hp, hroom, hl, hr⟩

variable {bound : Nat}

theorem wellFormed (hs : s.Operands left right l r) : s.enter.heap.WellFormed :=
  hs.orderly.regular.heap

theorem answers (hs : s.Operands left right l r) (m : IntMember) :
    s.heap.Answers left m.name (.int m) := by
  obtain ⟨o, hget, hp⟩ := hs.left
  exact hs.provides.answers hs.orderly.heap hget (hs.orderly.heap.kind hget (by rw [hp]; rfl))
    m.mem_all rfl

theorem ne_declined (hs : s.Operands left right l r) (hfresh : s.heap.get? h = none) :
    h ≠ .notImplemented := by
  obtain ⟨o, hget, _⟩ := hs.singles .notImplemented .notImplemented rfl
  rintro rfl
  rw [hget] at hfresh
  cases hfresh

theorem run_intBinary (hs : s.Operands left right l r) (name : String)
    (op : Int64 → Int64 → Run Handle) (e : Engine) :
    (intBinary name op [left, right]).run.run e s.enter = (op l r).run.run e s.enter := by
  refine (Run.run_bind_ok (State.IsInt.run_intReceiver (s := s.enter) hs.left name e)).trans ?_
  exact Run.run_bind_ok (State.IsInt.run_intValue (s := s.enter) hs.right e)

/-- **A hook that is answered by a member of `int`** with a new object or a fault. -/
theorem run_hook (hs : s.Operands left right l r) (m : IntMember) {args : List Handle}
    {next : Option Handle → Run Handle} (hnext : ∀ a, next (some a) = pure a) (hnew : ∀ a t,
      (m.run args).run.run (engine bound) s.enter = .done (.ok a) t → s.heap.get? a = none) :
    (askHook left m.name args >>= next).run.run (engine (bound + 1)) s
      = ((m.run args).run.run (engine bound) s.enter).onState State.leave :=
  run_askHook_bind hnext (hs.answers m) hs.room fun a t ha => hs.ne_declined (hnew a t ha)

theorem fresh_of_gives {answer : Except String Int64} {o : Outcome (Except Fault Handle)}
    (hg : o.Gives s.enter answer) {a : Handle} (ho : o = .done (.ok a) t) :
    s.heap.get? a = none := by
  cases hg with
  | number hfresh _ _ =>
    cases ho
    exact hfresh
  | refused => cases ho

/-- **A binary operator** gives what its operation gives. -/
theorem run_binaryOp (hs : s.Operands left right l r) {op : BinaryOp} {answer : Except String Int64}
    (hg : ((intOp op l r).run.run (engine bound) s.enter).Gives s.enter answer) :
    ((binaryOp op left right).exec (bound + 1) s).Gives s answer := by
  rw [← hs.run_intBinary op.hooks.forward] at hg
  have hrun : (binaryOp op left right).exec (bound + 1) s
      = (((IntMember.binary op).run [left, right]).run.run (engine bound) s.enter).onState
          State.leave := by
    unfold binaryOp askHooks
    rw [Run.exec, bind_assoc]
    exact hs.run_hook (.binary op) (fun _ => rfl) fun a t ha => fresh_of_gives hg ha
  rw [hrun]
  exact hg.leave

/-- **Negation** gives what it gives on the integer. -/
theorem run_negate (hs : s.Operands left right l r) (bound : Nat) :
    ((negate left).exec (bound + 1) s).Gives s
      ((Arithmetic.neg? l).elim (.error "integer overflow in `-`") .ok) := by
  have hg : ((IntMember.neg.run [left]).run.run (engine bound) s.enter).Gives s.enter
      ((Arithmetic.neg? l).elim (.error "integer overflow in `-`") .ok) := by
    have hl : (intReceiver "int.__neg__" left).run.run (engine bound) s.enter
        = .done (.ok l) s.enter :=
      State.IsInt.run_intReceiver (s := s.enter) hs.left _ _
    have hmember : (IntMember.neg.run [left]).run.run (engine bound) s.enter
        = (inRange "-" (Arithmetic.neg? l)).run.run (engine bound) s.enter := Run.run_bind_ok hl
    rw [hmember]
    exact .inRange hs.wellFormed "-" (Arithmetic.neg? l)
  have hrun : (negate left).exec (bound + 1) s
      = ((IntMember.neg.run [left]).run.run (engine bound) s.enter).onState State.leave :=
    hs.run_hook .neg (fun _ => rfl) fun a t ha => fresh_of_gives hg ha
  rw [hrun]
  exact hg.leave

end State.Operands

end

/-! ## 5. Exact values -/

namespace BinaryOp

/-- The operators that compute a number. -/
def arithmetic : List BinaryOp := [add, sub, mul, floorDiv, mod, pow]

/-- **The exact value of an operator**, where it is defined: quotients are rounded toward the floor,
remainders belong to them, and powers have exponents that are not negative. -/
def exactValue : BinaryOp → Int → Int → Option Int
  | add, l, r => some (l + r)
  | sub, l, r => some (l - r)
  | mul, l, r => some (l * r)
  | floorDiv, l, r => if r = 0 then none else some (l.fdiv r)
  | mod, l, r => if r = 0 then none else some (l.fmod r)
  | pow, l, r => if r < 0 then none else some (l.pow r.toNat)
  | _, _, _ => none

/-- The text of the `ValueError` of an operator with the right operand `r`. -/
def complaint (op : BinaryOp) (r : Int64) : String :=
  if (op = floorDiv ∨ op = mod) ∧ r = 0 then "integer division or modulo by zero"
  else if op = pow ∧ r < 0 then "negative exponents are not supported"
  else "integer overflow in `" ++ op.symbol ++ "`"

/-- The exact value if it is defined and in the range, else the text of a refusal. -/
def answer (op : BinaryOp) (l r : Int64) : Except String Int64 :=
  ((op.exactValue l.toInt r.toInt).bind Arithmetic.fit?).elim (.error (op.complaint r)) .ok

/-- **The operands that are refused although the exact value is in the range**: the remainder of the
least integer by -1, because the truncated quotient is not, and the powers of -1, 0 and 1 whose
exponent has more than 32 bits. -/
inductive Refuses : BinaryOp → Int64 → Int64 → Prop where
  | mod : Refuses mod Int64.minValue (-1)
  | pow {l r : Int64} : l.toInt.natAbs ≤ 1 → Arithmetic.exponentLimit ≤ r.toInt.toNat →
      Refuses pow l r

variable {op : BinaryOp} {l r : Int64}

theorem answer_of_some {n : Int} (h : op.exactValue l.toInt r.toInt = some n) :
    op.answer l r = (Arithmetic.fit? n).elim (.error (op.complaint r)) .ok := by
  rw [answer, h, Option.bind_some]

theorem answer_of_none (h : op.exactValue l.toInt r.toInt = none) :
    op.answer l r = .error (op.complaint r) := by
  rw [answer, h, Option.bind_none]
  rfl

theorem exactValue_floorDiv (hr : r ≠ 0) :
    floorDiv.exactValue l.toInt r.toInt = some (l.toInt.fdiv r.toInt) :=
  if_neg fun h => hr (Arithmetic.toInt_eq_zero_iff.mp h)

theorem exactValue_mod (hr : r ≠ 0) :
    mod.exactValue l.toInt r.toInt = some (l.toInt.fmod r.toInt) :=
  if_neg fun h => hr (Arithmetic.toInt_eq_zero_iff.mp h)

theorem exactValue_pow (hr : ¬ r < 0) :
    pow.exactValue l.toInt r.toInt = some (l.toInt.pow r.toInt.toNat) :=
  if_neg fun h => hr (Arithmetic.toInt_neg_iff.mpr h)

theorem exactValue_pow_neg (hr : r < 0) : pow.exactValue l.toInt r.toInt = none :=
  if_pos (Arithmetic.toInt_neg_iff.mp hr)

theorem complaint_of_ne_zero (hr : r ≠ 0) (hp : op ≠ pow) :
    op.complaint r = "integer overflow in `" ++ op.symbol ++ "`" := by
  unfold complaint
  rw [if_neg fun h => hr h.2, if_neg fun h => hp h.1]

theorem complaint_pow :
    pow.complaint r = if r < 0 then "negative exponents are not supported"
      else "integer overflow in `**`" := by
  have hne : ¬ ((pow = floorDiv ∨ pow = mod) ∧ r = 0) := fun h => absurd h.1 (by decide)
  unfold complaint
  rw [if_neg hne]
  exact if_congr (and_iff_right rfl) rfl rfl

theorem not_neg_of_limit_le (hr : Arithmetic.exponentLimit ≤ r.toInt.toNat) : ¬ r < 0 := by
  rw [Arithmetic.toInt_neg_iff]
  intro hneg
  rw [Int.toNat_of_nonpos (Int.le_of_lt hneg)] at hr
  exact absurd hr (by decide)

/-- What is refused has a value. -/
theorem Refuses.answer_eq (h : op.Refuses l r) : ∃ n, op.answer l r = .ok n := by
  cases h with
  | mod => exact ⟨0, by decide⟩
  | pow hl hr =>
    obtain ⟨n, hn⟩ := Arithmetic.fit?_pow_of_small hl r.toInt.toNat
    refine ⟨n, ?_⟩
    rw [answer_of_some (exactValue_pow (not_neg_of_limit_le hr)), hn]
    rfl

end BinaryOp

section

variable {s : State} {op : BinaryOp} {l r : Int64} {e : Engine}

theorem nonZero_zero_bind (rest : Unit → Run Handle) :
    nonZero 0 >>= rest = valueError "integer division or modulo by zero" := by
  unfold nonZero
  rw [if_pos rfl, valueError, raiseMessage_bind]
  rfl

theorem nonZero_bind (hr : r ≠ 0) (rest : Unit → Run Handle) : nonZero r >>= rest = rest () := by
  unfold nonZero
  rw [if_neg hr, pure_bind]

theorem gives_by_zero (hw : s.heap.WellFormed) (l : Int64) (hop : op = .floorDiv ∨ op = .mod) :
    ((intOp op l 0).run.run e s).Gives s (.error "integer division or modulo by zero") := by
  have hrun : ∀ rest : Unit → Run Handle, ((nonZero 0 >>= rest).run.run e s).Gives s
      (.error "integer division or modulo by zero") := by
    intro rest
    rw [nonZero_zero_bind]
    exact .valueError hw _
  rcases hop with rfl | rfl
  · exact hrun _
  · exact hrun _

theorem gives_floorDiv (hw : s.heap.WellFormed) (hr : r ≠ 0) (l : Int64) :
    ((intOp .floorDiv l r).run.run e s).Gives s
    ((Arithmetic.floorDiv? l r).elim (.error "integer overflow in `//`") .ok) := by
  have hop : intOp .floorDiv l r = inRange "//" (Arithmetic.floorDiv? l r) := nonZero_bind hr _
  rw [hop]
  exact .inRange hw "//" _

theorem gives_mod (hw : s.heap.WellFormed) (hr : r ≠ 0) (l : Int64) :
    ((intOp .mod l r).run.run e s).Gives s
    ((Arithmetic.floorMod? l r).elim (.error "integer overflow in `%`") .ok) := by
  have hop : intOp .mod l r = inRange "%" (Arithmetic.floorMod? l r) := nonZero_bind hr _
  rw [hop]
  exact .inRange hw "%" _

/-- **The operations on two integers give the exact value**, unless they refuse it. -/
theorem gives_intOp (hw : s.heap.WellFormed) (hop : op ∈ BinaryOp.arithmetic)
    (hn : ¬ op.Refuses l r) : ((intOp op l r).run.run e s).Gives s (op.answer l r) := by
  cases op with
  | add => exact .inRange hw "+" (Arithmetic.add? l r)
  | sub => exact .inRange hw "-" (Arithmetic.sub? l r)
  | mul => exact .inRange hw "*" (Arithmetic.mul? l r)
  | floorDiv =>
    by_cases hr : r = 0
    · subst hr
      exact gives_by_zero hw l (Or.inl rfl)
    · rw [BinaryOp.answer_of_some (BinaryOp.exactValue_floorDiv hr), ← Arithmetic.floorDiv?_eq hr,
        BinaryOp.complaint_of_ne_zero hr (by decide)]
      exact gives_floorDiv hw hr l
  | mod =>
    by_cases hr : r = 0
    · subst hr
      exact gives_by_zero hw l (Or.inr rfl)
    · have hd : Arithmetic.divides l r = true :=
        Arithmetic.divides_iff.mpr ⟨hr, fun ⟨hl, hr⟩ => hn (hl ▸ hr ▸ .mod)⟩
      rw [BinaryOp.answer_of_some (BinaryOp.exactValue_mod hr), ← Arithmetic.floorMod?_eq hd,
        BinaryOp.complaint_of_ne_zero hr (by decide)]
      exact gives_mod hw hr l
  | pow =>
    show ((if r < 0 then valueError "negative exponents are not supported"
      else inRange "**" (Arithmetic.pow? l r.toInt.toNat)).run.run e s).Gives s _
    by_cases hr : r < 0
    · rw [BinaryOp.answer_of_none (BinaryOp.exactValue_pow_neg hr), BinaryOp.complaint_pow,
        if_pos hr, if_pos hr]
      exact .valueError hw _
    · have hpow : Arithmetic.pow? l r.toInt.toNat
          = Arithmetic.fit? (l.toInt.pow r.toInt.toNat) := by
        by_cases he : r.toInt.toNat < Arithmetic.exponentLimit
        · exact Arithmetic.pow?_eq he l
        · -- the exponent is too large, but then the value is so too
          have he := Nat.le_of_not_lt he
          have hl : ¬ l.toInt.natAbs ≤ 1 := fun hl => hn (.pow hl he)
          have hlarge :=
            Arithmetic.natAbs_pow_large (Nat.lt_of_not_le hl) (Nat.le_trans (by decide) he)
          rw [Arithmetic.pow?_of_limit_le he]
          exact (Arithmetic.fit?_eq_none_iff.mpr (by omega)).symm
      rw [BinaryOp.answer_of_some (BinaryOp.exactValue_pow hr), BinaryOp.complaint_pow, if_neg hr,
        if_neg hr, ← hpow]
      exact .inRange hw "**" _
  | _ => exact absurd hop (by decide)

/-- What is refused is taken for a value out of the range. -/
theorem gives_intOp_refused (hw : s.heap.WellFormed) (h : op.Refuses l r) :
    ((intOp op l r).run.run e s).Gives s
      (.error ("integer overflow in `" ++ op.symbol ++ "`")) := by
  cases h with
  | mod =>
    have hnone : Arithmetic.floorMod? Int64.minValue (-1) = none := by decide
    have hgives : ((intOp .mod Int64.minValue (-1)).run.run e s).Gives s _ :=
      gives_mod hw (by decide) Int64.minValue
    rw [hnone] at hgives
    exact hgives
  | pow hl hr =>
    show ((if r < 0 then valueError "negative exponents are not supported"
      else inRange "**" (Arithmetic.pow? l r.toInt.toNat)).run.run e s).Gives s _
    rw [if_neg (BinaryOp.not_neg_of_limit_le hr), Arithmetic.pow?_of_limit_le hr]
    exact .valueError hw _

end

/-- **Arithmetic on integers is exact.** In every state of a session, with the members of `int`
where they were placed and room for one call more, an operator on two integers ends with a new
object for the exact value if it is defined and in the range, and with a `ValueError` if not; so
does the negation of one. The operands that `BinaryOp.Refuses` lists are refused although their
value is in the range. -/
theorem State.integers_exact {s : State} {left right : Handle} {l r : Int64} (hs : s.Reachable)
    (hp : s.heap.Provides .int) (hroom : s.callDepth < s.limits.callDepth) (hl : s.IsInt left l)
    (hr : s.IsInt right r) (n : Nat) :
    (∀ op ∈ BinaryOp.arithmetic,
      (¬ op.Refuses l r → ((binaryOp op left right).exec (n + 1) s).Gives s (op.answer l r)) ∧
      (op.Refuses l r → (∃ v, op.answer l r = .ok v) ∧
        ((binaryOp op left right).exec (n + 1) s).Gives s
          (.error ("integer overflow in `" ++ op.symbol ++ "`")))) ∧
    ((negate left).exec (n + 1) s).Gives s
      ((Arithmetic.fit? (-l.toInt)).elim (.error "integer overflow in `-`") .ok) := by
  have hoperands := State.Operands.of_reachable hs hp hroom hl hr
  refine ⟨fun op hop => ⟨fun hn => ?_, fun hrefuses => ⟨hrefuses.answer_eq, ?_⟩⟩,
    hoperands.run_negate n⟩
  · exact hoperands.run_binaryOp (gives_intOp hoperands.wellFormed hop hn)
  · exact hoperands.run_binaryOp (gives_intOp_refused hoperands.wellFormed hrefuses)

theorem State.exists_operands (l r : Int64) :
    ∃ (s : State) (left right : Handle), s.Reachable ∧ s.heap.Provides .int ∧
    s.callDepth < s.limits.callDepth ∧ s.IsInt left l ∧ s.IsInt right r := by
  obtain ⟨s, _, hs, hu, hlevels, _ | ⟨hl, _ | ⟨hr, _⟩⟩⟩ := State.exists_literals [.int l, .int r]
  exact ⟨s, _, _, hs, hu.provides .int, room_of_levels (by rw [hlevels]; decide), ⟨_, hl, rfl⟩,
    _, hr, rfl⟩

/-- `(-7) ** 2` is 49 and `(-7) % 2` is 1; `(-1) ** 4294967296` is refused. -/
theorem State.integers_exact_powers :
    (∃ (s : State) (left right : Handle), s.Reachable ∧ s.IsInt left (-7) ∧ s.IsInt right 2 ∧
      ((binaryOp .pow left right).exec 1 s).Gives s (.ok 49) ∧
      ((binaryOp .mod left right).exec 1 s).Gives s (.ok 1) ∧
      ((negate left).exec 1 s).Gives s (.ok 7)) ∧
    ∃ (s : State) (left right : Handle), s.Reachable ∧ s.IsInt left (-1) ∧
      s.IsInt right 4294967296 ∧
      BinaryOp.pow.answer (-1) 4294967296 = .ok 1 ∧
      ((binaryOp .pow left right).exec 1 s).Gives s (.error "integer overflow in `**`") := by
  constructor
  · obtain ⟨s, left, right, hs, hp, hroom, hl, hr⟩ := State.exists_operands (-7) 2
    obtain ⟨hbinary, hneg⟩ := State.integers_exact hs hp hroom hl hr 0
    have hpow : ¬ BinaryOp.pow.Refuses (-7) 2 := by
      intro h
      cases h with
      | pow hl _ => exact absurd hl (by decide)
    have hmod : ¬ BinaryOp.mod.Refuses (-7) 2 := by
      intro h
      cases h
    exact ⟨s, left, right, hs, hl, hr, (hbinary .pow (by decide)).1 hpow,
      (hbinary .mod (by decide)).1 hmod, hneg⟩
  · obtain ⟨s, left, right, hs, hp, hroom, hl, hr⟩ := State.exists_operands (-1) 4294967296
    have hrefuses : BinaryOp.pow.Refuses (-1) 4294967296 := .pow (by decide) (by decide)
    have hvalue : BinaryOp.pow.answer (-1) 4294967296 = .ok 1 := by
      rw [BinaryOp.answer_of_some (BinaryOp.exactValue_pow
        (BinaryOp.not_neg_of_limit_le (by decide))), ← Arithmetic.pow_parityExponent (by decide)]
      decide
    exact ⟨s, left, right, hs, hl, hr, hvalue,
      (((State.integers_exact hs hp hroom hl hr 0).1 .pow (by decide)).2 hrefuses).2⟩

/-- **A remainder that is in the range and refused**: that of the least integer by -1 is zero. -/
theorem State.remainder_refused :
    ∃ (s : State) (left right : Handle), s.Reachable ∧ s.heap.Provides .int ∧
      s.callDepth < s.limits.callDepth ∧
      s.IsInt left Int64.minValue ∧ s.IsInt right (-1) ∧
      BinaryOp.mod.exactValue Int64.minValue.toInt (-1 : Int64).toInt = some 0 ∧
      ((binaryOp .mod left right).exec 1 s).Gives s (.error "integer overflow in `%`") := by
  obtain ⟨s, left, right, hs, hp, hroom, hl, hr⟩ := State.exists_operands Int64.minValue (-1)
  have hoperands := State.Operands.of_reachable hs hp hroom hl hr
  exact ⟨s, left, right, hs, hp, hroom, hl,
    hr, by decide, hoperands.run_binaryOp (gives_intOp_refused hoperands.wellFormed .mod)⟩

end ObjectModel
