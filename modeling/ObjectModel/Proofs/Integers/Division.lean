import ObjectModel.Proofs.Integers.Operator

/-!
# The law of division

`//`, `%` and `divmod` of two integers belong together.

* `State.division_law` -- **quotient and remainder are those of the floor division**, by whichever
  way they are asked for; a divisor of zero is refused by all three, and so is the one quotient that
  leaves the range.
-/

namespace ObjectModel

/-- **A program that computes two numbers** ends with a new pair of them. Nothing else changes. -/
inductive Outcome.Pairs (s : State) (q m : Int64) : Outcome (Except Fault Handle) → Prop where
  | pair {h a b : Handle} {t : State} : s.heap.get? h = none → t.heap.get? h
      = some (.ofItems [a, b]) → t.heap.get? a = some (.ofInt q) → t.heap.get? b = some (.ofInt m) →
      (∀ k o, s.heap.get? k = some o → t.heap.get? k = some o) → Pairs s q m (.done (.ok h) t)

section

variable {s t : State} {left right : Handle} {l r q m : Int64} {e : Engine} {bound : Nat}

/-! ## 1. The member -/

theorem run_allocate {object : Object} {h : Handle} (hs : s.allocate object = (h, t)) (e : Engine) :
    (allocate object).run.run e s = .done (.ok h) t := by
  have hrun : (allocate object).run.run e s
      = .done (.ok (s.allocate object).1) (s.allocate object).2 := rfl
  rw [hrun, hs]

/-- Both numbers exist: the member makes them and then the pair. -/
theorem pairs_intDivmod (hw : s.heap.WellFormed) (hr : r ≠ 0)
    (hq : Arithmetic.floorDiv? l r = some q) (hm : Arithmetic.floorMod? l r = some m) (e : Engine) :
    ((intDivmod l r).run.run e s).Pairs s q m := by
  obtain ⟨a, s₁, hs₁, hp₁⟩ := State.exists_placed hw (.ofInt q)
  obtain ⟨b, s₂, hs₂, hp₂⟩ := State.exists_placed hp₁.wellFormed (.ofInt m)
  obtain ⟨h, s₃, hs₃, hp₃⟩ := State.exists_placed hp₂.wellFormed (.ofItems [a, b])
  have hrun : (intDivmod l r).run.run e s = .done (.ok h) s₃ := by
    unfold intDivmod
    rw [nonZero_bind hr, hq, hm]
    refine (Run.run_bind_ok (run_allocate hs₁ e)).trans ?_
    refine (Run.run_bind_ok (run_allocate hs₂ e)).trans ?_
    exact run_allocate hs₃ e
  rw [hrun]
  have hfresh : s.heap.get? h = none := by
    cases hget : s.heap.get? h with
    | none => rfl
    | some o => exact absurd rfl (hp₃.ne (hp₂.kept (hp₁.kept hget)))
  exact .pair hfresh hp₃.found (hp₃.kept (hp₂.kept hp₁.found)) (hp₃.kept hp₂.found) fun k o hk =>
    hp₃.kept (hp₂.kept (hp₁.kept hk))

theorem gives_intDivmod_zero (hw : s.heap.WellFormed) (l : Int64) (e : Engine) :
    ((intDivmod l 0).run.run e s).Gives s (.error "integer division or modulo by zero") := by
  unfold intDivmod
  rw [nonZero_zero_bind]
  exact .valueError hw _

/-- Without a quotient there is no pair. -/
theorem gives_intDivmod_refused (hw : s.heap.WellFormed) (hr : r ≠ 0)
    (hq : Arithmetic.floorDiv? l r = none) (e : Engine) :
    ((intDivmod l r).run.run e s).Gives s (.error "integer overflow in `//`") := by
  have hrefused : ∀ rest : Handle → Run Handle, inRange BinaryOp.floorDiv.symbol none
      >>= rest = valueError "integer overflow in `//`" :=
    fun rest => raiseMessage_bind _ _ rest
  unfold intDivmod
  rw [nonZero_bind hr, hq, hrefused]
  exact .valueError hw _

theorem Outcome.Pairs.leave {o : Outcome (Except Fault Handle)} (h : Pairs s.enter q m o) :
    Pairs s q m (o.onState State.leave) := by
  cases h with
  | pair hfresh hpair hq hm hkept => exact .pair hfresh hpair hq hm hkept

/-! ## 2. The operators -/

namespace State.Operands

/-- **`divmod` is answered by its member of `int`**, which makes a new object or fails. -/
theorem run_divmod (hs : s.Operands left right l r) (hnew : ∀ a t, (intDivmod l r).run.run
      (engine bound) s.enter = .done (.ok a) t → s.heap.get? a = none) :
    (divmod left right).exec (bound + 1) s
      = ((intDivmod l r).run.run (engine bound) s.enter).onState State.leave := by
  have hmember : (IntMember.divmod.run [left, right]).run.run (engine bound) s.enter
      = (intDivmod l r).run.run (engine bound) s.enter :=
    hs.run_intBinary divmodHooks.forward intDivmod (engine bound)
  unfold ObjectModel.divmod askHooks
  rw [Run.exec, bind_assoc, ← hmember]
  refine hs.run_hook .divmod (fun _ => rfl) fun a t ha => ?_
  rw [hmember] at ha
  exact hnew a t ha

theorem divmod_pairs (hs : s.Operands left right l r)
    (hp : ((intDivmod l r).run.run (engine bound) s.enter).Pairs s.enter q m) :
    ((divmod left right).exec (bound + 1) s).Pairs s q m := by
  rw [hs.run_divmod fun a t ha => ?_]
  · exact hp.leave
  · rw [ha] at hp
    cases hp with
    | pair hfresh _ _ _ _ => exact hfresh

theorem divmod_gives (hs : s.Operands left right l r) {answer : Except String Int64}
    (hg : ((intDivmod l r).run.run (engine bound) s.enter).Gives s.enter answer) :
    ((divmod left right).exec (bound + 1) s).Gives s answer := by
  rw [hs.run_divmod fun a t ha => fresh_of_gives hg ha]
  exact hg.leave

end State.Operands

end

/-! ## 3. The law -/

/-- **The law of division.** In every state of a session, with the members of `int` where they were
placed and room for one call more:

* for a divisor other than zero, the least integer by -1 apart, `//`, `%` and `divmod` end with the
  quotient and the remainder of the floor division, and the steps that compute them, the quotient
  less one and the remainder moved by the divisor, stay in the range;
* for a divisor of zero all three raise `ValueError`;
* for the least integer by -1, `//` and `divmod` raise `ValueError`. -/
theorem State.division_law {s : State} {left right : Handle} {l r : Int64} (hs : s.Reachable)
    (hp : s.heap.Provides .int) (hroom : s.callDepth < s.limits.callDepth) (hl : s.IsInt left l)
    (hr : s.IsInt right r) (n : Nat) :
    (r ≠ 0 → ¬ (l = Int64.minValue ∧ r = -1) → ∃ q m : Int64,
      q.toInt = ⌊(l.toInt : ℚ) / r.toInt⌋ ∧ l.toInt = q.toInt * r.toInt + m.toInt ∧
      m.toInt.natAbs < r.toInt.natAbs ∧
      (m = 0 ∨ (m < 0 ↔ r < 0)) ∧
      ((binaryOp .floorDiv left right).exec (n + 1) s).Gives s (.ok q) ∧
      ((binaryOp .mod left right).exec (n + 1) s).Gives s (.ok m) ∧
      ((divmod left right).exec (n + 1) s).Pairs s q m ∧
      (l % r ≠ 0 → ¬ (l < 0 ↔ r < 0) →
        (Int64.minValue.toInt ≤ (l / r).toInt - 1 ∧ (l / r).toInt - 1 ≤ Int64.maxValue.toInt) ∧
        (Int64.minValue.toInt ≤ (l % r).toInt + r.toInt ∧
          (l % r).toInt + r.toInt ≤ Int64.maxValue.toInt))) ∧
    (r = 0 → ((binaryOp .floorDiv left right).exec (n + 1) s).Gives s
      (.error "integer division or modulo by zero") ∧
      ((binaryOp .mod left right).exec (n + 1) s).Gives s
        (.error "integer division or modulo by zero") ∧
      ((divmod left right).exec (n + 1) s).Gives s (.error "integer division or modulo by zero")) ∧
    (l = Int64.minValue ∧ r = -1 →
      ((binaryOp .floorDiv left right).exec (n + 1) s).Gives s (.error "integer overflow in `//`") ∧
      ((divmod left right).exec (n + 1) s).Gives s (.error "integer overflow in `//`")) := by
  have hoperands := State.Operands.of_reachable hs hp hroom hl hr
  have hw := hoperands.wellFormed
  refine ⟨fun hzero hmin => ?_, fun hzero => ?_, fun hmin => ?_⟩
  · -- the corrected quotient and remainder are the floored ones, and the correction stays in range
    have hd := Arithmetic.divides_iff.mpr ⟨hzero, hmin⟩
    obtain ⟨q, m, hq, hm, hfloor⟩ := Arithmetic.exists_floor hd
    have hsign : m = 0 ∨ (m < 0 ↔ r < 0) := by
      rw [← Arithmetic.toInt_eq_zero_iff, Arithmetic.toInt_neg_iff, Arithmetic.toInt_neg_iff]
      exact hfloor.sign
    have hquotient := hoperands.run_binaryOp (gives_floorDiv (e := engine n) hw hzero l)
    have hremainder := hoperands.run_binaryOp (gives_mod (e := engine n) hw hzero l)
    rw [hq] at hquotient
    rw [hm] at hremainder
    refine ⟨q, m, hfloor.floor_eq.symm, hfloor.eq, hfloor.small, hsign, hquotient, hremainder,
      hoperands.divmod_pairs (pairs_intDivmod hw hzero hq hm _), fun hleft hsigns => ?_⟩
    obtain ⟨hqlow, hqhigh, hmlow, hmhigh⟩ := Arithmetic.corrected_bounds hd ⟨hleft, hsigns⟩
    exact ⟨⟨hqlow, hqhigh⟩, hmlow, hmhigh⟩
  · subst hzero
    exact ⟨hoperands.run_binaryOp (gives_by_zero hw l (Or.inl rfl)), hoperands.run_binaryOp
      (gives_by_zero hw l (Or.inr rfl)), hoperands.divmod_gives (gives_intDivmod_zero hw l _)⟩
  · obtain ⟨rfl, rfl⟩ := hmin
    have hnone : Arithmetic.floorDiv? Int64.minValue (-1) = none := by decide
    have hquotient :=
      hoperands.run_binaryOp (gives_floorDiv (e := engine n) hw (by decide) Int64.minValue)
    rw [hnone] at hquotient
    exact ⟨hquotient, hoperands.divmod_gives (gives_intDivmod_refused hw (by decide) hnone _)⟩

/-- `-7` by `2`: the quotient is `-4` and the remainder `1`. -/
theorem State.division_law_of_seven :
    ∃ (s : State) (left right : Handle), s.Reachable ∧ s.IsInt left (-7) ∧ s.IsInt right 2 ∧
      ((divmod left right).exec 1 s).Pairs s (-4) 1 := by
  obtain ⟨s, left, right, hs, hp, hroom, hl, hr⟩ := State.exists_operands (-7) 2
  obtain ⟨q, m, _, heq, hsmall, hsign, _, _, hpairs, _⟩ :=
    (State.division_law hs hp hroom hl hr 0).1 (by decide) (by decide)
  rw [← Arithmetic.toInt_eq_zero_iff, Arithmetic.toInt_neg_iff, Arithmetic.toInt_neg_iff] at hsign
  have hseven : (-7 : Int64).toInt = -7 := by decide
  have htwo : (2 : Int64).toInt = 2 := by decide
  rw [hseven, htwo] at heq
  rw [htwo] at hsmall hsign
  have hfour : (-4 : Int64).toInt = -4 := by decide
  have hone : (1 : Int64).toInt = 1 := by decide
  have hq : q = -4 := Int64.toInt_inj.mp (by omega)
  have hm : m = 1 := Int64.toInt_inj.mp (by omega)
  exact ⟨s, left, right, hs, hl, hr, hq ▸ hm ▸ hpairs⟩

end ObjectModel
