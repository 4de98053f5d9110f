import ObjectModel.Proofs.Text.Calling

/-!
# Slices of a text

A slice is taken by a loop over positions that adds the step with a check. It is compared with the
integers `p`, `p + step`, `p + 2 * step`, ... of which those are taken that lie inside the text and
before the end.

* `Text.IsSlice`, `Text.isSlice_slice` -- **the slice has the characters at the positions that it
  takes**, in order, and no others.
-/

namespace ObjectModel

namespace Text

variable {chars out : List Char} {size k j : Nat} {start stop step i : Int64} {p : Int}

/-! ## 1. Positions -/

/-- The position that a slice starts at: not below the first character when it steps up, not behind
the last one when it steps down. -/
def firstPosition (size : Nat) (start step : Int) : Int :=
  if 0 < step then max start 0 else min start (size - 1)

/-- The position after `k` steps. -/
def slicePosition (size : Nat) (start step : Int) (k : Nat) : Int :=
  firstPosition size start step + k * step

/-- **What a slice takes**: a position inside the text, and before the end in the direction of the
step. -/
structure Covers (size : Nat) (stop step p : Int) : Prop where
  inside : 0 ≤ p ∧ p < size
  before : 0 < step ∧ p < stop ∨ step < 0 ∧ stop < p

theorem slicePosition_zero (size : Nat) (start step : Int) :
    slicePosition size start step 0 = firstPosition size start step := by
  rw [slicePosition, Nat.cast_zero, Int.zero_mul, Int.add_zero]

theorem slicePosition_add (size : Nat) (start step : Int) (k j : Nat) :
    slicePosition size start step (k + j) = slicePosition size start step k + j * step := by
  rw [slicePosition, slicePosition, Nat.cast_add, Int.add_mul, Int.add_assoc]

theorem slicePosition_succ (size : Nat) (start step : Int) (k : Nat) :
    slicePosition size start step (k + 1) = slicePosition size start step k + step := by
  rw [slicePosition_add, Nat.cast_one, Int.one_mul]

/-- A slice that steps up is at or behind its `k`th character after `k` steps. -/
theorem le_slicePosition (size : Nat) (start : Int) {step : Int} (hstep : 0 < step) (k : Nat) :
    k ≤ slicePosition size start step k := by
  have hmul : (k : Int) * 1 ≤ k * step := Int.mul_le_mul_of_nonneg_left hstep (Int.natCast_nonneg k)
  rw [slicePosition, firstPosition, if_pos hstep]
  omega

/-- A slice that steps down is at or before its `k`th character from the end after `k` steps. -/
theorem slicePosition_le (size : Nat) (start : Int) {step : Int} (hstep : step < 0) (k : Nat) :
    slicePosition size start step k ≤ start ∧ slicePosition size start step k ≤ size - 1 - k := by
  have hmul : (k : Int) * step ≤ k * (-1) :=
    Int.mul_le_mul_of_nonneg_left (by omega) (Int.natCast_nonneg k)
  rw [slicePosition, firstPosition, if_neg (by omega)]
  omega

namespace Covers

variable {start stop step : Int}

/-- No position comes twice, so there are no more of them than characters. -/
theorem lt_size (h : Covers size stop step (slicePosition size start step k)) : k < size := by
  obtain ⟨⟨hnonneg, hlt⟩, ⟨hstep, _⟩ | ⟨hstep, _⟩⟩ := h
  · have := le_slicePosition size start hstep k
    omega
  · have := (slicePosition_le size start hstep k).2
    omega

/-- **The positions that are taken come first**: none is left out on the way to another one. -/
theorem of_add (h : Covers size stop step (slicePosition size start step (k + j))) :
    Covers size stop step (slicePosition size start step k) := by
  rw [slicePosition_add] at h
  obtain ⟨⟨hnonneg, hlt⟩, ⟨hstep, hstop⟩ | ⟨hstep, hstop⟩⟩ := h
  · have hfirst := le_slicePosition size start hstep k
    have hmul : 0 ≤ (j : Int) * step := Int.mul_nonneg (Int.natCast_nonneg j) (by omega)
    exact ⟨by omega, Or.inl ⟨hstep, by omega⟩⟩
  · have hfirst := slicePosition_le size start hstep k
    have hmul : (j : Int) * step ≤ 0 :=
      Int.mul_nonpos_of_nonneg_of_nonpos (Int.natCast_nonneg j) (by omega)
    exact ⟨by omega, Or.inr ⟨hstep, by omega⟩⟩

end Covers

/-! ## 2. Words -/

theorem toInt_pos_iff : 0 < step ↔ 0 < step.toInt := by rw [Int64.lt_iff_toInt_lt, Int64.toInt_zero]

/-- The position that the loop starts at is in the range. -/
theorem toInt_sliceStart (size : Nat) (start step : Int64) :
    (sliceStart size start step).toInt = firstPosition size start.toInt step.toInt := by
  have hbounds := Arithmetic.toInt_bounds start
  unfold sliceStart firstPosition
  by_cases hstep : 0 < step
  · rw [if_pos hstep, if_pos (toInt_pos_iff.mp hstep)]
    by_cases hneg : start < 0
    · rw [if_pos hneg, Int64.toInt_zero]
      have := Arithmetic.toInt_neg_iff.mp hneg
      omega
    · rw [if_neg hneg]
      have := Arithmetic.toInt_neg_iff.not.mp hneg
      omega
  · rw [if_neg hstep, if_neg (toInt_pos_iff.not.mp hstep)]
    split
    · rename_i hlast
      obtain ⟨i, hi⟩ := Arithmetic.exists_fit (n := (size : Int) - 1) (by omega) (by omega)
      rw [← Arithmetic.fit?_eq_some_iff.mp hi, Int64.ofInt_toInt, Arithmetic.fit?_eq_some_iff.mp hi]
      omega
    · omega

/-- At a position of the slice, the test of the loop says whether it is taken. -/
theorem sliceTakes_iff (hstep : step ≠ 0)
    (hi : i.toInt = slicePosition size start.toInt step.toInt k) :
    sliceTakes size stop step i = true ↔ Covers size stop.toInt step.toInt i.toInt := by
  have hstep : step.toInt ≠ 0 := fun h => hstep (Arithmetic.toInt_eq_zero_iff.mp h)
  unfold sliceTakes
  by_cases hpos : 0 < step
  · have hpos' := toInt_pos_iff.mp hpos
    have hfirst := le_slicePosition size start.toInt hpos' k
    rw [if_pos hpos, Bool.and_eq_true, decide_eq_true_eq, decide_eq_true_eq, Int64.lt_iff_toInt_lt]
    refine ⟨fun h => ⟨by omega, Or.inl ⟨hpos', h.2⟩⟩, fun h => ⟨h.inside.2, ?_⟩⟩
    have := h.before
    omega
  · have hneg : step.toInt < 0 := by
      have := toInt_pos_iff.not.mp hpos
      omega
    have hfirst := (slicePosition_le size start.toInt hneg k).2
    rw [if_neg hpos, Bool.and_eq_true, decide_eq_true_eq, decide_eq_true_eq, Int64.lt_iff_toInt_lt]
    refine ⟨fun h => ⟨by omega, Or.inr ⟨hneg, h.2⟩⟩, fun h => ⟨h.inside.1, ?_⟩⟩
    have := h.before
    omega

/-- Beyond the integer range nothing is taken. -/
theorem not_covers_of_fit
    (hfit : Arithmetic.fit? (slicePosition size start.toInt step.toInt k) = none) :
    ¬ Covers size stop.toInt step.toInt (slicePosition size start.toInt step.toInt k) := by
  have hout := Arithmetic.fit?_eq_none_iff.mp hfit
  have hstart := Arithmetic.toInt_bounds start
  have hstop := Arithmetic.toInt_bounds stop
  rintro ⟨⟨hnonneg, _⟩, ⟨_, hlt⟩ | ⟨hstep, _⟩⟩
  · omega
  · have := (slicePosition_le size start.toInt hstep k).1
    omega

/-! ## 3. The loop -/

/-- **The loop of a slice**, from a position on, with the characters that it puts out. There is no
position once a step has left the integer range. What is read is the character at a position that is
not negative. -/
inductive SliceLoop (chars : List Char) (stop step : Int64) : Option Int64 → List Char → Prop where
  | left : SliceLoop chars stop step none []
  | past {i : Int64} : sliceTakes chars.length stop step i = false →
      SliceLoop chars stop step (some i) []
  | read {i : Int64} {c : Char} {out : List Char} : sliceTakes chars.length stop step i = true →
      0 ≤ i.toInt → chars[i.toInt.toNat]? = some c →
      SliceLoop chars stop step (Arithmetic.add? i step) out →
      SliceLoop chars stop step (some i) (c :: out)

theorem getElem?_of_covers {stop step : Int} (h : Covers chars.length stop step p) :
    ∃ c, chars[p.toNat]? = some c := by
  have hlt : p.toNat < chars.length := by
    have := h.inside
    omega
  exact ⟨_, List.getElem?_eq_getElem hlt⟩

theorem add?_eq (hi : i.toInt = slicePosition size start.toInt step.toInt k) :
    Arithmetic.add? i step
      = Arithmetic.fit? (slicePosition size start.toInt step.toInt (k + 1)) := by
  rw [Arithmetic.add?, hi, slicePosition_succ]

/-- **As many rounds as there are characters are enough**, by induction on the rounds that are
left. -/
theorem sliceLoop_sliceFrom (hstep : step ≠ 0) (fuel : Nat) :
    ∀ (k : Nat) (i : Int64), chars.length ≤ k + fuel →
    i.toInt = slicePosition chars.length start.toInt step.toInt k →
    SliceLoop chars stop step (some i) (sliceFrom chars stop step fuel i) := by
  induction fuel with
  | zero =>
    intro k i hk hi
    refine .past (Bool.eq_false_iff.mpr fun htakes => ?_)
    have hcovers := (sliceTakes_iff hstep hi).mp htakes
    rw [hi] at hcovers
    exact absurd hcovers.lt_size (by omega)
  | succ fuel ih =>
    intro k i hk hi
    unfold sliceFrom
    by_cases htakes : sliceTakes chars.length stop step i = true
    · have hcovers := (sliceTakes_iff hstep hi).mp htakes
      obtain ⟨c, hc⟩ := getElem?_of_covers hcovers
      rw [if_pos htakes, hc]
      dsimp only
      cases hnext : Arithmetic.add? i step with
      | none => exact .read htakes hcovers.inside.1 hc (hnext ▸ .left)
      | some next =>
        refine .read htakes hcovers.inside.1 hc (hnext ▸ ih (k + 1) next (by omega) ?_)
        exact Arithmetic.fit?_eq_some_iff.mp ((add?_eq hi).symm.trans hnext)
    · rw [if_neg htakes]
      exact .past (Bool.eq_false_iff.mpr htakes)

/-- **The loop ends with the slice.** -/
theorem sliceLoop_slice (text : String) (start stop : Int64) (hstep : step ≠ 0) :
    SliceLoop text.toList stop step (some (sliceStart text.length start step))
      (slice text start stop step).toList := by
  have hi : (sliceStart text.toList.length start step).toInt
      = slicePosition text.toList.length start.toInt step.toInt 0 := by
    rw [toInt_sliceStart, slicePosition_zero]
  have hloop : SliceLoop text.toList stop step
      (some (sliceStart text.toList.length start step)) _ :=
    sliceLoop_sliceFrom hstep text.toList.length 0 _ (by omega) hi
  rw [slice, if_neg hstep, String.toList_ofList, ← String.length_toList]
  exact hloop

/-! ## 4. What the loop puts out -/

/-- **Character by character**, by induction on the loop: the one that comes `j` later is that at
the position `j` steps on, if it is taken. -/
theorem SliceLoop.getElem? {here : Option Int64} (h : SliceLoop chars stop step here out)
    (hstep : step ≠ 0) :
    ∀ k, here = Arithmetic.fit? (slicePosition chars.length start.toInt step.toInt k) → ∀ j,
      (Covers chars.length stop.toInt step.toInt
        (slicePosition chars.length start.toInt step.toInt (k + j)) →
        out[j]? = chars[(slicePosition chars.length start.toInt step.toInt (k + j)).toNat]?) ∧
      (¬ Covers chars.length stop.toInt step.toInt
        (slicePosition chars.length start.toInt step.toInt (k + j)) → out[j]? = none) := by
  induction h with
  | left =>
    intro k hk j
    exact ⟨fun hc => absurd hc.of_add (not_covers_of_fit hk.symm), fun _ => rfl⟩
  | @past i htakes =>
    intro k hk j
    have hi := Arithmetic.fit?_eq_some_iff.mp hk.symm
    refine ⟨fun hc => ?_, fun _ => rfl⟩
    have hcovers := hc.of_add
    rw [← hi, ← sliceTakes_iff hstep hi, htakes] at hcovers
    cases hcovers
  | @read i c out htakes _ hc _ ih =>
    intro k hk j
    have hi := Arithmetic.fit?_eq_some_iff.mp hk.symm
    cases j with
    | zero =>
      rw [Nat.add_zero, ← hi]
      exact ⟨fun _ => hc.symm, fun hnot => absurd ((sliceTakes_iff hstep hi).mp htakes) hnot⟩
    | succ j =>
      rw [← Nat.add_assoc, Nat.add_right_comm]
      exact ih (k + 1) (add?_eq hi) j

/-- **A slice of a text**: its `k`th character is the one at the position after `k` steps, as long
as that is taken. -/
structure IsSlice (text : String) (start stop step : Int) (sliced : String) : Prop where
  taken : ∀ k, Covers text.length stop step (slicePosition text.length start step k) →
    ∃ c, text.toList[(slicePosition text.length start step k).toNat]? = some c ∧
    sliced.toList[k]? = some c
  ended : ∀ k, ¬ Covers text.length stop step (slicePosition text.length start step k) →
    sliced.toList[k]? = none

theorem isSlice_slice (text : String) (start stop : Int64) (hstep : step ≠ 0) :
    IsSlice text start.toInt stop.toInt step.toInt (slice text start stop step) := by
  have hstart : some (sliceStart text.length start step)
      = Arithmetic.fit? (slicePosition text.toList.length start.toInt step.toInt 0) := by
    rw [slicePosition_zero, String.length_toList, ← toInt_sliceStart, Arithmetic.fit?_toInt]
  have hchars := (sliceLoop_slice text start stop hstep).getElem? hstep 0 hstart
  simp only [Nat.zero_add, String.length_toList] at hchars
  refine ⟨fun k hk => ?_, fun k hk => (hchars k).2 hk⟩
  rw [(hchars k).1 hk]
  rw [← String.length_toList] at hk ⊢
  obtain ⟨c, hc⟩ := getElem?_of_covers hk
  exact ⟨c, hc, hc⟩

theorem IsSlice.unique {text a b : String} {start stop step : Int}
    (ha : IsSlice text start stop step a) (hb : IsSlice text start stop step b) : a = b := by
  refine String.toList_injective (List.ext_getElem? fun k => ?_)
  by_cases hk : Covers text.length stop step (slicePosition text.length start step k)
  · obtain ⟨c, hc, hca⟩ := ha.taken k hk
    obtain ⟨d, hd, hdb⟩ := hb.taken k hk
    rw [hca, hdb, ← hc, hd]
  · rw [ha.ended k hk, hb.ended k hk]

end Text

/-! ## 5. The member -/

/-- **Arguments of `str.slice`.** A step that is left out is 1. -/
inductive State.SliceArgs (s : State) (text : String) (start stop : Int64) :
    Int64 → List Handle → Prop where
  | stepped {c a b k : Handle} {step : Int64} : s.IsText c text → s.IsInt a start → s.IsInt b stop →
      s.IsInt k step → SliceArgs s text start stop step [c, a, b, k]
  | plain {c a b : Handle} : s.IsText c text → s.IsInt a start → s.IsInt b stop →
      SliceArgs s text start stop 1 [c, a, b]

section

variable {s t : State} {x : Run Handle} {args : List Handle} {depth : Nat} {text : String}
  {start stop step : Int64} {e : Engine}

namespace State.SliceArgs

theorem entered (ha : s.SliceArgs text start stop step args) (ht : s.Entered depth t) :
    t.SliceArgs text start stop step args := by
  cases ha with
  | stepped hc ha hb hk =>
    exact .stepped (hc.of_kept ht.kept) (ha.of_kept ht.kept) (hb.of_kept ht.kept)
      (hk.of_kept ht.kept)
  | plain hc ha hb => exact .plain (hc.of_kept ht.kept) (ha.of_kept ht.kept) (hb.of_kept ht.kept)

/-- **The member makes the slice.** -/
theorem run_slice (ha : s.SliceArgs text start stop step args) (hstep : step ≠ 0) (e : Engine) :
    ((Member.str .slice).run args).run.run e s
      = (newText (Text.slice text start stop step)).run.run e s := by
  cases ha with
  | @stepped c a b k step hc ha hb hk =>
    refine (Run.run_bind_ok (hc.run_textReceiver _ e)).trans ?_
    refine (Run.run_bind_ok (ha.run_intArgument _ _ e)).trans ?_
    refine (Run.run_bind_ok (hb.run_intArgument _ _ e)).trans ?_
    refine (Run.run_bind_ok (hk.run_intArgument _ _ e)).trans ?_
    rw [if_neg hstep]
  | @plain c a b hc ha hb =>
    refine (Run.run_bind_ok (hc.run_textReceiver _ e)).trans ?_
    refine (Run.run_bind_ok (ha.run_intArgument _ _ e)).trans ?_
    exact Run.run_bind_ok (hb.run_intArgument _ _ e)

end State.SliceArgs

/-- **Slices are exact.** In every state of a session, `str.slice` on a text, with any start and end
and any step but zero, returns a new text. It has the characters at the positions `p`, `p + step`,
`p + 2 * step`, ... in this order, as long as they are inside the text and before the end; these are
integers, so none is lost to a step out of the 64-bit range. The loop that puts it out ends, and
reads nothing but characters of the text. -/
theorem State.slices_exact (hs : s.Reachable) (hx : s.Invokes (.str .slice) args depth x)
    (ha : s.SliceArgs text start stop step args) (hstep : step ≠ 0) (n : Nat) :
    ∃ sliced, (x.exec (n + depth) s).Brings s (.ofText sliced) ∧
      Text.IsSlice text start.toInt stop.toInt step.toInt sliced ∧
      Text.SliceLoop text.toList stop step (some (Text.sliceStart text.length start step))
        sliced.toList := by
  obtain ⟨t, ht, hrun⟩ := hx.exec hs.orderly.regular.heap n
  refine ⟨Text.slice text start stop step, ?_, Text.isSlice_slice text start stop hstep,
    Text.sliceLoop_slice text start stop hstep⟩
  rw [hrun, (ha.entered ht).run_slice hstep]
  exact ht.brings (.allocate ht.wellFormed _)

/-- The slice of "héllo" from 4 down by -9223372036854775808 is "o", and that from -7 up by
9223372036854775807 is "h". -/
theorem State.slices_exact_limits :
    ∃ (s : State) (c low four most seven : Handle), s.Reachable ∧ s.IsText c "héllo" ∧
      s.IsInt low Int64.minValue ∧ s.IsInt four 4 ∧
      s.IsInt most Int64.maxValue ∧ s.IsInt seven (-7) ∧
      ((callMethod c "slice" [four, low, low]).exec 2 s).Brings s (.ofText "o") ∧
      ((callMethod c "slice" [seven, four, most]).exec 2 s).Brings s (.ofText "h") := by
  obtain ⟨s, handles, hs, hu, hlevels, hall⟩ :=
    State.exists_literals [.text "héllo", .int Int64.minValue, .int 4, .int Int64.maxValue,
      .int (-7)]
  obtain _ | @⟨_, c, _, _, hc, _ | @⟨_, low, _, _, hlow, _ | @⟨_, four, _, _, hfour,
      _ | @⟨_, most, _, _, hmost, _ | @⟨_, seven, _, _, hseven, _⟩⟩⟩⟩⟩ :=
    hall
  have hlow : s.IsInt low Int64.minValue := ⟨_, hlow, rfl⟩
  have hfour : s.IsInt four 4 := ⟨_, hfour, rfl⟩
  have hmost : s.IsInt most Int64.maxValue := ⟨_, hmost, rfl⟩
  have hseven : s.IsInt seven (-7) := ⟨_, hseven, rfl⟩
  have htext : s.IsText c "héllo" := ⟨_, hc, rfl⟩
  have hinvokes (args : List Handle) :
      s.Invokes (.str .slice) (c :: args) 2 (callMethod c "slice" args) :=
    (State.Native.of_reachable hs hu).invokes_text hc .slice args (by rw [hlevels]; decide)
  obtain ⟨o, ho, hdown, _⟩ :=
    State.slices_exact hs (hinvokes _) (.stepped htext hfour hlow hlow) (by decide) 0
  obtain ⟨h, hh, hup, _⟩ :=
    State.slices_exact hs (hinvokes _) (.stepped htext hseven hfour hmost) (by decide) 0
  have hdown : o = "o" := hdown.unique (Text.isSlice_slice "héllo" 4 Int64.minValue (by decide))
  have hup : h = "h" := hup.unique (Text.isSlice_slice "héllo" (-7) 4 (by decide))
  exact ⟨s, c, low, four, most, seven, hs, htext, hlow, hfour, hmost, hseven, hdown ▸ ho, hup ▸ hh⟩

end

end ObjectModel
