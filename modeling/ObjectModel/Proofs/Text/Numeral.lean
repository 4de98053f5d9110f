import ObjectModel.Proofs.Data.Readability
import ObjectModel.Proofs.Text.Calling
import ObjectModel.Proofs.Types.Conversion

/-!
# Numbers and their numerals

`str` and `repr` write a number with a sign, and `int` reads digits only. So what is written can be
read back if it is not negative.

* `Text.Spells` -- **the number that a run of digits spells.**
-/

namespace ObjectModel

/-! ## 1. Numerals -/

namespace Text

/-- **The number that a numeral spells**: one digit its own value, and a digit behind a numeral ten
times as much and its value. -/
inductive Spells : List Char → Nat → Prop where
  | digit {c : Char} : c.isDigit = true → Spells [c] (c.toNat - 48)
  | behind {chars : List Char} {v : Nat} {c : Char} : Spells chars v → c.isDigit = true →
      Spells (chars ++ [c]) (10 * v + (c.toNat - 48))

theorem digitsValue_append (chars : List Char) (c : Char) :
    digitsValue (chars ++ [c]) = 10 * digitsValue chars + (c.toNat - 48) :=
  List.foldl_append

theorem digitsValue_single (c : Char) : digitsValue [c] = c.toNat - 48 := Nat.zero_add _

variable {chars : List Char} {v : Nat} {text : String}

/-- By induction from the last digit on. -/
theorem spells_digitsValue (hne : chars ≠ []) (hdigits : ∀ c ∈ chars, c.isDigit = true) :
    Spells chars (digitsValue chars) := by
  induction chars using List.reverseRecOn with
  | nil => exact absurd rfl hne
  | append_singleton chars c ih =>
    have hc : c.isDigit = true := hdigits c (List.mem_append_right _ List.mem_cons_self)
    by_cases hnil : chars = []
    · rw [hnil, List.nil_append, digitsValue_single]
      exact .digit hc
    · rw [digitsValue_append]
      exact .behind (ih hnil fun c' hc' => hdigits c' (List.mem_append_left _ hc')) hc

theorem Spells.digits (h : Spells chars v) :
    chars ≠ [] ∧ (∀ c ∈ chars, c.isDigit = true) ∧ digitsValue chars = v := by
  induction h with
  | digit hc =>
    exact ⟨List.cons_ne_nil _ _, fun c' hc' => List.mem_singleton.mp hc' ▸ hc, digitsValue_single _⟩
  | behind h hc ih =>
    obtain ⟨hne, hdigits, rfl⟩ := ih
    refine ⟨List.append_ne_nil_of_left_ne_nil hne _, fun c' hc' => ?_, digitsValue_append _ _⟩
    rcases List.mem_append.mp hc' with hc' | hc'
    · exact hdigits c' hc'
    · exact List.mem_singleton.mp hc' ▸ hc

/-- A text that is no numeral spells nothing. -/
theorem digits?_cases (text : String) :
    Spells text.toList (digitsValue text.toList) ∧
      digits? text = Arithmetic.fit? (digitsValue text.toList) ∨
      (∀ v, ¬ Spells text.toList v) ∧ digits? text = none := by
  unfold digits?
  dsimp only
  split
  · rename_i h
    refine Or.inr ⟨fun v hv => ?_, rfl⟩
    obtain ⟨hne, hdigits, _⟩ := hv.digits
    rw [Bool.or_eq_true, List.isEmpty_iff, Bool.not_eq_true', List.all_eq_false] at h
    rcases h with h | ⟨c, hc, h⟩
    · exact hne h
    · exact h (hdigits c hc)
  · rename_i h
    rw [Bool.or_eq_true, List.isEmpty_iff, Bool.not_eq_true', List.all_eq_false, not_or] at h
    refine Or.inl ⟨spells_digitsValue h.1 fun c hc => ?_, rfl⟩
    by_contra hno
    exact h.2 ⟨c, hc, hno⟩

/-- **A numeral is read** if its number is in the range. -/
theorem digits?_eq_some_iff {i : Int64} :
    digits? text = some i ↔ ∃ v, Spells text.toList v ∧ i.toInt = v := by
  rcases digits?_cases text with ⟨hspells, hread⟩ | ⟨hno, hread⟩
  · rw [hread, Arithmetic.fit?_eq_some_iff]
    refine ⟨fun h => ⟨_, hspells, h⟩, ?_⟩
    rintro ⟨v, hv, h⟩
    rw [h, hv.digits.2.2]
  · rw [hread]
    constructor
    · intro h
      cases h
    · rintro ⟨v, hv, _⟩
      exact absurd hv (hno v)

/-- **All else is refused.** -/
theorem digits?_eq_none_iff :
    digits? text = none ↔ ∀ v, Spells text.toList v → 9223372036854775807 < v := by
  rcases digits?_cases text with ⟨hspells, hread⟩ | ⟨hno, hread⟩
  · rw [hread, Arithmetic.fit?_eq_none_iff]
    constructor
    · intro h v hv
      rw [hv.digits.2.2] at h
      omega
    · intro h
      have := h _ hspells
      omega
  · rw [hread]
    exact ⟨fun _ v hv => absurd hv (hno v), fun _ => rfl⟩

/-- **What was written is read back**, but for a sign. -/
theorem digits?_ofInt (i : Int64) :
    digits? (ofInt i.toInt) = if 0 ≤ i.toInt then some i else none := by
  by_cases hi : 0 ≤ i.toInt
  · rw [if_pos hi, digits?_eq_some_iff, ofInt, Int.toString_eq_repr, Int.repr_eq_if, if_pos hi,
      Nat.repr_eq_ofList_toDigits, String.toList_ofList]
    refine ⟨_, spells_digitsValue Nat.toDigits_ne_nil fun c hc =>
      Nat.isDigit_of_mem_toDigits (by decide) (by decide) hc, ?_⟩
    rw [digitsValue, ← Nat.ofDigitChars_eq_foldl, Nat.ofDigitChars_ten_toDigits]
    omega
  · rw [if_neg hi, digits?_eq_none_iff, ofInt, Int.toString_eq_repr, Int.repr_eq_if, if_neg hi,
      String.toList_append]
    intro v hv
    have hsign : ('-').isDigit = true := hv.digits.2.1 _ (List.mem_append_left _ List.mem_cons_self)
    cases hsign

end Text

/-! ## 2. Objects -/

/-- What `int` answers on a text. -/
def Text.readInt (text : String) : Except String Int64 :=
  (Text.digits? text).elim (.error "`str.__int__` requires self to be /[0-9]+/") .ok

theorem Text.toOption_readInt (text : String) : (readInt text).toOption = digits? text := by
  unfold readInt
  cases digits? text <;> rfl

theorem Outcome.Gives.toOption_eq {s : State} {o : Outcome (Except Fault Handle)}
    {a b : Except String Int64} (ha : o.Gives s a) (hb : o.Gives s b) :
    a.toOption = b.toOption := by
  cases ha with
  | number _ hget _ =>
    cases hb with
    | number _ hget' _ =>
      cases hget.symm.trans hget'
      rfl
  | refused =>
    cases hb with
    | refused => rfl

namespace State.Native

variable {s : State} {h : Handle} {text : String} {i : Int64}

/-- **`int` of a text** reads its digits, four levels down. -/
theorem gives_int (hs : s.Native) (ht : s.IsText h text) (hlevels : 4 ≤ s.levels) (n : Nat) :
    ((call BuiltinType.int.handle [h]).exec (n + 4) s).Gives s (Text.readInt text) := by
  -- `int.__new__` runs three calls deep and asks the text for its `__int__` there
  let inside : State := s.enter.enter.enter
  have hinside : inside.enter.Native := hs.enter.enter.enter.enter
  have hroom : inside.callDepth < inside.limits.callDepth := by
    change s.callDepth + 3 < s.limits.callDepth
    unfold levels at hlevels
    omega
  obtain ⟨o, hget, hp⟩ := ht
  have hl : inside.heap.layer? h = some (.text text) :=
    Heap.layer?_eq_some_iff.mpr ⟨o, hget, .text hp⟩
  have hhook : inside.heap.Answers h "__int__" (.str .int) := hs.enter.enter.enter.answers hl rfl
  have hreceiver (e : Engine) : (textReceiver "str.__int__" h).run.run e inside.enter
      = .done (.ok text) inside.enter :=
    run_textReceiver_layer (s := inside.enter) hl _
  unfold Text.readInt
  cases hread : Text.digits? text with
  | some i =>
    have hmember : ((Member.str .int).run [h]).run.run (engine n) inside.enter
        = .done (.ok (inside.enter.allocate (.ofInt i)).1)
            (inside.enter.allocate (.ofInt i)).2 := by
      refine (Run.run_bind_ok (hreceiver _)).trans ?_
      rw [hread]
      rfl
    have hw := hinside.orderly.regular.heap
    have hmade := Heap.get?_allocate_self hw (.ofInt i)
    have hgrows : inside.Grows (inside.enter.allocate (.ofInt i)).2.leave :=
      (hinside.grows_allocate (.int i)).leave
    have hinit : Heap.Answers _ _ "__init__" _ :=
      hgrows.native.answers (Heap.layer?_eq_some_iff.mpr ⟨_, hmade, .int rfl⟩) rfl
    have hnew : ((Member.int .new).run [BuiltinType.int.handle, h]).run.run (engine (n + 1)) inside
        = .done (.ok _) _ :=
      run_toInt hhook hroom hmember hmade
    have hexec := hs.run_convert (b := .int) (m := .int .new) rfl (by decide) (by omega) hnew
        fun _ he => Except.ok.inj he ▸ ⟨hgrows, hinit⟩
    rw [hexec]
    exact .number (Heap.get?_allocate_fresh hw _) hmade fun k o hk =>
      Heap.get?_allocate_of_live hw hk
  | none =>
    obtain ⟨fault, u, message, hraised, hkept, hmessage, hcarries⟩ :=
      run_raiseMessage (α := Handle) (s := inside.enter) hinside.orderly.regular.heap .valueError
        "`str.__int__` requires self to be /[0-9]+/" (engine n)
    have hmember : ((Member.str .int).run [h]).run.run (engine n) inside.enter
        = .done (.error fault) u := by
      refine (Run.run_bind_ok (hreceiver _)).trans ?_
      rw [hread]
      exact hraised
    have hnew : ((Member.int .new).run [BuiltinType.int.handle, h]).run.run (engine (n + 1)) inside
        = .done (.error fault) u.leave :=
      run_hook_error (fun _ => rfl) hhook hroom hmember
    have hexec := hs.run_convert (b := .int) (m := .int .new) rfl (by decide) (by omega) hnew
        fun _ he => by cases he
    rw [hexec]
    exact .refused hmessage (hcarries.congr rfl) fun k o hk => hkept hk

/-- The hooks `__str__` and `__repr__` of a number write it alike. -/
theorem run_write (hs : s.Native) (hi : s.IsInt h i) (name : String)
    {m : IntMember} (hname : BuiltinType.int.member? name = some (.int m))
    (hm : m.run [h] = intText [h]) (hlevels : 0 < s.levels) (n : Nat) :
    ∃ t, s.Grows t ∧
      (renderWith name h).run.run (engine (n + 1)) s = .done (.ok (Text.ofInt i.toInt)) t := by
  obtain ⟨o, hget, hp⟩ := hi
  have hl : s.heap.layer? h = some (.int i) := Heap.layer?_eq_some_iff.mpr ⟨o, hget, .int hp⟩
  have hmember : ((Member.int m).run [h]).run.run (engine n) s.enter
      = .done (.ok (s.enter.allocate (.ofText (Text.ofInt i.toInt))).1)
          (s.enter.allocate (.ofText (Text.ofInt i.toInt))).2 := by
    change (m.run [h]).run.run (engine n) s.enter = _
    rw [hm]
    exact Run.run_bind_ok (run_intReceiver_layer (s := s.enter) hl _)
  exact ⟨_, (hs.enter.grows_text _).leave, run_renderWith (hs.answers hl hname)
    (room_of_levels hlevels) hmember (Heap.get?_allocate_self hs.orderly.regular.heap _)⟩

/-- **`str` of a number** is a new text. -/
theorem run_str (hs : s.Native) (hi : s.IsInt h i) (hlevels : 4 ≤ s.levels) (n : Nat) :
    ∃ k t, (call BuiltinType.str.handle [h]).exec (n + 4) s = .done (.ok k) t ∧ s.Grows t ∧
      s.heap.get? k = none ∧ t.heap.get? k = some (.ofText (Text.ofInt i.toInt)) := by
  have hinside : 0 < s.enter.enter.enter.levels := by
    rw [levels_enter, levels_enter, levels_enter]
    omega
  obtain ⟨u, hu, htext⟩ := hs.enter.enter.enter.run_write hi "__str__" (m := .str) rfl rfl hinside n
  have hw := hu.native.orderly.regular.heap
  have hgrows := hu.trans (hu.native.grows_text (Text.ofInt i.toInt))
  have hmade := Heap.get?_allocate_self hw (.ofText (Text.ofInt i.toInt))
  have hnew : ((Member.str .new).run [BuiltinType.str.handle, h]).run.run
      (engine (n + 1)) s.enter.enter.enter
      = .done (.ok (u.allocate (.ofText (Text.ofInt i.toInt))).1)
          (u.allocate (.ofText (Text.ofInt i.toInt))).2 := Run.run_bind_ok htext
  have hinit : Heap.Answers _ _ "__init__" _ :=
    hgrows.native.answers (Heap.layer?_eq_some_iff.mpr ⟨_, hmade, .text rfl⟩) rfl
  have hexec := hs.run_convert (b := .str) (m := .str .new) (r := .ok _) rfl (by decide)
      (by omega) hnew fun _ he => Except.ok.inj he ▸ ⟨hgrows, hinit⟩
  exact ⟨_, _, hexec, hgrows.leave.leave.leave,
    Heap.fresh_of_kept hu.kept (Heap.get?_allocate_fresh hw _), hmade⟩

end State.Native

section

variable {s : State}

/-- **Numbers and their numerals.** In a state of a session with four levels of calls left, `int` of
a text answers with the number that its digits spell, with leading zeros or not, if it is in the
range, and raises `ValueError` on any other text. `str` and `repr` write every number in another
way. So `int` reads what `str` has written, if the number is not negative, and raises `ValueError`
if it is. -/
theorem State.numerals_read_back (hs : s.Reachable) (hu : s.heap.Unaltered) (hlevels : 4 ≤ s.levels)
    (n : Nat) :
    (∀ (h : Handle) (text : String), s.IsText h text →
      (∀ i : Int64, ((call BuiltinType.int.handle [h]).exec (n + 4) s).Gives s (.ok i) ↔
        ∃ v, Text.Spells text.toList v ∧ i.toInt = v) ∧
      (((call BuiltinType.int.handle [h]).exec (n + 4) s).Gives s
        (.error "`str.__int__` requires self to be /[0-9]+/") ↔
        ∀ v, Text.Spells text.toList v → 9223372036854775807 < v)) ∧
    (∀ (h : Handle) (i : Int64), s.IsInt h i →
      ((call BuiltinType.str.handle [h] >>= fun k => call BuiltinType.int.handle [k]).exec
        (n + 4) s).Gives s
        (if 0 ≤ i.toInt then .ok i else .error "`str.__int__` requires self to be /[0-9]+/") ∧
      ((call BuiltinType.str.handle [h]).exec (n + 4) s).Brings s (.ofText (Text.ofInt i.toInt)) ∧
      ∃ t, (repr h).exec (n + 1) s = .done (.ok (Text.ofInt i.toInt)) t) ∧
    Function.Injective fun i : Int64 => Text.ofInt i.toInt := by
  have hn := Native.of_reachable hs hu
  refine ⟨fun h text ht => ?_, fun h i hi => ?_,
    fun i j h => Int64.toInt_inj.mp (Text.ofInt_injective h)⟩
  · have hgives := hn.gives_int ht hlevels n
    rw [← Text.digits?_eq_none_iff]
    refine ⟨fun i => ?_, ⟨fun ho => ?_, fun hread => ?_⟩⟩
    · rw [← Text.digits?_eq_some_iff]
      refine ⟨fun ho => (Text.toOption_readInt text).symm.trans (hgives.toOption_eq ho),
        fun hread => ?_⟩
      rw [Text.readInt, hread] at hgives
      exact hgives
    · exact (Text.toOption_readInt text).symm.trans (hgives.toOption_eq ho)
    · rw [Text.readInt, hread] at hgives
      exact hgives
  · obtain ⟨k, t, hstr, hgrows, hfresh, hget⟩ := hn.run_str hi hlevels n
    have hread := hgrows.native.gives_int ⟨_, hget, rfl⟩ (hgrows.levels_eq ▸ hlevels) n
    rw [Text.readInt, Text.digits?_ofInt] at hread
    obtain ⟨u, _, hrepr⟩ := hn.run_write hi "__repr__" (m := .repr) rfl rfl (by omega) n
    refine ⟨?_, ⟨k, t, hstr, hfresh, hget, hgrows.kept⟩, u, hrepr⟩
    have hback : (call BuiltinType.str.handle [h] >>= fun k => call BuiltinType.int.handle [k]).exec
        (n + 4) s
        = (call BuiltinType.int.handle [k]).exec (n + 4) t := Run.run_bind_ok hstr
    rw [hback]
    by_cases hneg : 0 ≤ i.toInt
    · rw [if_pos hneg] at hread ⊢
      exact hread.back hgrows.kept
    · rw [if_neg hneg] at hread ⊢
      exact hread.back hgrows.kept

/-- "0042" is read as 42, and 2 to the power of 63 is not read; nor is what `str` writes for the
least number. -/
theorem State.numerals_read_back_limits :
    ∃ (s : State) (h k l : Handle), s.Reachable ∧ s.heap.Unaltered ∧ 4 ≤ s.levels ∧
      s.IsText h "0042" ∧ s.IsText k "9223372036854775808" ∧
      s.IsInt l (-9223372036854775808) ∧
      ((call BuiltinType.int.handle [h]).exec 4 s).Gives s (.ok 42) ∧
      ((call BuiltinType.int.handle [k]).exec 4 s).Gives s
        (.error "`str.__int__` requires self to be /[0-9]+/") ∧
      ((call BuiltinType.str.handle [l] >>= fun k => call BuiltinType.int.handle [k]).exec 4
        s).Gives s
        (.error "`str.__int__` requires self to be /[0-9]+/") := by
  obtain ⟨s, handles, hs, hu, hlevels, hall⟩ :=
    State.exists_literals [.text "0042", .text "9223372036854775808", .int (-9223372036854775808)]
  obtain _ | @⟨_, h, _, _, hh, _ | @⟨_, k, _, _, hk, _ | @⟨_, l, _, _, hl, _⟩⟩⟩ := hall
  have hh : s.IsText h "0042" := ⟨_, hh, rfl⟩
  have hk : s.IsText k "9223372036854775808" := ⟨_, hk, rfl⟩
  have hl : s.IsInt l (-9223372036854775808) := ⟨_, hl, rfl⟩
  have hlevels : 4 ≤ s.levels := by
    rw [hlevels]
    decide
  have hall := State.numerals_read_back hs hu hlevels 0
  have hread : Text.digits? "0042" = some 42 := by decide
  have hlarge : Text.digits? "9223372036854775808" = none := by decide
  refine ⟨s, h, k, l, hs, hu, hlevels, hh, hk, hl, ?_, ?_, (hall.2.1 l _ hl).1⟩
  · exact ((hall.1 h _ hh).1 42).mpr (Text.digits?_eq_some_iff.mp hread)
  · exact (hall.1 k _ hk).2.mpr (Text.digits?_eq_none_iff.mp hlarge)

end

end ObjectModel
