import Mathlib.Data.String.Basic
import ObjectModel.Proofs.Data.Equality
import ObjectModel.Proofs.Text.Calling

/-!
# Comparisons and their order

The six comparisons of integers and of texts take different ways: integers have a member for each,
texts have none for `!=`, which is left to `object` and then to the negation of `==`. All of them
agree with one total order.

* `State.comparisons_ordered` -- **integers are compared as numbers, texts by their code points in
  lexicographic order.**
-/

namespace ObjectModel

/-! ## 1. Comparisons of keys -/

def BinaryOp.comparisons : List BinaryOp := [lt, le, gt, ge, eq, ne]

/-- What a comparison says of two keys. The other operators say nothing. -/
def BinaryOp.holds {κ : Type} [LinearOrder κ] : BinaryOp → κ → κ → Bool
  | lt, x, y => x < y
  | le, x, y => x ≤ y
  | gt, x, y => y < x
  | ge, x, y => y ≤ x
  | eq, x, y => x = y
  | ne, x, y => x ≠ y
  | _, _, _ => false

/-- The operator `op` answers `a` and `b` with a truth value, and the state stays as it is. -/
def State.Says (s : State) (n : Nat) (op : BinaryOp) (a b : Handle) (r : Bool) : Prop :=
  (binaryOp op a b).exec n s = .done (.ok (.ofBool r)) s

/-- **The comparisons of some objects come from one total order** on the keys that the objects stand
for. -/
structure State.Ordered {κ : Type} [LinearOrder κ] (s : State) (n : Nat) (key : Handle → κ → Prop) :
    Prop where
  agrees : ∀ a b x y, key a x → key b y →
    ∀ op ∈ BinaryOp.comparisons, s.Says n op a b (op.holds x y)
  one : ∀ a b x y, key a x → key b y → ∃ lt eq gt, s.Says n .lt a b lt ∧ s.Says n .eq a b eq ∧
    s.Says n .gt a b gt ∧ lt.toNat + eq.toNat + gt.toNat = 1
  le_not_lt : ∀ a b x y, key a x → key b y → ∃ r, s.Says n .lt b a r ∧ s.Says n .le a b !r
  ne_not_eq : ∀ a b x y, key a x → key b y → ∃ r, s.Says n .eq a b r ∧ s.Says n .ne a b !r
  lt_gt : ∀ a b x y, key a x → key b y → ∃ r, s.Says n .lt a b r ∧ s.Says n .gt b a r
  trans : ∀ a b c x y z, key a x → key b y → key c z → s.Says n .lt a b true →
    s.Says n .lt b c true → s.Says n .lt a c true

section

variable {κ : Type} [LinearOrder κ] {s : State} {n : Nat} {key : Handle → κ → Prop} {a b : Handle}

theorem State.Says.unique {op : BinaryOp} {r r' : Bool} (h : s.Says n op a b r)
    (h' : s.Says n op a b r') : r = r' := by
  have heq := h.symm.trans h'
  simp only [Outcome.done.injEq, Except.ok.injEq, and_true] at heq
  exact Handle.ofBool_injective heq

theorem BinaryOp.holds_one (x y : κ) :
    (lt.holds x y).toNat + (eq.holds x y).toNat + (gt.holds x y).toNat = 1 := by
  rcases lt_trichotomy x y with h | rfl | h
  · simp [holds, h, h.ne, h.le]
  · simp [holds]
  · simp [holds, h, h.ne', h.le]

theorem BinaryOp.holds_ne (x y : κ) : ne.holds x y = !eq.holds x y := by simp [holds]

/-- The laws of an order are those of the keys. -/
theorem State.Ordered.of_agrees (hagrees : ∀ a b x y, key a x → key b y →
      ∀ op ∈ BinaryOp.comparisons, s.Says n op a b (op.holds x y)) : s.Ordered n key where
  agrees := hagrees
  one a b x y hx hy := by
    have hsays := hagrees a b x y hx hy
    exact ⟨_, _, _, hsays .lt (by decide), hsays .eq (by decide), hsays .gt (by decide),
      BinaryOp.holds_one x y⟩
  le_not_lt a b x y hx hy := by
    refine ⟨_, hagrees b a y x hy hx .lt (by decide), ?_⟩
    have hnot : BinaryOp.le.holds x y = !BinaryOp.lt.holds y x := by simp [BinaryOp.holds, ← not_lt]
    exact hnot ▸ hagrees a b x y hx hy .le (by decide)
  ne_not_eq a b x y hx hy := by
    refine ⟨_, hagrees a b x y hx hy .eq (by decide), ?_⟩
    exact BinaryOp.holds_ne x y ▸ hagrees a b x y hx hy .ne (by decide)
  lt_gt a b x y hx hy :=
    ⟨_, hagrees a b x y hx hy .lt (by decide), hagrees b a y x hy hx .gt (by decide)⟩
  trans a b c x y z hx hy hz hab hbc := by
    have hlt {d e : Handle} {v w : κ} (hv : key d v) (hw : key e w) (h : s.Says n .lt d e true) :
        v < w :=
      of_decide_eq_true ((hagrees d e v w hv hw .lt (by decide)).unique h)
    have hxz : BinaryOp.lt.holds x z = true :=
      decide_eq_true ((hlt hx hy hab).trans (hlt hy hz hbc))
    exact hxz ▸ hagrees a c x z hx hz .lt (by decide)

/-! ## 2. Integers -/

/-- `h` is an integer of this value. -/
def State.IsNumber (s : State) (h : Handle) (x : Int) : Prop := ∃ i, s.IsInt h i ∧ i.toInt = x

theorem intOp_comparison (l r : Int64) :
    ∀ op ∈ BinaryOp.comparisons, intOp op l r = pure (.ofBool (op.holds l.toInt r.toInt)) := by
  have hlt (l r : Int64) : decide (l < r) = decide (l.toInt < r.toInt) :=
    decide_eq_decide.mpr Int64.lt_iff_toInt_lt
  have hle (l r : Int64) : decide (l ≤ r) = decide (l.toInt ≤ r.toInt) :=
    decide_eq_decide.mpr Int64.le_iff_toInt_le
  have heq : (l == r)
      = decide (l.toInt = r.toInt) := by rw [beq_eq_decide, decide_eq_decide, Int64.toInt_inj]
  intro op hop
  simp only [BinaryOp.comparisons, List.mem_cons, List.not_mem_nil, or_false] at hop
  rcases hop with rfl | rfl | rfl | rfl | rfl | rfl
  · rw [intOp, hlt, BinaryOp.holds]
  · rw [intOp, hle, BinaryOp.holds]
  · rw [intOp, hlt, BinaryOp.holds]
  · rw [intOp, hle, BinaryOp.holds]
  · rw [intOp, heq, BinaryOp.holds]
  · rw [intOp, bne, heq, BinaryOp.holds, ← decide_not]

/-- A hook that answers with a truth value settles the operator. -/
theorem State.says_of_answers {op : BinaryOp} {m : Member} {r : Bool}
    (hm : s.heap.Answers a op.hooks.forward m) (hroom : s.Room)
    (hrun : (m.run [a, b]).run.run (engine n) s.enter = .done (.ok (.ofBool r)) s.enter) :
    s.Says (n + 1) op a b r := by
  have hask := run_askHook hm hroom hrun
  rw [if_neg (Handle.ofBool_ne r)] at hask
  have hasks : (askHooks op.hooks a b).run.run (engine (n + 1)) s
      = .done (.ok (some (.ofBool r))) s := Run.run_bind_ok hask
  exact Run.run_bind_ok hasks

theorem State.Native.ordered_numbers (hs : s.Native) (hlevels : 0 < s.levels) :
    s.Ordered (n + 1) s.IsNumber := by
  refine .of_agrees fun a b x y ⟨l, hl, hx⟩ ⟨r, hr, hy⟩ op hop => ?_
  subst hx hy
  have hoperands : s.Operands a b l r :=
    ⟨hs.orderly, hs.singles, fun m hm ht => ht ▸ hs.unaltered.offers m hm,
      room_of_levels hlevels, hl, hr⟩
  refine says_of_answers (hoperands.answers (.binary op)) hoperands.room
    ((hoperands.run_intBinary _ _ _).trans ?_)
  rw [intOp_comparison l r op hop]
  rfl

/-! ## 3. Texts -/

/-- The code points of a text. -/
def Text.points (text : String) : List Nat := text.toList.map Char.toNat

/-- `h` is a text with these code points. -/
def State.IsWord (s : State) (h : Handle) (x : List Nat) : Prop :=
  ∃ text, s.IsText h text ∧ Text.points text = x

theorem Text.points_inj {l r : String} : points l = points r ↔ l = r := by
  refine ⟨fun h => String.toList_inj.mp (List.map_injective_iff.mpr (fun c d hcd => ?_) h),
    fun h => h ▸ rfl⟩
  exact Char.toNat_inj.mp hcd

/-- Texts are ordered by their code points. -/
theorem Text.points_lt_iff {l r : String} : points l < points r ↔ l < r := by
  have hchars : ∀ cs ds : List Char, cs.map Char.toNat < ds.map Char.toNat ↔ cs < ds := by
    intro cs
    induction cs with
    | nil => rintro (_ | ⟨d, ds⟩) <;> simp
    | cons c cs ih =>
      rintro (_ | ⟨d, ds⟩)
      · simp
      · rw [List.map_cons, List.map_cons, List.cons_lt_cons_iff, List.cons_lt_cons_iff, ih,
          Char.toNat_inj]
        exact Iff.rfl
  rw [String.lt_iff_toList_lt]
  exact hchars l.toList r.toList

theorem Text.points_le_iff {l r : String} : points l ≤ points r ↔ l ≤ r := by
  rw [← not_lt, points_lt_iff, not_lt]

/-- The bytes of a text in memory. -/
def Text.bytes (text : String) : List UInt8 := text.toUTF8.data.toList

theorem Text.bytes_eq (text : String) :
    bytes text = text.toList.flatMap String.utf8EncodeChar := by
  rw [bytes, String.toUTF8_eq_toByteArray, ← String.utf8Encode_toList, List.utf8Encode,
    List.toList_data_toByteArray]

theorem Text.byte_cons_lt_iff {x y : Nat} {xs ys : List UInt8} (hx : x < 256) (hy : y < 256) :
    UInt8.ofNat x :: xs < UInt8.ofNat y :: ys ↔ x < y ∨ x = y ∧ xs < ys := by
  rw [List.cons_lt_cons_iff, UInt8.lt_iff_toNat_lt, ← UInt8.toNat_inj,
    UInt8.toNat_ofNat_of_lt' hx, UInt8.toNat_ofNat_of_lt' hy]

/-- **The bytes of the smaller character come first**, whatever follows. A character that takes
fewer bytes begins with a smaller one; of two that take as many, the bytes are digits to base 64. -/
theorem Text.encode_lt_encode {c d : Char} (h : c.toNat < d.toNat) (xs ys : List UInt8) :
    String.utf8EncodeChar c ++ xs < String.utf8EncodeChar d ++ ys := by
  have hd : d.val.toNat < 1114112 := by
    have hvalid : d.val.toNat < 55296 ∨ 57343 < d.val.toNat ∧ d.val.toNat < 1114112 := d.valid
    omega
  change c.val.toNat < d.val.toNat at h
  unfold String.utf8EncodeChar
  generalize c.val.toNat = x at h
  generalize d.val.toNat = y at h hd
  have hdigits : ∀ k, k / 4096 = k / 64 / 64 ∧ k / 262144 = k / 64 / 64 / 64 := by omega
  simp only [hdigits]
  -- a case for each pair of sizes
  split_ifs <;> simp (disch := omega) only [List.cons_append, List.nil_append, byte_cons_lt_iff]
  all_goals first
    | exact Or.inl (by omega)
    | by_cases hrest : xs < ys <;> simp only [hrest, and_true, and_false, or_false] <;> omega

/-- The bytes of a text come first if its code points do. -/
theorem Text.bytes_lt_bytes {l r : String} (h : points l < points r) : bytes l < bytes r := by
  have hchars : ∀ cs ds : List Char, cs.map Char.toNat < ds.map Char.toNat →
      cs.flatMap String.utf8EncodeChar < ds.flatMap String.utf8EncodeChar := by
    intro cs
    induction cs with
    | nil =>
      rintro (_ | ⟨d, ds⟩) h
      · exact absurd h (List.lt_irrefl _)
      · obtain ⟨byte, rest, hd⟩ := List.exists_cons_of_ne_nil (@String.utf8EncodeChar_ne_nil d)
        rw [List.flatMap_cons, hd]
        exact List.nil_lt_cons _ _
    | cons c cs ih =>
      rintro (_ | ⟨d, ds⟩) h
      · exact absurd h (List.not_lt_nil _)
      · rw [List.flatMap_cons, List.flatMap_cons]
        rcases List.cons_lt_cons_iff.mp h with hlt | ⟨heq, hlt⟩
        · exact encode_lt_encode hlt _ _
        · rw [Char.toNat_inj.mp heq]
          exact List.append_left_lt (ih ds hlt)
  rw [bytes_eq, bytes_eq]
  exact hchars _ _ h

/-- **The order of the code points is that of the bytes.** -/
theorem Text.bytes_lt_iff {l r : String} : bytes l < bytes r ↔ points l < points r := by
  refine ⟨fun h => ?_, bytes_lt_bytes⟩
  rcases lt_trichotomy (points l) (points r) with hlt | heq | hgt
  · exact hlt
  · exact absurd h (points_inj.mp heq ▸ List.lt_irrefl _)
  · exact absurd (bytes_lt_bytes hgt) (List.lt_asymm h)

/-- The operator of an ordering. -/
def Comparison.op : Comparison → BinaryOp
  | lt => .lt
  | le => .le
  | gt => .gt
  | ge => .ge

theorem Comparison.accepts_compare (c : Comparison) (l r : String) :
    c.accepts (Text.compare l r) = c.op.holds (Text.points l) (Text.points r) := by
  rcases lt_trichotomy l r with h | rfl | h
  · have hcompare : Text.compare l r = .lt := compare_lt_iff_lt.mpr h
    cases c <;> simp [accepts, hcompare, op, BinaryOp.holds, Text.points_lt_iff, Text.points_le_iff,
      h, h.le, h.not_gt]
  · have hcompare : Text.compare l l = .eq := compare_eq_iff_eq.mpr rfl
    cases c <;> simp [accepts, hcompare, op, BinaryOp.holds]
  · have hcompare : Text.compare l r = .gt := compare_gt_iff_gt.mpr h
    cases c <;> simp [accepts, hcompare, op, BinaryOp.holds, Text.points_lt_iff, Text.points_le_iff,
      h, h.le, h.not_gt]

theorem State.IsText.run_strBinary {l r : String} (hl : s.IsText a l) (hr : s.IsText b r)
    (name : String) (op : String → String → Run Handle) (e : Engine) :
    (strBinary name op [a, b]).run.run e s = (op l r).run.run e s :=
  (Run.run_bind_ok (hl.run_textReceiver name e)).trans (Run.run_bind_ok (hr.run_textValue e))

namespace State.Native

variable {l r : String} (hs : s.Native) (hlevels : 0 < s.levels) (hl : s.IsText a l)
  (hr : s.IsText b r)
include hs hlevels hl hr

/-- A member of `str` that answers two texts with a truth value. -/
theorem says_text {op : BinaryOp} {m : StrMember} {test : Bool}
    (hm : BuiltinType.str.member? op.hooks.forward = some (.str m)) (hrun : ∀ t : State, t.IsText a
      l → t.IsText b r → (m.run [a, b]).run.run (engine n) t = .done (.ok (.ofBool test)) t) :
    s.Says (n + 1) op a b test := by
  obtain ⟨o, hget, hp⟩ := hl
  have hanswers := hs.answers (Heap.layer?_eq_some_iff.mpr ⟨o, hget, .text hp⟩) hm
  exact says_of_answers hanswers (room_of_levels hlevels) (hrun s.enter ⟨o, hget, hp⟩ hr)

theorem says_compare (c : Comparison) :
    s.Says (n + 1) c.op a b (c.op.holds (Text.points l) (Text.points r)) := by
  have hm :
      BuiltinType.str.member? c.op.hooks.forward = some (.str (.compare c)) := by cases c <;> rfl
  refine hs.says_text hlevels hl hr hm fun t hl hr => ?_
  rw [← c.accepts_compare]
  exact hl.run_strBinary hr _ _ _

theorem says_eq : s.Says (n + 1) .eq a b (decide (l = r)) :=
  hs.says_text hlevels hl hr (m := .eq) rfl fun _ hl hr => hl.run_strBinary hr _ _ _

/-- `object` has no answer for two texts, so `!=` is the negation of `==`. -/
theorem says_ne : s.Says (n + 1) .ne a b !decide (l = r) := by
  have hread {h : Handle} {text : String} (hi : s.IsText h text) :
      s.heap.read 1 h = some (.of (.text text)) := by
    obtain ⟨o, hget, hp⟩ := hi
    exact Heap.read_eq_some_iff.mpr
      ⟨.of_layer (Heap.layer?_eq_some_iff.mpr ⟨o, hget, .text hp⟩) (.text text), Nat.le_refl 1⟩
  have hp : s.Pair 1 a b (.of (.text l)) (.of (.text r)) := 
    have hdictless (text : String) : (Datum.of (.text text)).Dictless :=
      ⟨fun h => (nomatch h), List.forall_mem_nil _⟩
    ⟨hs, hlevels, hread hl, hread hr, hdictless l, hdictless r⟩
  obtain ⟨c, hrun, hc⟩ := hp.decides_valuesEqual (Nat.le_add_left 1 n)
  have hdecide : c = decide (l = r) := by
    rw [Bool.eq_iff_iff, hc, decide_eq_true_iff]
    simp
  exact hdecide ▸ hp.run_ne (Nat.le_add_left 1 n) hc hrun

end State.Native

theorem State.Native.ordered_words (hs : s.Native) (hlevels : 0 < s.levels) :
    s.Ordered (n + 1) s.IsWord := by
  refine .of_agrees fun a b x y ⟨l, hl, hx⟩ ⟨r, hr, hy⟩ op hop => ?_
  subst hx hy
  have heq : BinaryOp.eq.holds (Text.points l) (Text.points r) = decide (l = r) :=
    decide_eq_decide.mpr Text.points_inj
  have hne : BinaryOp.ne.holds (Text.points l) (Text.points r)
      = !decide (l = r) := by rw [BinaryOp.holds_ne, heq]
  simp only [BinaryOp.comparisons, List.mem_cons, List.not_mem_nil, or_false] at hop
  rcases hop with rfl | rfl | rfl | rfl | rfl | rfl
  · exact hs.says_compare hlevels hl hr .lt
  · exact hs.says_compare hlevels hl hr .le
  · exact hs.says_compare hlevels hl hr .gt
  · exact hs.says_compare hlevels hl hr .ge
  · exact heq ▸ hs.says_eq hlevels hl hr
  · exact hne ▸ hs.says_ne hlevels hl hr

/-- **The comparisons of integers and of texts come from one total order each.** One call level is
enough. For texts it is the order of their code points, which is also the order of their bytes. -/
theorem State.comparisons_ordered (hs : s.Reachable) (hu : s.heap.Unaltered)
    (hlevels : 0 < s.levels) (n : Nat) :
    s.Ordered (n + 1) s.IsNumber ∧ s.Ordered (n + 1) s.IsWord ∧
      ∀ l r, Text.bytes l < Text.bytes r ↔ Text.points l < Text.points r :=
  ⟨(Native.of_reachable hs hu).ordered_numbers hlevels,
    (Native.of_reachable hs hu).ordered_words hlevels, fun _ _ => Text.bytes_lt_iff⟩

end

/-- The least integer is below -1. The empty text is below `z`, which has fewer bytes than `é` and
is below it. -/
theorem State.comparisons_ordered_texts : ∃ (s : State) (least negative empty z accented : Handle),
    s.Reachable ∧ s.heap.Unaltered ∧ 0 < s.levels ∧ s.IsNumber least (-9223372036854775808) ∧
    s.IsNumber negative (-1) ∧
    s.IsWord empty [] ∧ s.IsWord z [122] ∧ s.IsWord accented [233] ∧
    s.Says 1 .lt least negative true ∧ s.Says 1 .ge least negative false ∧
    s.Says 1 .lt empty z true ∧ s.Says 1 .gt z accented false ∧
    s.Says 1 .ne z accented true ∧ s.Says 1 .lt empty accented true := by
  obtain ⟨s, handles, hs, hu, hlevels, hall⟩ :=
    State.exists_literals [.int (-9223372036854775808), .int (-1), .text "", .text "z", .text "é"]
  obtain _ | @⟨_, least, _, _, hleast,
      _ | @⟨_, negative, _, _, hnegative, _ | @⟨_, empty, _, _, hempty, _ | @⟨_, z, _, _, hz,
    _ | @⟨_, accented, _, _, haccented, _⟩⟩⟩⟩⟩ := hall
  have hroom : 0 < s.levels := by rw [hlevels]; decide
  have hint : s.IsNumber least (-9223372036854775808) ∧ s.IsNumber negative (-1) :=
    ⟨⟨_, ⟨_, hleast, rfl⟩, by decide⟩, ⟨_, ⟨_, hnegative, rfl⟩, by decide⟩⟩
  have htext : s.IsWord empty [] ∧ s.IsWord z [122] ∧ s.IsWord accented [233] :=
    ⟨⟨_, ⟨_, hempty, rfl⟩, by decide +kernel⟩, ⟨_, ⟨_, hz, rfl⟩, by decide +kernel⟩,
      ⟨_, ⟨_, haccented, rfl⟩, by decide +kernel⟩⟩
  obtain ⟨hnumbers, hwords, _⟩ := State.comparisons_ordered hs hu hroom 0
  have hless := hwords.agrees _ _ _ _ htext.1 htext.2.1 .lt (by decide)
  have hrest := hwords.agrees _ _ _ _ htext.2.1 htext.2.2
  refine ⟨s, least, negative, empty, z, accented, hs, hu, hroom, hint.1, hint.2, htext.1, htext.2.1,
    htext.2.2, ?_, ?_, hless, ?_, ?_, ?_⟩
  · exact hnumbers.agrees _ _ _ _ hint.1 hint.2 .lt (by decide)
  · exact hnumbers.agrees _ _ _ _ hint.1 hint.2 .ge (by decide)
  · exact hrest .gt (by decide)
  · exact hrest .ne (by decide)
  · exact hwords.trans _ _ _ _ _ _ htext.1 htext.2.1 htext.2.2 hless (hrest .lt (by decide))

end ObjectModel
