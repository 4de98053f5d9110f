import ObjectModel.Proofs.Text.Calling

/-!
# Search

`str.find` tries one position after the other. Here it is compared with the least of all positions
at which the text that is searched for stands.

* `Text.SearchLoop` -- **the loop as it runs**: on words, with a window that lies inside of the text
  whenever it is read.
* `Text.IsFirst`, `Text.SearchLoop.isFirst` -- **the loop ends with the least candidate**, or with
  -1 if there is none.
-/

namespace ObjectModel

namespace Text

variable {chars pattern : List Char} {low high : Int} {first last i r : Int64} {p : Nat}

/-! ## 1. Positions -/

/-- `pattern` stands in `chars` at `p`. -/
def OccursAt (chars pattern : List Char) (p : Nat) : Prop :=
  ∃ before after, chars = before ++ pattern ++ after ∧ before.length = p

/-- **What a search looks for**: a position within the bounds at which `pattern` stands. -/
structure Candidate (chars pattern : List Char) (low high p : Int) : Prop where
  low_le : low ≤ p
  le_high : p ≤ high
  occurs : OccursAt chars pattern p.toNat

/-- The result of a search: the least candidate, and -1 exactly if there is none. -/
structure IsFirst (chars pattern : List Char) (low high : Int) (r : Int64) : Prop where
  least : (∃ p, Candidate chars pattern low high p) →
    IsLeast {p | Candidate chars pattern low high p} r.toInt
  absent : r = -1 ↔ ∀ p, ¬ Candidate chars pattern low high p

/-- It is enough to compare a window of the text that is as long as the pattern. -/
theorem occursAt_iff (hp : p + pattern.length ≤ chars.length) :
    OccursAt chars pattern p ↔ (chars.drop p).take pattern.length = pattern := by
  constructor
  · rintro ⟨before, after, rfl, rfl⟩
    rw [List.append_assoc, List.drop_left, List.take_left]
  · intro h
    refine ⟨chars.take p, (chars.drop p).drop pattern.length, ?_, ?_⟩
    · calc chars = chars.take p
          ++ ((chars.drop p).take pattern.length ++ (chars.drop p).drop pattern.length) := by
            rw [List.take_append_drop, List.take_append_drop]
        _ = chars.take p ++ pattern ++ (chars.drop p).drop
            pattern.length := by rw [h, List.append_assoc]
    · rw [List.length_take]
      omega

/-! ## 2. The loop -/

/-- **The loop of a search**, from a position on, with the position that it ends with. A window is
compared only where it lies inside of the text, and the next position is in the integer range. -/
inductive SearchLoop (chars pattern : List Char) (last : Int64) : Int64 → Int64 → Prop where
  | past {i : Int64} : last < i → SearchLoop chars pattern last i (-1)
  | found {i : Int64} : i ≤ last → 0 ≤ i.toInt → i.toInt + pattern.length ≤ chars.length →
      (chars.drop i.toInt.toNat).take pattern.length = pattern → SearchLoop chars pattern last i i
  | next {i j r : Int64} : i ≤ last → 0 ≤ i.toInt → i.toInt + pattern.length ≤ chars.length →
      (chars.drop i.toInt.toNat).take pattern.length ≠ pattern → Arithmetic.add? i 1 = some j →
      SearchLoop chars pattern last j r → SearchLoop chars pattern last i r

theorem isPrefixOf_iff (rest : List Char) :
    pattern.isPrefixOf rest = true ↔ rest.take pattern.length = pattern := by
  rw [List.isPrefixOf_iff_prefix, List.prefix_iff_eq_take, eq_comm]

/-- **The candidates are tried one after the other**, by induction on how many are left. -/
theorem searchLoop_scan (hsize : chars.length ≤ 9223372036854775807)
    (hlast : last.toInt + pattern.length ≤ chars.length) (n : Nat) :
    ∀ (i : Int64) (p : Nat), i.toInt = p → n = (last.toInt + 1 - p).toNat →
      SearchLoop chars pattern last i
        ((scan pattern n p (chars.drop p)).elim (-1) Int64.ofNat) := by
  induction n with
  | zero =>
    intro i p hi hn
    exact .past (Int64.lt_iff_toInt_lt.mpr (by omega))
  | succ n ih =>
    intro i p hi hn
    have hle : i ≤ last := Int64.le_iff_toInt_le.mpr (by omega)
    have hp : i.toInt.toNat = p := by omega
    unfold scan
    by_cases hprefix : pattern.isPrefixOf (chars.drop p) = true
    · rw [if_pos hprefix, Option.elim_some]
      have hword : Int64.ofNat p = i := by
        rw [← Int64.toInt_inj, Int64.toInt_ofNat_of_lt (by omega), hi]
      rw [hword]
      exact .found hle (by omega) (by omega) (hp ▸ (isPrefixOf_iff _).mp hprefix)
    · -- The pattern is not empty, so there is a character here and a word for the position behind.
      have hpattern : 0 < pattern.length := by
        refine List.length_pos_iff.mpr fun hnil => hprefix ?_
        rw [hnil, List.isPrefixOf_nil_left]
      have hcons : chars.drop p = chars.get ⟨p, by omega⟩ :: chars.drop (p + 1) :=
        List.drop_eq_getElem_cons (by omega)
      have hone : (1 : Int64).toInt = 1 := rfl
      obtain ⟨j, hj⟩ :=
        Arithmetic.exists_fit (n := i.toInt + (1 : Int64).toInt) (by omega) (by omega)
      have hnext : j.toInt = (p + 1 : Nat) := (Arithmetic.fit?_eq_some_iff.mp hj).trans (by omega)
      rw [if_neg hprefix, hcons]
      exact .next hle (by omega) (by omega) (hp ▸ (isPrefixOf_iff _).not.mp hprefix) hj
        (ih j (p + 1) hnext (by omega))

theorem find_eq (text needle : String) (start stop : Int64) :
    find text needle start stop = (findChars text.toList needle.toList start.toInt stop.toInt).elim
      (-1) Int64.ofNat := by
  unfold find
  cases findChars text.toList needle.toList start.toInt stop.toInt <;> rfl

/-- **The loop ends with what is found**, if the text is not shorter than what is searched for. -/
theorem searchLoop_find {text needle : String} (start stop : Int64)
    (hsize : text.length ≤ 9223372036854775807) (hneedle : needle.length ≤ text.length) :
    ∃ first last : Int64, first.toInt = max start.toInt 0 ∧
      last.toInt = min stop.toInt (text.length - needle.length) ∧
      SearchLoop text.toList needle.toList last first (find text needle start stop) := by
  have hstart := Arithmetic.toInt_bounds start
  have hstop := Arithmetic.toInt_bounds stop
  obtain ⟨first, hfirst⟩ := Arithmetic.exists_fit (n := max start.toInt 0) (by omega) (by omega)
  obtain ⟨last, hlast⟩ :=
    Arithmetic.exists_fit (n := min stop.toInt (text.length - needle.length)) (by omega) (by omega)
  rw [Arithmetic.fit?_eq_some_iff] at hfirst hlast
  refine ⟨first, last, hfirst, hlast, ?_⟩
  rw [← String.length_toList, ← String.length_toList] at hlast hneedle
  rw [← String.length_toList] at hsize
  rw [find_eq, findChars, if_neg (by omega), ← hlast]
  exact searchLoop_scan hsize (by omega) _ first _ (by omega) (by omega)

/-! ## 3. What the loop ends with -/

/-- A position at which the pattern does not stand can be left out. -/
theorem candidate_succ (hnot : ¬ OccursAt chars pattern low.toNat) (p : Int) :
    Candidate chars pattern (low + 1) high p ↔ Candidate chars pattern low high p := by
  refine ⟨fun h => ⟨?_, h.le_high, h.occurs⟩, fun h => ⟨?_, h.le_high, h.occurs⟩⟩
  · have := h.low_le
    omega
  · have hne : p ≠ low := fun heq => hnot (heq ▸ h.occurs)
    have := h.low_le
    omega

theorem isFirst_none (h : high < low) : IsFirst chars pattern low high (-1) := by
  have hnone (p : Int) : ¬ Candidate chars pattern low high p := by
    rintro ⟨hlow, hhigh, _⟩
    omega
  exact ⟨fun ⟨p, hp⟩ => absurd hp (hnone p), fun _ => hnone, fun _ => rfl⟩

/-- **The loop ends with the least candidate**, by induction on the loop: what was passed over is
none. -/
theorem SearchLoop.isFirst (h : SearchLoop chars pattern last i r) :
    IsFirst chars pattern i.toInt last.toInt r := by
  induction h with
  | past hlt => exact isFirst_none (Int64.lt_iff_toInt_lt.mp hlt)
  | @found i hle hnonneg hwindow heq =>
    have hhere : Candidate chars pattern i.toInt last.toInt i.toInt :=
      ⟨Int.le_refl _, Int64.le_iff_toInt_le.mp hle, (occursAt_iff (by omega)).mpr heq⟩
    refine ⟨fun _ => ⟨hhere, fun p hp => hp.low_le⟩, fun hminus => ?_,
      fun hnone => absurd hhere (hnone _)⟩
    have hvalue : i.toInt = -1 := congrArg Int64.toInt hminus
    omega
  | @next i j r hle hnonneg hwindow hne hadd _ ih =>
    have hnot : ¬ OccursAt chars pattern i.toInt.toNat := (occursAt_iff (by omega)).not.mpr hne
    have hj : j.toInt = i.toInt + 1 := Arithmetic.fit?_eq_some_iff.mp hadd
    rw [hj] at ih
    have hcongr : Candidate chars pattern (i.toInt + 1) last.toInt
        = Candidate chars pattern i.toInt last.toInt :=
      funext fun p => propext (candidate_succ hnot p)
    obtain ⟨hleast, habsent⟩ := ih
    rw [hcongr] at hleast habsent
    exact ⟨hleast, habsent⟩

/-- **What is found is the first place.** -/
theorem isFirst_find (text needle : String) (start stop : Int64)
    (hsize : text.length ≤ 9223372036854775807) :
    IsFirst text.toList needle.toList (max start.toInt 0)
      (min stop.toInt (text.length - needle.length)) (find text needle start stop) := by
  by_cases hneedle : needle.length ≤ text.length
  · obtain ⟨first, last, hfirst, hlast, hloop⟩ := searchLoop_find start stop hsize hneedle
    rw [← hfirst, ← hlast]
    exact hloop.isFirst
  · have hshort : text.toList.length < needle.toList.length := by
      rw [String.length_toList, String.length_toList]
      omega
    rw [find_eq, findChars, if_pos hshort]
    exact isFirst_none (by omega)

theorem IsFirst.unique {r r' : Int64} (h : IsFirst chars pattern low high r)
    (h' : IsFirst chars pattern low high r') : r = r' := by
  by_cases hnone : ∀ p, ¬ Candidate chars pattern low high p
  · rw [h.absent.mpr hnone, h'.absent.mpr hnone]
  · have hsome := not_forall_not.mp hnone
    exact Int64.toInt_inj.mp ((h.least hsome).unique (h'.least hsome))

/-! ## 4. A start that counts from the end -/

/-- The position that a start stands for: a negative one counts from the end. -/
def fromEnd (size : Nat) (start : Int) : Int := if start < 0 then start + size else start

theorem toInt_size {size : Nat} (hsize : size ≤ 9223372036854775807) :
    (Int64.ofNat size).toInt = size :=
  Int64.toInt_ofNat_of_lt (by omega)

/-- A length that is added to a negative start does not leave the range. -/
theorem toInt_add_size {size : Nat} {start : Int64} (hsize : size ≤ 9223372036854775807)
    (hneg : start < 0) : (start + Int64.ofNat size).toInt = start.toInt + size := by
  have hstart := Arithmetic.toInt_bounds start
  have hsize := toInt_size hsize
  rw [Arithmetic.toInt_neg_iff] at hneg
  rw [Arithmetic.toInt_add_of_bounds (by omega) (by omega), hsize]

theorem add?_size {size : Nat} {start : Int64} (hsize : size ≤ 9223372036854775807)
    (hneg : start < 0) :
    ∃ i, Arithmetic.add? start (Int64.ofNat size) = some i ∧ i.toInt = start.toInt + size := by
  have hadd := toInt_add_size hsize hneg
  refine ⟨_, Arithmetic.fit?_eq_some_iff.mpr ?_, hadd⟩
  rw [hadd, toInt_size hsize]

theorem toInt_fromEnd {size : Nat} (hsize : size ≤ 9223372036854775807) (start : Int64) :
    (if start < 0 then start + Int64.ofNat size else start).toInt = fromEnd size start.toInt := by
  unfold fromEnd
  by_cases hneg : start < 0
  · rw [if_pos hneg, if_pos (Arithmetic.toInt_neg_iff.mp hneg), toInt_add_size hsize hneg]
  · rw [if_neg hneg, if_neg (Arithmetic.toInt_neg_iff.not.mp hneg)]

end Text

/-! ## 5. The member -/

/-- **Arguments of `str.find`.** A start that is left out is 0, and an end that is left out is the
length of the text. -/
inductive State.FindArgs (s : State) (text needle : String) : Int64 → Int → List Handle → Prop where
  | plain {c d : Handle} : s.IsText c text → s.IsText d needle →
      FindArgs s text needle 0 text.length [c, d]
  | started {c d a : Handle} {start : Int64} : s.IsText c text → s.IsText d needle →
      s.IsInt a start → FindArgs s text needle start text.length [c, d, a]
  | bounded {c d a b : Handle} {start stop : Int64} : s.IsText c text → s.IsText d needle →
      s.IsInt a start → s.IsInt b stop → FindArgs s text needle start stop.toInt [c, d, a, b]

section

variable {s t : State} {x : Run Handle} {args : List Handle} {depth : Nat} {text needle : String}
  {start : Int64} {stop : Int} {e : Engine}

namespace State.FindArgs

theorem entered (ha : s.FindArgs text needle start stop args) (ht : s.Entered depth t) :
    t.FindArgs text needle start stop args := by
  cases ha with
  | plain hc hd => exact .plain (hc.of_kept ht.kept) (hd.of_kept ht.kept)
  | started hc hd ha =>
    exact .started (hc.of_kept ht.kept) (hd.of_kept ht.kept) (ha.of_kept ht.kept)
  | bounded hc hd ha hb =>
    exact .bounded (hc.of_kept ht.kept) (hd.of_kept ht.kept) (ha.of_kept ht.kept)
      (hb.of_kept ht.kept)

/-- **The member searches the text**, with a word for the end. -/
theorem run_find (ha : s.FindArgs text needle start stop args)
    (hsize : text.length ≤ 9223372036854775807) (e : Engine) :
    ∃ last : Int64, last.toInt = stop ∧ ((Member.str .find).run args).run.run e s =
      (newInt (Text.find text needle (if start < 0 then start + Int64.ofNat text.length else start)
        last)).run.run e s := by
  cases ha with
  | @plain c d hc hd =>
    refine ⟨Int64.ofNat text.length, Text.toInt_size hsize, ?_⟩
    refine (Run.run_bind_ok (hc.run_textReceiver _ e)).trans ?_
    exact Run.run_bind_ok (hd.run_textArgument _ _ e)
  | @started c d a start hc hd ha =>
    refine ⟨Int64.ofNat text.length, Text.toInt_size hsize, ?_⟩
    refine (Run.run_bind_ok (hc.run_textReceiver _ e)).trans ?_
    refine (Run.run_bind_ok (hd.run_textArgument _ _ e)).trans ?_
    exact Run.run_bind_ok (ha.run_intArgument _ _ e)
  | @bounded c d a b start stop hc hd ha hb =>
    refine ⟨stop, rfl, ?_⟩
    refine (Run.run_bind_ok (hc.run_textReceiver _ e)).trans ?_
    refine (Run.run_bind_ok (hd.run_textArgument _ _ e)).trans ?_
    refine (Run.run_bind_ok (ha.run_intArgument _ _ e)).trans ?_
    exact Run.run_bind_ok (hb.run_intArgument _ _ e)

end State.FindArgs

/-- **A search finds the first place.** In every state of a session, `str.find` returns the least
position within the bounds at which the other text stands, and -1 exactly if there is none. The text
may have as many characters as there are positive integers. A start that counts from the end does
not leave the integer range, nor does any position of the loop, and the loop compares nothing but
windows that lie inside of the text. -/
theorem State.finds_first (hs : s.Reachable) (hx : s.Invokes (.str .find) args depth x)
    (ha : s.FindArgs text needle start stop args) (hsize : text.length ≤ 9223372036854775807)
    (n : Nat) :
    ∃ found : Int64, (x.exec (n + depth) s).Gives s (.ok found) ∧
      Text.IsFirst text.toList needle.toList (max (Text.fromEnd text.length start.toInt) 0)
        (min stop (text.length - needle.length)) found ∧
      (start < 0 → ∃ i, Arithmetic.add? start (Int64.ofNat text.length) = some i ∧
        i.toInt = start.toInt + text.length) ∧
      (needle.length ≤ text.length →
        ∃ first last : Int64, first.toInt = max (Text.fromEnd text.length start.toInt) 0 ∧
        last.toInt = min stop (text.length - needle.length) ∧
          Text.SearchLoop text.toList needle.toList last first found) := by
  obtain ⟨t, ht, hrun⟩ := hx.exec hs.orderly.regular.heap n
  obtain ⟨last, rfl, hfind⟩ := (ha.entered ht).run_find hsize (engine n)
  rw [hrun, hfind, ← Text.toInt_fromEnd hsize]
  exact ⟨_, ht.gives (.newInt ht.wellFormed _), Text.isFirst_find text needle _ last hsize,
    Text.add?_size hsize, Text.searchLoop_find _ last hsize⟩

/-- From the fourth character from the end on, and not behind position 2, "ná" stands in "banána" at
2; "x" does not stand in it at all. -/
theorem State.finds_first_banana :
    ∃ (s : State) (c d x a b : Handle), s.Reachable ∧ s.IsText c "banána" ∧ s.IsText d "ná" ∧
      s.IsText x "x" ∧ s.IsInt a (-4) ∧ s.IsInt b 2 ∧
      ((callMethod c "find" [d, a, b]).exec 2 s).Gives s (.ok 2) ∧
        ((callMethod c "find" [x]).exec 2 s).Gives s (.ok (-1)) := by
  obtain ⟨s, handles, hs, hu, hlevels, hall⟩ :=
    State.exists_literals [.text "banána", .text "ná", .text "x", .int (-4), .int 2]
  obtain _ | @⟨_, c, _, _, hc, _ | @⟨_, d, _, _, hd,
      _ | @⟨_, x, _, _, hx, _ | @⟨_, a, _, _, ha, _ | @⟨_, b, _, _, hb, _⟩⟩⟩⟩⟩ := hall
  have htext : s.IsText c "banána" := ⟨_, hc, rfl⟩
  have hd : s.IsText d "ná" := ⟨_, hd, rfl⟩
  have hx : s.IsText x "x" := ⟨_, hx, rfl⟩
  have ha : s.IsInt a (-4) := ⟨_, ha, rfl⟩
  have hb : s.IsInt b 2 := ⟨_, hb, rfl⟩
  have hinvokes (args : List Handle) :
      s.Invokes (.str .find) (c :: args) 2 (callMethod c "find" args) :=
    (State.Native.of_reachable hs hu).invokes_text hc .find args (by rw [hlevels]; decide)
  obtain ⟨i, hi, hfirst, _⟩ :=
    State.finds_first hs (hinvokes _) (.bounded htext hd ha hb) (by decide) 0
  obtain ⟨j, hj, hnone, _⟩ := State.finds_first hs (hinvokes _) (.plain htext hx) (by decide) 0
  have hfirst : i = 2 := hfirst.unique (Text.isFirst_find "banána" "ná" 2 2 (by decide))
  have hnone : j = -1 := hnone.unique (Text.isFirst_find "banána" "x" 0 6 (by decide))
  exact ⟨s, c, d, x, a, b, hs, htext, hd, hx, ha, hb, hfirst ▸ hi, hnone ▸ hj⟩

end

end ObjectModel
