import ObjectModel.Proofs.Data.Literals

/-!
# Equality of data values

`==` asks the `__eq__` of the left operand, then that of the right one, and falls back to identity.
Each of these hooks is a builtin member that compares one level and asks `==` for the items.

* `State.Pair.decides_valuesEqual` -- **`==` decides whether two data values are the same**, by
  induction on the levels.
-/

namespace ObjectModel

/-! ## 1. Decisions -/

/-- The program answers whether `Q` holds, and leaves the state as it is. -/
def Run.Decides (x : Run Bool) (e : Engine) (s : State) (Q : Prop) : Prop :=
  ∃ b, x.run.run e s = .done (.ok b) s ∧ (b = true ↔ Q)

/-- **What a hook may answer**: a truth value that says whether `Q` holds, or that it declines,
which it may do only if `D` holds. -/
inductive Verdict (Q D : Prop) : Handle → Prop where
  | answers (b : Bool) : (b = true ↔ Q) → Verdict Q D (.ofBool b)
  | declines : D → Verdict Q D .notImplemented

theorem Handle.ofBool_ne (b : Bool) : Handle.ofBool b ≠ .notImplemented := by
  cases b <;> decide

theorem Handle.ofBool_injective {b c : Bool} (h : Handle.ofBool b = .ofBool c) : b = c := by
  revert b c
  decide

section

variable {s : State} {e : Engine} {n : Nat} {Q D : Prop} {R : Handle → Datum → Prop}

theorem decides_pairwiseEqual {xs ys : List Handle} {ts us : List Datum}
    (hxs : List.Forall₂ R xs ts) (hys : List.Forall₂ R ys us) (hlen : xs.length = ys.length)
    (hitems : ∀ x ∈ xs, ∀ y ∈ ys, ∀ t u, R x t → R y u → (valuesEqual x y).Decides e s (t = u)) :
    (pairwiseEqual xs ys).Decides e s (ts = us) := by
  induction hxs generalizing ys us with
  | nil =>
    cases hys with
    | nil => exact ⟨true, rfl, by simp⟩
    | cons _ _ => cases hlen
  | @cons x t xs ts hxt _ ih =>
    cases hys with
    | nil => cases hlen
    | @cons y u ys us hyu hys =>
      obtain ⟨b, hrun, hb⟩ := hitems x List.mem_cons_self y List.mem_cons_self t u hxt hyu
      have hfirst : (pairwiseEqual (x :: xs) (y :: ys)).run.run e s
          = (if b then pairwiseEqual xs ys else pure false).run.run e s := Run.run_bind_ok hrun
      cases b with
      | false =>
        have hne : t ≠ u := fun h => absurd (hb.mpr h) Bool.false_ne_true
        exact ⟨false, hfirst, by simp [hne]⟩
      | true =>
        obtain ⟨c, hrest, hc⟩ := ih hys (Nat.succ.inj hlen) fun x' hx' y' hy' =>
          hitems x' (List.mem_cons_of_mem _ hx') y' (List.mem_cons_of_mem _ hy')
        exact ⟨c, hfirst.trans hrest, by simp [hc, hb.mp rfl]⟩

/-- Lists of different length are different. -/
theorem decides_itemsEqual {xs ys : List Handle} {ts us : List Datum}
    (hxs : List.Forall₂ R xs ts) (hys : List.Forall₂ R ys us)
    (hitems : ∀ x ∈ xs, ∀ y ∈ ys, ∀ t u, R x t → R y u → (valuesEqual x y).Decides e s (t = u)) :
    (itemsEqual xs ys).Decides e s (ts = us) := by
  unfold itemsEqual
  by_cases hlen : xs.length = ys.length
  · rw [if_pos hlen]
    exact decides_pairwiseEqual hxs hys hlen hitems
  · rw [if_neg hlen]
    refine ⟨false, rfl, iff_of_false Bool.false_ne_true ?_⟩
    rintro rfl
    exact hlen (hxs.length_eq.trans hys.length_eq.symm)

/-! ## 2. What the members see of the other operand -/

namespace Layer

variable {α : Type}

def list? : Layer α → Option (List α)
  | list items => some items
  | _ => Option.none

/-- The only object that stands for such a layer. -/
def single? : Layer α → Option Handle
  | bool b => some (.ofBool b)
  | none => some .none
  | _ => Option.none

/-- The member that compares such a layer with another. -/
def eqMember : Layer α → Member
  | int _ => .int (.binary .eq)
  | text _ => .str .eq
  | tuple _ => .tuple .eq
  | list _ => .list .eq
  | _ => .object .eq

/-- Only numbers have a member of their own for `!=`. -/
def neMember : Layer α → Member
  | int _ => .int (.binary .ne)
  | _ => .object .ne

theorem member?_eq (l : Layer α) : l.type.member? "__eq__" = some l.eqMember := by
  cases l <;> rfl

theorem member?_ne (l : Layer α) : l.type.member? "__ne__" = some l.neMember := by
  cases l <;> rfl

theorem Matches.single?_eq {β : Type} {R : α → β → Prop} {l : Layer α} {m : Layer β}
    (h : l.Matches R m) : m.single? = l.single? := by
  cases h <;> rfl

/-- A layer that has one object only is known by it. -/
theorem eq_of_single? {l m : Layer α} {k : Handle} (hl : l.single? = some k)
    (hm : m.single? = some k) : l = m := by
  cases l with
  | bool x =>
    cases hl
    cases m with
    | bool y => rw [Handle.ofBool_injective (Option.some.inj hm)]
    | none => cases x <;> cases hm
    | _ => cases hm
  | none =>
    cases hl
    cases m with
    | bool y => cases y <;> cases hm
    | none => rfl
    | _ => cases hm
  | _ => cases hl

end Layer

variable {h a b : Handle} {l la lb : Layer Handle} {da db : Layer Datum}

/-- Only lists are instances of `list`. -/
theorem run_listItems_layer (hs : s.Native) (hl : s.heap.layer? h = some l) :
    (listItems h).run.run e s = .done (.ok l.list?) s := by
  have ho := hs.orderly.heap
  obtain ⟨o, hget, hl⟩ := Heap.layer?_eq_some_iff.mp hl
  have hchain : s.heap.chain o.type = some [l.type.handle, BuiltinType.object.handle] := by
    obtain ⟨type, htype, hp⟩ := ho.builtin l.type
    have hbase : l.type.base? = some .object := by cases l <;> rfl
    rw [hbase] at hp
    rw [hl.type_eq ho hget]
    exact (Heap.Lineage.derived htype hp ho.lineage_object).chain_eq
  have hinstance : s.heap.isInstance h BuiltinType.list.handle
      = some ([l.type.handle, BuiltinType.object.handle].contains BuiltinType.list.handle) := by
    rw [Heap.isInstance_eq hget, hchain]
    rfl
  have hitems : s.heap.listItems h = some l.list? := by
    unfold Heap.listItems
    rw [hinstance]
    cases hl with
    | list _ _ hcell => exact hcell
    | _ => rfl
  exact Run.run_inspect hitems

/-! ## 3. One level -/

/-- What exists once. -/
theorem State.Native.eq_single (hs : s.Native) (hl : s.heap.layer? h = some l) {k : Handle}
    (hk : l.single? = some k) : h = k := by
  obtain ⟨o, hget, hl⟩ := Heap.layer?_eq_some_iff.mp hl
  have hpayload : o.payload.singleton? = l.single? := by
    cases hl with
    | bool hp | none hp =>
      rw [hp]
      rfl
    | _ => cases hk
  exact hs.orderly.heap.singleton hget (hpayload.trans hk)

section

variable (hb : s.heap.layer? b = some lb) (hdb : lb.Matches R db)
include hb hdb

/-- Identity settles what exists once. -/
theorem eq_iff_of_single? (hs : s.Native) (ha : s.heap.layer? a = some la) (hda : la.Matches R da)
    {k : Handle} (hk : la.single? = some k) : a = b ↔ da = db := by
  constructor
  · rintro rfl
    cases ha.symm.trans hb
    exact Layer.eq_of_single? (hda.single?_eq.trans hk) (hdb.single?_eq.trans hk)
  · rintro rfl
    have hkb : lb.single? = some k := hdb.single?_eq.symm.trans (hda.single?_eq.trans hk)
    rw [hs.eq_single ha hk, hs.eq_single hb hkb]

/-- `object.__eq__` goes by identity. -/
theorem verdict_object_eq (hs : s.Native) (ha : s.heap.layer? a = some la) (hda : la.Matches R da)
    {k : Handle} (hk : la.single? = some k) :
    ∃ answer, ((Member.object .eq).run [a, b]).run.run e s = .done (.ok answer) s ∧
      Verdict (da = db) (da ≠ db) answer := by
  have hrun : ((Member.object .eq).run [a, b]).run.run e s
      = .done (.ok (if a = b then .true else .notImplemented)) s := rfl
  have hiff := eq_iff_of_single? hb hdb hs ha hda hk
  by_cases hab : a = b
  · rw [if_pos hab] at hrun
    exact ⟨_, hrun, .answers true (iff_of_true rfl (hiff.mp hab))⟩
  · rw [if_neg hab] at hrun
    exact ⟨_, hrun, .declines fun h => hab (hiff.mpr h)⟩

/-- A member of `int` that answers with a truth value. -/
theorem verdict_int {i : Int64} (ha : s.heap.layer? a = some (.int i)) (op : BinaryOp)
    (test : Int64 → Int64 → Bool) (htest : ∀ i j, intOp op i j = pure (.ofBool (test i j)))
    (hQ : ∀ j, db = .int j → (test i j = true ↔ Q)) (hD : (∀ j, db ≠ .int j) → D) :
    ∃ answer, ((Member.int (.binary op)).run [a, b]).run.run e s = .done (.ok answer) s ∧
      Verdict Q D answer := by
  have hleft : (intReceiver op.hooks.forward a).run.run e s = .done (.ok i) s :=
    run_intReceiver_layer ha _
  have hrun : ((Member.int (.binary op)).run [a, b]).run.run e s
      = (lb.int?.elim (pure .notImplemented) (intOp op i)).run.run e s := by
    refine (Run.run_bind_ok hleft).trans ((Run.run_bind_ok (run_intValue_layer hb)).trans ?_)
    cases lb <;> rfl
  cases hdb with
  | int j =>
    refine ⟨_, hrun.trans ?_, .answers (test i j) (hQ j rfl)⟩
    rw [Layer.int?, Option.elim_some, htest]
    rfl
  | _ => exact ⟨_, hrun, .declines (hD (by simp))⟩

theorem verdict_text {x : String} (ha : s.heap.layer? a = some (.text x)) :
    ∃ answer, ((Member.str .eq).run [a, b]).run.run e s = .done (.ok answer) s ∧
      Verdict (.text x = db) (.text x ≠ db) answer := by
  have hleft : (textReceiver "str.__eq__" a).run.run e s = .done (.ok x) s :=
    run_textReceiver_layer ha _
  have hrun : ((Member.str .eq).run [a, b]).run.run e s
      = (lb.text?.elim (pure .notImplemented) fun y =>
          pure (.ofBool (x == y)) : Run Handle).run.run e s := by
    refine (Run.run_bind_ok hleft).trans ((Run.run_bind_ok (run_textValue_layer hb)).trans ?_)
    cases lb <;> rfl
  cases hdb with
  | text y => exact ⟨_, hrun, .answers (x == y) (by simp)⟩
  | _ => exact ⟨_, hrun, .declines (by simp)⟩

variable {xs : List Handle} {ts : List Datum} (hxs : List.Forall₂ R xs ts)
  (hitems : ∀ x ∈ xs, ∀ y ∈ lb.items, ∀ t u, R x t → R y u → (valuesEqual x y).Decides e s (t = u))
include hxs hitems

theorem verdict_tuple (ha : s.heap.layer? a = some (.tuple xs)) :
    ∃ answer, ((Member.tuple .eq).run [a, b]).run.run e s = .done (.ok answer) s ∧
      Verdict (.tuple ts = db) (.tuple ts ≠ db) answer := by
  have hleft : (tupleReceiver "tuple.__eq__" a).run.run e s = .done (.ok xs) s :=
    run_tupleReceiver_layer ha _
  have hrun : ((Member.tuple .eq).run [a, b]).run.run e s
      = (lb.tuple?.elim (pure .notImplemented) fun ys =>
          do return .ofBool (← itemsEqual xs ys) : Run Handle).run.run e s := by
    refine (Run.run_bind_ok hleft).trans ((Run.run_bind_ok (run_tupleItems_layer hb)).trans ?_)
    cases lb <;> rfl
  cases hdb with
  | tuple hys =>
    obtain ⟨c, hequal, hc⟩ := decides_itemsEqual hxs hys hitems
    exact ⟨_, hrun.trans (Run.run_bind_ok hequal), .answers c (by simp [hc])⟩
  | _ => exact ⟨_, hrun, .declines (by simp)⟩

theorem verdict_list (hs : s.Native) (ha : s.heap.layer? a = some (.list xs)) :
    ∃ answer, ((Member.list .eq).run [a, b]).run.run e s = .done (.ok answer) s ∧
      Verdict (.list ts = db) (.list ts ≠ db) answer := by
  have hleft : (listReceiver "list.__eq__" a).run.run e s = .done (.ok xs) s :=
    run_listReceiver_layer ha _
  have hrun : ((Member.list .eq).run [a, b]).run.run e s
      = (lb.list?.elim (pure .notImplemented) fun ys =>
          do return .ofBool (← itemsEqual xs ys) : Run Handle).run.run e s := by
    refine (Run.run_bind_ok hleft).trans ((Run.run_bind_ok (run_listItems_layer hs hb)).trans ?_)
    cases lb <;> rfl
  cases hdb with
  | list hys =>
    obtain ⟨c, hequal, hc⟩ := decides_itemsEqual hxs hys hitems
    exact ⟨_, hrun.trans (Run.run_bind_ok hequal), .answers c (by simp [hc])⟩
  | _ => exact ⟨_, hrun, .declines (by simp)⟩

end

/-- **One level of `==`**: the member of the left operand says whether both are the same, and
declines only where they are not. -/
theorem verdict_eq (hs : s.Native) (ha : s.heap.layer? a = some la) (hb : s.heap.layer? b = some lb)
    (hda : la.Matches R da) (hdb : lb.Matches R db) (hdict : da.type ≠ .dict) (hitems : ∀ x
      ∈ la.items, ∀ y ∈ lb.items, ∀ t u, R x t → R y u → (valuesEqual x y).Decides e s (t = u)) :
    ∃ answer, (la.eqMember.run [a, b]).run.run e s = .done (.ok answer) s ∧
      Verdict (da = db) (da ≠ db) answer := by
  cases hda with
  | int i =>
    refine verdict_int hb hdb ha .eq (· == ·) (fun _ _ => rfl) ?_ fun hne h => hne i h.symm
    rintro j rfl
    simp
  | text x => exact verdict_text hb hdb ha
  | bool x => exact verdict_object_eq hb hdb hs ha (.bool x) rfl
  | none => exact verdict_object_eq hb hdb hs ha .none rfl
  | tuple hxs => exact verdict_tuple hb hdb hxs hitems ha
  | list hxs => exact verdict_list hb hdb hxs hitems hs ha
  | dict _ => exact absurd rfl hdict

/-- **One level of `!=`**: the member of the left operand says whether they differ, or declines. -/
theorem verdict_ne (ha : s.heap.layer? a = some la) (hb : s.heap.layer? b = some lb)
    (hda : la.Matches R da) (hdb : lb.Matches R db) (hsame : a = b → da = db) :
    ∃ answer, (la.neMember.run [a, b]).run.run e s = .done (.ok answer) s ∧
      Verdict (da ≠ db) True answer := by
  have hobject : ∃ answer, ((Member.object .ne).run [a, b]).run.run e s = .done (.ok answer) s ∧
      Verdict (da ≠ db) True answer := by
    have hrun : ((Member.object .ne).run [a, b]).run.run e s
        = .done (.ok (if a = b then .false else .notImplemented)) s := rfl
    by_cases hab : a = b
    · rw [if_pos hab] at hrun
      exact ⟨_, hrun, .answers false (iff_of_false Bool.false_ne_true fun h => h (hsame hab))⟩
    · rw [if_neg hab] at hrun
      exact ⟨_, hrun, .declines trivial⟩
  cases hda with
  | int i =>
    refine verdict_int hb hdb ha .ne (· != ·) (fun _ _ => rfl) ?_ fun _ => trivial
    rintro j rfl
    simp
  | _ => exact hobject

/-! ## 4. Asking both operands -/

/-- The program says whether `Q` holds, or finds no answer, which happens only if `D` holds; the
state stays as it is. -/
def Run.Rules (x : Run (Option Handle)) (e : Engine) (s : State) (Q D : Prop) : Prop :=
  (∃ c, x.run.run e s = .done (.ok (some (.ofBool c))) s ∧ (c = true ↔ Q)) ∨
    (x.run.run e s = .done (.ok none) s ∧ D)

theorem rules_askHook {name : String} {m : Member} {args : List Handle} (hs : s.Native)
    (hroom : s.Room) (hl : s.heap.layer? h = some l) (hm : l.type.member? name = some m)
    (hv : ∃ answer, (m.run args).run.run (engine n) s.enter = .done (.ok answer) s.enter ∧
      Verdict Q D answer) : (askHook h name args).Rules (engine (n + 1)) s Q D := by
  obtain ⟨answer, hrun, hv⟩ := hv
  have hask := run_askHook (hs.answers hl hm) hroom hrun
  cases hv with
  | answers c hc =>
    rw [if_neg (Handle.ofBool_ne c)] at hask
    exact Or.inl ⟨c, hask, hc⟩
  | declines hD =>
    rw [if_pos rfl] at hask
    exact Or.inr ⟨hask, hD⟩

theorem rules_askHooks {hooks : HookPair} {left right : Handle} {D' : Prop}
    (hleft : (askHook left hooks.forward [left, right]).Rules e s Q D)
    (hright : (askHook right hooks.reflected [right, left]).Rules e s Q D') :
    (askHooks hooks left right).Rules e s Q (D ∧ D') := by
  rcases hleft with ⟨c, hrun, hc⟩ | ⟨hrun, hD⟩
  · exact Or.inl ⟨c, Run.run_bind_ok hrun, hc⟩
  · have hask : (askHooks hooks left right).run.run e s
        = (askHook right hooks.reflected [right, left]).run.run e s :=
      Run.run_bind_ok hrun
    rcases hright with ⟨c, hrun', hc⟩ | ⟨hrun', hD'⟩
    · exact Or.inl ⟨c, hask.trans hrun', hc⟩
    · exact Or.inr ⟨hask.trans hrun', hD, hD'⟩

theorem Verdict.congr {Q' D' : Prop} {answer : Handle} (hv : Verdict Q D answer) (hQ : Q ↔ Q')
    (hD : D → D') : Verdict Q' D' answer := by
  cases hv with
  | answers c hc => exact .answers c (hc.trans hQ)
  | declines h => exact .declines (hD h)

/-! ## 5. Data values -/

/-- Two data values of at most `k` levels, without mappings, in a state that has so many levels
left. -/
structure State.Pair (s : State) (k : Nat) (a b : Handle) (t u : Datum) : Prop where
  native : s.Native
  levels : k ≤ s.levels
  left : s.heap.read k a = some t
  right : s.heap.read k b = some u
  leftDictless : t.Dictless
  rightDictless : u.Dictless

namespace State.Pair

variable {k : Nat} {t u : Datum}

theorem symm (hp : s.Pair k a b t u) : s.Pair k b a u t :=
  ⟨hp.native, hp.levels, hp.right, hp.left, hp.rightDictless, hp.leftDictless⟩

theorem room (hp : s.Pair (k + 1) a b t u) : s.callDepth < s.limits.callDepth :=
  State.room_of_levels (Nat.lt_of_lt_of_le k.succ_pos hp.levels)

theorem eq_of_eq (hp : s.Pair k a b t u) (hab : a = b) : t = u := by
  subst hab
  exact Option.some.inj (hp.left.symm.trans hp.right)

/-- What the `__eq__` of one operand says of both. -/
theorem rules_eq (hp : s.Pair (k + 1) a b t u) (hitems : ∀ x y t u, s.enter.Pair k x y t u →
      (valuesEqual x y).Decides (engine n) s.enter (t = u)) :
    (askHook a "__eq__" [a, b]).Rules (engine (n + 1)) s (t = u) (t ≠ u) := by
  obtain ⟨la, da, hla, hda, rfl⟩ := Heap.read_succ_eq_some_iff.mp hp.left
  obtain ⟨lb, db, hlb, hdb, rfl⟩ := Heap.read_succ_eq_some_iff.mp hp.right
  obtain ⟨hdict, hleft⟩ := Datum.dictless_of.mp hp.leftDictless
  obtain ⟨_, hright⟩ := Datum.dictless_of.mp hp.rightDictless
  have hlevels : k ≤ s.enter.levels := by
    rw [State.levels_enter]
    exact Nat.le_sub_one_of_lt hp.levels
  have hda : la.Matches (fun x t => s.heap.read k x = some t ∧ t.Dictless) da :=
    hda.mono fun _ _ t ht hx => ⟨hx, hleft t ht⟩
  have hdb : lb.Matches (fun x t => s.heap.read k x = some t ∧ t.Dictless) db :=
    hdb.mono fun _ _ t ht hx => ⟨hx, hright t ht⟩
  refine rules_askHook hp.native hp.room hla la.member?_eq ?_
  have hitems : ∀ x ∈ la.items, ∀ y ∈ lb.items, ∀ t u, (s.heap.read k x = some t ∧ t.Dictless) →
      (s.heap.read k y = some u ∧ u.Dictless) →
      (valuesEqual x y).Decides (engine n) s.enter (t = u) := fun x _ y _ t u hx hy =>
    hitems x y t u ⟨hp.native.enter, hlevels, hx.1, hy.1, hx.2, hy.2⟩
  obtain ⟨answer, hrun, hv⟩ :=
    @verdict_eq s.enter _ _ _ _ _ _ _ _ hp.native.enter hla hlb hda hdb hdict hitems
  exact ⟨answer, hrun, hv.congr (by simp) (by simp)⟩

/-- What the `__ne__` of one operand says of both. -/
theorem rules_ne (hp : s.Pair (k + 1) a b t u) :
    (askHook a "__ne__" [a, b]).Rules (engine (n + 1)) s (t ≠ u) True := by
  have hsame := hp.eq_of_eq
  obtain ⟨la, da, hla, hda, rfl⟩ := Heap.read_succ_eq_some_iff.mp hp.left
  obtain ⟨lb, db, hlb, hdb, rfl⟩ := Heap.read_succ_eq_some_iff.mp hp.right
  refine rules_askHook hp.native hp.room hla la.member?_ne ?_
  obtain ⟨answer, hrun, hv⟩ :=
    @verdict_ne s.enter (engine n) _ _ _ _ _ _ _ hla hlb hda hdb fun hab => Datum.of.inj (hsame hab)
  exact ⟨answer, hrun, hv.congr (by simp) id⟩

/-- **`==` decides whether two data values are the same.** -/
theorem decides_valuesEqual (hp : s.Pair k a b t u) (hn : k ≤ n) :
    (valuesEqual a b).Decides (engine n) s (t = u) := by
  -- on the levels: the items have one less, and so have the state and the engine one call down
  induction k generalizing n s a b t u with
  | zero => cases hp.left
  | succ k ih =>
    obtain ⟨n, rfl⟩ : ∃ m, n = m + 1 :=
      Nat.exists_eq_succ_of_ne_zero (Nat.ne_of_gt (Nat.lt_of_lt_of_le k.succ_pos hn))
    have hitems : ∀ x y t u, s.enter.Pair k x y t u →
        (valuesEqual x y).Decides (engine n) s.enter (t = u) :=
      fun x y t u hxy => ih hxy (Nat.le_of_succ_le_succ hn)
    have hforward := hp.rules_eq hitems
    have hreflected : (askHook b "__eq__" [b, a]).Rules (engine (n + 1)) s (t = u) (t ≠ u) := by
      have hrules := hp.symm.rules_eq hitems
      rwa [eq_comm, ne_comm] at hrules
    have hequals : ∃ c, (equalsOp a b).run.run (engine (n + 1)) s = .done (.ok (.ofBool c)) s ∧
        (c = true ↔ t = u) := by
      have hrules : (askHooks BinaryOp.eq.hooks a b).Rules (engine (n + 1)) s (t = u)
          (t ≠ u ∧ t ≠ u) := rules_askHooks hforward hreflected
      rcases hrules with ⟨c, hrun, hc⟩ | ⟨hrun, hne, _⟩
      · exact ⟨c, Run.run_bind_ok hrun, hc⟩
      · -- no hook answers, and what is different is not identical
        have hab : (a == b) = false := beq_eq_false_iff_ne.mpr fun hab => hne (hp.eq_of_eq hab)
        refine ⟨false, (Run.run_bind_ok hrun).trans ?_, iff_of_false Bool.false_ne_true hne⟩
        rw [hab]
        rfl
    obtain ⟨c, hrun, hc⟩ := hequals
    exact ⟨c, (Run.run_bind_ok hrun).trans (hp.native.run_truthy hp.room c), hc⟩

/-- **`!=` is the negation.** -/
theorem run_ne (hp : s.Pair k a b t u) (hn : k ≤ n) {c : Bool} (hc : c = true ↔ t = u)
    (hrun : (valuesEqual a b).run.run (engine n) s = .done (.ok c) s) :
    (binaryOp .ne a b).run.run (engine n) s = .done (.ok (.ofBool !c)) s := by
  cases k with
  | zero => cases hp.left
  | succ k =>
    obtain ⟨n, rfl⟩ : ∃ m, n = m + 1 :=
      Nat.exists_eq_succ_of_ne_zero (Nat.ne_of_gt (Nat.lt_of_lt_of_le k.succ_pos hn))
    have hreflected : (askHook b "__ne__" [b, a]).Rules (engine (n + 1)) s (t ≠ u) True := by
      have hrules := hp.symm.rules_ne (n := n)
      rwa [ne_comm] at hrules
    have hrules : (askHooks BinaryOp.ne.hooks a b).Rules (engine (n + 1)) s (t ≠ u) (True ∧ True) :=
      rules_askHooks hp.rules_ne hreflected
    rcases hrules with ⟨d, hask, hd⟩ | ⟨hask, _⟩
    · have hnot : d = !c := by
        rw [Bool.eq_iff_iff, Bool.not_eq_true', ← Bool.not_eq_true, hd, hc]
      rw [← hnot]
      exact Run.run_bind_ok hask
    · exact (Run.run_bind_ok hask).trans (Run.run_bind_ok hrun)

end State.Pair

end

/-- The objects that stand for data values without mappings, of no more levels than are left. -/
def State.DataValue (s : State) : Type :=
  { h : Handle // ∃ t, s.heap.Shows h t ∧ t.Dictless ∧ t.nesting ≤ s.levels }

/-- **Equality is structural.** In every state of a session in which the builtin types are as they
were placed, `==` on two data values without mappings, of no more levels than are left, says whether
they are the same and never fails; `!=` says the opposite. So `==` is an equivalence on data
values. -/
theorem State.equality_structural {s : State} (hs : s.Reachable) (hu : s.heap.Unaltered) :
    (∀ (a b : Handle) (t u : Datum) (n : Nat), s.heap.Shows a t → s.heap.Shows b u → t.Dictless →
      u.Dictless →
      max t.nesting u.nesting ≤ s.levels → max t.nesting u.nesting ≤ n →
      ∃ x : Bool, (valuesEqual a b).exec n s = .done (.ok x) s ∧ (x = true ↔ t = u) ∧
        (binaryOp .ne a b).exec n s = .done (.ok (.ofBool !x)) s) ∧
    ∀ n, s.levels ≤ n →
      Equivalence fun a b : s.DataValue => (valuesEqual a.1 b.1).exec n s = .done (.ok true) s := by
  have hdecides : ∀ (a b : Handle) (t u : Datum) (n : Nat), s.heap.Shows a t → s.heap.Shows b u →
    t.Dictless → u.Dictless →
      max t.nesting u.nesting ≤ s.levels → max t.nesting u.nesting ≤ n →
      ∃ x : Bool, (valuesEqual a b).exec n s = .done (.ok x) s ∧ (x = true ↔ t = u) ∧
        (binaryOp .ne a b).exec n s = .done (.ok (.ofBool !x)) s := by
    intro a b t u n ha hb ht hu' hlevels hn
    have hp : s.Pair (max t.nesting u.nesting) a b t u :=
      ⟨.of_reachable hs hu, hlevels, Heap.read_eq_some_iff.mpr ⟨ha, Nat.le_max_left _ _⟩,
        Heap.read_eq_some_iff.mpr ⟨hb, Nat.le_max_right _ _⟩, ht, hu'⟩
    obtain ⟨x, hrun, hx⟩ := hp.decides_valuesEqual hn
    exact ⟨x, hrun, hx, hp.run_ne hn hx hrun⟩
  refine ⟨hdecides, fun n hn => ?_⟩
  -- equality of the data values is an equivalence already
  have hiff : ∀ a b : s.DataValue, (valuesEqual a.1 b.1).exec n s = .done (.ok true) s ↔
      ∃ t, s.heap.Shows a.1 t ∧ s.heap.Shows b.1 t := by
    rintro ⟨a, t, ha, ht, hat⟩ ⟨b, u, hb, hu', hbu⟩
    have hle : max t.nesting u.nesting ≤ s.levels := Nat.max_le.mpr ⟨hat, hbu⟩
    obtain ⟨x, hrun, hx, _⟩ := hdecides a b t u n ha hb ht hu' hle (Nat.le_trans hle hn)
    constructor
    · intro htrue
      cases hrun.symm.trans htrue
      exact ⟨t, ha, hx.mp rfl ▸ hb⟩
    · rintro ⟨v, hav, hbv⟩
      rw [hrun, hx.mpr ((ha.unique hav).trans (hbv.unique hb))]
  refine ⟨fun a => ?_, fun {a b} h => ?_, fun {a b c} hab hbc => ?_⟩
  · obtain ⟨t, ht, _⟩ := a.2
    exact (hiff a a).mpr ⟨t, ht, ht⟩
  · obtain ⟨t, ha, hb⟩ := (hiff a b).mp h
    exact (hiff b a).mpr ⟨t, hb, ha⟩
  · obtain ⟨t, ha, hb⟩ := (hiff a b).mp hab
    obtain ⟨u, hb', hc⟩ := (hiff b c).mp hbc
    exact (hiff a c).mpr ⟨t, ha, hb.unique hb' ▸ hc⟩

/-! ## 6. Tuples of one number -/

/-- Two tuples that hold the number 1 are equal, and 1 is not `True`. -/
theorem State.equality_structural_ones :
    ∃ (s : State) (a b one : Handle), s.Reachable ∧ s.heap.Unaltered ∧ a ≠ b ∧
      s.heap.Shows a (.of (.tuple [.of (.int 1)])) ∧ s.heap.Shows b (.of (.tuple [.of (.int 1)])) ∧
      s.heap.Shows one (.of (.int 1)) ∧
      (valuesEqual a b).exec 2 s = .done (.ok true) s ∧
      (binaryOp .ne a b).exec 2 s = .done (.ok .false) s ∧
      (valuesEqual one .true).exec 1 s = .done (.ok false) s ∧
      (binaryOp .ne one .true).exec 1 s = .done (.ok .true) s := by
  obtain ⟨_, s, hs, one, -, other, -, a, -, b, -, hplaced, hlevels, hab, hone, hother,
      ha, hb⟩ :=
    Session.exists_reached (fun _ => True) .standard 0
      [.setLocal "one" (.int 1), .setLocal "a" (.list .tuple [.name "one"]),
        .setLocal "other" (.int 1), .setLocal "b" (.list .tuple [.name "other"])]
      (fun frame s => ∃ one ∈ frame.locals.get? "one", ∃ other ∈ frame.locals.get? "other",
        ∃ a ∈ frame.locals.get? "a", ∃ b ∈ frame.locals.get? "b",
        s.heap.AsPlaced ∧ 2 ≤ s.levels ∧ a ≠ b ∧ s.heap.layer? one = some (.int 1) ∧
        s.heap.layer? other = some (.int 1) ∧ s.heap.layer? a = some (.tuple [one]) ∧
        s.heap.layer? b = some (.tuple [other])) (by decide +kernel)
  have hu := hplaced.unaltered
  have hone : s.heap.Shows one (.of (.int 1)) := .of_layer hone (.int 1)
  have ha : s.heap.Shows a (.of (.tuple [.of (.int 1)])) := .of_layer ha (.tuple (.cons hone .nil))
  have hb : s.heap.Shows b (.of (.tuple [.of (.int 1)])) :=
    .of_layer hb (.tuple (.cons (.of_layer hother (.int 1)) .nil))
  have hone' : (Datum.of (.int 1)).Dictless := ⟨by decide, List.forall_mem_nil _⟩
  have htrue : (Datum.of (.bool true)).Dictless := ⟨by decide, List.forall_mem_nil _⟩
  have htuple : (Datum.of (.tuple [.of (.int 1)])).Dictless :=
    Datum.dictless_of.mpr ⟨by decide, List.forall_mem_singleton.mpr hone'⟩
  have hequal := State.equality_structural hs hu
  obtain ⟨x, hrun, hx, hne⟩ := hequal.1 a b _ _ 2 ha hb htuple htuple hlevels (by decide)
  obtain ⟨y, hrun', hy, hne'⟩ := hequal.1 one .true _ _ 1 hone
      (hs.singles.shows_bool true) hone' htrue (Nat.le_trans (by decide) hlevels) (by decide)
  have hx' : x = true := hx.mpr rfl
  have hy' : y = false := Bool.eq_false_iff.mpr fun h => by cases hy.mp h
  subst hx' hy'
  exact ⟨s, a, b, one, hs, hu, hab, ha, hb, hone, hrun, hne, hrun', hne'⟩

end ObjectModel
