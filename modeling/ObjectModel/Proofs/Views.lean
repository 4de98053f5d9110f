import ObjectModel.Proofs.Divmod
import ObjectModel.Proofs.Text.Joining
import ObjectModel.Proofs.Text.Slice
import ObjectModel.Proofs.Types.Conversion

/-!
# Views of a sequence

The length, the truth value, the subscripts, the conversions and the iterators of a sequence are
members of their own for each type.

* `State.views_agree` -- **they all show the same elements.**
-/

namespace ObjectModel

variable {s t : State} {c h key : Handle} {l : Layer Handle} {size k n : Nat} {i : Int64}
  {m : Member}

/-! ## 1. Members -/

theorem Layer.Sized.len (hz : l.Sized size) :
    ∃ m, l.type.member? "__len__" = some m ∧ ∀ {s : State} {c : Handle} (e : Engine),
    s.heap.layer? c = some l →
      (m.run [c]).run.run e s = (newInt (Int64.ofNat size)).run.run e s := by
  cases hz with
  | text text =>
    exact ⟨.str .len, by rfl, fun _ hl => Run.run_bind_ok (run_textReceiver_layer hl _)⟩
  | tuple items =>
    exact ⟨.tuple .len, by rfl, fun _ hl => Run.run_bind_ok (run_tupleReceiver_layer hl _)⟩
  | list items =>
    exact ⟨.list .len, by rfl, fun _ hl => Run.run_bind_ok (run_listReceiver_layer hl _)⟩

/-- One character, as a slice. -/
theorem Text.slice_singleton {text : String} (hk : k < text.length)
    (hsize : text.length ≤ 9223372036854775807) :
    ∃ char, text.toList[k]? = some char ∧
      Text.slice text (Int64.ofNat k) (Int64.ofNat (k + 1)) 1 = String.singleton char := by
  obtain ⟨char, hchar⟩ : ∃ char, text.toList[k]? = some char :=
    ⟨_, List.getElem?_eq_getElem (String.length_toList ▸ hk)⟩
  have hplace : ∀ j : Nat, slicePosition text.length k 1 j = (k + j : Nat) := by
    intro j
    rw [slicePosition, firstPosition, if_pos Int.one_pos]
    omega
  have hslice :=
    isSlice_slice text (Int64.ofNat k) (Int64.ofNat (k + 1)) (show (1 : Int64) ≠ 0 by decide)
  rw [Int64.toInt_ofNat_of_lt (by omega), Int64.toInt_ofNat_of_lt (by omega),
    Int64.toInt_one] at hslice
  refine ⟨char, hchar, hslice.unique ⟨fun j hj => ?_, fun j hj => ?_⟩⟩
  · have hzero : j = 0 := by
      have hbefore := hj.before
      rw [hplace] at hbefore
      omega
    rw [hplace, hzero]
    exact ⟨char, hchar, by rw [String.toList_singleton]; rfl⟩
  · rw [String.toList_singleton]
    cases j with
    | zero =>
      refine absurd ⟨?_, Or.inl ⟨Int.one_pos, ?_⟩⟩ hj
      · rw [hplace]
        omega
      · rw [hplace]
        omega
    | succ j => rfl

/-- **A subscript** gives the element at the position that the index denotes. -/
theorem Layer.Sized.getItem (hz : l.Sized size) (hsize : size ≤ 9223372036854775807) :
    ∃ m f, l.type.member? "__getitem__" = some m ∧
    (∀ {s : State} {c key : Handle} {i : Int64} (e : Engine), s.heap.layer? c = some l →
      s.IsInt key i → (m.run [c, key]).run.run e s
      = ((Sequence.place size i.toInt).elim (indexError (l.type.name ++ " index out of range"))
        f).run.run e s) ∧
    ∀ {s : State} {k : Nat} (e : Engine), s.Native → k < size →
      ∃ h t, (f k).run.run e s = .done (.ok h) t ∧ s.Grows t ∧ t.Element l k h := by
  have hplaced : ∀ {s : State} {key : Handle} {i : Int64} (what : String) (size : Nat)
      (f : Nat → Run Handle) (e : Engine), s.IsInt key i →
      (position what key size >>= f).run.run e s
        = ((Sequence.place size i.toInt).elim (indexError (what ++ " index out of range"))
            f).run.run e s := by
    rintro s key i what size f e ⟨o, hget, hp⟩
    exact position_bind_of_int hget (by rw [Object.intValue, hp]) what size f e
  have hitems : ∀ {items : List Handle} {k : Nat}, k < items.length →
      items[k]? = some (itemAt items k) := by
    intro items k hk
    rw [itemAt, List.getD_eq_getElem?_getD, List.getElem?_eq_getElem hk, Option.getD_some]
  cases hz with
  | text text =>
    refine ⟨.str .getItem, _, by rfl, fun e hl hi => (Run.run_bind_ok
        (run_textReceiver_layer hl _)).trans (hplaced "str" text.length _ e hi),
      fun e hs hk => ?_⟩
    obtain ⟨char, hchar, hslice⟩ := Text.slice_singleton hk hsize
    rw [hslice]
    exact ⟨_, _, rfl, hs.grows_text _, char, hchar, _,
      State.get?_made hs.orderly.regular.heap _, rfl⟩
  | tuple items =>
    exact ⟨.tuple .getItem, _, by rfl, fun e hl hi => (Run.run_bind_ok
        (run_tupleReceiver_layer hl _)).trans (hplaced "tuple" items.length _ e hi),
      fun e hs hk => ⟨_, _, rfl, .refl hs, hitems hk⟩⟩
  | list items =>
    exact ⟨.list .getItem, _, by rfl, fun e hl hi => (Run.run_bind_ok
        (run_listReceiver_layer hl _)).trans (hplaced "list" items.length _ e hi),
      fun e hs hk => ⟨_, _, rfl, .refl hs, hitems hk⟩⟩

theorem Text.intercalate_singletons (chars : List Char) :
    "".intercalate (chars.map String.singleton) = String.ofList chars := by
  induction chars with
  | nil => rfl
  | cons char chars ih =>
    cases chars with
    | nil => rfl
    | cons =>
      rw [List.map_cons, List.map_cons, String.intercalate_cons_cons, String.append_empty,
        ← List.map_cons, ih, ← String.ofList_cons]

/-! ## 2. Views -/

/-- **`c` collects to the elements of `l`.** If these are characters, they can be joined to the
text, by a call of the function or of the method. -/
structure State.Collects (s : State) (n : Nat) (c : Handle) (l : Layer Handle) (size : Nat) :
    Prop where
  items : ∃ items t, (ObjectModel.collect c).exec n s = .done (.ok items) t ∧ s.Grows t ∧
    items.length = size ∧ ∀ k h, items[k]? = some h → t.Element l k h
  joined : ∀ {text sep depth x}, l = .text text →
    s.IsText sep "" → s.Invokes (.str .join) [sep, c] depth x →
    ∃ h t, x.exec (n + depth) s = .done (.ok h) t ∧ t.IsText h text

/-- **The views of a sequence.** All its items, its length and its truth value are as its elements
say. A number is an index from the front or from behind, or out of range. The conversions make a
tuple and a list of the same elements. -/
structure State.Views (s : State) (n : Nat) (c : Handle) (l : Layer Handle) (size : Nat) :
    Prop where
  collected : s.Collects n c l size
  length : ∃ t, (ObjectModel.length c).exec n s = .done (.ok size) t ∧ s.Grows t
  truthy : ∃ t, (ObjectModel.truthy c).exec n s = .done (.ok (decide (0 < size))) t ∧ s.Grows t
  item : ∀ {key i k}, s.IsInt key i → k < size → i.toInt = k ∨ i.toInt = (k : Int) - size →
    ∃ h t, (getItem c key).exec n s = .done (.ok h) t ∧ s.Grows t ∧ t.Element l k h
  outside : ∀ {key i}, s.IsInt key i → i.toInt < -(size : Int) ∨ (size : Int) ≤ i.toInt →
    ((getItem c key).exec n s).Complains s .indexError (l.type.name ++ " index out of range")
  list : ∃ r items t, (call BuiltinType.list.handle [c]).exec n s = .done (.ok r) t ∧ s.Grows t ∧
    t.heap.layer? r = some (.list items) ∧ t.Collects n r l size
  tuple : ∃ r items t, (call BuiltinType.tuple.handle [c]).exec n s = .done (.ok r) t ∧ s.Grows t ∧
    t.heap.layer? r = some (.tuple items) ∧ t.Collects n r l size

/-- An element is one still, where the texts are as before. -/
theorem State.Element.of_texts (he : s.Element l k h)
    (hk : ∀ {h text}, s.IsText h text → t.IsText h text) : t.Element l k h := by
  cases l with
  | text text =>
    obtain ⟨char, hchar, htext⟩ := he
    exact ⟨char, hchar, hk htext⟩
  | _ => exact he

theorem State.Element.of_kept (he : s.Element l k h) (hk : s.heap.KeptIn t.heap) :
    t.Element l k h :=
  he.of_texts fun ht => ht.of_kept hk

namespace State.Native

theorem length (hs : s.Native) (hlevels : 0 < s.levels) (hl : s.heap.layer? c = some l)
    (hz : l.Sized size) (hsize : size ≤ 9223372036854775807) :
    ∃ t, (ObjectModel.length c).exec (n + 1) s = .done (.ok size) t ∧ s.Grows t := by
  obtain ⟨m, hm, hrun⟩ := hz.len
  have hi : (Int64.ofNat size).toInt = size := Int64.toInt_ofNat_of_lt (by omega)
  exact ⟨_, run_length_of_int (hs.answers hl hm) (room_of_levels hlevels) hs.orderly.regular.heap hi
    (hrun (s := s.enter) _ hl), hs.grows_allocate (.int _)⟩

/-- A name that neither the type nor `object` has is not found. -/
theorem hook_eq_none (hs : s.Native) (hl : s.heap.layer? c = some l) (hm : m ∈ Member.all)
    (hnone : l.type.member? m.name = Option.none) : s.heap.hook c m.name = some Option.none := by
  obtain ⟨o, hget, hl⟩ := Heap.layer?_eq_some_iff.mp hl
  have hbase : l.type.base? = some .object := by cases l <;> rfl
  obtain ⟨hown, hobject⟩ := Option.or_eq_none_iff.mp hnone
  refine hs.orderly.heap.hook_eq_none hget (hl.type_eq hs.orderly.heap hget) hbase fun k hk => ?_
  rcases List.mem_pair.mp hk with rfl | rfl
  · exact hs.unaltered.ownAttribute_ne hs.orderly.heap hm hown
  · exact hs.unaltered.ownAttribute_ne hs.orderly.heap hm hobject

/-- A tuple is asked for its length. -/
theorem truthy (hs : s.Native) (hlevels : 0 < s.levels) (hl : s.heap.layer? c = some l)
    (hz : l.Sized size) (hsize : size ≤ 9223372036854775807) :
    ∃ t, (ObjectModel.truthy c).exec (n + 1) s = .done (.ok (decide (0 < size))) t ∧ s.Grows t := by
  have hbool : ∀ {m : Member} {b : Bool}, l.type.member? "__bool__" = some m →
      (m.run [c]).run.run (engine n) s.enter = .done (.ok (.ofBool b)) s.enter →
      b = decide (0 < size) → ∃ t, (ObjectModel.truthy c).exec (n + 1) s
      = .done (.ok (decide (0 < size))) t ∧ s.Grows t := by
    rintro m b hm hrun rfl
    exact ⟨s, run_truthy_of_bool (hs.answers hl hm) (room_of_levels hlevels) hrun hs.singles,
      .refl hs⟩
  obtain ⟨t, hlength, hgrows⟩ := hs.length (n := n) hlevels hl hz hsize
  cases hz with
  | text text =>
    refine hbool (m := .str .bool) (by rfl)
      (Run.run_bind_ok (run_textReceiver_layer (s := s.enter) hl _)) ?_
    rw [Bool.eq_iff_iff, decide_eq_true_iff, Nat.pos_iff_ne_zero, Bool.not_eq_true', Ne,
      String.length_eq_zero_iff, String.isEmpty_eq_false_iff]
  | list items =>
    refine hbool (m := .list .bool) (by rfl)
      (Run.run_bind_ok (run_listReceiver_layer (s := s.enter) hl _)) ?_
    cases items <;> rfl
  | tuple items =>
    refine ⟨t, ?_, hgrows⟩
    obtain ⟨f, _, _, hlen, _⟩ : s.heap.Answers c "__len__" (.tuple .len) := hs.answers hl (by rfl)
    have hnone : s.heap.hook c "__bool__" = some Option.none :=
      hs.hook_eq_none hl (m := .str .bool) (by decide) (by rfl)
    refine (@Run.run_inspect_bind _ _ _ s (fun s => s.heap.hook c "__bool__") _ _ hnone).trans ?_
    refine (@Run.run_inspect_bind _ _ _ s (fun s => s.heap.hook c "__len__") _ _ hlen).trans
      ((Run.run_bind_ok hlength).trans ?_)
    cases items <;> rfl

/-- **A subscript**: the element at the position that the index denotes, or an error. -/
theorem subscript (hs : s.Native) (hlevels : 0 < s.levels) (hl : s.heap.layer? c = some l)
    (hz : l.Sized size) (hsize : size ≤ 9223372036854775807) (hi : s.IsInt key i) :
    (∀ k, Sequence.place size i.toInt = some k →
      ∃ h t, (getItem c key).exec (n + 1) s = .done (.ok h) t ∧ s.Grows t ∧ t.Element l k h) ∧
    (Sequence.place size i.toInt = Option.none →
      ((getItem c key).exec (n + 1) s).Complains s .indexError
        (l.type.name ++ " index out of range")) := by
  obtain ⟨m, f, hm, hrun, hfound⟩ := hz.getItem hsize
  have hroom := room_of_levels hlevels
  have hrun := hrun (s := s.enter) (engine n) hl hi
  have hitem : (getItem c key).exec (n + 1) s = _ :=
    run_hook [c, key] (fun _ => rfl) (hs.answers hl hm) hroom
  rw [hitem, hrun]
  refine ⟨fun k hk => ?_, fun hnone => ?_⟩
  · obtain ⟨h, t, hdone, hgrows, helement⟩ := hfound (engine n) hs.enter (Sequence.place_lt hk)
    rw [hk, Option.elim_some, hdone]
    exact ⟨h, t.leave, rfl, hgrows.leave, helement.of_kept id⟩
  · obtain ⟨fault, text, t, hraised, htext, hcarries, hkept⟩ :=
      complains_raise (α := Handle) (s := s.enter) hs.orderly.regular.heap .indexError
        (l.type.name ++ " index out of range") (engine n)
    rw [hnone, Option.elim_none, indexError, hraised]
    exact ⟨fault, text, t.leave, rfl, htext, hcarries.congr rfl, hkept⟩

section

variable {r : Handle} {l' : Layer Handle} (hs : s.Native) (hl : s.heap.layer? r = some l')
  (hz : l'.Sized size) (hn : size < n + 2)

include hs hl hz hn

/-- **The characters of a text, joined**, are the text. -/
theorem joined {text : String} {sep : Handle} (hlevels : 0 < s.levels) (hsize : size = text.length)
    (hsep : s.IsText sep "") (he : ∀ {t : State} {k h}, (∀ {h text}, s.IsText h text →
      t.IsText h text) → t.Element l' k h → t.Element (.text text) k h) :
    ∃ h t, ((Member.str .join).run [sep, r]).exec (n + 2) s = .done (.ok h) t ∧
      t.IsText h text := by
  obtain ⟨d, g, t, hd, hshows, hiter, ht, _, hgrows⟩ := hs.run_iter hlevels hl hz (n + 1)
  obtain ⟨x, hx, _⟩ := ht.stands
  have hlength : (text.toList.map String.singleton).length
      = d.size := by rw [List.length_map, String.length_toList, hd, hsize]
  obtain ⟨u, hpieces, hu, _⟩ :=
    ht.handsOut n (text.toList.map String.singleton) (by omega) fun j piece u v hj hb hv => by
    have htexts : ∀ {h text}, s.IsText h text → u.IsText h text := fun ⟨o, hget, hp⟩ =>
      ⟨o, hx.spared hb (hgrows.kept hget) fun _ he => (by cases hp.symm.trans he), hp⟩
    obtain ⟨char, hchar, htext⟩ := he htexts (hshows _ u v hv)
    rw [List.getElem?_map, ← Nat.zero_add j, hchar] at hj
    cases hj
    exact htext
  obtain ⟨w, hend, _⟩ := hu.run_nextItem_end (by omega) n
  obtain ⟨h, v, hjoin, hp⟩ :=
    Joins.joined ⟨hs.orderly, by omega, ⟨sep, r, g, t, u, hsep, hiter, hpieces, hend, rfl⟩, nofun⟩
  rw [Text.intercalate_singletons, String.ofList_toList] at hp
  exact ⟨h, v, hjoin, _, hp.found, rfl⟩

/-- What holds the same elements collects to them. -/
theorem collects (hlevels : 3 ≤ s.levels) (hsized : l.Sized size) (he : ∀ {t : State} {k h},
      (∀ {h text}, s.IsText h text → t.IsText h text) → t.Element l' k h → t.Element l k h) :
    s.Collects (n + 2) r l size := by
  refine ⟨?_, ?_⟩
  · obtain ⟨items, t, hrun, hgrows, hlength, hitems⟩ := hs.run_collect (by omega) hl hz hn
    exact ⟨items, t, hrun, hgrows, hlength, fun k h hk => he (fun ht => ht.of_kept hgrows.kept)
      (hitems k h hk)⟩
  · rintro text sep depth x rfl hsep hx
    obtain ⟨t, ht, hexec⟩ := hx.exec hs.orderly.regular.heap (n + 2)
    have hlevel : 0 < t.levels := by
      have hdepth : depth ≤ 2 := by cases hx <;> decide
      unfold levels at hlevels ⊢
      rw [ht.callDepth_eq, ht.limits_eq]
      omega
    have hsize : size = text.length := by
      cases hsized
      rfl
    obtain ⟨h, u, hjoin, htext⟩ := (ht.native hs).joined (Heap.layer?_kept ht.kept hl) hz hn hlevel
        hsize (hsep.of_kept ht.kept) fun hk => he fun htext => hk (htext.of_kept ht.kept)
    refine ⟨h, u.up depth, ?_, htext⟩
    rw [hexec]
    exact congrArg (Outcome.onState (·.up depth)) hjoin

end

/-- **`list(c)`** fills a new list. -/
theorem list (hs : s.Native) (hlevels : 4 ≤ s.levels) (hl : s.heap.layer? c = some l)
    (hz : l.Sized size) (hn : size < n + 2) :
    ∃ r items t, (call BuiltinType.list.handle [c]).exec (n + 5) s = .done (.ok r) t ∧ s.Grows t ∧
      t.heap.layer? r = some (.list items) ∧ t.Collects (n + 5) r l size := by
  have hw := hs.orderly.regular.heap
  have hmade := hs.grows_allocate (.plain .empty (hs.orderly.heap.isType_builtin .list) .empty)
  have hinside : s.inMaking.Native := hmade.native.enter.enter.enter
  have hroom : 0 < s.inMaking.levels := by
    change 0 < s.limits.callDepth - (s.callDepth + 3)
    unfold levels at hlevels
    omega
  obtain ⟨items, t, hcollect, hgrows, rfl, hitems⟩ :=
    hinside.run_collect hroom (Heap.layer?_kept hmade.kept hl) hz hn
  have hspares : s.inMaking.Spares (fun _ => True) t := .of_kept hgrows.kept
  obtain ⟨u, hinit, _, hbut, hlist, _⟩ :=
    (s.isList_madeList hw).run_init hcollect hspares trivial hgrows.native.orderly.regular.heap
  have hlist : u.leave.leave.leave.heap.ListOf s.madeList items := hlist items rfl
  have hexec : (call BuiltinType.list.handle [c]).exec (n + 5) s
      = .done (.ok s.madeList) u.leave.leave.leave := by
    refine (run_construct hs.orderly hs.unaltered.furnished (by unfold levels at hlevels; omega) c
      (n + 2)).trans ?_
    rw [Run.run_bind_ok hinit]
    rfl
  have hall : s.Grows u.leave.leave.leave := by
    refine hs.grows (.ask rfl) hexec fun {k o} hget => hbut ?_ (hgrows.kept (hmade.kept hget))
    rintro rfl
    cases (Heap.get?_allocate_fresh hw _).symm.trans hget
  refine ⟨_, items, _, hexec, hall, hlist.layer?_eq,
    hall.native.collects hlist.layer?_eq (.list items) (by omega) (by rw [hall.levels_eq]; omega) hz
    fun htexts he => (State.Element.of_texts (hitems _ _ he) ?_).of_texts htexts⟩
  -- the new list is no text
  rintro h text ⟨o, hget, hp⟩
  refine ⟨o, hbut ?_ hget, hp⟩
  rintro rfl
  cases (hgrows.kept (s.isList_madeList hw).get?_eq).symm.trans hget
  cases hp

/-- **`tuple(c)`** makes a tuple. -/
theorem tuple (hs : s.Native) (hlevels : 4 ≤ s.levels) (hl : s.heap.layer? c = some l)
    (hz : l.Sized size) (hn : size < n + 2) :
    ∃ r items t, (call BuiltinType.tuple.handle [c]).exec (n + 5) s = .done (.ok r) t ∧ s.Grows t ∧
      t.heap.layer? r = some (.tuple items) ∧ t.Collects (n + 5) r l size := by
  have hroom : 0 < s.enter.enter.enter.levels := by
    rw [levels_enter, levels_enter, levels_enter]
    omega
  obtain ⟨items, t, hcollect, hgrows, rfl, hitems⟩ :=
    hs.enter.enter.enter.run_collect hroom hl hz hn
  have hmade := hgrows.native.grows_allocate (.items items)
  have hlayer : (t.allocate (.ofItems items)).2.heap.layer? (t.allocate (.ofItems items)).1
      = some (.tuple items) :=
    Heap.layer?_eq_some_iff.mpr ⟨_, State.get?_made hgrows.native.orderly.regular.heap _,
      .tuple rfl⟩
  have hall := (hgrows.trans hmade).leave.leave.leave
  refine ⟨_, items, _, hs.run_convert (m := .tuple .new) (by rfl) (by decide) (by omega)
    (Run.run_bind_ok hcollect) ?_, hall, hlayer, ?_⟩
  · rintro _ ⟨⟩
    exact ⟨hgrows.trans hmade, hmade.native.answers hlayer (by rfl)⟩
  · refine hall.native.collects hlayer (.tuple items) (by omega) (by rw [hall.levels_eq]; omega) hz
      fun htexts he => ?_
    exact (State.Element.of_kept (hitems _ _ he) hmade.kept).of_texts htexts

end State.Native

/-! ## 3. All views -/

/-- **The views of a sequence agree.** In every state that a session reaches with the builtin types
as they were placed, all views of a text, a tuple or a list show the same elements: those that
`collect` gives in order, as many as its length says. -/
theorem State.views_agree (hs : s.Reachable) (hu : s.heap.Unaltered) (hl : s.heap.layer? c = some l)
    (hz : l.Sized size) (hsize : size ≤ 9223372036854775807) (hlevels : 4 ≤ s.levels)
    (hn : size + 5 ≤ n) : s.Views n c l size := by
  have hs : s.Native := .of_reachable hs hu
  have hlevel : 0 < s.levels := by omega
  obtain ⟨n, rfl⟩ : ∃ n', n = n' + 5 := ⟨n - 5, by omega⟩
  refine ⟨hs.collects hl hz (by omega) (by omega) hz fun _ he => he,
    hs.length hlevel hl hz hsize, hs.truthy hlevel hl hz hsize, fun {key i k} hi hk hik => ?_,
    fun hi hout => (hs.subscript hlevel hl hz hsize hi).2 (Sequence.place_eq_none hout),
    hs.list hlevels hl hz (by omega), hs.tuple hlevels hl hz (by omega)⟩
  have hplaces := Sequence.place_eq (Int.natCast_nonneg k) (Int.ofNat_lt.mpr hk)
  have hplace : Sequence.place size i.toInt = some k := by
    rcases hik with hik | hik
    · rw [hik]
      exact hplaces.1
    · rw [hik]
      exact hplaces.2
  exact (hs.subscript hlevel hl hz hsize hi).1 k hplace

/-- A text of two characters and three bytes. -/
theorem State.views_agree_bytes :
    ∃ (s : State) (c : Handle), s.Reachable ∧ s.heap.Unaltered ∧
      s.heap.layer? c = some (.text "né") ∧
    "né".utf8ByteSize = 3 ∧ s.Views 7 c (.text "né") 2 := by
  obtain ⟨s, _, hs, hu, hlevels, _ | ⟨hget, _⟩⟩ := State.exists_literals [.text "né"]
  have hl := Heap.layer?_eq_some_iff.mpr ⟨_, hget, .text rfl⟩
  exact ⟨s, _, hs, hu, hl, by decide,
    State.views_agree hs hu hl (.text "né") (by decide) (by rw [hlevels]; decide) (by decide)⟩

end ObjectModel
