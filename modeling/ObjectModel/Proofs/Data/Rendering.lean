import ObjectModel.Proofs.Data.Literals

/-!
# Rendering data values

`repr` calls the `__repr__` of a value. For a data value that is a builtin member, which renders the
items one after another, each in a call one level further down, and puts their texts together.
Nothing looks for circles: what ends a circle is the limit of calls.

* `State.Native.yields_repr` -- **`repr` gives the text of the data value that is read with the
  levels that are left**, if there is one.
-/

namespace ObjectModel

/-! ## 1. The text of a data value -/

/-- How a layer is written, given how its items are. -/
def Layer.write : Layer String → String
  | int n => Text.ofInt n.toInt
  | text s => Text.quote s
  | bool b => if b then "True" else "False"
  | none => "None"
  | tuple pieces => tupleText pieces
  | list pieces => "[" ++ Text.joinWith ", " pieces ++ "]"
  | dict entries => "\x7b" ++ Text.joinWith ", " (entries.map fun entry =>
      Text.quote entry.1 ++ ": " ++ entry.2) ++ "\x7d"

/-- **The text of a data value.** -/
def Datum.render : Datum → String := fold Layer.write

theorem Datum.render_of (l : Layer Datum) : (of l).render = (l.map render).write :=
  fold_of Layer.write l

/-! ## 2. Answers under a limit of calls -/

/-- The program gives the answer; where there is none, it comes to the limit of calls. Objects may
be added. -/
def Run.Yields {α : Type} (x : Run α) (e : Engine) (s : State) (answer : Option α) : Prop :=
  ∃ t, s.Grows t ∧
    x.run.run e s = .done (answer.elim (.error (.callDepthExceeded s.limits.callDepth)) .ok) t

section

variable {α β : Type} {s : State} {e : Engine}

namespace Run.Yields

theorem pure (hs : s.Native) (a : α) : (Pure.pure a : Run α).Yields e s (some a) :=
  ⟨s, .refl hs, rfl⟩

theorem bind {x : Run α} {f : α → Run β} {answer : Option α} {answers : α → Option β}
    (hx : x.Yields e s answer) (hf : ∀ a t, s.Grows t → (f a).Yields e t (answers a)) :
    (x >>= f).Yields e s (answer.bind answers) := by
  obtain ⟨t, ht, hrun⟩ := hx
  cases answer with
  | none =>
    refine ⟨t, ht, ?_⟩
    rw [ExceptT.run_bind, Program.run_bind, hrun]
    rfl
  | some a =>
    obtain ⟨u, hu, hrun'⟩ := hf a t ht
    rw [ht.limits_eq] at hrun'
    exact ⟨u, ht.trans hu, (Run.run_bind_ok hrun).trans hrun'⟩

theorem map {x : Run α} {answer : Option α} (f : α → β) (hx : x.Yields e s answer) :
    (f <$> x).Yields e s (answer.map f) := by
  rw [map_eq_pure_bind, Option.map_eq_bind]
  exact hx.bind fun a t ht => .pure ht.native (f a)

/-- **One after another**, up to the first that comes to the limit. -/
theorem mapM {f : α → Run β} {answers : α → Option β} {xs : List α} (hs : s.Native)
    (hf : ∀ x ∈ xs, ∀ t, s.Grows t → (f x).Yields e t (answers x)) :
    (xs.mapM f).Yields e s (xs.mapM answers) := by
  induction xs generalizing s with
  | nil => exact .pure hs []
  | cons x xs ih =>
    rw [List.mapM_cons, List.mapM_cons]
    refine (hf x List.mem_cons_self s (.refl hs)).bind fun y t ht => ?_
    refine (ih ht.native fun x' hx' u hu => hf x' (List.mem_cons_of_mem x hx') u (ht.trans hu)).bind
      fun ys u hu => ?_
    exact .pure hu.native (y :: ys)

end Run.Yields

theorem Layer.yields_mapM {f : α → Run β} {answers : α → Option β} {l : Layer α} (hs : s.Native)
    (hf : ∀ x ∈ l.items, ∀ t, s.Grows t → (f x).Yields e t (answers x)) :
    (l.mapM f).Yields e s (l.mapM answers) := by
  cases l with
  | tuple items => exact (Run.Yields.mapM hs hf).map tuple
  | list items => exact (Run.Yields.mapM hs hf).map list
  | dict entries =>
    refine Run.Yields.map dict (.mapM hs fun entry hentry t ht => ?_)
    exact (hf entry.2 (List.mem_map_of_mem hentry) t ht).map (entry.1, ·)
  | _ => exact .pure hs _

/-- Items that are found may be changed before they are put together, or behind. -/
theorem mapM_option_map {γ : Type} (f : α → Option β) (g : β → γ) (xs : List α) :
    xs.mapM (fun x => (f x).map g) = (xs.mapM f).map (List.map g) := by
  induction xs with
  | nil => rfl
  | cons x xs ih =>
    rw [List.mapM_cons, List.mapM_cons, ih]
    cases f x <;> cases xs.mapM f <;> rfl

theorem Layer.mapM_option_map {γ : Type} (f : α → Option β) (g : β → γ) (l : Layer α) :
    l.mapM (fun x => (f x).map g) = (l.mapM f).map (Layer.map g) := by
  cases l with
  | tuple items =>
    rw [mapM, mapM, ObjectModel.mapM_option_map]
    cases items.mapM f <;> rfl
  | list items =>
    rw [mapM, mapM, ObjectModel.mapM_option_map]
    cases items.mapM f <;> rfl
  | dict entries =>
    have hentry : (fun entry : String × α => (entry.1, ·) <$> (f entry.2).map g)
        = fun entry => ((entry.1, ·) <$> f entry.2).map fun found => (found.1, g found.2) := by
      funext entry
      cases f entry.2 <;> rfl
    rw [mapM, mapM, hentry, ObjectModel.mapM_option_map]
    cases entries.mapM (fun entry => (entry.1, ·) <$> f entry.2) <;> rfl
  | _ => rfl

end

/-! ## 3. One level -/

theorem renderItems_eq (items : List Handle) : renderItems items = items.mapM repr := by
  induction items with
  | nil => rfl
  | cons h rest ih => rw [renderItems, List.mapM_cons, ih]

theorem renderEntries_eq (entries : List (String × Handle)) :
    renderEntries entries = (List.map fun entry => Text.quote entry.1 ++ ": " ++ entry.2) <$>
      entries.mapM fun entry => (entry.1, ·) <$> repr entry.2 := by
  induction entries with
  | nil => rfl
  | cons entry rest ih =>
    rw [renderEntries, List.mapM_cons, ih]
    simp only [map_eq_pure_bind, bind_assoc, pure_bind, List.map_cons]

/-- The member that renders such a layer. -/
def Layer.reprMember {α : Type} : Layer α → Member
  | int _ => .int .repr
  | text _ => .str .repr
  | bool _ => .bool .repr
  | none => .none .repr
  | tuple _ => .tuple .repr
  | list _ => .list .repr
  | dict _ => .dict .repr

theorem Layer.member?_repr {α : Type} (l : Layer α) :
    l.type.member? "__repr__" = some l.reprMember := by
  cases l <;> rfl

section

variable {s : State} {h : Handle} {l : Layer Handle} {n : Nat}

/-- **One level of `repr`**: the items are rendered, and the layer is written with their texts. -/
theorem run_reprMember {e : Engine} (hl : s.heap.layer? h = some l) :
    (l.reprMember.run [h]).run.run e s
      = (l.mapM repr >>= fun pieces => newText pieces.write).run.run e s := by
  cases l with
  | int i => exact Run.run_bind_ok (run_intReceiver_layer hl _)
  | text text => exact Run.run_bind_ok (run_textReceiver_layer hl _)
  | bool b => exact Run.run_bind_ok (run_boolReceiver_layer hl)
  | none => rfl
  | tuple items =>
    refine (Run.run_bind_ok (run_tupleReceiver_layer hl _)).trans ?_
    rw [renderItems_eq, Layer.mapM, bind_map_left]
    rfl
  | list items =>
    refine (Run.run_bind_ok (run_listReceiver_layer hl _)).trans ?_
    rw [renderItems_eq, Layer.mapM, bind_map_left]
    rfl
  | dict entries =>
    obtain ⟨map, rfl, hrun⟩ := run_dictReceiver_layer hl "dict.__repr__"
    refine (Run.run_bind_ok hrun).trans ?_
    rw [renderEntries_eq, Layer.mapM, bind_map_left, bind_map_left]
    rfl

/-- A hook that writes the text of a program into a new object gives that text, one call further
up. -/
theorem yields_renderWith {name : String} {m : Member} {x : Run String}
    {answer : Option String} (hs : s.Native) (hm : s.heap.Answers h name m)
    (hmember : (m.run [h]).run.run (engine n) s.enter = (x >>= newText).run.run (engine n) s.enter)
    (hx : x.Yields (engine n) s.enter answer) :
    (renderWith name h).Yields (engine (n + 1)) s (if 0 < s.levels then answer else none) := by
  by_cases hlevels : 0 < s.levels
  · have hroom := State.room_of_levels hlevels
    obtain ⟨t, ht, hrun⟩ := hx
    rw [if_pos hlevels]
    cases answer with
    | none =>
      refine ⟨t.leave, ht.leave, run_renderWith_error hm hroom (hmember.trans ?_)⟩
      rw [ExceptT.run_bind, Program.run_bind, hrun]
      rfl
    | some text =>
      have hgrows := ht.trans (ht.native.grows_text text)
      have hnew : (newText text).run.run (engine n) t
          = .done (.ok (t.allocate (.ofText text)).1) (t.allocate (.ofText text)).2 := rfl
      refine ⟨_, hgrows.leave, run_renderWith hm hroom
        (hmember.trans ((Run.run_bind_ok hrun).trans hnew)) ?_⟩
      exact Heap.get?_allocate_self ht.native.orderly.regular.heap _
  · rw [if_neg hlevels]
    exact ⟨s, .refl hs, run_renderWith_refused hm (Nat.eq_zero_of_not_pos hlevels)⟩

/-- From the items to the value, one call further up. -/
theorem yields_repr_of_items {answers : Handle → Option String}
    (hs : s.Native) (hl : s.heap.layer? h = some l) (hlevels : 0 < s.levels)
    (hitems : (l.mapM repr).Yields (engine n) s.enter (l.mapM answers)) :
    (repr h).Yields (engine (n + 1)) s ((l.mapM answers).map Layer.write) := by
  have hmember : (l.reprMember.run [h]).run.run (engine n) s.enter
      = ((Layer.write <$> l.mapM repr) >>= newText).run.run (engine n) s.enter := by
    rw [bind_map_left]
    exact run_reprMember hl
  have hyields :=
    yields_renderWith hs (hs.answers hl l.member?_repr) hmember (hitems.map Layer.write)
  rwa [if_pos hlevels] at hyields

/-! ## 4. All levels -/

/-- **`repr` gives the text of the data value that is read with the levels that are left.** Where a
graph has more levels, or no end of them, it comes to the limit. -/
theorem State.Native.yields_repr (hs : s.Native) (hg : s.heap.Graph h) (hn : s.levels < n) :
    (repr h).Yields (engine n) s ((s.heap.read s.levels h).map Datum.render) := by
  -- on the levels: a call leaves one less for the items, whether or not they lead back to `h`
  induction hlevels : s.levels generalizing s h n with
  | zero =>
    obtain ⟨l, hl⟩ := hg.exists_layer
    obtain ⟨n, rfl⟩ : ∃ m, n = m + 1 :=
      Nat.exists_eq_succ_of_ne_zero (Nat.ne_of_gt (Nat.zero_lt_of_lt hn))
    exact ⟨s, .refl hs, run_renderWith_refused (hs.answers hl l.member?_repr) hlevels⟩
  | succ levels ih =>
    obtain ⟨l, hl⟩ := hg.exists_layer
    obtain ⟨n, rfl⟩ : ∃ m, n = m + 1 :=
      Nat.exists_eq_succ_of_ne_zero (Nat.ne_of_gt (Nat.zero_lt_of_lt hn))
    have hitems : (l.mapM repr).Yields (engine n) s.enter
        (l.mapM fun k => (s.heap.read levels k).map Datum.render) := by
      refine Layer.yields_mapM hs.enter fun k hk t ht => ?_
      have hgk : s.enter.heap.Graph k := hg.item ⟨l, hl, hk⟩
      have ht' : t.levels = levels := by
        rw [ht.levels_eq, State.levels_enter, hlevels]
        rfl
      have hread : t.heap.read levels k = s.heap.read levels k := hgk.read_kept ht.kept
      rw [← hread]
      exact ih ht.native (hgk.kept ht.kept) (by omega) ht'
    have hread : (s.heap.read (levels + 1) h).map Datum.render
        = (l.mapM fun k => (s.heap.read levels k).map Datum.render).map Layer.write := by
      rw [Layer.mapM_option_map, Heap.read, hl, Option.bind_eq_bind, Option.bind_some]
      cases l.mapM (s.heap.read levels) with
      | none => rfl
      | some d => exact congrArg some (Datum.render_of d)
    rw [hread]
    exact yields_repr_of_items hs hl (by omega) hitems

end

/-- A data value of no more levels than are left gives its text. -/
theorem State.Native.run_repr {s : State} (hs : s.Native) {h : Handle} {t : Datum}
    (ht : s.heap.Shows h t) (hlevels : t.nesting ≤ s.levels) {n : Nat} (hn : s.levels < n) :
    ∃ u, s.Grows u ∧ (repr h).run.run (engine n) s = .done (.ok t.render) u := by
  obtain ⟨u, hu, hrun⟩ := hs.yields_repr ht.graph hn
  rw [Heap.read_eq_some_iff.mpr ⟨ht, hlevels⟩] at hrun
  exact ⟨u, hu, hrun⟩

/-- **Rendering ends on every graph**, with items that are shared or lead back. In every state of a
session in which the builtin types are as they were placed, `repr` gives a text exactly if no path
through items goes on for ever and the value has no more levels than are left for calls. Else it
fails with the limit of calls, and with nothing else. -/
theorem State.rendering_terminates {s : State} (hs : s.Reachable) (hu : s.heap.Unaltered)
    {h : Handle} (hg : s.heap.Graph h) {n : Nat} (hn : s.levels < n) :
    ((∃ text t, (repr h).exec n s = .done (.ok text) t) ↔
      s.heap.PathsEnd h ∧ ∃ d, s.heap.Shows h d ∧ d.nesting ≤ s.levels) ∧
    ((∃ text t, (repr h).exec n s = .done (.ok text) t) ∨
      ∃ t, (repr h).exec n s = .done (.error (.callDepthExceeded s.limits.callDepth)) t) := by
  obtain ⟨t, _, hrun⟩ := (State.Native.of_reachable hs hu).yields_repr hg hn
  cases hread : s.heap.read s.levels h with
  | none =>
    rw [hread] at hrun
    refine ⟨iff_of_false ?_ ?_, Or.inr ⟨t, hrun⟩⟩
    · rintro ⟨text, u, htext⟩
      cases hrun.symm.trans htext
    · rintro ⟨_, d, hd⟩
      cases hread.symm.trans (Heap.read_eq_some_iff.mpr hd)
  | some d =>
    rw [hread] at hrun
    have hd := Heap.read_eq_some_iff.mp hread
    have hends : s.heap.PathsEnd h := hg.pathsEnd_iff.mpr ⟨d, hd.1⟩
    exact ⟨iff_of_true ⟨d.render, t, hrun⟩ ⟨hends, d, hd⟩, Or.inl ⟨d.render, t, hrun⟩⟩

/-! ## 5. A list that contains itself -/

section

variable {heap : Heap} {h : Handle} (hl : heap.layer? h = some (.list [h]))
include hl

theorem Heap.itemOf_knot : heap.ItemOf h h := ⟨_, hl, List.mem_singleton.mpr rfl⟩

theorem Heap.graph_knot : heap.Graph h := by
  intro k hpath
  have hk : k = h := by
    induction hpath with
    | refl => rfl
    | tail _ hitem ih =>
      obtain ⟨l, hl', hk⟩ := hitem
      rw [ih] at hl'
      cases hl.symm.trans hl'
      exact List.mem_singleton.mp hk
  exact hk ▸ ⟨_, hl⟩

theorem Heap.not_pathsEnd_knot : ¬ heap.PathsEnd h :=
  fun hends => hends ⟨fun _ => h, rfl, fun _ => itemOf_knot hl⟩

end

/-- Makes a list and puts it into itself. -/
def tieKnot : List Script.Expr :=
  [.setLocal "l" (.list .list []),
    .pair (.setAttribute Heap.listCell) (.name "l") (.list .tuple [.name "l"])]

/-- In one state, a list that contains itself comes to the limit, and a truth value gives a text. -/
theorem State.rendering_terminates_knot :
    ∃ (s : State) (k : Handle), s.Reachable ∧ s.heap.Unaltered ∧
      s.heap.layer? k = some (.list [k]) ∧ s.heap.Graph k ∧
      s.heap.Graph .true ∧ s.levels < s.levels + 1 ∧
      (∃ t, (repr k).exec (s.levels + 1) s
        = .done (.error (.callDepthExceeded s.limits.callDepth)) t) ∧
      ∃ text t, (repr .true).exec (s.levels + 1) s = .done (.ok text) t := by
  obtain ⟨_, s, hs, k, -, hplaced, hlevels, hl⟩ :=
    Session.exists_reached (fun _ => True) .standard 0 tieKnot
      (fun frame s => ∃ k ∈ frame.locals.get? "l", s.heap.AsPlaced ∧ 0 < s.levels ∧
        s.heap.layer? k = some (.list [k])) (by decide +kernel)
  have hu := hplaced.unaltered
  have hgraph := Heap.graph_knot hl
  have htrue : s.heap.Shows .true (.of (.bool true)) := Heap.Singles.shows_bool hs.singles true
  have hends : s.heap.PathsEnd .true := htrue.graph.pathsEnd_iff.mpr ⟨_, htrue⟩
  have hknot := State.rendering_terminates hs hu hgraph (Nat.lt_succ_self s.levels)
  have hleaf := State.rendering_terminates hs hu htrue.graph (Nat.lt_succ_self s.levels)
  refine ⟨s, k, hs, hu, hl, hgraph, htrue.graph, Nat.lt_succ_self _, ?_,
    hleaf.1.mpr ⟨hends, _, htrue, hlevels⟩⟩
  exact hknot.2.resolve_left fun htext => Heap.not_pathsEnd_knot hl (hknot.1.mp htext).1

end ObjectModel
