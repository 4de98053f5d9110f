import ObjectModel.Proofs.Data.Hooks
import ObjectModel.Proofs.Mappings.Sources

/-!
# Constructing mappings

`dict(source)` makes a new mapping and fills it from the source; `__init__` fills one that is there
already.

* `Supply` -- **what a source supplies**: entries, and behind them nothing more or an element that
  is none.
* `State.dict_construction` -- **constructing a mapping**, from any source, on a mapping that is
  there, and from another mapping.
-/

namespace ObjectModel

variable {s t u : State} {c d h k source answer : Handle} {m : OrderedMap Handle} {n bound : Nat}
  {pairs : List (String × Handle)} {ending : Option Misfit}

/-! ## 1. Filling -/

/-- **What a source supplies on its own**, while the entries of `h` are left aside: the entries
`pairs`, and behind them nothing more, or a first element that is no entry. -/
inductive Supply (n : Nat) (h source : Handle) (s : State) (pairs : List (String × Handle)) :
    Option Misfit → Prop where
  | ended {it : Handle} {t u : State} : Feeds n h source s (pairs.map .ok) it t →
      (nextItem it).Past n h t none u → Supply n h source s pairs none
  | broken {it : Handle} {t : State} {misfit : Misfit} : Feeds n h source s
      (pairs.map .ok ++ [.error misfit]) it t → Supply n h source s pairs (some misfit)

/-- **How filling ends**: the mapping, which had the entries `m`, has `pairs` stored in it one after
another, so each key stands where it came first and with the value it came with last. The run
answers, or raises the exception of the element that could not be stored. -/
structure Outcome.Fills (o : Outcome (Except Fault Handle)) (h answer : Handle)
    (m : OrderedMap Handle) (pairs : List (String × Handle)) (ending : Option Misfit) : Prop where
  entries : o.state.heap.DictOf h (m.insertAll pairs)
  gathers : Association.Gathers (m.toList ++ pairs) (m.insertAll pairs).toList
  answers : ending = none → ∃ t, o = .done (.ok answer) t
  raises : ∀ misfit, ending = some misfit → ∃ fault t text, o = .done (.error fault) t ∧
    t.heap.get? text = some (.ofText misfit.message) ∧ fault.Carries t misfit.kind [text]

/-- **A source that leaves the mapping aside fills it.** -/
theorem Supply.fills (hsupply : Supply n h source s pairs ending) (hs : s.Aside h)
    (hd : s.heap.DictOf h m) (hm : m.Coherent) (hn : pairs.length < n) :
    (((Member.dict .init).run [h, source]).run.run (engine n) s).Fills h .none m pairs ending := by
  cases hsupply with
  | ended hf hend =>
    have hrun := hf.run_init hend hs hd hn
    have hu := hend.dictOf (hf.aside hs) (hf.dictOf hs hd)
    rw [hrun]
    exact ⟨hu.modifyEntries _, hm.gathers_insertAll pairs, fun _ => ⟨_, rfl⟩, nofun⟩
  | broken hf =>
    obtain ⟨fault, u, text, hrun, hu, htext, hcarries⟩ := hf.run_init_misfit hs hd hn
    rw [hrun]
    refine ⟨hu, hm.gathers_insertAll pairs, nofun, ?_⟩
    rintro _ ⟨⟩
    exact ⟨fault, u, text, rfl, htext, hcarries⟩

namespace Outcome.Fills

/-- Calls are left on the way out. -/
theorem onState {o : Outcome (Except Fault Handle)} (hf : o.Fills h answer m pairs ending)
    {f : State → State} (hheap : ∀ t, (f t).heap = t.heap) :
    (o.onState f).Fills h answer m pairs ending where
  entries := by
    have hstate : (o.onState f).state.heap = o.state.heap := by cases o <;> exact hheap _
    rw [hstate]
    exact hf.entries
  gathers := hf.gathers
  answers he := by
    obtain ⟨t, rfl⟩ := hf.answers he
    exact ⟨f t, rfl⟩
  raises misfit he := by
    obtain ⟨fault, t, text, rfl, htext, hcarries⟩ := hf.raises misfit he
    exact ⟨fault, f t, text, rfl, by rw [hheap]; exact htext, hcarries.congr (hheap t)⟩

/-- Something else is answered behind it. -/
theorem thenReturn {x : Run Handle} {e : Engine} (hf : (x.run.run e s).Fills h k m pairs ending)
    (answer : Handle) :
    ((x >>= fun _ => return answer).run.run e s).Fills h answer m pairs ending := by
  cases ending with
  | none =>
    obtain ⟨t, ht⟩ := hf.answers rfl
    have hentries := hf.entries
    rw [ht] at hentries
    rw [Run.run_bind_ok ht]
    exact ⟨hentries, hf.gathers, fun _ => ⟨t, rfl⟩, nofun⟩
  | some misfit =>
    obtain ⟨fault, t, text, ht, hrest⟩ := hf.raises misfit rfl
    have hentries := hf.entries
    rw [ht] at hentries
    rw [Run.run_bind_error ht]
    refine ⟨hentries, hf.gathers, nofun, ?_⟩
    rintro _ ⟨⟩
    exact ⟨fault, t, text, rfl, hrest⟩

end Outcome.Fills

/-- **`__init__` on a mapping that is there.** -/
theorem Supply.fills_call {f : Handle} {fo : Object} {label : String}
    (hsupply : Supply n h source s.enter pairs ending) (hs : s.Regular)
    (hf : s.heap.get? f = some fo) (hp : fo.payload = .function label (.member (.dict .init)))
    (hd : s.heap.DictOf h m) (hm : m.Coherent) (hroom : s.Room) (hn : pairs.length < n) :
    ((call f [h, source]).exec (n + 1) s).Fills h .none m pairs ending := by
  obtain ⟨o, hget, _⟩ := id hd
  have haside : s.enter.Aside h := ⟨hs.step (.enter s), Heap.contains_of_get? hget, Nat.succ_pos _⟩
  have hcall : (call f [h, source]).exec (n + 1) s
      = (((Member.dict .init).run [h, source]).run.run (engine n) s.enter).onState State.leave :=
    run_call hroom hf hp
  rw [hcall]
  exact (hsupply.fills haside hd hm hn).onState fun _ => rfl

/-! ## 2. New mappings -/

/-- The mapping that a call of `dict` makes. -/
def State.madeDict (s : State) : Handle := (s.allocate (.emptyDict BuiltinType.dict.handle)).1

/-- The state in which it is filled. -/
def State.inDict (s : State) : State :=
  (s.allocate (.emptyDict BuiltinType.dict.handle)).2.enter.enter.enter

theorem Heap.Unaltered.constructs_dict {heap : Heap} (hu : heap.Unaltered)
    (ho : heap.Orderly bound) :
    heap.Constructs .dict (.emptyDict BuiltinType.dict.handle) (.dict .init) where
  typeCall := hu.offers (.type .call) (by decide)
  new := by
    obtain ⟨f, fo, hlookup, hf, hp⟩ :=
      ho.lookup_offered (b := .dict) (hu.offers (.dict .new) (by decide))
    exact ⟨f, fo, _, _, hlookup, hf, hp, fun _ _ _ _ => rfl⟩
  init := hu.offers (.dict .init) (by decide)
  type := rfl
  fits _ := .mapping _
  proper := by decide

namespace State

theorem get?_madeDict (hs : s.Regular) :
    s.inDict.heap.get? s.madeDict = some (.emptyDict BuiltinType.dict.handle) :=
  Heap.get?_allocate_self hs.heap _

theorem dictOf_madeDict (hs : s.Regular) : s.inDict.heap.DictOf s.madeDict .empty :=
  ⟨_, s.get?_madeDict hs, rfl⟩

theorem aside_madeDict (hs : s.Regular) : s.inDict.Aside s.madeDict where
  regular := (((hs.step (.change (.allocate s _))).step (.enter _)).step (.enter _)).step (.enter _)
  live := Heap.contains_of_get? (s.get?_madeDict hs)
  running := Nat.succ_pos _

end State

/-- **A call of `dict`** with a source. -/
theorem Supply.fills_dict (hsupply : Supply n s.madeDict source s.inDict pairs ending)
    (hs : s.Orderly) (hu : s.heap.Unaltered) (hroom : s.callDepth + 3 ≤ s.limits.callDepth)
    (hn : pairs.length < n) :
    ((call BuiltinType.dict.handle [source]).exec (n + 3) s).Fills s.madeDict s.madeDict .empty
      pairs ending := by
  rw [(hu.constructs_dict hs.heap).run_construct hs hroom [source] n]
  have hfills :=
    hsupply.fills (s.aside_madeDict hs.regular) (s.dictOf_madeDict hs.regular) .empty hn
  exact (hfills.thenReturn s.madeDict).onState fun _ => rfl

/-! ## 3. Mappings from containers -/

section Kept

variable {heap heap' : Heap} {name : String} (hk : heap.KeptIn heap')

include hk

/-- Where all objects are kept, an object is followed by the same links. -/
theorem Heap.exists_chain_of_kept {o : Object} (ho : heap.Orderly bound)
    (hget : heap.get? k = some o) :
    ∃ links, heap.chain k = some links ∧ heap'.chain k = some links ∧
      ∀ link ∈ links, ∃ o, heap.get? link = some o := by
  cases ht : o.isType with
  | true =>
    obtain ⟨links, hl, _⟩ := ho.lineage ⟨o, hget, ht⟩
    have hl' : heap'.Lineage k links := hl.transfer fun _ _ o hget => ⟨o, hk hget, rfl⟩
    refine ⟨links, hl.chain_eq, hl'.chain_eq, fun link hlink => ?_⟩
    obtain ⟨o, hget, _⟩ := hl.isType_of_mem hlink
    exact ⟨o, hget⟩
  | false =>
    have hbase := Heap.base_of_not_type ht
    refine ⟨[k], Heap.chain_of_base_none hget hbase, Heap.chain_of_base_none (hk hget) hbase,
      fun link hlink => ⟨o, ?_⟩⟩
    rw [List.mem_singleton.mp hlink]
    exact hget

theorem Heap.firstDefined_of_kept {links : List Handle}
    (hl : ∀ link ∈ links, ∃ o, heap.get? link = some o) :
    heap'.firstDefined links name = heap.firstDefined links name := by
  induction links with
  | nil => rfl
  | cons link links ih =>
    obtain ⟨o, hget⟩ := hl link List.mem_cons_self
    rw [Heap.firstDefined_cons hget, Heap.firstDefined_cons (hk hget),
      ih fun link hlink => hl link (List.mem_cons_of_mem _ hlink)]

theorem Heap.hook_of_kept {found : Option Handle} (hhook : heap.hook c name = some found)
    (ho : heap.Orderly bound) : heap'.hook c name = some found := by
  cases hget : heap.get? c with
  | none => simp [Heap.hook, Heap.typeOf, hget] at hhook
  | some o =>
    rw [Heap.hook_of_get? hget] at hhook
    rw [Heap.hook_of_get? (hk hget)]
    cases htype : heap.get? o.type with
    | none => simp [Heap.lookup, Heap.chain_of_stale (Heap.contains_of_get? hget) htype] at hhook
    | some type =>
      obtain ⟨links, hchain, hchain', hlinks⟩ := Heap.exists_chain_of_kept hk ho htype
      rw [Heap.lookup_of_chain hchain', Heap.firstDefined_of_kept hk hlinks,
        ← Heap.lookup_of_chain hchain]
      exact hhook

theorem Heap.Answers.of_kept {member : Member} (hm : heap.Answers c name member)
    (ho : heap.Orderly bound) : heap'.Answers c name member := by
  obtain ⟨f, fo, label, hhook, hf, hp⟩ := hm
  exact ⟨f, fo, label, Heap.hook_of_kept hk hhook ho, hk hf, hp⟩

theorem Heap.Contents.of_kept {elements : List Element} (hc : heap.Contents c elements)
    (ho : heap.Orderly bound) : heap'.Contents c elements := by
  cases hc with
  | list hm hcell =>
    obtain ⟨o, cell, k, hget, hattr, hcell, hp⟩ := Heap.exists_of_tupleAttribute hcell
    refine .list (hm.of_kept hk ho) ?_
    rw [Heap.tupleAttribute_of_get? (hk hget) hattr (hk hcell), Object.tupleItems, hp]
  | tuple hm hget hp => exact .tuple (hm.of_kept hk ho) (hk hget) hp
  | dict hm hget hp => exact .dict (hm.of_kept hk ho) (hk hget) hp

end Kept

namespace State

/-- What was there before the mapping is there while it is filled. -/
theorem get?_inDict (hs : s.Regular) {o : Object} (hget : s.heap.get? k = some o) :
    s.inDict.heap.get? k = some o :=
  Heap.get?_allocate_of_live hs.heap hget

theorem get?_madeDict_fresh (hs : s.Regular) : s.heap.get? s.madeDict = none :=
  Heap.get?_allocate_fresh hs.heap _

theorem Orderly.equipped (hs : s.Orderly) (hu : s.heap.Unaltered) (hroom : s.Room) : s.Equipped :=
  ⟨⟨hs, hu.offers (.generator .iter) (by decide), hu.offers (.generator .next) (by decide)⟩,
    hu.offers (.tuple .iter) (by decide), hroom⟩

theorem equipped_inDict (hs : s.Orderly) (hu : s.heap.Unaltered)
    (hroom : s.callDepth + 4 ≤ s.limits.callDepth) : s.inDict.Equipped := by
  have hfits : ∀ o, (Action.allocate (.emptyDict BuiltinType.dict.handle)).made? = some o →
      s.Fits o := by
    rintro _ ⟨⟩
    exact .mapping _
  have hmade : (s.allocate (.emptyDict BuiltinType.dict.handle)).2.Orderly :=
    hs.perform (engine 0) rfl hfits
  have hspares : s.Spares (fun _ => True) s.inDict := .of_kept (s.get?_inDict hs.regular)
  exact hmade.enter.enter.enter.equipped (hspares.unaltered (fun _ _ => trivial) hs.heap hu) hroom

end State

/-- **A mapping is made from a container** whose elements are entries. No object that was there
changes. -/
theorem Heap.Contents.run_dict {elements : List Element} (hc : s.heap.Contents c elements)
    (ha : List.Forall₂ (s.heap.Amounts (n + 3)) elements (pairs.map .ok)) (hs : s.Orderly)
    (hu : s.heap.Unaltered) (hroom : s.callDepth + 4 ≤ s.limits.callDepth)
    (hn : pairs.length < n + 3) :
    ∃ t, (call BuiltinType.dict.handle [c]).exec (n + 6) s = .done (.ok s.madeDict) t ∧
      t.heap.DictOf s.madeDict (OrderedMap.empty.insertAll pairs) ∧ s.heap.KeptIn t.heap := by
  have hr := hs.regular
  have hne : ∀ {k : Handle} {o : Object}, s.heap.get? k = some o → k ≠ s.madeDict := by
    rintro k o hget rfl
    rw [s.get?_madeDict_fresh hr] at hget
    cases hget
  have hlive : ∃ o, s.heap.get? c = some o := by
    cases hc with
    | list _ hcell =>
      obtain ⟨o, _, _, hget, _⟩ := Heap.exists_of_tupleAttribute hcell
      exact ⟨o, hget⟩
    | tuple _ hget _ | dict _ hget _ => exact ⟨_, hget⟩
  obtain ⟨o, hget⟩ := hlive
  have hc' : s.inDict.heap.Contents c (elements ++ []) := by
    rw [List.append_nil]
    exact hc.of_kept (s.get?_inDict hr) hs.heap
  have ha' := ha.imp fun _ _ hamount => hamount.of_kept (s.get?_inDict hr)
  obtain ⟨g, t, hfeeds, hsupplying, hfresh, hkept⟩ :=
    hc'.feeds (s.equipped_inDict hs hu hroom) (hne hget) ha'
  obtain ⟨u, hend, _, hb⟩ := hsupplying.past_end (n + 1) s.madeDict
  have hinit := hfeeds.run_init hend (s.aside_madeDict hr) (s.dictOf_madeDict hr) hn
  have hdict := hend.dictOf (hfeeds.aside (s.aside_madeDict hr))
      (hfeeds.dictOf (s.aside_madeDict hr) (s.dictOf_madeDict hr))
  refine ⟨(u.modifyEntries s.madeDict (·.insertAll pairs)).leave.leave.leave, ?_,
    hdict.modifyEntries _, ?_⟩
  · rw [(hu.constructs_dict hs.heap).run_construct hs (by omega) [c] (n + 3)]
    change Outcome.onState _ (((Member.dict .init).run [s.madeDict, c]
      >>= fun _ => return s.madeDict).run.run (engine (n + 3)) s.inDict) = _
    rw [Run.run_bind_ok hinit]
    rfl
  · intro k o hget
    have hu' : u.heap.get? k = some o := hb.of_fresh hfresh hkept (s.get?_inDict hr hget)
    exact (State.get?_modifyEntries_of_ne (hne hget)).trans hu'

/-- **A container supplies** what its elements amount to, up to the first one that is no entry. -/
theorem Heap.Contents.supply_broken {front rest : List Element} {element : Element}
    {misfit : Misfit} (hc : s.heap.Contents c (front ++ element :: rest)) (hs : s.Equipped)
    (hne : c ≠ h) (ha : List.Forall₂ (s.heap.Amounts (n + 3)) front (pairs.map .ok))
    (hx : s.heap.Amounts (n + 3) element (.error misfit)) :
    Supply (n + 3) h c s pairs (some misfit) := by
  rw [List.append_cons] at hc
  obtain ⟨g, t, hfeeds, _⟩ := hc.feeds hs hne (List.rel_append ha (.cons hx .nil))
  exact .broken hfeeds

/-! ## 4. Construction -/

/-- **Constructing a mapping**, in a state of a session whose builtin members are as they were made.

* `__init__` on a mapping that is there, and a source that leaves its entries aside: the entries
  that the source supplies are stored one after another; the first element that is no entry raises
  its exception, and the mapping is left with those before it.
* A call of `dict` does the same with a new mapping.
* A mapping that is made from another one has its keys, values and order. A run that does not write
  to the one leaves it as it is, whatever it does to the other. -/
theorem State.dict_construction (hs : s.Reachable) (hu : s.heap.Unaltered) :
    (∀ (f h source : Handle) (fo : Object) (label : String) (m : OrderedMap Handle)
      (pairs : List (String × Handle)) (ending : Option Misfit)
      (n : Nat), s.heap.get? f = some fo → fo.payload = .function label (.member (.dict .init)) →
      s.heap.DictOf h m →
      s.callDepth < s.limits.callDepth → pairs.length < n → Supply n h source s.enter pairs ending →
      ((call f [h, source]).exec (n + 1) s).Fills h .none m pairs ending) ∧
    (∀ (source : Handle) (pairs : List (String × Handle)) (ending : Option Misfit) (n : Nat),
      s.callDepth + 3 ≤ s.limits.callDepth →
      pairs.length < n → Supply n s.madeDict source s.inDict pairs ending →
      s.heap.get? s.madeDict = none ∧
      ((call BuiltinType.dict.handle [source]).exec (n + 3) s).Fills s.madeDict s.madeDict .empty
        pairs ending) ∧
    ∀ (d : Handle) (m : OrderedMap Handle) (n : Nat), s.heap.DictOf d m →
      s.heap.Answers d "__iter__" (.dict .iter) →
      s.callDepth + 4 ≤ s.limits.callDepth → m.size < n + 3 →
      ∃ h m' t, (call BuiltinType.dict.handle [d]).exec (n + 6) s = .done (.ok h) t ∧ h ≠ d ∧
        t.heap.DictOf h m' ∧ m'.toList = m.toList ∧
        t.heap.DictOf d m ∧ ∀ {α : Type} (p : Program α) (k : Nat),
          ((∀ x ∈ p.log k t, ¬ x.Writes h) → (p.run (engine k) t).state.Live h →
            (p.run (engine k) t).state.heap.DictOf h m') ∧
          ((∀ x ∈ p.log k t, ¬ x.Writes d) → (p.run (engine k) t).state.Live d →
            (p.run (engine k) t).state.heap.DictOf d m) := by
  have ho := hs.orderly
  have hcoherent : ∀ {h : Handle} {m : OrderedMap Handle}, s.heap.DictOf h m → m.Coherent := by
    rintro h m ⟨o, hget, hp⟩
    exact hs.indexed _ _ hget m hp
  refine ⟨?_, ?_, ?_⟩
  · intro f h source fo label m pairs ending n hf hp hd hroom hn hsupply
    exact hsupply.fills_call ho.regular hf hp hd (hcoherent hd) hroom hn
  · intro source pairs ending n hroom hn hsupply
    exact ⟨s.get?_madeDict_fresh ho.regular, hsupply.fills_dict ho hu hroom hn⟩
  · intro d m n hd hiter hroom hn
    obtain ⟨o, hget, hp⟩ := id hd
    have hlength : m.toList.length < n + 3 := by rwa [OrderedMap.toList, Array.length_toList]
    have hamounts : List.Forall₂ (s.heap.Amounts (n + 3))
        (m.toList.map fun entry => .pair entry.1 entry.2) (m.toList.map .ok) := by
      rw [List.forall₂_map_left_iff, List.forall₂_map_right_iff, List.forall₂_same]
      exact fun entry _ => .pair entry.1 entry.2
    obtain ⟨t, hrun, hmade, hkept⟩ :=
      (Heap.Contents.dict hiter hget hp).run_dict hamounts ho hu hroom hlength
    have hne : s.madeDict ≠ d := by
      rintro rfl
      cases (s.get?_madeDict_fresh ho.regular).symm.trans hget
    have hdict : t.heap.DictOf d m := ⟨o, hkept hget, hp⟩
    have hregular : t.Regular := ho.regular.steps (State.steps_of_done hrun)
    refine ⟨s.madeDict, _, t, hrun, hne, hmade, (hcoherent hd).toList_insertAll_empty, hdict,
      fun p k => ⟨?_, ?_⟩⟩
    · exact State.dictOf_of_log p k hregular hmade
    · exact State.dictOf_of_log p k hregular hdict

/-- Makes a mapping with one entry, and a tuple of a pair and of an empty tuple. -/
def brokenSource : List Script.Expr :=
  [.setLocal "d" (.list .dict [.text "a", .null]), .setLocal "empty" (.list .tuple []),
    .setLocal "key" (.text "a"), .setLocal "pair" (.list .tuple [.name "key", .bool true]),
    .setLocal "source" (.list .tuple [.name "pair", .name "empty"])]

/-- A mapping with the key `a`, and `(("a", True), ())`: both `__init__` and `dict` store the pair
and then raise `ValueError`, and the mapping can be copied. -/
theorem State.dict_construction_broken :
    ∃ (s : State) (f d source : Handle) (m : OrderedMap Handle), s.Reachable ∧ s.heap.Unaltered ∧
      s.heap.DictOf d m ∧
      m.toList = [("a", .none)] ∧
      ((call f [d, source]).exec 4 s).Fills d .none m [("a", .true)] (some (.length 0)) ∧
      ((call BuiltinType.dict.handle [source]).exec 6 s).Fills s.madeDict s.madeDict .empty
        [("a", .true)] (some (.length 0)) ∧
      ∃ h m' t, (call BuiltinType.dict.handle [d]).exec 6 s = .done (.ok h) t ∧ h ≠ d ∧
        t.heap.DictOf h m' ∧ m'.toList = [("a", .none)] := by
  obtain ⟨_, s, hs, hplaced, hroom, d, -, source, -, pair, -, empty, -, name, -,
      hd, hsource, hpair, hempty, hname⟩ :=
    Session.exists_reached (fun _ => True) .standard 0 brokenSource
      (fun frame s => s.heap.AsPlaced ∧ s.callDepth + 4 ≤ s.limits.callDepth ∧
        ∃ d ∈ frame.locals.get? "d", ∃ source ∈ frame.locals.get? "source",
        ∃ pair ∈ frame.locals.get? "pair", ∃ empty ∈ frame.locals.get? "empty",
        ∃ name ∈ frame.locals.get? "key",
        s.heap.Exhibits d ((Object.emptyDict BuiltinType.dict.handle).mapEntries
          (·.insert "a" .none)) ∧
        s.heap.Exhibits source (.ofItems [pair, empty]) ∧
        s.heap.Exhibits pair (.ofItems [name, .true]) ∧
        s.heap.Exhibits empty (.ofItems []) ∧
        s.heap.Exhibits name (.ofText "a")) (by decide +kernel)
  replace hd := hd.get?_eq
  replace hsource := hsource.get?_eq
  have hu := hplaced.unaltered
  have ho := hs.orderly
  -- what the source supplies, in each state that has its objects
  have hsupply : ∀ (h : Handle) (t : State), t.Equipped → source ≠ h →
      (∀ {k : Handle} {o : Object}, s.heap.get? k = some o → t.heap.get? k = some o) →
      Supply 3 h source t [("a", .true)] (some (.length 0)) := by
    intro h t ht hne hk
    have hm : t.heap.Answers source "__iter__" (.tuple .iter) :=
      .of_offers ht.requests.orderly.heap (hk hsource)
        (ht.requests.orderly.heap.isType_builtin .tuple) ht.tuple
    have hfront : List.Forall₂ (t.heap.Amounts 3) [.item pair] ([("a", .true)].map .ok) :=
      .cons (.tuple (hk hpair.get?_eq) rfl (Nat.lt_succ_self 2) (.entry (hk hname.get?_eq) rfl))
        .nil
    refine (Heap.Contents.tuple hm (hk hsource) rfl).supply_broken (n := 0) ht hne hfront ?_
    exact .tuple (hk hempty.get?_eq) rfl (by decide) (.length (by decide))
  obtain ⟨hinit, hconstruct, hcopy⟩ := State.dict_construction hs hu
  obtain ⟨_, f, fo, _, _, hf, hfp⟩ := hu.offers (.dict .init) (by decide)
  have hdict : s.heap.DictOf d (OrderedMap.empty.insert "a" .none) := ⟨_, hd, rfl⟩
  have hlist : (OrderedMap.empty.insert "a" Handle.none).toList = [("a", .none)] := rfl
  have hne : source ≠ d := by
    rintro rfl
    cases hd.symm.trans hsource
  have hfresh : source ≠ s.madeDict := by
    rintro he
    rw [he, s.get?_madeDict_fresh ho.regular] at hsource
    cases hsource
  have hiter : s.heap.Answers d "__iter__" (.dict .iter) :=
    .of_offers ho.heap hd (ho.heap.isType_builtin .dict) (hu.offers (.dict .iter) (by decide))
  refine ⟨s, f, d, source, _, hs, hu, hdict, hlist, ?_, ?_, ?_⟩
  · exact hinit f d source fo _ _ _ _ 3 hf hfp hdict (by omega) (by decide) (hsupply d s.enter
      (ho.enter.equipped hu (by change s.callDepth + 1 < s.limits.callDepth; omega)) hne id)
  · exact (hconstruct source _ _ 3 (by omega) (by decide) (hsupply s.madeDict s.inDict
      (s.equipped_inDict ho hu hroom) hfresh (s.get?_inDict ho.regular))).2
  · obtain ⟨h, m', t, hrun, hne, hmade, hsame, _⟩ := hcopy d _ 0 hdict hiter hroom (by decide)
    exact ⟨h, m', t, hrun, hne, hmade, hsame.trans hlist⟩

end ObjectModel
