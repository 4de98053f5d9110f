import ObjectModel.Proofs.Mappings.Entries

/-!
# Filling a mapping

`dict.__init__` asks a source for its elements one by one, takes each of them apart and stores it
before it asks for the next one.

* `Feeds` -- **what a source delivers on its own**, element by element, while nothing is stored.
-/

namespace ObjectModel

variable {α : Type} {s t u : State} {h it source item : Handle} {m : OrderedMap Handle} {n : Nat}
  {e : Engine} {change : OrderedMap Handle → OrderedMap Handle}

/-! ## 1. Runs past a mapping -/

/-- **The run comes to this answer and leaves the entries of `h` aside.** -/
structure Run.Past (x : Run α) (n : Nat) (h : Handle) (s : State) (a : α) (t : State) : Prop where
  done : x.exec n s = .done (.ok a) t
  ignores : ∀ y ∈ x.run.log n s, y.Ignores h

namespace Run.Past

variable {x : Run α} {a : α}

theorem aside (hx : x.Past n h s a t) (hs : s.Aside h) : t.Aside h := hs.of_run hx.done

theorem dictOf (hx : x.Past n h s a t) (hs : s.Aside h) (hd : s.heap.DictOf h m) :
    t.heap.DictOf h m :=
  hs.dictOf hd hx.done hx.ignores

/-- The run goes the same way whatever the entries are. -/
theorem run_modifyEntries (hx : x.Past n h s a t) (hs : s.Aside h)
    (change : OrderedMap Handle → OrderedMap Handle) :
    x.run.run (engine n) (s.modifyEntries h change) = .done (.ok a) (t.modifyEntries h change) := by
  have hrun : x.run.run (engine n) s = .done (.ok a) t := hx.done
  rw [hs.run_modifyEntries x.run hx.ignores, hrun]
  rfl

end Run.Past

/-! ## 2. What an element amounts to -/

/-- The exception that an element causes which cannot be stored. -/
structure Misfit where
  kind : ExceptionKind
  message : String

/-- An element that delivers a wrong number of items. -/
def Misfit.length (count : Nat) : Misfit :=
  ⟨.valueError, "dict update sequence element has length " ++ toString count ++ "; 2 is required"⟩

/-- A key that is no text. -/
def Misfit.key (className : String) : Misfit :=
  ⟨.typeError, "dict keys must be str, not " ++ className⟩

/-- **What an element amounts to that delivered these items**: a text and a value are an entry,
anything else is a misfit. -/
inductive Heap.Delivers (heap : Heap) : List Handle → Except Misfit (String × Handle) → Prop where
  | entry {key value : Handle} {o : Object} {text : String} : heap.get? key = some o →
      o.textValue = some text → Delivers heap [key, value] (.ok (text, value))
  | key {key value : Handle} {o : Object} {name : String} : heap.get? key = some o → o.textValue
      = none → heap.className key = some name → Delivers heap [key, value] (.error (.key name))
  | length {items : List Handle} : items.length ≠ 2 →
      Delivers heap items (.error (.length items.length))

/-- The entries of a mapping do not matter for that. -/
theorem Heap.Delivers.modifyEntries {items : List Handle}
    {element : Except Misfit (String × Handle)} (hd : s.heap.Delivers items element)
    (h : Handle) (change : OrderedMap Handle → OrderedMap Handle) :
    (s.modifyEntries h change).heap.Delivers items element := by
  have hobject : ∀ {k : Handle} {o : Object}, s.heap.get? k = some o →
      ∃ o', (s.modifyEntries h change).heap.get? k = some o' ∧ o'.textValue = o.textValue := by
    intro k o hget
    obtain ⟨o', hget', rfl | rfl⟩ := s.exists_get?_modifyEntries h hget change
    · exact ⟨o', hget', rfl⟩
    · exact ⟨_, hget', o.textValue_mapEntries⟩
  cases hd with
  | entry hget htext =>
    obtain ⟨o', hget', heq⟩ := hobject hget
    exact .entry hget' (heq.trans htext)
  | key hget htext hname =>
    obtain ⟨o', hget', heq⟩ := hobject hget
    exact .key hget' (heq.trans htext) ((s.className_modifyEntries h change _).trans hname)
  | length hlength => exact .length hlength

/-! ## 3. Storing one element -/

theorem dictKey_bind (key : Handle) (f : String → Run α) :
    dictKey key >>= f = object key >>= fun o => (match o.textValue with
      | some text => pure text
      | none => className key >>= fun name => typeError ("dict keys must be str, not " ++ name))
        >>= f := by
  unfold dictKey textValue
  rw [bind_assoc, bind_assoc]
  rfl

theorem run_dictKey {key : Handle} {o : Object} {text : String} {f : String → Run α}
    (hget : s.heap.get? key = some o) (htext : o.textValue = some text) :
    (dictKey key >>= f).run.run e s = (f text).run.run e s := by
  rw [dictKey_bind, run_object_bind hget, htext]
  rfl

theorem Heap.DictOf.run_dictReceiver (hd : s.heap.DictOf h m) (name : String)
    (f : OrderedMap Handle → Run α) :
    (dictReceiver name h >>= f).run.run e s = (f m).run.run e s := by
  obtain ⟨o, hget, hp⟩ := hd
  exact Run.run_bind_ok (ObjectModel.run_dictReceiver hget hp name)

theorem Heap.DictOf.run_setEntry (hd : s.heap.DictOf h m) (key : String) (value : Handle) :
    (Run.act (.setEntry h key value)).run.run e s
      = .done (.ok ()) (s.modifyEntries h (·.insert key value)) := by
  obtain ⟨o, hget, _⟩ := hd
  have heq : (Run.act (.setEntry h key value)).run = .perform (.setEntry h key value) fun _ =>
      .pure (.ok ()) := rfl
  rw [heq, Program.run_perform]
  simp only [Action.perform, whenLive, Heap.contains_of_get? hget, if_true]
  rfl

/-- **An entry is stored.** -/
theorem run_dictUpdate {items : List Handle} {pair : String × Handle}
    (hc : (collect item).run.run e s = .done (.ok items) t) (hi : t.heap.Delivers items (.ok pair))
    (hd : t.heap.DictOf h m) :
    (dictUpdate h item).run.run e s
      = .done (.ok ()) (t.modifyEntries h (·.insert pair.1 pair.2)) := by
  refine (Run.run_bind_ok hc).trans ?_
  cases hi with
  | entry hget htext =>
    exact (run_dictKey hget htext).trans ((hd.run_dictReceiver _ _).trans (hd.run_setEntry _ _))

theorem run_dictKey_misfit {key : Handle} {o : Object} {name : String} {f : String → Run α}
    (hw : s.heap.WellFormed) (hget : s.heap.get? key = some o) (htext : o.textValue = none)
    (hname : s.heap.className key = some name) :
    ∃ fault u text, (dictKey key >>= f).run.run e s = .done (.error fault) u ∧
      s.heap.KeptIn u.heap ∧ u.heap.get? text = some (.ofText (Misfit.key name).message) ∧
        fault.Carries u .typeError [text] := by
  obtain ⟨fault, u, text, hraise, hrest⟩ :=
    run_raiseMessage (α := String) hw .typeError (Misfit.key name).message e
  refine ⟨fault, u, text, ?_, hrest⟩
  rw [dictKey_bind, run_object_bind hget, htext]
  dsimp only
  rw [bind_assoc]
  exact (@Run.run_inspect_bind _ _ _ s (fun s => s.heap.className key) _ _ hname).trans
    (Run.run_bind_error hraise)

/-- **A misfit raises its exception**, and stores nothing. -/
theorem run_dictUpdate_misfit {items : List Handle} {misfit : Misfit}
    (hc : (collect item).run.run e s = .done (.ok items) t)
    (hi : t.heap.Delivers items (.error misfit)) (hw : t.heap.WellFormed) :
    ∃ fault u text, (dictUpdate h item).run.run e s = .done (.error fault) u ∧
      t.heap.KeptIn u.heap ∧ u.heap.get? text = some (.ofText misfit.message) ∧
        fault.Carries u misfit.kind [text] := by
  have hrest : ∀ onItems : List Handle → Run Unit, (collect item >>= onItems).run.run e s
      = (onItems items).run.run e t :=
    fun _ => Run.run_bind_ok hc
  unfold dictUpdate
  rw [hrest]
  cases hi with
  | key hget htext hname => exact run_dictKey_misfit hw hget htext hname
  | length hlength =>
    split
    · exact absurd rfl hlength
    · exact run_raiseMessage hw .valueError _ e

/-! ## 4. Sources -/

/-- **What a source delivers on its own**: from `s` on it was asked for these elements, each was
taken apart before the next one was asked for, and `t` is the state behind them. All of that leaves
the entries of `h` aside. -/
inductive Feeds (n : Nat) (h source : Handle) (s : State) :
    List (Except Misfit (String × Handle)) → Handle → State → Prop where
  | start {it : Handle} {t : State} : (iter source).Past n h s it t → Feeds n h source s [] it t
  | next {it item : Handle} {t u v : State} {items : List Handle}
      {elements : List (Except Misfit (String × Handle))}
      {element : Except Misfit (String × Handle)} : Feeds n h source s elements it t →
      (nextItem it).Past n h t (some item) u → (collect item).Past n h u items v →
      v.heap.Delivers items element → Feeds n h source s (elements ++ [element]) it v

namespace Feeds

variable {elements : List (Except Misfit (String × Handle))} {pairs : List (String × Handle)}
  {misfit : Misfit}

theorem aside (hf : Feeds n h source s elements it t) (hs : s.Aside h) : t.Aside h := by
  induction hf with
  | start hiter => exact hiter.aside hs
  | next _ hnext hcollect _ ih => exact hcollect.aside (hnext.aside ih)

theorem dictOf (hf : Feeds n h source s elements it t) (hs : s.Aside h) (hd : s.heap.DictOf h m) :
    t.heap.DictOf h m := by
  induction hf with
  | start hiter => exact hiter.dictOf hs hd
  | next hf hnext hcollect _ ih =>
    exact hcollect.dictOf (hnext.aside (hf.aside hs)) (hnext.dictOf (hf.aside hs) ih)

/-- **The loop that fills the mapping keeps pace with the source**: by induction on what the source
delivered, the state is that of the source on its own, with the entries stored that came so far. -/
theorem fill (hf : Feeds n h source s elements it t) (hs : s.Aside h) (hd : s.heap.DictOf h m)
    (he : elements = pairs.map .ok) :
    ∃ s₀, (iter source).run.run (engine n) s = .done (.ok it) s₀ ∧
      Taken (engine n) it (fun _ item => dictUpdate h item) pairs.length () s₀ ()
      (t.modifyEntries h (·.insertAll pairs)) := by
  induction hf generalizing pairs with
  | @start it t hiter =>
    obtain rfl : pairs = [] := List.map_eq_nil_iff.mp he.symm
    have hsame : t.modifyEntries h (·.insertAll []) = t :=
      (hiter.dictOf hs hd).modifyEntries_eq_self rfl
    rw [hsame]
    exact ⟨t, hiter.done, .none () t⟩
  | @next it item t u v items elements element hf hnext hcollect hi ih =>
    obtain ⟨front, last, rfl, hfront, hlast⟩ := List.map_eq_append_iff.mp he.symm
    obtain ⟨pair, rfl, rfl⟩ := List.map_eq_singleton_iff.mp hlast
    have ht := hf.aside hs
    have hstored : (v.modifyEntries h (·.insertAll front)).modifyEntries h (·.insert pair.1 pair.2)
        = v.modifyEntries h (·.insertAll (front ++ [pair])) := by
      rw [State.modifyEntries_modifyEntries]
      exact congrArg (v.modifyEntries h) (funext fun m => (m.insertAll_concat front pair).symm)
    have hv := (hcollect.dictOf (hnext.aside ht) (hnext.dictOf ht (hf.dictOf hs hd))).modifyEntries
        (·.insertAll front)
    have hupdate := run_dictUpdate (hcollect.run_modifyEntries (hnext.aside ht) (·.insertAll front))
        (hi.modifyEntries h _) hv
    obtain ⟨s₀, hiter, htaken⟩ := ih hfront.symm
    rw [List.length_append, List.length_singleton]
    exact ⟨s₀, hiter, .more htaken (hnext.run_modifyEntries ht _) (hstored ▸ hupdate)⟩

/-- **A source whose elements are entries leaves the mapping with all of them**, stored one after
another; apart from that, the state is that of the source on its own. -/
theorem run_init (hf : Feeds n h source s (pairs.map .ok) it t)
    (hend : (nextItem it).Past n h t none u) (hs : s.Aside h)
    (hd : s.heap.DictOf h m) (hn : pairs.length < n) :
    ((Member.dict .init).run [h, source]).run.run (engine n) s
      = .done (.ok .none) (u.modifyEntries h (·.insertAll pairs)) := by
  obtain ⟨s₀, hiter, htaken⟩ := hf.fill hs hd rfl
  exact Run.run_bind_ok (htaken.ended hn hiter (hend.run_modifyEntries (hf.aside hs) _))

/-- **The first element that is no entry fails with its exception**, and leaves the mapping with
those before it. -/
theorem run_init_misfit (hf : Feeds n h source s (pairs.map .ok ++ [.error misfit]) it t)
    (hs : s.Aside h) (hd : s.heap.DictOf h m) (hn : pairs.length < n) :
    ∃ fault u text, ((Member.dict .init).run [h, source]).run.run (engine n) s
      = .done (.error fault) u ∧
      u.heap.DictOf h (m.insertAll pairs) ∧ u.heap.get? text = some (.ofText misfit.message) ∧
        fault.Carries u misfit.kind [text] := by
  generalize hall : pairs.map Except.ok ++ [Except.error misfit] = all at hf
  cases hf with
  | start => simp at hall
  | next hf hnext hcollect hi =>
    obtain ⟨rfl, hlast⟩ := List.append_inj' hall rfl
    cases hlast
    have ht := hf.aside hs
    have hv := hcollect.aside (hnext.aside ht)
    have hdict := (hcollect.dictOf (hnext.aside ht)
        (hnext.dictOf ht (hf.dictOf hs hd))).modifyEntries (·.insertAll pairs)
    have hw : (t.modifyEntries h (·.insertAll pairs)).heap.WellFormed := hv.regular.heap.modify h _
    obtain ⟨fault, u, text, hupdate, hkept, htext, hcarries⟩ := run_dictUpdate_misfit (h := h)
      (hcollect.run_modifyEntries (hnext.aside ht) (·.insertAll pairs)) (hi.modifyEntries h _) hw
    obtain ⟨s₀, hiter, htaken⟩ := hf.fill hs hd rfl
    have hfill := htaken.failed hn hiter (hnext.run_modifyEntries ht _) hupdate
    obtain ⟨o, hget, hp⟩ := hdict
    exact ⟨fault, u, text, Run.run_bind_error hfill, ⟨o, hkept hget, hp⟩, htext, hcarries⟩

end Feeds

end ObjectModel
