import ObjectModel.Proofs.Text.Calling

/-!
# The elements of a sequence

A text, a tuple or a list is a sequence. An iterator of it is a new generator, which deals out the
elements one by one.

* `State.Native.run_collect` -- **all elements are there**, in order, and nothing that was there
  before has changed.
-/

namespace ObjectModel

variable {s t : State} {c : Handle} {l : Layer Handle} {size n : Nat}

/-! ## 1. Elements -/

/-- A text, a tuple or a list has so many elements. -/
inductive Layer.Sized : Layer Handle → Nat → Prop where
  | text (text : String) : Sized (.text text) text.length
  | tuple (items : List Handle) : Sized (.tuple items) items.length
  | list (items : List Handle) : Sized (.list items) items.length

/-- **`h` is the element at place `k`**: the item itself, or a text of the one character. -/
def State.Element (s : State) (l : Layer Handle) (k : Nat) (h : Handle) : Prop :=
  match l with
  | .text text => ∃ char, text.toList[k]? = some char ∧ s.IsText h (String.singleton char)
  | .tuple items => items[k]? = some h
  | .list items => items[k]? = some h
  | _ => False

/-- A text deals out its characters. -/
def Deal.characters (chars : List Char) : Deal where
  size := chars.length
  rest k := .characters (chars.drop k)
  shows k s h := ∃ char, chars[k]? = some char ∧ s.IsText h (String.singleton char)
  yields {k _} hk hw e := by
    refine ⟨_, _, ?_, Heap.get?_allocate_of_live hw, chars[k], List.getElem?_eq_getElem hk, _,
      State.get?_made hw (.ofText _), rfl⟩
    rw [List.drop_eq_getElem_cons hk]
    rfl
  ends hk _ _ := by
    rw [List.drop_eq_nil_of_le hk]
    rfl
  spared hs := by
    rintro ⟨char, hchar, o, hget, hp⟩
    exact ⟨char, hchar, o, hs hget fun x hx => (by cases hp.symm.trans hx), hp⟩

/-! ## 2. Iteration -/

/-- **Iteration** starts with a new generator that deals out the elements. -/
theorem Layer.Sized.iter (hz : l.Sized size) :
    ∃ d : Deal, d.size = size ∧ (∀ k t h, d.shows k t h → t.Element l k h) ∧
    ∃ m, l.type.member? "__iter__" = some m ∧
      ∀ {s : State} {c : Handle} (e : Engine), s.heap.layer? c = some l →
      (m.run [c]).run.run e s = (newGenerator (d.rest 0)).run.run e s := by
  cases hz with
  | text text =>
    exact ⟨.characters text.toList, String.length_toList, fun _ _ _ => id,
      .str .iter, by rfl, fun _ hl => Run.run_bind_ok (run_textReceiver_layer hl _)⟩
  | tuple items =>
    exact ⟨.items items, rfl, fun _ _ _ => id,
      .tuple .iter, by rfl, fun _ hl => Run.run_bind_ok (run_tupleReceiver_layer hl _)⟩
  | list items =>
    exact ⟨.items items, rfl, fun _ _ _ => id,
      .list .iter, by rfl, fun _ hl => Run.run_bind_ok (run_listReceiver_layer hl _)⟩

namespace State

/-- **What a run keeps** of a state with the builtin types and the singletons as they were placed,
if no object was changed. -/
theorem Native.grows {α : Type} {x : Run α} {r : Except Fault α} (hs : s.Native) (hx : x.Builds)
    (hrun : x.run.run (engine n) s = .done r t) (hk : s.heap.KeptIn t.heap) : s.Grows t := by
  have hsteps := steps_of_done hrun
  have hspares : s.Spares (fun _ => True) t := .of_kept hk
  refine ⟨⟨hx.orderly_done hs.orderly hrun, hsteps.singles hs.orderly.regular.heap hs.singles,
    hspares.unaltered (fun _ _ => trivial) hs.orderly.heap hs.unaltered⟩, hk, depth_of_done hrun,
    hsteps.limits_eq⟩

/-- **An iterator** is a new generator that stands in front of the first element. -/
theorem Native.run_iter (hs : s.Native) (hlevels : 0 < s.levels) (hl : s.heap.layer? c = some l)
    (hz : l.Sized size) (n : Nat) :
    ∃ (d : Deal) (g : Handle) (t : State), d.size = size ∧
      (∀ k t h, d.shows k t h → t.Element l k h) ∧
      (iter c).run.run (engine (n + 1)) s = .done (.ok g) t ∧ t.Dealing g d 0 ∧ ¬ s.Live g ∧
        s.Grows t := by
  obtain ⟨d, hsize, hshows, m, hm, hrun⟩ := hz.iter
  have hroom := room_of_levels hlevels
  have hw := hs.orderly.regular.heap
  have hgrows := hs.grows_allocate (.coroutine (d.rest 0))
  have hoffers := hgrows.native.unaltered.offers
  refine ⟨d, _, _, hsize, hshows, ?_, ⟨⟨hgrows.native.orderly, hoffers (.generator .iter)
    (by decide), hoffers (.generator .next) (by decide)⟩, hroom, _, stands_allocate hw rfl,
    Or.inl rfl⟩, Heap.not_contains_iff.mpr (Heap.get?_allocate_fresh hw _), hgrows⟩
  refine (run_hook [c] (fun _ => rfl) (hs.answers hl hm) hroom).trans ?_
  rw [hrun (s := s.enter) (engine n) hl]
  rfl

/-- **All elements** are there, in order, and nothing that was there before has changed. -/
theorem Native.run_collect (hs : s.Native) (hlevels : 0 < s.levels) (hl : s.heap.layer? c = some l)
    (hz : l.Sized size) (hn : size < n + 2) :
    ∃ items t, (ObjectModel.collect c).run.run (engine (n + 2)) s = .done (.ok items) t ∧
      s.Grows t ∧ items.length = size ∧
      ∀ k h, items[k]? = some h → t.Element l k h := by
  obtain ⟨d, g, t, rfl, hshows, hiter, ht, hfresh, hgrows⟩ := hs.run_iter hlevels hl hz (n + 1)
  obtain ⟨items, u, hcollect, hlength, hfills, hb⟩ := ht.run_drain hiter hn
  have hbuilds :=
    (paired_collect trivial (Known.mem (List.mem_singleton_self c)).related).composed_known.builds
  exact ⟨items, u, hcollect, hs.grows hbuilds hcollect (hb.of_fresh hfresh hgrows.kept), hlength,
    fun k h hk => hshows k u h (hfills k h hk)⟩

end State

end ObjectModel
