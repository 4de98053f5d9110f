import Mathlib.Data.ENat.Basic
import ObjectModel.Proofs.Mappings.Construction

/-!
# All and any

Both functions ask an iterator for items until one has the truth value that settles the answer. They
take the items up to that one and no other, so what comes behind it is still there for the next
request. Of an endless iterator without such an item they never answer.

* `Stream.quantifiers_consume` -- **what is answered, and how much is taken for it.**
-/

namespace ObjectModel

/-! ## 1. Streams -/

/-- An iterator that hands out items, perhaps without an end. `At k` holds of the states in which
`k` items are taken and `Item k` of what is handed out then: the same item need not be the same
object in two runs. -/
structure Stream where
  iterator : Handle
  length : ℕ∞
  truth : Nat → Bool
  At : Nat → State → Prop
  Item : Nat → State → Handle → Prop

namespace Stream

/-- What the next request gives where `k` items are taken. -/
structure Next (S : Stream) (n k : Nat) (s : State) : Prop where
  item : k < S.length → ∃ v t, (nextItem S.iterator).exec n s = .done (.ok (some v)) t ∧
    S.Item k t v ∧ S.At (k + 1) t
  ended : S.length ≤ k → ∃ t, (nextItem S.iterator).exec n s = .done (.ok none) t ∧ S.At k t

/-- **The iterator of `c`** is the stream from the beginning. The hooks that tell the truth of an
item do not fail, and the iterator is where it was behind them. -/
structure Serves (S : Stream) (n : Nat) (c : Handle) (s : State) : Prop where
  iter : ∃ t, (iter c).exec n s = .done (.ok S.iterator) t ∧ S.At 0 t
  next : ∀ k t, S.At k t → S.Next n k t
  truthy : ∀ k t v, S.At (k + 1) t → S.Item k t v →
    ∃ u, (truthy v).exec n t = .done (.ok (S.truth k)) u ∧ S.At (k + 1) u

variable {S S' : Stream} {n k m rounds : Nat} {c c' : Handle} {s s' t : State} {wanted : Bool}

/-- The first item of this truth value. -/
structure First (S : Stream) (wanted : Bool) (k : Nat) : Prop where
  lt : k < S.length
  truth_eq : S.truth k = wanted
  earlier : ∀ j < k, S.truth j ≠ wanted

/-- The stream ends, and no item has this truth value. -/
structure Misses (S : Stream) (wanted : Bool) (k : Nat) : Prop where
  length_eq : S.length = k
  all : ∀ j < k, S.truth j ≠ wanted

/-! ## 2. Searching -/

/-- Whether an item is found and how many are taken then, from the item `k` on and in so many
rounds. -/
def search (S : Stream) (wanted : Bool) : Nat → Nat → Option (Bool × Nat)
  | 0, _ => none
  | rounds + 1, k => if k < S.length then
      if S.truth k = wanted then some (true, k + 1) else search S wanted rounds (k + 1)
    else some (false, k)

theorem search_congr (hlength : S'.length = S.length) (htruth : ∀ k, S'.truth k = !S.truth k)
    (wanted : Bool) (rounds k : Nat) : S'.search wanted rounds k = S.search (!wanted) rounds k := by
  induction rounds generalizing k with
  | zero => rfl
  | succ rounds ih => simp only [search, hlength, htruth, ih, Bool.not_eq_eq_eq_not]

/-- The first item is found if the rounds reach it. -/
theorem First.search_eq (hfirst : S.First wanted m) (hk : k ≤ m) (hm : m < k + rounds) :
    S.search wanted rounds k = some (true, m + 1) := by
  induction rounds generalizing k with
  | zero => omega
  | succ rounds ih =>
    rcases Nat.lt_or_eq_of_le hk with hlt | rfl
    · rw [search, if_pos (lt_trans (Nat.cast_lt.mpr hlt) hfirst.lt), if_neg (hfirst.earlier k hlt)]
      exact ih hlt (by omega)
    · rw [search, if_pos hfirst.lt, if_pos hfirst.truth_eq]

theorem Misses.search_eq (hmiss : S.Misses wanted m) (hk : k ≤ m) (hm : m < k + rounds) :
    S.search wanted rounds k = some (false, m) := by
  induction rounds generalizing k with
  | zero => omega
  | succ rounds ih =>
    rcases Nat.lt_or_eq_of_le hk with hlt | rfl
    · rw [search, if_pos (hmiss.length_eq ▸ Nat.cast_lt.mpr hlt), if_neg (hmiss.all k hlt)]
      exact ih hlt (by omega)
    · rw [search, if_neg (by simp [hmiss.length_eq])]

/-- What a search gives is one of the two. -/
theorem of_search {found : Bool} (h : S.search wanted rounds k = some (found, m))
    (hk : k ≤ S.length) (hearlier : ∀ j < k, S.truth j ≠ wanted) :
    (found = true ∧ ∃ i, m = i + 1 ∧ S.First wanted i) ∨ (found = false ∧ S.Misses wanted m) := by
  induction rounds generalizing k with
  | zero => cases h
  | succ rounds ih =>
    rw [search] at h
    split at h
    · rename_i hlt
      split at h
      · rename_i htruth
        cases h
        exact .inl ⟨rfl, k, rfl, hlt, htruth, hearlier⟩
      · rename_i htruth
        refine ih h (Order.add_one_le_of_lt hlt) fun j hj => ?_
        rcases Nat.lt_succ_iff_lt_or_eq.mp hj with hj | rfl
        · exact hearlier j hj
        · exact htruth
    · rename_i hge
      cases h
      exact .inr ⟨rfl, le_antisymm (not_lt.mp hge) hk, hearlier⟩

/-! ## 3. Running the search -/

/-- One round of a search. -/
def round (wanted : Bool) (iterator : Handle) (_ : Unit) : Run (Unit ⊕ Bool) := do
  match ← nextItem iterator with
  | none => return .inr false
  | some item => if (← ObjectModel.truthy item) == wanted then return .inr true else return .inl ()

/-- What came out of a search in so many rounds. -/
def Ends {α : Type} (S : Stream) (answer : Bool → α) (found : Option (Bool × Nat))
    (o : Outcome (Except Fault α)) : Prop :=
  found.elim (∃ t, o = .aborted .unfinished t) fun found =>
    ∃ t, o = .done (.ok (answer found.1)) t ∧ S.At found.2 t

/-- **Searching**, by induction on the rounds: each takes one item. -/
theorem Serves.run_rounds (hS : S.Serves n c s) (wanted : Bool) (rounds : Nat) :
    ∀ (k : Nat) (t : State), S.At k t →
      S.Ends id (S.search wanted rounds k) (repeatUntil (fun acc s =>
      ((round wanted S.iterator acc).run.run (engine n) s).andThen fun outcome t =>
        .done (Run.turn outcome) t) rounds () t) := by
  induction rounds with
  | zero => exact fun k t _ => ⟨t, rfl⟩
  | succ rounds ih =>
    intro k t ht
    have hnext := hS.next k t ht
    rw [repeatUntil_succ, search]
    dsimp only
    split
    · rename_i hlt
      obtain ⟨v, u, hitem, hv, hu⟩ := hnext.item hlt
      obtain ⟨w, htruth, hw⟩ := hS.truthy k u v hu hv
      have hround : (round wanted S.iterator ()).run.run (engine n) t
          = (if S.truth k == wanted then pure (.inr true)
              else pure (.inl ()) : Run (Unit ⊕ Bool)).run.run (engine n) w :=
        (Run.run_bind_ok hitem).trans (Run.run_bind_ok htruth)
      rw [hround]
      split
      · rename_i hwanted
        rw [if_pos (beq_iff_eq.mpr hwanted)]
        exact ⟨w, rfl, hw⟩
      · rename_i hwanted
        rw [if_neg (mt beq_iff_eq.mp hwanted)]
        exact ih (k + 1) w hw
    · rename_i hge
      obtain ⟨u, hend, hu⟩ := hnext.ended (not_lt.mp hge)
      have hround : (round wanted S.iterator ()).run.run (engine n) t
          = .done (.ok (.inr false)) u := Run.run_bind_ok hend
      rw [hround]
      exact ⟨u, rfl, hu⟩

theorem Serves.run_searchTruth (hS : S.Serves n c s) (wanted : Bool) :
    S.Ends id (S.search wanted n 0) ((searchTruth wanted c).exec n s) := by
  obtain ⟨t, hiter, ht⟩ := hS.iter
  have hrounds : (engine n).rounds = n := by cases n <;> rfl
  have hrun : (searchTruth wanted c).exec n s = _ :=
    (Run.run_bind_ok hiter).trans (Run.run_loop () (round wanted S.iterator) (engine n) t)
  rw [hrun, hrounds]
  exact hS.run_rounds wanted n 0 t ht

/-- The function that looks for this truth value: `any` looks for true items, `all` for false
ones. -/
def function : Bool → BuiltinFunction
  | true => .any
  | false => .all

theorem Serves.run_function (hS : S.Serves n c s) (wanted : Bool) :
    S.Ends (fun found => .ofBool (found == wanted)) (S.search wanted n 0)
      (((function wanted).run [c]).exec n s) := by
  have hends := hS.run_searchTruth wanted
  generalize S.search wanted n 0 = found at hends
  cases found with
  | none =>
    obtain ⟨t, ht⟩ := hends
    cases wanted <;> exact ⟨t, Run.run_bind_aborted ht⟩
  | some found =>
    obtain ⟨t, hrun, ht⟩ := hends
    refine ⟨t, ?_, ht⟩
    cases wanted
    · refine (Run.run_bind_ok hrun).trans ?_
      cases found.1 <;> rfl
    · refine (Run.run_bind_ok hrun).trans ?_
      cases found.1 <;> rfl

/-! ## 4. The functions -/

/-- **The answer of a search and what it takes.** The first item of the truth value in question
settles it: just the items up to it are taken, and the next request goes on behind it. The other
answer is for a stream that ends without such an item. -/
structure Consumes (S : Stream) (n : Nat) (wanted : Bool) (x : Run Handle) (s : State) : Prop where
  found : ∀ k, S.First wanted k → k < n → ∃ t, x.exec n s = .done (.ok (.ofBool wanted)) t ∧
    S.At (k + 1) t ∧ S.Next n (k + 1) t
  missed : ∀ k, S.Misses wanted k → k < n → ∃ t, x.exec n s = .done (.ok (.ofBool !wanted)) t ∧
    S.At k t ∧ S.Next n k t
  only : ∀ r t, x.exec n s = .done r t → ∃ k, (r = .ok (.ofBool wanted) ∧ S.First wanted k ∧
    S.At (k + 1) t) ∨ (r = .ok (.ofBool !wanted) ∧ S.Misses wanted k ∧ S.At k t)

theorem Serves.consumes (hS : S.Serves n c s) (wanted : Bool) :
    S.Consumes n wanted ((function wanted).run [c]) s where
  found k hfirst hk := by
    have hrun := hS.run_function wanted
    rw [hfirst.search_eq (Nat.zero_le k) (by omega)] at hrun
    obtain ⟨t, hdone, ht⟩ := hrun
    exact ⟨t, by simpa using hdone, ht, hS.next _ t ht⟩
  missed k hmiss hk := by
    have hrun := hS.run_function wanted
    rw [hmiss.search_eq (Nat.zero_le k) (by omega)] at hrun
    obtain ⟨t, hdone, ht⟩ := hrun
    exact ⟨t, by simpa using hdone, ht, hS.next _ t ht⟩
  only r t hdone := by
    have hrun := hS.run_function wanted
    cases hfound : S.search wanted n 0 with
    | none =>
      rw [hfound] at hrun
      obtain ⟨u, hu⟩ := hrun
      rw [hdone] at hu
      cases hu
    | some found =>
      rw [hfound] at hrun
      obtain ⟨u, hu, hat⟩ := hrun
      rw [hdone] at hu
      cases hu
      obtain ⟨found, m⟩ := found
      rcases of_search hfound (by simp) (by simp) with ⟨rfl, i, rfl, hfirst⟩ | ⟨rfl, hmiss⟩
      · exact ⟨i, .inl ⟨by simp, hfirst, hat⟩⟩
      · exact ⟨m, .inr ⟨by simp, hmiss, hat⟩⟩

/-- **`any` and `all` take exactly what they need.** Over a stream of the negated truth values,
`any` gives the negated answer of `all` and takes as many items. -/
theorem quantifiers_consume (hS : S.Serves n c s) :
    S.Consumes n true (BuiltinFunction.any.run [c]) s ∧
    S.Consumes n false (BuiltinFunction.all.run [c]) s ∧
    ∀ (S' : Stream) (c' : Handle) (s' : State), S'.Serves n c' s' → S'.length = S.length →
      (∀ k, S'.truth k = !S.truth k) →
      (∃ answer k t t', (BuiltinFunction.all.run [c]).exec n s = .done (.ok (.ofBool answer)) t ∧
        S.At k t ∧
        (BuiltinFunction.any.run [c']).exec n s' = .done (.ok (.ofBool !answer)) t' ∧ S'.At k t') ∨
      ∃ t t', (BuiltinFunction.all.run [c]).exec n s = .aborted .unfinished t ∧
        (BuiltinFunction.any.run [c']).exec n s' = .aborted .unfinished t' := by
  refine ⟨hS.consumes true, hS.consumes false, fun S' c' s' hS' hlength htruth => ?_⟩
  have hall := hS.run_function false
  have hany := hS'.run_function true
  rw [search_congr hlength htruth, Bool.not_true] at hany
  generalize S.search false n 0 = found at hall hany
  cases found with
  | none =>
    obtain ⟨t, ht⟩ := hall
    obtain ⟨t', ht'⟩ := hany
    exact .inr ⟨t, t', ht, ht'⟩
  | some found =>
    obtain ⟨t, ht, hat⟩ := hall
    obtain ⟨t', ht', hat'⟩ := hany
    refine .inl ⟨_, found.2, t, t', ht, hat, ?_, hat'⟩
    cases hfound : found.1 <;> rw [hfound] at ht' <;> exact ht'

end Stream

/-! ## 5. Tuples of truth values -/

section

variable {s : State} {g c : Handle} {n : Nat} {bs : List Bool}

/-- The iterator of a tuple of truth values. -/
def Stream.ofBools (g : Handle) (bs : List Bool) : Stream where
  iterator := g
  length := bs.length
  truth k := bs.getD k false
  At k t := t.Supplying g ((bs.drop k).map fun b => .item (.ofBool b)) ∧ t.heap.Singles ∧
      Bootstrap.Offers t.heap BuiltinType.bool.handle "__bool__"
      (.function (Member.bool .bool).qualifiedName (.member (.bool .bool)))
  Item k _ v := v = .ofBool (bs.getD k false)

theorem Stream.next_ofBools (g : Handle) (bs : List Bool) (n k : Nat) (t : State)
    (ht : (ofBools g bs).At k t) : (ofBools g bs).Next (n + 2) k t := by
  obtain ⟨hs, hsingles, hoffers⟩ := ht
  obtain ⟨x, hg, _⟩ := hs.stands
  have hafter {r : Except Fault (Option Handle)} {u : State}
      (hrun : (nextItem g).run.run (engine (n + 2)) t = .done r u) (hb : t.ButFor g u) :
      u.heap.Singles ∧ Bootstrap.OffersMember u.heap (.bool .bool) := by
    exact ⟨(State.steps_of_done hrun).singles hs.requests.orderly.regular.heap hsingles,
      hg.offers_of_kept hb.kept hs.requests.orderly hoffers nofun⟩
  refine ⟨fun hk => ?_, fun hk => ?_⟩
  · have hk : k < bs.length := Nat.cast_lt.mp hk
    rw [List.drop_eq_getElem_cons hk, List.map_cons] at hs
    obtain ⟨v, u, hnext, rfl, hu, hb⟩ := hs.past_item n g
    refine ⟨_, u, hnext.done, ?_, hu, hafter hnext.done hb⟩
    change _ = Handle.ofBool (bs.getD k false)
    rw [List.getD_eq_getElem?_getD, List.getElem?_eq_getElem hk, Option.getD_some]
  · have hk : bs.length ≤ k := Nat.cast_le.mp hk
    have hnil : (bs.drop k).map (fun b => Element.item (.ofBool b))
        = [] := by rw [List.drop_eq_nil_of_le hk, List.map_nil]
    rw [hnil] at hs
    obtain ⟨u, hnext, hu, hb⟩ := hs.past_end n g
    exact ⟨u, hnext.done, hnil ▸ hu, hafter hnext.done hb⟩

/-- **A tuple of truth values** serves a stream of them. -/
theorem State.Native.exists_serves (hs : s.Native) (hlevels : 0 < s.levels)
    (hget : s.heap.get? c = some (.ofItems (bs.map .ofBool))) (n : Nat) :
    ∃ g, (Stream.ofBools g bs).Serves (n + 2) c s := by
  have hroom : s.callDepth < s.limits.callDepth := room_of_levels hlevels
  have hequipped : s.Equipped := hs.orderly.equipped hs.unaltered hroom
  obtain ⟨g, t, hiter, ht, _, hkept⟩ := hequipped.past_iter_tuple hget rfl (n + 1) c
  have hoffers := hs.unaltered.offers (.bool .bool) (by decide)
  refine ⟨g, ⟨⟨t, hiter.done, ?_⟩, Stream.next_ofBools g bs n, ?_⟩⟩
  · rw [List.map_map] at ht
    obtain ⟨o, f, member, ho, hf, hmember, hp⟩ := hoffers
    exact ⟨ht, (State.steps_of_done hiter.done).singles hs.orderly.regular.heap hs.singles, o, f,
      member, hkept ho, hf, hkept hmember, hp⟩
  · rintro k t _ ⟨ht, hsingles, hoffers⟩ rfl
    exact ⟨t, ht.requests.orderly.run_truthy hsingles hoffers ht.room _, ht, hsingles, hoffers⟩

end

/-- Of `(False, True, False)`, `any` takes two items and the next request gives the last one. `all`
takes one item. -/
theorem Stream.quantifiers_consume_bools :
    ∃ (s : State) (c : Handle) (S : Stream), s.Reachable ∧
    s.heap.get? c = some (.ofItems [.false, .true, .false]) ∧ S.Serves 4 c s ∧
    (∃ t u, (BuiltinFunction.any.run [c]).exec 4 s = .done (.ok .true) t ∧
      (nextItem S.iterator).exec 4 t = .done (.ok (some .false)) u) ∧
    ∃ t, (BuiltinFunction.all.run [c]).exec 4 s = .done (.ok .false) t ∧ S.At 1 t := by
  obtain ⟨_, s, hs, c, -, hplaced, hroom, hget⟩ :=
    Session.exists_reached (fun _ => True) .standard 0
      [.setLocal "c" (.list .tuple [.bool false, .bool true, .bool false])]
      (fun frame s => ∃ c ∈ frame.locals.get? "c", s.heap.AsPlaced ∧ 0 < s.levels ∧
        s.heap.Exhibits c (.ofItems [.false, .true, .false])) (by decide +kernel)
  replace hget := hget.get?_eq
  obtain ⟨g, hserves⟩ : ∃ g, (Stream.ofBools g [false, true, false]).Serves 4 c s :=
    (State.Native.of_reachable hs hplaced.unaltered).exists_serves hroom hget 2
  obtain ⟨hany, hall, _⟩ := Stream.quantifiers_consume hserves
  have htrue : (Stream.ofBools g [false, true, false]).First true 1 :=
    ⟨Nat.cast_lt.mpr (by decide), rfl, fun j hj => by
    obtain rfl := Nat.lt_one_iff.mp hj
    exact Bool.false_ne_true⟩
  have hfalse : (Stream.ofBools g [false, true, false]).First false 0 :=
    ⟨Nat.cast_lt.mpr (by decide), rfl, fun j hj => absurd hj (Nat.not_lt_zero j)⟩
  obtain ⟨t, hrun, _, hnext⟩ := hany.found 1 htrue (by decide)
  obtain ⟨v, u, hitem, rfl, _⟩ := hnext.item (Nat.cast_lt.mpr (by decide))
  obtain ⟨t', hrun', hat, _⟩ := hall.found 0 hfalse (by decide)
  exact ⟨s, c, _, hs, hget, hserves, ⟨t, u, hrun, hitem⟩, t', hrun', hat⟩

end ObjectModel
