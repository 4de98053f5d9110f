import Mathlib.Data.List.Nodup
import ObjectModel.Proofs.OrderedMap

/-!
# Ordered mappings are association lists

The plain picture of an ordered mapping is the list of its entries. `Association` writes the
operations down for such lists, without an index: a key that is stored again keeps its place, a
removed key leaves no gap, and a key that comes back stands at the end.

* `OrderedMap.replay_association` -- **every sequence of operations on the empty mapping has the
  answers and the entries that it has on association lists**.
-/

namespace ObjectModel

/-! ## 1. Operations -/

namespace OrderedMap

variable {α : Type}

/-- An operation on a mapping. -/
inductive Operation (α : Type) where
  | insert (key : String) (value : α)
  | remove (key : String)
  | get (key : String)
  | containsKey (key : String)
  | length
  | enumerate
  | collect (pairs : List (String × α))

/-- What an operation answers: storing and removing give the value that stood there before. -/
inductive Reply (α : Type) where
  | value (found : Option α)
  | truth (known : Bool)
  | number (count : Nat)
  | entries (pairs : List (String × α))
  | done

/-- The replies to a sequence of operations, and the state behind them. -/
def Operation.replay {σ : Type} (perform : σ → Operation α → Reply α × σ) :
    List (Operation α) → σ → List (Reply α) × σ
  | [], state => ([], state)
  | operation :: rest, state =>
    let (reply, next) := perform state operation
    let (replies, last) := replay perform rest next
    (reply :: replies, last)

end OrderedMap

/-! ## 2. Association lists -/

namespace Association

variable {α : Type} {key : String} {x v : α} {front back l : List (String × α)}

/-- Stores `value` under `key`: in place if the key stands in the list, else at the end. -/
def put (key : String) (value : α) : List (String × α) → List (String × α)
  | [] => [(key, value)]
  | entry :: rest => if entry.1 = key then (key, value) :: rest else entry :: put key value rest

/-- Takes the entry of `key` out of the list. -/
def remove (key : String) : List (String × α) → List (String × α)
  | [] => []
  | entry :: rest => if entry.1 = key then rest else entry :: remove key rest

/-- Stores the pairs one after another into the empty list. -/
def ofPairs (pairs : List (String × α)) : List (String × α) :=
  pairs.foldl (fun l pair => put pair.1 pair.2 l) []

/-- One operation on an association list. -/
def perform (l : List (String × α)) :
    OrderedMap.Operation α → OrderedMap.Reply α × List (String × α)
  | .insert key value => (.value (l.lookup key), put key value l)
  | .remove key => (.value (l.lookup key), remove key l)
  | .get key => (.value (l.lookup key), l)
  | .containsKey key => (.truth (l.lookup key).isSome, l)
  | .length => (.number l.length, l)
  | .enumerate => (.entries l, l)
  | .collect pairs => (.done, ofPairs pairs)

theorem put_of_notMem (h : key ∉ l.map (·.1)) : put key x l = l ++ [(key, x)] := by
  induction l with
  | nil => rfl
  | cons entry rest ih =>
    rw [List.map_cons, List.mem_cons, not_or] at h
    rw [put, if_neg fun he => h.1 he.symm, ih h.2, List.cons_append]

theorem put_middle (h : key ∉ front.map (·.1)) :
    put key x (front ++ (key, v) :: back) = front ++ (key, x) :: back := by
  induction front with
  | nil => exact if_pos rfl
  | cons entry rest ih =>
    rw [List.map_cons, List.mem_cons, not_or] at h
    rw [List.cons_append, put, if_neg fun he => h.1 he.symm, ih h.2, List.cons_append]

theorem remove_of_notMem (h : key ∉ l.map (·.1)) : remove key l = l := by
  induction l with
  | nil => rfl
  | cons entry rest ih =>
    rw [List.map_cons, List.mem_cons, not_or] at h
    rw [remove, if_neg fun he => h.1 he.symm, ih h.2]

theorem remove_middle (h : key ∉ front.map (·.1)) :
    remove key (front ++ (key, v) :: back) = front ++ back := by
  induction front with
  | nil => exact if_pos rfl
  | cons entry rest ih =>
    rw [List.map_cons, List.mem_cons, not_or] at h
    rw [List.cons_append, remove, if_neg fun he => h.1 he.symm, ih h.2, List.cons_append]

theorem lookup_of_notMem (h : key ∉ l.map (·.1)) : l.lookup key = none := by
  rw [List.lookup_eq_none_iff]
  intro entry he
  rw [bne_iff_ne]
  rintro rfl
  exact h (List.mem_map_of_mem he)

theorem lookup_middle (h : key ∉ front.map (·.1)) :
    (front ++ (key, v) :: back).lookup key = some v := by
  rw [List.lookup_append, lookup_of_notMem h, Option.none_or, List.lookup_cons_self]

end Association

namespace OrderedMap

variable {α : Type} {m : OrderedMap α} {key other : String} {x : α} {i : Nat}
  {l : List (String × α)}

/-! ## 3. The entries of a coherent mapping -/

namespace Coherent

theorem getElem?_toList (hm : m.Coherent) :
    m.index[key]? = some i ↔ ∃ value, m.toList[i]? = some (key, value) := by
  rw [hm key i]
  simp only [toList, Array.getElem?_toList]

theorem position_unique (hm : m.Coherent) {j : Nat} {v w : α} (hi : m.toList[i]? = some (key, v))
    (hj : m.toList[j]? = some (key, w)) : i = j := by
  have hi := hm.getElem?_toList.mpr ⟨v, hi⟩
  have hj := hm.getElem?_toList.mpr ⟨w, hj⟩
  rw [hi] at hj
  exact Option.some.inj hj

theorem nodup_keys (hm : m.Coherent) : m.keys.Nodup := by
  refine List.pairwise_iff_getElem.mpr fun i j hi hj hij he => ?_
  simp only [keys, List.getElem_map] at he
  have hi : i < m.toList.length := by simpa [keys] using hi
  have hj : j < m.toList.length := by simpa [keys] using hj
  have hti : m.toList[i]? = some (m.toList[i].1, m.toList[i].2) := List.getElem?_eq_getElem hi
  have htj : m.toList[j]?
      = some (m.toList[i].1, m.toList[j].2) := by rw [he]; exact List.getElem?_eq_getElem hj
  exact absurd (hm.position_unique hti htj) (Nat.ne_of_lt hij)

/-- The entries around the one of an indexed key. -/
theorem split (hm : m.Coherent) (hi : m.index[key]? = some i) :
    ∃ value, m.entries[i]? = some (key, value) ∧
      m.toList = m.toList.take i ++ (key, value) :: m.toList.drop (i + 1) ∧
      key ∉ (m.toList.take i).map (·.1) := by
  obtain ⟨value, he⟩ := (hm key i).mp hi
  have hlist : m.toList[i]? = some (key, value) := by rw [toList, Array.getElem?_toList]; exact he
  obtain ⟨hlt, hget⟩ := List.getElem?_eq_some_iff.mp hlist
  have hsplit : m.toList = m.toList.take i ++ (key, value) :: m.toList.drop (i + 1) := by
    rw [← hget, ← List.drop_eq_getElem_cons hlt, List.take_append_drop]
  have hnodup := hm.nodup_keys
  rw [keys, hsplit, List.map_append, List.map_cons, List.nodup_middle, List.nodup_cons,
    List.mem_append, not_or] at hnodup
  exact ⟨value, he, hsplit, hnodup.1.1⟩

theorem notMem_keys (hm : m.Coherent) (hk : m.index[key]? = none) : key ∉ m.toList.map (·.1) := by
  intro hmem
  obtain ⟨⟨known, value⟩, he, rfl⟩ := List.mem_map.mp hmem
  obtain ⟨i, hi⟩ := List.mem_iff_getElem?.mp he
  rw [toList, Array.getElem?_toList] at hi
  exact hm.ne_of_unknown hk hi

/-! ## 4. Reading and storing -/

theorem get?_eq_lookup (hm : m.Coherent) (key : String) : m.get? key = m.toList.lookup key := by
  cases hk : m.index[key]? with
  | none =>
    rw [Association.lookup_of_notMem (hm.notMem_keys hk)]
    simp [get?, hk]
  | some i =>
    obtain ⟨value, he, hsplit, hfront⟩ := hm.split hk
    rw [hsplit, Association.lookup_middle hfront]
    simp [get?, hk, he]

theorem contains_eq_lookup (hm : m.Coherent) (key : String) :
    m.contains key = (m.toList.lookup key).isSome := by
  rw [← hm.get?_eq_lookup, contains, Std.TreeMap.contains_eq_isSome_getElem?]
  cases hk : m.index[key]? with
  | none => simp [get?, hk]
  | some i =>
    obtain ⟨value, he, _⟩ := hm.split hk
    simp [get?, hk, he]

theorem toList_insert (hm : m.Coherent) (key : String) (x : α) :
    (m.insert key x).toList = Association.put key x m.toList := by
  unfold OrderedMap.insert
  cases hk : m.index[key]? with
  | none =>
    rw [Association.put_of_notMem (hm.notMem_keys hk)]
    exact Array.toList_push
  | some i =>
    obtain ⟨value, he, hsplit, hfront⟩ := hm.split hk
    have hlist : m.toList[i]? = some (key, value) := by rw [toList, Array.getElem?_toList]; exact he
    obtain ⟨hlt, hget⟩ := List.getElem?_eq_some_iff.mp hlist
    have hput : Association.put key x m.toList
        = m.toList.take i ++ (key, x) :: m.toList.drop (i + 1) :=
      (congrArg _ hsplit).trans (Association.put_middle hfront)
    rw [hput]
    refine Array.toList_modify.trans ?_
    rw [List.modify_eq_take_cons_drop (show i < m.entries.toList.length from hlt)]
    rw [show m.entries.toList[i] = (key, value) from hget]
    rfl

/-! ## 5. Removing -/

/-- Writing the positions of distinct keys into an index. -/
theorem getElem?_foldl_insert {pairs : List ((String × α) × Nat)} (hn : (pairs.map (·.1.1)).Nodup)
    (index : Std.TreeMap String Nat) :
    (pairs.foldl (fun positions entry => positions.insert entry.1.1 entry.2) index)[key]? = some i ↔
      (∃ value, ((key, value), i) ∈ pairs) ∨ (key ∉ pairs.map (·.1.1) ∧ index[key]? = some i) := by
  induction pairs generalizing index with
  | nil => simp
  | cons pair rest ih =>
    obtain ⟨⟨known, value⟩, position⟩ := pair
    rw [List.map_cons, List.nodup_cons] at hn
    rw [List.foldl_cons, ih hn.2]
    simp only [Std.TreeMap.getElem?_insert, Std.compare_eq_iff_eq, List.mem_cons,
      List.map_cons, not_or]
    by_cases hk : known = key
    · subst hk
      have hrest : ∀ value, ((known, value), i) ∉ rest :=
        fun value hmem => hn.1 (List.mem_map.mpr ⟨_, hmem, rfl⟩)
      constructor
      · rintro (⟨other, hmem⟩ | ⟨_, hp⟩)
        · exact absurd hmem (hrest other)
        · rw [if_pos rfl] at hp
          cases hp
          exact Or.inl ⟨value, Or.inl rfl⟩
      · rintro (⟨other, hmem | hmem⟩ | ⟨hne, _⟩)
        · cases hmem
          exact Or.inr ⟨hn.1, if_pos rfl⟩
        · exact absurd hmem (hrest other)
        · exact absurd rfl hne.1
    · rw [if_neg hk]
      constructor
      · rintro (⟨other, hmem⟩ | ⟨hne, hp⟩)
        · exact Or.inl ⟨other, Or.inr hmem⟩
        · exact Or.inr ⟨⟨fun he => hk he.symm, hne⟩, hp⟩
      · rintro (⟨other, hmem | hmem⟩ | ⟨hne, hp⟩)
        · cases hmem
          exact absurd rfl hk
        · exact Or.inl ⟨other, hmem⟩
        · exact Or.inr ⟨hne.2, hp⟩

theorem mem_drop_zipIdx {start : Nat} {entry : String × α} :
    (entry, i) ∈ l.zipIdx.drop start ↔ start ≤ i ∧ l[i]? = some entry := by
  rw [List.mem_iff_getElem?]
  simp only [List.getElem?_drop, List.getElem?_zipIdx, Nat.zero_add, Option.map_eq_some_iff,
    Prod.mk.injEq]
  constructor
  · rintro ⟨j, _, he, rfl, rfl⟩
    exact ⟨Nat.le_add_right _ _, he⟩
  · rintro ⟨hle, he⟩
    refine ⟨i - start, entry, ?_, rfl, Nat.add_sub_cancel' hle⟩
    rw [Nat.add_sub_cancel' hle]
    exact he

theorem toList_erase_of_index (hm : m.Coherent) (hi : m.index[key]? = some i) :
    (m.erase key).toList = m.toList.eraseIdx i := by
  have hlt := hm.lt_size hi
  unfold OrderedMap.erase
  rw [hi]
  simp only [toList, Array.eraseIdxIfInBounds, hlt, dif_pos, Array.toList_eraseIdx]

theorem toList_erase (hm : m.Coherent) (key : String) :
    (m.erase key).toList = Association.remove key m.toList := by
  cases hk : m.index[key]? with
  | none =>
    rw [Association.remove_of_notMem (hm.notMem_keys hk), OrderedMap.erase, hk]
  | some i =>
    obtain ⟨value, _, hsplit, hfront⟩ := hm.split hk
    rw [hm.toList_erase_of_index hk, List.eraseIdx_eq_take_drop_succ]
    exact ((congrArg _ hsplit).trans (Association.remove_middle hfront)).symm

/-- The index behind a removal: the entries from the gap on are written anew. -/
theorem index_erase (hm : m.Coherent) (hi : m.index[key]? = some i) :
    (m.erase key).index = ((m.toList.eraseIdx i).zipIdx.drop i).foldl
      (fun positions entry => positions.insert entry.1.1 entry.2)
      (m.index.erase key) := by
  rw [← hm.toList_erase_of_index hi]
  unfold OrderedMap.erase
  rw [hi]
  rfl

theorem erase (hm : m.Coherent) (key : String) : (m.erase key).Coherent := by
  intro other j
  cases hk : m.index[key]? with
  | none =>
    rw [OrderedMap.erase, hk]
    exact hm other j
  | some p =>
    obtain ⟨value, hentry⟩ := hm.getElem?_toList.mp hk
    have hshift : ∀ i, (m.toList.eraseIdx p)[i]? = if i < p then m.toList[i]?
        else m.toList[i + 1]? := fun _ => List.getElem?_eraseIdx
    have hnodup : (((m.toList.eraseIdx p).zipIdx.drop p).map (·.1.1)).Nodup := by
      have hkeys : ((m.toList.eraseIdx p).map (·.1)).Nodup :=
        hm.nodup_keys.sublist ((List.eraseIdx_sublist _ _).map _)
      have hmap : (m.toList.eraseIdx p).zipIdx.map (·.1.1) = (m.toList.eraseIdx p).map (·.1) := by
        rw [← List.zipIdx_map_fst 0 (m.toList.eraseIdx p), List.map_map, List.zipIdx_map_fst]
        rfl
      exact (hmap ▸ hkeys).sublist ((List.drop_sublist _ _).map _)
    have hlist : (∃ value, (m.erase key).entries[j]? = some (other, value)) ↔
        ∃ value, (m.toList.eraseIdx p)[j]? = some (other, value) := by
      rw [← hm.toList_erase_of_index hk]
      simp only [toList, Array.getElem?_toList]
    rw [hlist, hm.index_erase hk, getElem?_foldl_insert hnodup, Std.TreeMap.getElem?_erase]
    simp only [mem_drop_zipIdx, Std.compare_eq_iff_eq]
    constructor
    · rintro (⟨v, _, he⟩ | ⟨hnone, hindex⟩)
      · exact ⟨v, he⟩
      · split at hindex
        · cases hindex
        · rename_i hne
          obtain ⟨v, he⟩ := hm.getElem?_toList.mp hindex
          have hjp : j ≠ p := by
            rintro rfl
            rw [hentry] at he
            exact hne (congrArg Prod.fst (Option.some.inj he))
          by_cases hlt : j < p
          · exact ⟨v, by rw [hshift, if_pos hlt]; exact he⟩
          · -- an entry behind the gap is renumbered
            refine absurd (List.mem_map.mpr ⟨((other, v), j - 1),
              mem_drop_zipIdx.mpr ⟨by omega, ?_⟩, rfl⟩) hnone
            rw [hshift, if_neg (by omega), Nat.sub_add_cancel (by omega)]
            exact he
    · rintro ⟨v, he⟩
      by_cases hle : p ≤ j
      · exact Or.inl ⟨v, hle, he⟩
      · have hlt : j < p := by omega
        rw [hshift, if_pos hlt] at he
        refine Or.inr ⟨?_, ?_⟩
        · intro hmem
          obtain ⟨⟨⟨known, w⟩, i⟩, hw, rfl⟩ := List.mem_map.mp hmem
          obtain ⟨hpi, hw⟩ := mem_drop_zipIdx.mp hw
          rw [hshift, if_neg (by omega)] at hw
          have := hm.position_unique he hw
          omega
        · rw [if_neg]
          · exact hm.getElem?_toList.mpr ⟨v, he⟩
          · rintro rfl
            exact absurd (hm.position_unique he hentry) (by omega)

/-! ## 6. Collecting pairs -/

theorem ofList (pairs : List (String × α)) : (OrderedMap.ofList pairs).Coherent := by
  have hfold : ∀ (pairs : List (String × α)) (m : OrderedMap α), m.Coherent →
      (pairs.foldl (fun m pair => m.insert pair.1 pair.2) m).Coherent := by
    intro pairs
    induction pairs with
    | nil => exact fun m hm => hm
    | cons pair rest ih => exact fun m hm => ih _ (hm.insert pair.1 pair.2)
  exact hfold pairs _ empty

end Coherent

theorem toList_ofList (pairs : List (String × α)) :
    (ofList pairs).toList = Association.ofPairs pairs := by
  have hfold : ∀ (pairs : List (String × α)) (m : OrderedMap α), m.Coherent →
      (pairs.foldl (fun m pair => m.insert pair.1 pair.2) m).toList =
        pairs.foldl (fun l pair => Association.put pair.1 pair.2 l) m.toList := by
    intro pairs
    induction pairs with
    | nil => exact fun m _ => rfl
    | cons pair rest ih =>
      intro m hm
      rw [List.foldl_cons, List.foldl_cons, ih _ (hm.insert pair.1 pair.2), hm.toList_insert]
  exact hfold pairs _ Coherent.empty

/-! ## 7. Sequences of operations -/

/-- One operation on a mapping. -/
def perform (m : OrderedMap α) : Operation α → Reply α × OrderedMap α
  | .insert key value => (.value (m.get? key), m.insert key value)
  | .remove key => (.value (m.get? key), m.erase key)
  | .get key => (.value (m.get? key), m)
  | .containsKey key => (.truth (m.contains key), m)
  | .length => (.number m.size, m)
  | .enumerate => (.entries m.toList, m)
  | .collect pairs => (.done, ofList pairs)

/-- The mapping stands for the list of entries `l`, and its index is exact. -/
structure Represents (m : OrderedMap α) (l : List (String × α)) : Prop where
  entries : m.toList = l
  /-- A key is indexed at a position exactly if its entry stands there. -/
  index : ∀ (key : String) (i : Nat), m.index[key]? = some i ↔ ∃ value, l[i]? = some (key, value)
  distinct : (l.map (·.1)).Nodup
  /-- No position of the index is outside. -/
  inside : ∀ (key : String) (i : Nat), m.index[key]? = some i → i < m.entries.size

namespace Represents

theorem of_coherent (hm : m.Coherent) : m.Represents m.toList where
  entries := rfl
  index _ _ := hm.getElem?_toList
  distinct := hm.nodup_keys
  inside _ _ := hm.lt_size

theorem coherent (h : m.Represents l) : m.Coherent := by
  intro key i
  rw [h.index key i, ← h.entries]
  simp only [toList, Array.getElem?_toList]

/-- **One operation**: the same reply, and the mapping stands for the changed list. -/
theorem perform (h : m.Represents l) (operation : Operation α) :
    (m.perform operation).1 = (Association.perform l operation).1 ∧
      (m.perform operation).2.Represents (Association.perform l operation).2 := by
  have hm := h.coherent
  obtain rfl := h.entries
  cases operation with
  | insert key value =>
    refine ⟨congrArg Reply.value (hm.get?_eq_lookup key), ?_⟩
    have hput := of_coherent (hm.insert key value)
    rw [hm.toList_insert] at hput
    exact hput
  | remove key =>
    refine ⟨congrArg Reply.value (hm.get?_eq_lookup key), ?_⟩
    have hremove := of_coherent (hm.erase key)
    rw [hm.toList_erase] at hremove
    exact hremove
  | get key => exact ⟨congrArg Reply.value (hm.get?_eq_lookup key), h⟩
  | containsKey key => exact ⟨congrArg Reply.truth (hm.contains_eq_lookup key), h⟩
  | length => exact ⟨congrArg Reply.number Array.length_toList.symm, h⟩
  | enumerate => exact ⟨rfl, h⟩
  | collect pairs =>
    have hpairs := of_coherent (Coherent.ofList pairs)
    rw [toList_ofList] at hpairs
    exact ⟨rfl, hpairs⟩

theorem replay (h : m.Represents l) (operations : List (Operation α)) :
    (Operation.replay OrderedMap.perform operations m).1
      = (Operation.replay Association.perform operations l).1 ∧
      (Operation.replay OrderedMap.perform operations m).2.Represents
        (Operation.replay Association.perform operations l).2 := by
  induction operations generalizing m l with
  | nil => exact ⟨rfl, h⟩
  | cons operation rest ih =>
    obtain ⟨hreply, hnext⟩ := h.perform operation
    obtain ⟨hreplies, hlast⟩ := ih hnext
    exact ⟨congrArg₂ List.cons hreply hreplies, hlast⟩

end Represents

/-- **Ordered mappings are association lists.** Every sequence of operations, from the empty mapping
on, gives reply by reply what it gives on a plain list of entries; the mapping behind it stands for
the list behind it, with an exact index and distinct keys. -/
theorem replay_association (operations : List (Operation α)) :
    (Operation.replay perform operations empty).1
      = (Operation.replay Association.perform operations []).1 ∧
      (Operation.replay perform operations empty).2.Represents
        (Operation.replay Association.perform operations []).2 :=
  (Represents.of_coherent Coherent.empty).replay operations

end OrderedMap

end ObjectModel
