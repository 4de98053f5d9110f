import ObjectModel.Proofs.Mappings.Aside
import ObjectModel.Proofs.Types.Shadowing

/-!
# The entries of mappings

What becomes of pairs that are stored one after another, and what the entries of a `dict` in the
heap can be.

* `OrderedMap.insertAll`, `OrderedMap.Coherent.gathers_insertAll` -- **pairs that are stored one
  after another are gathered**.
* `State.dictOf_of_log` -- **only a write to a mapping changes its entries**, whatever else is done.
-/

namespace ObjectModel

/-! ## 1. Gathering pairs -/

namespace Association

variable {α : Type} {key : String} {x : α} {pairs more l : List (String × α)}

/-- **What is left of pairs**: each key once, where it came first, with the value that came last. -/
structure Gathers (pairs l : List (String × α)) : Prop where
  keys : l.map (·.1) = (pairs.map (·.1)).eraseDups
  lookup : ∀ key, l.lookup key = pairs.reverse.lookup key

theorem keys_put (key : String) (x : α) (l : List (String × α)) :
    (put key x l).map (·.1) = if key ∈ l.map (·.1) then l.map (·.1) else l.map (·.1) ++ [key] := by
  induction l with
  | nil => rfl
  | cons entry rest ih =>
    unfold put
    by_cases he : entry.1 = key
    · simp [he]
    · simp only [if_neg he, List.map_cons, ih, List.mem_cons, Ne.symm he, false_or]
      split <;> rfl

theorem lookup_cons (entry : String × α) (l : List (String × α)) (other : String) :
    (entry :: l).lookup other = if other = entry.1 then some entry.2 else l.lookup other := by
  obtain ⟨known, value⟩ := entry
  rw [List.lookup_cons]
  by_cases ho : other = known
  · rw [if_pos ho, beq_iff_eq.mpr ho]
  · rw [if_neg ho, beq_eq_false_iff_ne.mpr ho]

theorem lookup_put (key : String) (x : α) (l : List (String × α)) (other : String) :
    (put key x l).lookup other = if other = key then some x else l.lookup other := by
  induction l with
  | nil => exact lookup_cons (key, x) [] other
  | cons entry rest ih =>
    unfold put
    by_cases he : entry.1 = key
    · rw [if_pos he, lookup_cons, lookup_cons, he]
      by_cases ho : other = key
      · rw [if_pos ho, if_pos ho]
      · rw [if_neg ho, if_neg ho, if_neg ho]
    · rw [if_neg he, lookup_cons, lookup_cons, ih]
      by_cases ho : other = key
      · rw [if_pos ho, if_pos ho, if_neg fun h => he (h.symm.trans ho)]
      · rw [if_neg ho, if_neg ho]

theorem Gathers.put (hg : Gathers pairs l) (key : String) (x : α) :
    Gathers (pairs ++ [(key, x)]) (put key x l) where
  keys := by
    rw [keys_put, hg.keys, List.map_append, List.eraseDups_append]
    by_cases hk : key ∈ pairs.map (·.1)
    · rw [if_pos (List.mem_eraseDups.mpr hk)]
      simp [List.removeAll, hk]
    · rw [if_neg (mt List.mem_eraseDups.mp hk)]
      simp [List.removeAll, hk, List.eraseDups_cons]
  lookup other := by
    rw [lookup_put, hg.lookup, List.reverse_append]
    exact (lookup_cons (key, x) _ other).symm

theorem Gathers.foldl_put (hg : Gathers pairs l) (more : List (String × α)) :
    Gathers (pairs ++ more) (more.foldl (fun l pair => Association.put pair.1 pair.2 l) l) := by
  induction more generalizing pairs l with
  | nil => rwa [List.append_nil]
  | cons pair rest ih =>
    have hrest := ih (hg.put pair.1 pair.2)
    rwa [List.append_assoc] at hrest

theorem foldl_put_of_nodup (hn : ((l ++ more).map (·.1)).Nodup) :
    more.foldl (fun l pair => Association.put pair.1 pair.2 l) l = l ++ more := by
  induction more generalizing l with
  | nil => rw [List.append_nil, List.foldl_nil]
  | cons pair rest ih =>
    have hnew : pair.1 ∉ l.map (·.1) := by
      intro hmem
      rw [List.map_append, List.map_cons] at hn
      exact (List.nodup_append.mp hn).2.2 pair.1 hmem pair.1 List.mem_cons_self rfl
    rw [List.foldl_cons, put_of_notMem hnew, ih (by rwa [List.append_assoc]), List.append_assoc]
    rfl

theorem gathers_self (hn : (l.map (·.1)).Nodup) : Gathers l l := by
  have hnone : Gathers ([] : List (String × α)) [] := ⟨rfl, fun _ => rfl⟩
  have hgathers := hnone.foldl_put l
  rwa [foldl_put_of_nodup hn] at hgathers

end Association

/-! ## 2. Storing pairs one after another -/

namespace OrderedMap

variable {α : Type} {m : OrderedMap α}

/-- Stores the pairs one after another. -/
def insertAll (m : OrderedMap α) (pairs : List (String × α)) : OrderedMap α :=
  pairs.foldl (fun m pair => m.insert pair.1 pair.2) m

theorem insertAll_concat (m : OrderedMap α) (pairs : List (String × α)) (pair : String × α) :
    m.insertAll (pairs ++ [pair]) = (m.insertAll pairs).insert pair.1 pair.2 := List.foldl_append

namespace Coherent

theorem toList_insertAll (hm : m.Coherent) (pairs : List (String × α)) :
    (m.insertAll pairs).toList
      = pairs.foldl (fun l pair => Association.put pair.1 pair.2 l) m.toList := by
  induction pairs generalizing m with
  | nil => rfl
  | cons pair rest ih =>
    rw [List.foldl_cons, ← hm.toList_insert]
    exact ih (hm.insert pair.1 pair.2)

/-- **Pairs that are stored one after another are gathered** behind what was there. -/
theorem gathers_insertAll (hm : m.Coherent) (pairs : List (String × α)) :
    Association.Gathers (m.toList ++ pairs) (m.insertAll pairs).toList := by
  rw [hm.toList_insertAll]
  exact (Association.gathers_self hm.nodup_keys).foldl_put pairs

/-- The entries of a mapping, stored one after another into the empty one, are the same entries. -/
theorem toList_insertAll_empty (hm : m.Coherent) :
    (OrderedMap.empty.insertAll m.toList).toList = m.toList := by
  rw [Coherent.empty.toList_insertAll]
  exact Association.foldl_put_of_nodup hm.nodup_keys

end Coherent

end OrderedMap

/-! ## 3. Entries are found by their keys -/

/-- The object finds its entries by their keys, if it has any. -/
def Object.Indexed (o : Object) : Prop := ∀ m, o.payload = .dict m → m.Coherent

theorem Object.Indexed.of_ne {o : Object} (hp : ∀ m, o.payload ≠ .dict m) : o.Indexed :=
  fun m hm => absurd hm (hp m)

theorem Object.lasting_indexed : Object.Lasting Object.Indexed where
  attributes _ ho := ho
  entries := by
    rintro o m _ hp hm ho _ ⟨⟩
    exact hm (ho m hp)
  generator _ _ := .of_ne nofun

theorem State.Fits.indexed {s : State} {o : Object} (hf : s.Fits o) : o.Indexed := by
  cases hf with
  | mapping type =>
    intro m hp
    cases hp
    exact .empty
  | _ => exact .of_ne nofun

namespace Bootstrap

theorem indexed_place {objects : List Object} {store : Heap} (ho : ∀ o ∈ objects, o.Indexed)
    (hw : store.WellFormed) (hi : store.Every Object.Indexed) :
    (place objects store).Every Object.Indexed := by
  induction objects generalizing store with
  | nil => exact hi
  | cons o rest ih =>
    exact ih (fun o ho' => ho o (List.mem_cons_of_mem _ ho')) (hw.allocate o)
      (hi.allocate hw (ho o List.mem_cons_self))

theorem indexed_first : (place singletons (place types .empty)).Every Object.Indexed := by
  have htypes : ∀ o ∈ types, o.Indexed := by
    intro o ho
    obtain ⟨t, _, rfl⟩ := List.mem_map.mp ho
    intro m hm
    cases hm
  have hsingletons : ∀ o ∈ singletons, o.Indexed := by
    intro o ho m hm
    simp only [singletons, List.mem_cons, List.not_mem_nil, or_false] at ho
    rcases ho with rfl | rfl | rfl | rfl <;> cases hm
  have hempty : Heap.empty.Every Object.Indexed :=
    fun k o hget => by simp [Heap.get?, Heap.empty] at hget
  exact indexed_place hsingletons (wellFormed_place .empty types)
    (indexed_place htypes .empty hempty)

theorem indexed_heap : heap.Every Object.Indexed := by
  have hfurnish :
      ∀ (store : Heap) (owner : Handle) (name : String) (object : Object), object.Indexed →
      store.WellFormed ∧ store.Every Object.Indexed → (furnish store owner name object).WellFormed ∧
      (furnish store owner name object).Every Object.Indexed := by
    intro store owner name object ho hs
    exact ⟨(hs.1.allocate object).modify owner _,
      (hs.2.allocate hs.1 ho).modify owner fun o ho => ho⟩
  have hheap := heap_induction (P := fun store => store.WellFormed ∧ store.Every Object.Indexed)
    ⟨wellFormed_place (wellFormed_place .empty types) singletons, indexed_first⟩
    (fun store owner name text hs => hfurnish store owner name _ (.of_ne nofun) hs)
    (fun store owner name label code hs => hfurnish store owner name _ (.of_ne nofun) hs)
    fun store label code hs => ⟨hs.1.allocate _, hs.2.allocate hs.1 (.of_ne nofun)⟩
  exact hheap.2.2

end Bootstrap

/-- **In every state of a session, mappings find their entries by their keys.** -/
theorem State.ReachableBy.indexed {admits : Entry → Prop} {s : State} (h : s.ReachableBy admits) :
    s.heap.Every Object.Indexed :=
  Object.lasting_indexed.reachable Bootstrap.indexed_heap (fun hf => hf.indexed) h

/-! ## 4. What changes the entries -/

/-- The entry of the log is a write to the mapping `h`. -/
def Entry.Writes (h : Handle) (x : Entry) : Prop :=
  match x.event with
  | .performed (.setEntry k _ _) _ _ => k = h
  | .performed (.eraseEntry k _) _ _ => k = h
  | _ => False

/-- **As long as it is there, the mapping `h` has these entries.** The handle was given out, so it
will not be another object's. -/
structure State.Maps (s : State) (h : Handle) (m : OrderedMap Handle) : Prop where
  wellFormed : s.heap.WellFormed
  taken : s.heap.Taken h
  payload : ∀ {o : Object}, s.heap.get? h = some o → o.payload = .dict m

namespace State.Maps

variable {s t : State} {h k : Handle} {m : OrderedMap Handle}

theorem of_dictOf (hr : s.Regular) (hd : s.heap.DictOf h m) : s.Maps h m := by
  obtain ⟨o, hget, hp⟩ := hd
  refine ⟨hr.heap, hr.heap.taken (Heap.contains_of_get? hget), fun hget' => ?_⟩
  cases hget.symm.trans hget'
  exact hp

theorem dictOf (hm : s.Maps h m) (hl : s.Live h) : s.heap.DictOf h m := by
  obtain ⟨o, hget⟩ := Heap.contains_iff.mp hl
  exact ⟨o, hget, hm.payload hget⟩

theorem of_heap_eq (hm : s.Maps h m) (he : t.heap = s.heap) : t.Maps h m :=
  ⟨he ▸ hm.wellFormed, he ▸ hm.taken, fun hget => hm.payload (he ▸ hget)⟩

theorem allocate (hm : s.Maps h m) (object : Object) : (s.allocate object).2.Maps h m where
  wellFormed := hm.wellFormed.allocate object
  taken := hm.taken.allocate object
  payload hget := by
    rcases Heap.get?_allocate_cases hm.wellFormed hget with ⟨he, _⟩ | hold
    · exact absurd he (hm.taken.ne_allocate hm.wellFormed object)
    · exact hm.payload hold

/-- A change that leaves the payloads of mappings alone, or is made to another object. -/
theorem modify (hm : s.Maps h m) {change : Object → Object}
    (hc : k ≠ h ∨ ∀ o : Object, o.payload = .dict m → (change o).payload = .dict m) :
    (s.modify k change).Maps h m where
  wellFormed := hm.wellFormed.modify k change
  taken := hm.taken.modify k change
  payload := by
    intro o hget
    rw [State.modify, Heap.get?_modify] at hget
    split at hget
    · rename_i he
      obtain ⟨o', ho', rfl⟩ := Option.map_eq_some_iff.mp hget
      exact hc.resolve_left (fun hne => hne he.symm) o' (hm.payload (he ▸ ho'))
    · exact hm.payload hget

theorem setGenerator (hm : s.Maps h m) (g : Handle) (x : Generator) :
    (s.setGenerator g x).Maps h m := by
  refine hm.modify (Or.inr fun o hp => ?_)
  simp only [hp]

theorem perform {β : Type} {a : Action β} {e : Engine} {w : List Handle} (hm : s.Maps h m)
    (ha : a.isPrimitive = true) (hx : ¬ Entry.Writes h ⟨w, .performed a s (a.perform e s)⟩) :
    (a.perform e s).state.Maps h m := by
  cases a.deed_of_perform e s ha with
  | same he => exact hm.of_heap_eq he
  | allocate object he => exact (hm.allocate object).of_heap_eq he
  | setAttribute _ _ _ he | eraseAttribute _ _ he =>
    refine of_heap_eq ?_ he
    exact hm.modify (Or.inr fun o hp => hp)
  | setEntry _ _ _ he | eraseEntry _ _ he =>
    refine of_heap_eq ?_ he
    exact hm.modify (Or.inl hx)
  | collect extra _ he =>
    exact ⟨he ▸ hm.wellFormed.collect _, he ▸ hm.taken.sweep _,
      fun hget => hm.payload (Heap.get?_of_collect (he ▸ hget)).1⟩

end State.Maps

theorem Passage.maps {h : Handle} {m : OrderedMap Handle} {w : List Handle} {s t : State}
    {l : List Entry} {finished : Bool} (hp : Passage w s l finished t) :
    s.Maps h m → (∀ x ∈ l, ¬ x.Writes h) → t.Maps h m := by
  induction hp with
  | idle | cut | refused | stale => exact fun hm _ => hm
  | append _ _ ih ih' =>
    intro hm hlog
    obtain ⟨hl, hl'⟩ := List.forall_mem_append.mp hlog
    exact ih' (ih hm hl) hl'
  | primitive a e s hp => exact fun hm hlog => hm.perform hp (hlog _ List.mem_cons_self)
  | called _ _ _ _ _ ih =>
    exact fun hm hlog => (ih (hm.of_heap_eq rfl) (List.forall_mem_append.mp hlog).1).of_heap_eq rfl
  | answered _ _ _ _ _ _ ih => exact fun hm hlog => ih hm (List.forall_mem_append.mp hlog).1
  | lost g _ _ _ _ _ ih =>
    exact fun hm hlog => (ih ((hm.setGenerator g .running).of_heap_eq rfl)
      (List.forall_mem_append.mp hlog).1).of_heap_eq rfl
  | resumed g _ t _ _ _ _ _ _ hsettle _ _ ih ih' =>
    intro hm hlog
    obtain ⟨hl, hl'⟩ := List.forall_mem_append.mp hlog
    have hcomputed := ih ((hm.setGenerator g .running).of_heap_eq rfl) hl
    obtain ⟨y, rfl⟩ := exists_settled hsettle
    exact ih' ((hcomputed.of_heap_eq (t := t.leave) rfl).setGenerator g y)
      (List.forall_mem_append.mp (List.forall_mem_cons.mp hl').2).1

/-- **Only a write to a mapping changes its entries**: whatever else is run, the mapping has the
entries that it had, or it was collected. -/
theorem State.dictOf_of_log {α : Type} {s : State} {h : Handle} {m : OrderedMap Handle}
    (p : Program α) (n : Nat) (hr : s.Regular) (hd : s.heap.DictOf h m)
    (hlog : ∀ x ∈ p.log n s, ¬ x.Writes h) (hl : (p.run (engine n) s).state.Live h) :
    (p.run (engine n) s).state.heap.DictOf h m :=
  ((Passage.of_run n [] p s).maps (.of_dictOf hr hd) hlog).dictOf hl

end ObjectModel
