import ObjectModel.OrderedMap

/-!
# Ordered mappings

* `OrderedMap.Coherent.get?_insert` -- what is found behind an insertion into a mapping whose parts
  agree.
-/

namespace ObjectModel.OrderedMap

variable {α : Type} {m : OrderedMap α} {key : String} {v x : α}

/-! ## 1. Values -/

theorem mem_values : v ∈ m.values ↔ ∃ key, (key, v) ∈ m.toList := by
  unfold values
  constructor
  · intro h
    obtain ⟨⟨key, v'⟩, hm, rfl⟩ := List.mem_map.mp h
    exact ⟨key, hm⟩
  · rintro ⟨key, hm⟩
    exact List.mem_map.mpr ⟨(key, v), hm, rfl⟩

@[simp] theorem values_empty : (empty : OrderedMap α).values = [] := rfl

theorem mem_values_of_get? (h : m.get? key = some v) : v ∈ m.values := by
  obtain ⟨position, _, entry, he, rfl⟩ : ∃ position, m.index[key]? = some position ∧
      ∃ entry, m.entries[position]? = some entry ∧ entry.2 = v := by
    simpa [get?, Option.bind_eq_some_iff] using h
  exact mem_values.mpr ⟨entry.1, Array.mem_toList_iff.mpr (Array.mem_of_getElem? he)⟩

theorem mem_values_insert (h : v ∈ (m.insert key x).values) : v = x ∨ v ∈ m.values := by
  obtain ⟨k, hk⟩ := mem_values.mp h
  unfold insert at hk
  split at hk
  · rename_i position _
    obtain ⟨i, hi⟩ := Array.mem_iff_getElem?.mp (Array.mem_toList_iff.mp hk)
    rw [Array.getElem?_modify] at hi
    split at hi
    · obtain ⟨entry, _, he⟩ := Option.map_eq_some_iff.mp hi
      exact Or.inl (congrArg Prod.snd he).symm
    · exact Or.inr (mem_values.mpr ⟨k, Array.mem_toList_iff.mpr (Array.mem_of_getElem? hi)⟩)
  · have hk : (k, v) ∈ m.entries.push (key, x) := Array.mem_toList_iff.mp hk
    rcases Array.mem_push.mp hk with hk | hk
    · exact Or.inr (mem_values.mpr ⟨k, Array.mem_toList_iff.mpr hk⟩)
    · exact Or.inl (congrArg Prod.snd hk)

theorem mem_values_erase (h : v ∈ (m.erase key).values) : v ∈ m.values := by
  obtain ⟨k, hk⟩ := mem_values.mp h
  unfold erase at hk
  split at hk
  · exact mem_values.mpr ⟨k, hk⟩
  · rename_i position _
    have hk : (k, v) ∈ m.entries.eraseIdxIfInBounds position := Array.mem_toList_iff.mp hk
    unfold Array.eraseIdxIfInBounds at hk
    split at hk
    · exact mem_values.mpr ⟨k, Array.mem_toList_iff.mpr (Array.mem_of_mem_eraseIdx hk)⟩
    · exact mem_values.mpr ⟨k, Array.mem_toList_iff.mpr hk⟩

theorem mem_values_ofList {pairs : List (String × α)} (h : v ∈ (ofList pairs).values) :
    v ∈ pairs.map (·.2) := by
  have hfold : ∀ (pairs : List (String × α)) (m : OrderedMap α), v ∈ (pairs.foldl
      (fun m pair => m.insert pair.1 pair.2) m).values → v ∈ m.values ∨ v ∈ pairs.map (·.2) := by
    intro pairs
    induction pairs with
    | nil => exact fun m h => Or.inl h
    | cons pair rest ih =>
      intro m h
      rcases ih _ h with h | h
      · rcases mem_values_insert h with rfl | h
        · exact Or.inr List.mem_cons_self
        · exact Or.inl h
      · exact Or.inr (List.mem_cons_of_mem _ h)
  exact (hfold pairs empty h).resolve_left List.not_mem_nil

/-! ## 2. Coherent mappings -/

namespace Coherent

theorem empty : (OrderedMap.empty : OrderedMap α).Coherent := by
  intro key i
  simp [OrderedMap.empty]

theorem lt_size (hm : m.Coherent) {i : Nat} (hi : m.index[key]? = some i) : i < m.entries.size := by
  obtain ⟨value, he⟩ := (hm key i).mp hi
  exact (Array.getElem?_eq_some_iff.mp he).1

theorem ne_of_unknown (hm : m.Coherent) (hk : m.index[key]? = none) {i : Nat} {value : α} :
    m.entries[i]? ≠ some (key, value) := by
  intro he
  have hi := (hm key i).mpr ⟨value, he⟩
  rw [hk] at hi
  cases hi

theorem insert (hm : m.Coherent) (key : String) (x : α) : (m.insert key x).Coherent := by
  intro other i
  unfold OrderedMap.insert
  cases hk : m.index[key]? with
  | some position =>
    simp only [Array.getElem?_modify]
    rw [hm other i]
    split
    · -- the key of the entry stays
      constructor
      · rintro ⟨value, he⟩
        exact ⟨x, by rw [he]; rfl⟩
      · rintro ⟨value, he⟩
        obtain ⟨⟨known, old⟩, hentry, hpair⟩ := Option.map_eq_some_iff.mp he
        cases hpair
        exact ⟨old, hentry⟩
    · rfl
  | none =>
    simp only [Std.TreeMap.getElem?_insert, Array.getElem?_push, Std.compare_eq_iff_eq]
    by_cases ho : key = other
    · subst ho
      rw [if_pos rfl]
      split
      · rename_i hi
        exact ⟨fun _ => ⟨x, rfl⟩, fun _ => by rw [hi]⟩
      · rename_i hi
        constructor
        · rintro ⟨⟩
          exact absurd rfl hi
        · rintro ⟨value, he⟩
          exact absurd he (hm.ne_of_unknown hk)
    · rw [if_neg ho]
      split
      · rename_i hi
        constructor
        · intro he
          exact absurd (hm.lt_size he) (by omega)
        · rintro ⟨value, he⟩
          exact absurd (congrArg Prod.fst (Option.some.inj he)) ho
      · exact hm other i

/-- **What is found behind an insertion.** -/
theorem get?_insert (hm : m.Coherent) (key other : String) (x : α) :
    (m.insert key x).get? other = if other = key then some x else m.get? other := by
  unfold OrderedMap.insert get?
  cases hk : m.index[key]? with
  | some position =>
    have hlt := hm.lt_size hk
    simp only [Array.getElem?_modify]
    by_cases ho : other = key
    · rw [if_pos ho, ho, hk]
      simp [hlt]
    · rw [if_neg ho]
      cases hp : m.index[other]? with
      | none => rfl
      | some i =>
        -- another key stands at another position
        have hne : position ≠ i := by
          rintro rfl
          obtain ⟨_, he⟩ := (hm key position).mp hk
          obtain ⟨_, he'⟩ := (hm other position).mp hp
          rw [he] at he'
          exact ho (congrArg Prod.fst (Option.some.inj he')).symm
        simp [hne]
  | none =>
    simp only [Std.TreeMap.getElem?_insert, Std.compare_eq_iff_eq]
    by_cases ho : other = key
    · rw [if_pos ho, if_pos ho.symm]
      simp
    · rw [if_neg ho, if_neg fun he => ho he.symm]
      cases hp : m.index[other]? with
      | none => rfl
      | some i =>
        have hlt := hm.lt_size hp
        simp [Array.getElem?_push, Nat.ne_of_lt hlt]

end Coherent

end ObjectModel.OrderedMap
