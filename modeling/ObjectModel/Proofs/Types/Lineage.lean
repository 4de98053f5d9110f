import ObjectModel.Proofs.Heap.Lookup

/-!
# Lineages

A type and the types it derives from, one after another, up to a type without a base. The relation
says nothing about where the types stand in the heap: a type may stand below its base, because slots
are used again.

* `Heap.Lineage.transfer`, `Heap.Lineage.collect` -- what keeps a lineage.
-/

namespace ObjectModel.Heap

variable {heap heap' : Heap} {h k : Handle} {links links' : List Handle}

/-- `h` names a type. -/
def IsType (heap : Heap) (h : Handle) : Prop := ∃ o, heap.get? h = some o ∧ o.isType = true

instance : Decidable (heap.IsType h) :=
  inferInstanceAs (Decidable (∃ o ∈ heap.get? h, o.isType = true))

theorem IsType.live (ht : heap.IsType h) : heap.contains h = true := by
  obtain ⟨o, ho, _⟩ := ht
  exact contains_of_get? ho

theorem isType_iff :
    heap.IsType h ↔ ∃ o name base, heap.get? h = some o ∧ o.payload = .type name base := by
  constructor
  · rintro ⟨o, ho, ht⟩
    unfold Object.isType at ht
    split at ht
    · rename_i name base hp
      exact ⟨o, name, base, ho, hp⟩
    · cases ht
  · rintro ⟨o, name, base, ho, hp⟩
    refine ⟨o, ho, ?_⟩
    unfold Object.isType
    rw [hp]

/-! ## 1. The relation -/

/-- **The lineage of a type**: the type itself, then the lineage of its base if it has one. -/
inductive Lineage (heap : Heap) : Handle → List Handle → Prop where
  | root {h : Handle} {o : Object} {name : String} : heap.get? h = some o →
      o.payload = .type name none → Lineage heap h [h]
  | derived {h base : Handle} {o : Object} {name : String} {links : List Handle} :
      heap.get? h = some o → o.payload = .type name (some base) → Lineage heap base links →
      Lineage heap h (h :: links)

namespace Lineage

theorem isType (hl : heap.Lineage h links) : heap.IsType h := by
  cases hl with
  | root ho hp => exact isType_iff.mpr ⟨_, _, _, ho, hp⟩
  | derived ho hp _ => exact isType_iff.mpr ⟨_, _, _, ho, hp⟩

theorem eq_cons (hl : heap.Lineage h links) : ∃ rest, links = h :: rest := by
  cases hl with
  | root _ _ => exact ⟨[], rfl⟩
  | derived _ _ _ => exact ⟨_, rfl⟩

theorem walk (hl : heap.Lineage h links) : ∃ root, heap.Walk Object.base h (some root) links := by
  induction hl with
  | root ho hp => exact ⟨_, .arrived ho (by rw [Object.base, hp])⟩
  | derived ho hp _ ih =>
    obtain ⟨root, hw⟩ := ih
    exact ⟨root, .step ho (by rw [Object.base, hp]) hw⟩

theorem unique (hl : heap.Lineage h links) (hl' : heap.Lineage h links') : links = links' := by
  obtain ⟨_, hw⟩ := hl.walk
  obtain ⟨_, hw'⟩ := hl'.walk
  exact hw.unique hw'

/-- Every link has a lineage of its own, the rest of the whole. -/
theorem of_mem (hl : heap.Lineage h links) (hk : k ∈ links) :
    ∃ rest, heap.Lineage k rest ∧ rest <:+ links := by
  induction hl with
  | root ho hp =>
    rw [List.mem_singleton.mp hk]
    exact ⟨_, .root ho hp, List.suffix_rfl⟩
  | derived ho hp hb ih =>
    rcases List.mem_cons.mp hk with rfl | hk
    · exact ⟨_, .derived ho hp hb, List.suffix_rfl⟩
    · obtain ⟨rest, hrest, hs⟩ := ih hk
      exact ⟨rest, hrest, hs.trans (List.suffix_cons _ _)⟩

theorem isType_of_mem (hl : heap.Lineage h links) (hk : k ∈ links) : heap.IsType k := by
  obtain ⟨rest, hrest, _⟩ := hl.of_mem hk
  exact hrest.isType

/-- **The links are distinct.** -/
theorem nodup (hl : heap.Lineage h links) : links.Nodup := by
  obtain ⟨_, hw⟩ := hl.walk
  exact hw.nodup

theorem last_root (hl : heap.Lineage h links) :
    ∃ r o name, links.getLast? = some r ∧ heap.get? r = some o ∧ o.payload = .type name none := by
  induction hl with
  | root ho hp => exact ⟨_, _, _, rfl, ho, hp⟩
  | derived _ _ hb ih =>
    obtain ⟨r, o, name, hlast, hr, hp⟩ := ih
    obtain ⟨rest, rfl⟩ := hb.eq_cons
    exact ⟨r, o, name, by rw [List.getLast?_cons_cons]; exact hlast, hr, hp⟩

/-! ## 2. Walking along the bases -/

theorem chainFrom_eq (hl : heap.Lineage h links) {fuel : Nat} (hf : links.length ≤ fuel) :
    heap.chainFrom fuel h = some links := by
  induction hl generalizing fuel with
  | root ho hp =>
    cases fuel with
    | zero => exact absurd hf (Nat.not_succ_le_zero _)
    | succ fuel => simp [chainFrom, ho, Object.base, hp]
  | derived ho hp _ ih =>
    cases fuel with
    | zero => exact absurd hf (Nat.not_succ_le_zero _)
    | succ fuel => simp [chainFrom, ho, Object.base, hp, ih (Nat.le_of_succ_le_succ hf)]

/-- **The walk goes through the whole lineage.** -/
theorem chain_eq (hl : heap.Lineage h links) : heap.chain h = some links := by
  obtain ⟨_, hw⟩ := hl.walk
  exact hl.chainFrom_eq hw.length_le

theorem lookup_eq (hl : heap.Lineage h links) (name : String) :
    heap.lookup h name = some (heap.firstDefined links name) :=
  lookup_of_chain hl.chain_eq name

/-! ## 3. What keeps a lineage -/

/-- A lineage is kept where its links keep what they say about themselves. -/
theorem transfer (hl : heap.Lineage h links) (hk : ∀ k ∈ links, ∀ o, heap.get? k = some o →
      ∃ o', heap'.get? k = some o' ∧ o'.payload = o.payload) : heap'.Lineage h links := by
  induction hl with
  | root ho hp =>
    obtain ⟨o', ho', hp'⟩ := hk _ List.mem_cons_self _ ho
    exact .root ho' (hp'.trans hp)
  | derived ho hp _ ih =>
    obtain ⟨o', ho', hp'⟩ := hk _ List.mem_cons_self _ ho
    exact .derived ho' (hp'.trans hp) (ih fun k hm => hk k (List.mem_cons_of_mem _ hm))

theorem allocate (hl : heap.Lineage h links) (hw : heap.WellFormed) (object : Object) :
    (heap.allocate object).2.Lineage h links :=
  hl.transfer fun _ _ o ho => ⟨o, get?_allocate_of_live hw ho, rfl⟩

/-- A type that survives a collection keeps its lineage, because it refers to its base. -/
theorem collect (hl : heap.Lineage h links) {roots : List Handle}
    (hkept : (heap.collect roots).2.contains h = true) :
    (heap.collect roots).2.Lineage h links := by
  induction hl with
  | root ho hp => exact .root ((get?_collect _ _ hkept).trans ho) hp
  | derived ho hp hb ih =>
    refine .derived ((get?_collect _ _ hkept).trans ho) hp (ih ?_)
    refine (contains_collect _ _ _).mpr ⟨hb.isType.live, ?_⟩
    have hleads := ((contains_collect _ _ _).mp hkept).2
    refine .step hleads ho (.base ?_)
    unfold Object.base
    rw [hp]

end Lineage

end ObjectModel.Heap
