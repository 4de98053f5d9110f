import ObjectModel.Proofs.Renaming.Similar

/-!
# Collections on one side

A collection that only one of two similar states goes through keeps them similar. The handles that
it frees are not related any longer; names may still mention them, and nobody may ask for numbers
from there on.

* `State.Similar.collect_left` -- **the state behind a collection is similar to a state that was
  similar to the one before**.
-/

namespace ObjectModel

/-! ## 1. What a collection frees -/

/-- The handles that were live before a collection and are not behind it. -/
def State.Frees (s : State) (extra : List Handle) (h : Handle) : Prop :=
  s.heap.contains h = true ∧ ¬ (s.collect extra).2.heap.contains h = true

namespace State

variable {s : State} {extra : List Handle} {h : Handle}

theorem collect_eq (hd : s.callDepth = 0) (extra : List Handle) :
    s.collect extra = (.ok (s.heap.collect (s.roots extra)).1,
      { s with heap := (s.heap.collect (s.roots extra)).2 }) := by
  unfold State.collect
  rw [if_neg (by omega)]

theorem frees_iff (hd : s.callDepth = 0) :
    s.Frees extra h ↔ s.heap.contains h = true ∧ ¬ s.heap.Leads (· ∈ s.roots extra) h := by
  unfold Frees
  rw [collect_eq hd, Heap.contains_collect]
  exact ⟨fun hf => ⟨hf.1, fun hl => hf.2 ⟨hf.1, hl⟩⟩, fun hf => ⟨hf.1, fun hk => hf.2 hk.2⟩⟩

theorem not_frees_of_leads (hd : s.callDepth = 0) (hl : s.heap.Leads (· ∈ s.roots extra) h) :
    ¬ s.Frees extra h :=
  fun hf => ((frees_iff hd).mp hf).2 hl

theorem mem_roots_known (s : State) (extra : List Handle) (hk : Known [] h) :
    h ∈ s.roots extra := by
  cases hk with
  | mem hm => exact absurd hm List.not_mem_nil
  | type t => exact mem_roots_builtin s extra t
  | _ => simp [roots]

theorem not_frees_known (hd : s.callDepth = 0) (hk : Known [] h) : ¬ s.Frees extra h :=
  not_frees_of_leads hd (.root (mem_roots_known s extra hk))

theorem not_frees_references (hd : s.callDepth = 0) (hf : ¬ s.Frees extra h) {o : Object}
    (hget : s.heap.get? h = some o) {r : Handle} (hr : r ∈ o.references) : ¬ s.Frees extra r := by
  have hleads : s.heap.Leads (· ∈ s.roots extra) h := by
    by_contra hnot
    exact hf ((frees_iff hd).mpr ⟨Heap.contains_of_get? hget, hnot⟩)
  exact not_frees_of_leads hd (.step hleads hget (Object.mem_references_iff.mp hr))

end State

/-! ## 2. The renaming and the mode behind a collection -/

/-- A renaming of only those handles of the first side that are kept. -/
def Renaming.keeping (ρ : Renaming) (kept : Handle → Prop)
    (hknown : ∀ {h : Handle}, Known [] h → kept h) : Renaming where
  rel a b := kept a ∧ ρ a b
  unique := ⟨fun _ _ _ h h' => ρ.unique.1 h.2 h'.2, fun _ _ _ h h' => ρ.unique.2 h.2 h'.2⟩
  fixed hk := ⟨hknown hk, ρ.fixed hk⟩

/-- More handles are dead, and nobody asks for numbers. -/
def Mode.losing (M : Mode) (lost : Handle → Prop) : Mode :=
  ⟨False, fun h => M.dead h ∨ lost h, fun h => h.elim⟩

/-- What is not related any longer is dead. -/
theorem Mode.Loose.keeping {M : Mode} {ρ : Renaming} {lost : Handle → Prop}
    {hknown : ∀ {h : Handle}, Known [] h → ¬ lost h} {a b : Handle} (h : M.Loose ρ a b) :
    (M.losing lost).Loose (ρ.keeping (fun h => ¬ lost h) hknown) a b := by
  by_cases ha : lost a
  · exact Or.inr (Or.inr ha)
  · exact h.elim (fun hab => Or.inl ⟨ha, hab⟩) fun hd => Or.inr (Or.inl hd)

/-! ## 3. Similar states -/

namespace State.Similar

variable {M : Mode} {ρ : Renaming} {s s' : State}

/-- The renaming behind a collection of the first side. -/
abbrev surviving (ρ : Renaming) {s : State} (hd : s.callDepth = 0) (extra : List Handle) :
    Renaming :=
  ρ.keeping (fun h => ¬ s.Frees extra h) (not_frees_known hd)

/-- States that are similar are so where more handles count as dead. -/
theorem losing (hs : s.Similar M ρ s') (lost : Handle → Prop) : s.Similar (M.losing lost) ρ s' :=
  { hs with
    heap :=
      { hs.heap with
        get? := fun hab => rel_mono (fun _ _ ho => ho.mono (fun _ _ h => h) fun _ _ h =>
            h.imp_right Or.inl) (hs.heap.get? hab) }
    shared := hs.shared.mono fun _ _ h => h.imp_right Or.inl
    same := fun hn => hn.elim
    complete := fun hn => hn.elim }

/-- **A collection on one side** takes nothing from the other that the first side can still name. -/
theorem collect_left (hs : s.Similar M ρ s') (hd : s.callDepth = 0) (extra : List Handle) :
    (s.collect extra).2.Similar (M.losing (s.Frees extra)) (surviving ρ hd extra) s' := by
  have hglobal : ∀ h ∈ s.globals.values, ¬ s.Frees extra h := fun h hm =>
    not_frees_of_leads hd
      (.root (List.mem_append_left _ (List.mem_append_left _ (List.mem_append_right _ hm))))
  have hpinned : ∀ p ∈ s.pins.counts, ¬ s.Frees extra p.1 := fun p hm =>
    not_frees_of_leads hd
      (.root (List.mem_append_left _ (List.mem_append_right _ (List.mem_map_of_mem hm))))
  have hcollect := collect_eq hd extra
  refine
    { heap := ?_
      globals := by rw [hcollect]; exact hs.globals.imp_of_mem fun a ha _ hab => ⟨hglobal a ha, hab⟩
      pins := by
        rw [hcollect]
        exact ((List.forall₂_and_left _ _).mpr ⟨hpinned, hs.pins⟩).imp fun _ _ hp =>
          ⟨⟨hp.1, hp.2.1⟩, hp.2.2⟩
      shared := by rw [hcollect]; exact hs.shared.mono fun _ _ hab => hab.keeping
      console := by rw [hcollect]; exact hs.console
      limits := by rw [hcollect]; exact hs.limits
      callDepth := by rw [hcollect]; exact hs.callDepth
      same := fun hn => hn.elim
      complete := fun hn => hn.elim }
  have hheap : (s.collect extra).2.heap = (s.heap.collect (s.roots extra)).2 := by rw [hcollect]
  rw [hheap]
  refine
    { left := hs.heap.left.collect _
      right := hs.heap.right
      grounded := hs.heap.grounded.collect _
      root := hs.heap.root.collect (.root (mem_roots_builtin s extra .object))
      taken_left := fun hab => (hs.heap.taken_left hab.2).sweep _
      taken_right := fun hab => hs.heap.taken_right hab.2
      get? := ?_ }
  rintro a b ⟨ha, hab⟩
  by_cases hlive : s.heap.contains a = true
  · -- the object is kept, with all that it refers to
    have hkept : (s.heap.collect (s.roots extra)).2.contains a = true := by
      rw [← hheap]
      by_contra hnot
      exact ha ⟨hlive, hnot⟩
    rw [Heap.get?_collect _ _ hkept]
    obtain ⟨o, hget⟩ := Heap.contains_iff.mp hlive
    obtain ⟨o', hget', ho⟩ := hs.heap.get?_left hab hget
    rw [hget, hget']
    exact .some (ho.imp_of_mem (fun _ _ hl => hl.keeping) fun r hr _ hab =>
      ⟨not_frees_references hd ha hget hr, hab⟩)
  · have hgone : ¬ (s.heap.collect (s.roots extra)).2.contains a = true :=
      fun hk => hlive ((Heap.contains_collect _ _ _).mp hk).1
    rw [Heap.not_contains_iff.mp hgone, (hs.heap.get?_none_iff hab).mp
      (Heap.not_contains_iff.mp hlive)]
    exact .none

end State.Similar

end ObjectModel
