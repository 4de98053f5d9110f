import ObjectModel.Heap

/-!
# Marking

The objects that a list of roots leads to, found by a worklist. Marks are kept by slot.
-/

namespace ObjectModel.Heap

/-- Marking a slot leaves one slot less to be marked. -/
theorem count_marked_lt {marked : Array Bool} {i : Nat} (h : marked[i]? = some false) :
    (marked.setIfInBounds i true).count false < marked.count false := by
  obtain ⟨hi, he⟩ := Array.getElem?_eq_some_iff.mp h
  rw [Array.setIfInBounds_def, dif_pos hi, Array.count_set]
  have hpos : 0 < marked.count false := Array.count_pos_iff.mpr (he ▸ Array.getElem_mem hi)
  rw [if_pos (by rw [he]; rfl), if_neg (by decide)]
  omega

/-- Marks what the worklist leads to. A stale handle and one whose slot is marked are skipped; any
other has its slot marked and the references of its object put on the worklist. No slot is marked
twice, so the list runs out on cyclic objects too. -/
def markFrom (heap : Heap) (worklist : List Handle) (marked : Array Bool) : Array Bool :=
  match worklist with
  | [] => marked
  | h :: rest =>
    match heap.get? h with
    | none => heap.markFrom rest marked
    | some object =>
      if marked[h.slot]? = some false then
        heap.markFrom (object.references ++ rest) (marked.setIfInBounds h.slot true)
      else heap.markFrom rest marked
termination_by (marked.count false, worklist.length)
decreasing_by
  · exact Prod.Lex.right _ (Nat.lt_succ_self _)
  · exact Prod.Lex.left _ _ (count_marked_lt ‹_›)
  · exact Prod.Lex.right _ (Nat.lt_succ_self _)

/-- Marks for every slot, set for those reachable from `roots`. -/
def mark (heap : Heap) (roots : List Handle) : Array Bool :=
  heap.markFrom roots (Array.replicate heap.slots.size false)

/-- Frees every object that `roots` do not lead to; answers how many were freed. -/
def collect (heap : Heap) (roots : List Handle) : Nat × Heap := heap.sweep (heap.mark roots)

end ObjectModel.Heap
