import ObjectModel.Proofs.References.Session
import ObjectModel.Proofs.Types.Singletons

/-!
# Counted pins

A host pins and unpins handles, makes objects and collects, in any order and with any handles, stale
ones too.

* `Pinning.kept_after` -- **while its count is positive, an object stays** with all that it leads
  to.
-/

namespace ObjectModel

/-! ## 1. The table -/

namespace Pins

variable {p : Pins} {h k : Handle} {c : Nat}

/-- No handle is in the table twice. -/
def Distinct (p : Pins) : Prop := p.handles.Nodup

theorem mem_handles_addOne (counts : List (Handle × Nat)) (hk : k ∈ (addOne h counts).map (·.1)) :
    k = h ∨ k ∈ counts.map (·.1) := by
  induction counts with
  | nil => exact Or.inl (List.mem_singleton.mp hk)
  | cons first rest ih =>
    obtain ⟨other, n⟩ := first
    unfold addOne at hk
    split at hk
    · exact Or.inr hk
    · rcases List.mem_cons.mp hk with hk | hk
      · exact Or.inr (hk ▸ List.mem_cons_self)
      · exact (ih hk).imp_right (List.mem_cons_of_mem _)

theorem Distinct.pin (hd : p.Distinct) (h : Handle) : (p.pin h).Distinct := by
  obtain ⟨counts⟩ := p
  unfold Distinct handles Pins.pin at *
  induction counts with
  | nil => exact List.nodup_singleton h
  | cons first rest ih =>
    obtain ⟨other, n⟩ := first
    obtain ⟨hnot, hrest⟩ := List.nodup_cons.mp hd
    unfold addOne
    split
    · exact hd
    · rename_i hne
      refine List.nodup_cons.mpr ⟨fun hmem => ?_, ih hrest⟩
      exact (mem_handles_addOne rest hmem).elim hne hnot

theorem Distinct.unpin (hd : p.Distinct) (h : Handle) : (p.unpin h).Distinct :=
  (sublist_removeOne h p.counts).nodup hd

theorem lookup_eq_none {counts : List (Handle × Nat)} (hk : k ∉ counts.map (·.1)) :
    counts.lookup k = none := by
  refine List.lookup_eq_none_iff.mpr fun x hx => bne_iff_ne.mpr fun he => ?_
  exact hk (List.mem_map.mpr ⟨x, hx, he.symm⟩)

/-- **One less for `h`**, unless it has no count. A count that drops to zero leaves the table. -/
theorem Distinct.count_unpin (hd : p.Distinct) (h k : Handle) :
    (p.unpin h).count k = if k = h then p.count k - 1 else p.count k := by
  obtain ⟨counts⟩ := p
  unfold Distinct handles at hd
  unfold Pins.unpin count
  induction counts with
  | nil => simp [removeOne]
  | cons first rest ih =>
    obtain ⟨other, n⟩ := first
    obtain ⟨hnot, hrest⟩ := List.nodup_cons.mp hd
    unfold removeOne
    by_cases ho : other = h
    · subst ho
      rw [if_pos rfl]
      by_cases hk : k = other
      · subst hk
        rw [if_pos rfl, List.lookup_cons_self]
        split
        · rename_i hn
          rw [lookup_eq_none hnot]
          show 0 = n - 1
          omega
        · rw [List.lookup_cons_self]
          rfl
      · rw [if_neg hk]
        split
        · rw [List.lookup_cons, beq_eq_false_iff_ne.mpr hk]
        · rw [List.lookup_cons, List.lookup_cons, beq_eq_false_iff_ne.mpr hk]
    · rw [if_neg ho, List.lookup_cons, List.lookup_cons]
      by_cases hk : k = other
      · subst hk
        rw [beq_self_eq_true, if_neg ho]
      · rw [beq_eq_false_iff_ne.mpr hk]
        exact ih hrest

/-- **The table is told by the counts.** -/
theorem Distinct.mem_counts_iff (hd : p.Distinct) (hp : p.Positive) :
    (h, c) ∈ p.counts ↔ 0 < c ∧ c = p.count h := by
  obtain ⟨counts⟩ := p
  unfold Distinct handles at hd
  unfold count
  induction counts with
  | nil =>
    refine ⟨fun hmem => absurd hmem List.not_mem_nil, ?_⟩
    rintro ⟨hpos, rfl⟩
    exact absurd hpos (Nat.lt_irrefl 0)
  | cons first rest ih =>
    obtain ⟨other, n⟩ := first
    obtain ⟨hnot, hrest⟩ := List.nodup_cons.mp hd
    rw [List.mem_cons]
    by_cases hk : h = other
    · subst hk
      rw [List.lookup_cons_self]
      constructor
      · rintro (he | hmem)
        · cases he
          exact ⟨hp _ List.mem_cons_self, rfl⟩
        · exact absurd (List.mem_map.mpr ⟨_, hmem, rfl⟩) hnot
      · rintro ⟨_, rfl⟩
        exact Or.inl rfl
    · rw [List.lookup_cons, beq_eq_false_iff_ne.mpr hk]
      refine Iff.trans ⟨fun hmem => hmem.resolve_left fun he => hk (congrArg Prod.fst he),
        Or.inr⟩ ?_
      exact ih hrest fun x hx => hp x (List.mem_cons_of_mem _ hx)

end Pins

/-- **Every step keeps the table free of repetitions.** -/
theorem State.Step.distinct {s t : State} (h : s.Step t) (hd : s.pins.Distinct) :
    t.pins.Distinct := by
  cases h with
  | change h =>
    cases h with
    | pin h => exact hd.pin h
    | unpin h => exact hd.unpin h
    | collect extra =>
      unfold State.collect
      split <;> exact hd
    | _ => exact hd
  | setGenerator h g => exact hd
  | enter => exact hd
  | leave => exact hd

theorem State.Steps.distinct {s t : State} (h : s.Steps t) (hd : s.pins.Distinct) :
    t.pins.Distinct := by
  induction h with
  | refl => exact hd
  | tail _ hstep ih => exact hstep.distinct ih

theorem State.ReachableBy.distinct {admits : Entry → Prop} {s : State} (h : s.ReachableBy admits) :
    s.pins.Distinct := by
  obtain ⟨limits, console, hsteps⟩ := h.steps
  refine hsteps.distinct ?_
  rw [State.pins_initial]
  exact List.nodup_nil

/-! ## 2. What a host does -/

namespace Pinning

/-- Pinning and unpinning, making objects and collecting. -/
inductive HostAction where
  | pin (h : Handle)
  | unpin (h : Handle)
  | allocate (object : Object)
  | collect (extra : List Handle)

/-- The state behind an operation. -/
def HostAction.perform : HostAction → State → State
  | pin h, s => ((Action.pin h).perform (engine 0) s).state
  | unpin h, s => ((Action.unpin h).perform (engine 0) s).state
  | allocate object, s => ((Action.allocate object).perform (engine 0) s).state
  | collect extra, s => ((Action.collect extra).perform (engine 0) s).state

/-- The state behind a list of operations. -/
def after (s : State) (operations : List HostAction) : State :=
  operations.foldl (fun s o => o.perform s) s

/-- What an operation makes of the count of `h`. -/
def HostAction.counted (h : Handle) (count : Nat) : HostAction → Nat
  | pin k => if h = k then count + 1 else count
  | unpin k => if h = k then count - 1 else count
  | allocate _ => count
  | collect _ => count

/-- **The count of `h`** behind a list of operations, if it was `count` before: one more for each
`pin`, one less for each `unpin`, but never less than none. -/
def tally (h : Handle) (count : Nat) (operations : List HostAction) : Nat :=
  operations.foldl (HostAction.counted h) count

variable {s : State} {h k : Handle} {o : Object} {extra : List Handle}

theorem HostAction.step (a : HostAction) (s : State) : s.Step (a.perform s) := by
  cases a with
  | pin h => exact .change (.pin s h)
  | unpin h => exact .change (.unpin s h)
  | allocate object => exact .change (.allocate s object)
  | collect extra => exact .change (.collect s extra)

theorem steps_after (s : State) (operations : List HostAction) : s.Steps (after s operations) := by
  induction operations generalizing s with
  | nil => exact .refl
  | cons a rest ih => exact (a.step s).steps.trans (ih (a.perform s))

theorem after_append (s : State) (front back : List HostAction) :
    after s (front ++ back) = after (after s front) back :=
  List.foldl_append

theorem tally_append (h : Handle) (count : Nat) (front back : List HostAction) :
    tally h count (front ++ back) = tally h (tally h count front) back := List.foldl_append

/-- **One operation**: the table has what the operation makes of the count. -/
theorem HostAction.count_perform (hd : s.pins.Distinct) (a : HostAction) (h : Handle) :
    (a.perform s).pins.count h = a.counted h (s.pins.count h) := by
  cases a with
  | pin k => exact Pins.count_pin s.pins k h
  | unpin k => exact hd.count_unpin k h
  | allocate object => rfl
  | collect extra =>
    show (s.collect extra).2.pins.count h = s.pins.count h
    unfold State.collect
    split <;> rfl

theorem count_after (hd : s.pins.Distinct) (operations : List HostAction) (h : Handle) :
    (after s operations).pins.count h = tally h (s.pins.count h) operations := by
  induction operations generalizing s with
  | nil => rfl
  | cons a rest ih =>
    show (after (a.perform s) rest).pins.count h = tally h (a.counted h (s.pins.count h)) rest
    rw [ih ((a.step s).distinct hd), a.count_perform hd]

/-! ## 3. What pins keep -/

theorem callDepth_after (s : State) (operations : List HostAction) :
    (after s operations).callDepth = s.callDepth := by
  induction operations generalizing s with
  | nil => rfl
  | cons a rest ih =>
    refine (ih (a.perform s)).trans ?_
    cases a with
    | pin | unpin | allocate => rfl
    | collect extra => exact (State.Change.collect s extra).callDepth_eq

/-- **No operation loses an object that a pinned handle leads to.** -/
theorem HostAction.kept (hs : s.Regular) (hp : 0 < s.pins.count h) (hk : s.heap.Leads (· = h) k)
    (ho : s.heap.get? k = some o) (a : HostAction) : (a.perform s).heap.get? k = some o := by
  cases a with
  | pin | unpin => exact ho
  | allocate object => exact Heap.get?_allocate_of_live hs.heap ho
  | collect extra =>
    show (s.collect extra).2.heap.get? k = some o
    by_cases hd : s.callDepth = 0
    · obtain ⟨heq, hcollected⟩ := hs.collected hd extra
      have hlead : s.heap.Leads (s.IsRoot extra) k := hk.mono fun r hr => hr ▸ .pinned hp
      rw [heq]
      exact (hcollected.get?_eq k
        ((hcollected.live_iff k).mpr ⟨Heap.contains_of_get? ho, hlead⟩)).trans ho
    · unfold State.collect
      rw [if_pos (Nat.pos_of_ne_zero hd)]
      exact ho

/-- What `h` leads to, it leads to wherever the objects are kept that it leads to. -/
theorem leads_of_kept {heap heap' : Heap} (hkept : ∀ {k : Handle} {o : Object}, heap.Leads
      (· = h) k → heap.get? k = some o → heap'.get? k = some o) (hk : heap.Leads (· = h) k) :
    heap'.Leads (· = h) k := by
  induction hk with
  | root hr => exact .root hr
  | step hlead hget href ih => exact ih.step (hkept hlead hget) href

/-- **While its count is positive, an object stays**, and with it all that it leads to. -/
theorem kept_after (hs : s.Regular) (hd : s.pins.Distinct) (operations : List HostAction)
    (hp : ∀ front, front <+: operations → 0 < tally h (s.pins.count h) front)
    (hk : s.heap.Leads (· = h) k) (ho : s.heap.get? k = some o) :
    (after s operations).heap.get? k = some o := by
  induction operations generalizing s with
  | nil => exact ho
  | cons a rest ih =>
    have hnow : 0 < s.pins.count h := hp [] List.nil_prefix
    have hstep := a.step s
    refine ih (hs.step hstep) (hstep.distinct hd) (fun front hfront => ?_)
      (leads_of_kept (fun hl hget => a.kept hs hnow hl hget) hk) (a.kept hs hnow hk ho)
    rw [a.count_perform hd]
    exact hp (a :: front) (List.cons_prefix_cons.mpr ⟨rfl, hfront⟩)

/-! ## 4. What a collection leaves -/

/-- The roots if `pinned` are the pinned handles. -/
def Holds (s : State) (extra : List Handle) (pinned : Handle → Prop) (r : Handle) : Prop :=
  State.IsRoot { s with pins := .empty } extra r ∨ pinned r

theorem isRoot_iff : s.IsRoot extra k ↔ Holds s extra (fun r => 0 < s.pins.count r) k := by
  constructor
  · intro hr
    cases hr with
    | global hg => exact Or.inl (.global hg)
    | pinned hp => exact Or.inr hp
    | extra he => exact Or.inl (.extra he)
    | _ => exact Or.inl (by constructor)
  · rintro (hr | hp)
    · cases hr with
      | global hg => exact .global hg
      | pinned hp => exact absurd hp (Nat.lt_irrefl 0)
      | extra he => exact .extra he
      | _ => constructor
    · exact .pinned hp

/-- Only live roots lead to live handles. -/
theorem leads_live {heap : Heap} {root : Handle → Prop} (hk : heap.Leads root k)
    (hlive : heap.contains k = true) : heap.Leads (fun r => root r ∧ heap.contains r = true) k := by
  induction hk with
  | root hr => exact .root ⟨hr, hlive⟩
  | step _ hget href ih => exact (ih (Heap.contains_of_get? hget)).step hget href

/-- **What a collection leaves**: of the pins, only those of live handles keep anything. -/
theorem collected_iff (hs : s.Regular) (hd : s.callDepth = 0) (extra : List Handle)
    (hlive : s.heap.contains k = true) :
    (s.collect extra).2.heap.contains k = true ↔
      s.heap.Leads (Holds s extra fun r => 0 < s.pins.count r ∧ s.heap.contains r = true) k := by
  obtain ⟨heq, hcollected⟩ := hs.collected hd extra
  rw [heq]
  refine (hcollected.live_iff k).trans ⟨fun h => ?_, fun h => ⟨hlive, ?_⟩⟩
  · refine (leads_live h.2 hlive).mono fun r hr => ?_
    exact (isRoot_iff.mp hr.1).imp_right fun hp => ⟨hp, hr.2⟩
  · exact h.mono fun r hr => isRoot_iff.mpr (hr.imp_right And.left)

end Pinning

open Pinning in
/-- **Pins are counted.** Behind every list of operations, from any state of a session on:

* the table has each handle whose count is positive once, with its count, and nothing else; the
  first state has no counts;
* what a live handle leads to stays live and as it is for as long as the count of the handle stays
  positive;
* a live handle whose count is zero goes stale with the next collection exactly if the other roots
  do not lead to it, and the pins of stale handles are no roots, whoever is in their slots. -/
theorem State.pins_counted {s : State} (hs : s.Reachable) (operations : List HostAction) :
    (∀ limits console h, (State.initial limits console).pins.count h = 0) ∧
    ((after s operations).pins.handles.Nodup ∧
      ∀ h c, (h, c) ∈ (after s operations).pins.counts ↔
        0 < c ∧ c = tally h (s.pins.count h) operations) ∧
    (∀ h later, (∀ front, front <+: later → 0 < tally h (s.pins.count h) (operations ++ front)) →
      ∀ k o, (after s operations).heap.Leads (· = h) k → (after s operations).heap.get? k = some o →
        (after s (operations ++ later)).heap.get? k = some o) ∧
    (s.callDepth = 0 → ∀ extra h, (after s operations).heap.contains h = true →
      (tally h (s.pins.count h) operations = 0 →
        (((after s operations).collect extra).2.heap.contains h = false ↔
          ¬ (after s operations).heap.Leads
            (Holds (after s operations) extra fun r => r ≠ h ∧
              0 < tally r (s.pins.count r) operations) h)) ∧
      (((after s operations).collect extra).2.heap.contains h = true ↔
        (after s operations).heap.Leads (Holds (after s operations) extra fun r =>
          0 < tally r (s.pins.count r) operations ∧
            (after s operations).heap.contains r = true) h)) := by
  have hsteps := steps_after s operations
  have hregular := hs.regular.steps hsteps
  have hdistinct := hsteps.distinct hs.distinct
  have hcount := count_after hs.distinct operations
  refine ⟨fun limits console h => ?_, ⟨hdistinct, fun h c => ?_⟩, fun h later hp k o hk ho => ?_,
    fun hd extra h hlive => ?_⟩
  · rw [pins_initial]
    rfl
  · rw [← hcount]
    exact hdistinct.mem_counts_iff hregular.pins
  · rw [after_append]
    refine kept_after hregular hdistinct later (fun front hfront => ?_) hk ho
    rw [hcount, ← tally_append]
    exact hp front hfront
  · -- a handle that is not pinned does not count among the pinned roots
    have hleft := collected_iff hregular ((callDepth_after s operations).trans hd) extra hlive
    simp only [hcount] at hleft
    refine ⟨fun hzero => ?_, hleft⟩
    rw [← Bool.not_eq_true, hleft]
    refine not_congr ⟨fun hl => hl.mono fun r hr => ?_,
      fun hl => (leads_live hl hlive).mono fun r hr => ?_⟩
    · refine hr.imp_right fun hp => ⟨?_, hp.1⟩
      rintro rfl
      exact absurd hp.1 (hzero ▸ Nat.lt_irrefl 0)
    · exact hr.1.imp_right fun hp => ⟨hp.2, hr.2⟩

/-- Nothing leads to a new number. -/
theorem State.Sound.not_leads_made {s : State} (hs : s.Sound) (hw : s.heap.WellFormed) (n : Int64)
    {root : Handle → Prop} (hr : ∀ r, root r → s.Live r) :
    ¬ (s.allocate (.ofInt n)).2.heap.Leads root (s.allocate (.ofInt n)).1 := by
  have hnew : ¬ s.Live (s.allocate (.ofInt n)).1 :=
    Heap.not_contains_iff.mpr (Heap.get?_allocate_fresh hw (.ofInt n))
  have hled : ∀ k, (s.allocate (.ofInt n)).2.heap.Leads root k → s.Live k := by
    intro k hk
    induction hk with
    | root h => exact hr _ h
    | step _ hget href ih =>
      rcases Heap.get?_allocate_cases hw hget with ⟨rfl, _⟩ | hold
      · exact absurd ih hnew
      · exact hs.stored hold href
  exact fun h => hnew (hled _ h)

open Pinning in
/-- A number that was pinned twice: unpinned once it stays, unpinned twice it goes. -/
theorem State.pins_counted_twice :
    ∃ (s : State) (h : Handle), s.Reachable ∧ s.callDepth = 0 ∧
      (h, 2) ∈ (after s [.allocate (.ofInt 5), .pin h, .pin h]).pins.counts ∧
      (after s [.allocate (.ofInt 5), .pin h, .pin h, .unpin h, .collect []]).heap.get? h
        = some (.ofInt 5) ∧
      (after s [.allocate (.ofInt 5), .pin h, .pin h, .unpin h, .unpin h,
        .collect []]).heap.contains h = false := by
  have hs : (State.initial .standard (.ofLines [])).ReachableBy Entry.Careful := .between .start
  have hreach : (State.initial .standard (.ofLines [])).Reachable := .between .start
  have hd := State.callDepth_initial .standard (.ofLines [])
  have hempty := State.pins_initial .standard (.ofLines [])
  have hcounted := fun operations => State.pins_counted hreach operations
  generalize State.initial .standard (.ofLines []) = s at hs hreach hd hempty hcounted
  have hzero : ∀ h, s.pins.count h = 0 := fun h => by rw [hempty]; rfl
  have hw := hs.regular.heap
  obtain ⟨h, hh⟩ : ∃ h, (s.allocate (.ofInt 5)).1 = h := ⟨_, rfl⟩
  have hget : (s.allocate (.ofInt 5)).2.heap.get? h = some (.ofInt 5) :=
    hh ▸ State.get?_made hw (.ofInt 5)
  refine ⟨s, h, hreach, hd, ?_, ?_, ?_⟩
  · refine ((hcounted _).2.1.2 h 2).mpr ⟨Nat.two_pos, ?_⟩
    simp only [hzero, tally, List.foldl_cons, List.foldl_nil, HostAction.counted, if_pos]
  · refine (hcounted [.allocate (.ofInt 5), .pin h, .pin h]).2.2.1 h [.unpin h, .collect []]
      (fun front hfront => ?_) h _ (.root rfl) hget
    simp only [hzero, tally, List.cons_append, List.nil_append, List.foldl_cons,
      HostAction.counted, if_pos]
    rcases front with _ | ⟨first, front⟩
    · exact Nat.two_pos
    · obtain ⟨rfl, hrest⟩ := List.cons_prefix_cons.mp hfront
      rcases front with _ | ⟨second, front⟩
      · simp only [List.foldl_cons, List.foldl_nil, HostAction.counted, if_pos, Nat.add_sub_cancel,
          Nat.zero_lt_succ]
      · obtain ⟨rfl, hnil⟩ := List.cons_prefix_cons.mp hrest
        rw [List.prefix_nil.mp hnil]
        simp only [List.foldl_cons, List.foldl_nil, HostAction.counted, if_pos, Nat.add_sub_cancel,
          Nat.zero_lt_succ]
  · refine (((hcounted [.allocate (.ofInt 5), .pin h, .pin h, .unpin h, .unpin h]).2.2.2 hd [] h
      (Heap.contains_of_get? hget)).1 ?_).mpr ?_
    · simp only [hzero, tally, List.foldl_cons, List.foldl_nil, HostAction.counted, if_pos,
        Nat.add_sub_cancel]
    · rw [← hh]
      refine hs.intact.sound.not_leads_made hw 5 fun r hr => ?_
      rcases hr with hr | ⟨hne, hp⟩
      · exact hs.intact.sound.root (hr.congr rfl hempty.symm)
      · rw [hh] at hne hp
        simp only [hzero, tally, List.foldl_cons, List.foldl_nil, HostAction.counted,
          if_neg hne] at hp
        exact absurd hp (Nat.lt_irrefl 0)

end ObjectModel
