import ObjectModel.Proofs.Types.Permanence
import ObjectModel.Proofs.Types.WellTyped

/-!
# Payloads tell types and singletons

* `State.payloads_tell` -- **in every state of a session the payload of an object tells its type**,
  and `None`, `NotImplemented` and the truth values exist once each: to compare a handle with theirs
  is to ask for the payload.
-/

namespace ObjectModel

/-! ## 1. The singletons stay -/

/-- The singletons are where they were placed. -/
def Heap.Singles (heap : Heap) : Prop :=
  ∀ (p : Payload) (k : Handle), p.singleton? = some k → ∃ o, heap.get? k = some o ∧ o.payload = p

namespace Heap.Singles

variable {heap heap' : Heap}

theorem alike (hs : heap.Singles) (ha : heap.Alike heap') : heap'.Singles := by
  intro p k hk
  obtain ⟨o, hget, hp⟩ := hs p k hk
  obtain ⟨o', hget', hstage⟩ := ha.kept hget
  refine ⟨o', hget', ?_⟩
  rcases hstage.payload_cases with hp' | ⟨entries, _, hdict, _⟩ | ⟨g, _, hgenerator, _⟩
  · exact hp'.trans hp
  · rw [← hp, hdict] at hk
    cases hk
  · rw [← hp, hgenerator] at hk
    cases hk

theorem allocate (hs : heap.Singles) (hw : heap.WellFormed) (object : Object) :
    (heap.allocate object).2.Singles := by
  intro p k hk
  obtain ⟨o, hget, hp⟩ := hs p k hk
  exact ⟨o, get?_allocate_of_live hw hget, hp⟩

theorem collect (hs : heap.Singles) {roots : List Handle}
    (hr : ∀ (p : Payload) (k : Handle), p.singleton? = some k → k ∈ roots) :
    (heap.collect roots).2.Singles := by
  intro p k hk
  obtain ⟨o, hget, hp⟩ := hs p k hk
  have hlive := (contains_collect heap roots k).mpr ⟨contains_of_get? hget, .root (hr p k hk)⟩
  exact ⟨o, (get?_collect _ _ hlive).trans hget, hp⟩

end Heap.Singles

namespace State

variable {s t : State}

theorem mem_roots_singleton (s : State) (extra : List Handle) {p : Payload} {k : Handle}
    (h : p.singleton? = some k) : k ∈ s.roots extra := by
  have hk : k ∈ [Handle.none, .notImplemented, .true, .false] := by
    cases p with
    | none | notImplemented =>
      cases h
      decide
    | bool b =>
      cases h
      cases b <;> decide
    | _ => cases h
  unfold roots
  exact List.mem_append_left _
    (List.mem_append_left _ (List.mem_append_left _ (List.mem_append_right _ hk)))

/-- **No step takes a singleton away.** -/
theorem Step.singles (h : s.Step t) (hw : s.heap.WellFormed) (hs : s.heap.Singles) :
    t.heap.Singles := by
  rcases h.heap_stages with halike | ⟨object, he⟩ | ⟨extra, he⟩
  · exact hs.alike halike
  · rw [he]
    exact hs.allocate hw object
  · rw [he]
    exact hs.collect fun _ _ hk => s.mem_roots_singleton extra hk

theorem Steps.singles (h : s.Steps t) (hw : s.heap.WellFormed) (hs : s.heap.Singles) :
    t.heap.Singles := by
  induction h with
  | refl => exact hs
  | tail hsteps hstep ih => exact hstep.singles (Steps.wellFormed hsteps hw) ih

end State

/-! ## 2. Sessions -/

namespace Bootstrap

theorem singles_first : (place singletons (place types .empty)).Singles := by
  intro p k hk
  cases p with
  | none | notImplemented =>
    cases hk
    rw [holds_first.get?_eq]
    exact ⟨_, rfl, rfl⟩
  | bool b =>
    cases hk
    rw [holds_first.get?_eq]
    cases b <;> exact ⟨_, rfl, rfl⟩
  | _ => cases hk

theorem singles_heap : heap.Singles := by
  have hfurnish : ∀ (store : Heap) (owner : Handle) (name : String) (object : Object),
      store.WellFormed ∧ store.Singles → (furnish store owner name object).WellFormed ∧
      (furnish store owner name object).Singles := by
    rintro store owner name object ⟨hw, hs⟩
    exact ⟨(hw.allocate object).modify owner _,
      (hs.allocate hw object).alike (Heap.alike_modify _ owner fun _ => ⟨rfl, rfl⟩)⟩
  exact (heap_induction (P := fun store => store.WellFormed ∧ store.Singles)
    ⟨holds_first.packed.wellFormed, singles_first⟩ (fun store owner name text h => hfurnish store
    owner name _ h) (fun store owner name label code h => hfurnish store owner name _ h)
    fun _ _ _ h => ⟨h.1.allocate _, h.2.allocate h.1 _⟩).2.2

end Bootstrap

section

variable {admits : Entry → Prop} {s t : State}

theorem State.ReachableBy.singles (h : s.ReachableBy admits) : s.heap.Singles := by
  obtain ⟨limits, console, hsteps⟩ := h.steps
  refine hsteps.singles (State.regular_initial limits console).heap ?_
  rw [State.heap_initial]
  exact Bootstrap.singles_heap

/-- Where the singletons are and nowhere else: the payload is known by the handle, and the handle by
the payload. -/
theorem Heap.Orderly.singleton_iff {heap : Heap} {bound : Nat} {x k : Handle} {o : Object}
    {p : Payload} (ho : heap.Orderly bound) (hs : heap.Singles) (hget : heap.get? x = some o)
    (hp : p.singleton? = some k) : x = k ↔ o.payload = p := by
  constructor
  · rintro rfl
    obtain ⟨o', hget', hpayload⟩ := hs p x hp
    cases hget.symm.trans hget'
    exact hpayload
  · intro hpayload
    exact ho.singleton hget (hpayload ▸ hp)

/-- A call leaves an orderly state with its singletons. -/
theorem State.orderly_of_call {callee : Handle} {args : List Handle} {n : Nat}
    {r : Except Fault Handle} (hs : s.Orderly) (hsingles : s.heap.Singles)
    (hrun : (call callee args).exec n s = .done r t) : t.Orderly ∧ t.heap.Singles := by
  have hbuilds : (call callee args).Builds := .ask rfl
  exact ⟨hbuilds.orderly_done hs hrun, (State.steps_of_done hrun).singles hs.regular.heap hsingles⟩

/-- **Payloads tell types and singletons**: in every state that a session passes through, each of
`None`, `NotImplemented`, `True` and `False` is there, and is the only object with its payload; the
payload of every other object that is neither plain nor a mapping tells its type. So to compare what
a hook returns with a singleton is to ask what payload it has. -/
theorem State.payloads_tell (h : s.Reachable) :
    (∀ x o, s.heap.get? x = some o →
      (x = .none ↔ o.payload = .none) ∧ (x = .notImplemented ↔ o.payload = .notImplemented) ∧
      (∀ b, x = .ofBool b ↔ o.payload = .bool b) ∧ ∀ t, o.payload.builtin? = some t →
      o.type = t.handle) ∧
    (∀ k ∈ [Handle.none, .notImplemented, .true, .false], s.heap.contains k = true) ∧
    (∀ hook args n answer t, (call hook args).exec n s = .done (.ok answer) t →
      ∀ o, t.heap.get? answer = some o →
      (answer = .none ↔ o.payload = .none) ∧
      (answer = .notImplemented ↔ o.payload = .notImplemented) ∧
      ∀ b, answer = .ofBool b ↔ o.payload = .bool b) := by
  have hs := h.orderly
  have hsingles := h.singles
  refine ⟨fun x o hget => ?_, fun k hk => ?_, fun hook args n answer t hrun o hget => ?_⟩
  · exact ⟨hs.heap.singleton_iff hsingles hget rfl, hs.heap.singleton_iff hsingles hget rfl,
      fun b => hs.heap.singleton_iff hsingles hget rfl, fun t ht => hs.heap.kind hget ht⟩
  · have hplaced : ∃ p : Payload, p.singleton? = some k := by
      simp only [List.mem_cons, List.not_mem_nil, or_false] at hk
      rcases hk with rfl | rfl | rfl | rfl
      · exact ⟨.none, rfl⟩
      · exact ⟨.notImplemented, rfl⟩
      · exact ⟨.bool true, rfl⟩
      · exact ⟨.bool false, rfl⟩
    obtain ⟨p, hp⟩ := hplaced
    obtain ⟨o, hget, _⟩ := hsingles p k hp
    exact Heap.contains_of_get? hget
  · obtain ⟨ht, htsingles⟩ := State.orderly_of_call hs hsingles hrun
    exact ⟨ht.heap.singleton_iff htsingles hget rfl, ht.heap.singleton_iff htsingles hget rfl,
      fun b => ht.heap.singleton_iff htsingles hget rfl⟩

end

theorem State.get?_made {s : State} (hw : s.heap.WellFormed) (object : Object) :
    (s.allocate object).2.heap.get? (s.allocate object).1 = some object :=
  Heap.get?_allocate_self hw object

/-- Behind the evaluation of a literal: its object is an `int` and no singleton. -/
theorem State.payloads_tell_literal :
    ∃ (s : State) (x : Handle) (o : Object), s.Reachable ∧ s.heap.get? x = some o ∧
      o.payload = .int 5 ∧
      o.type = BuiltinType.int.handle ∧ x ≠ .none ∧ x ≠ .notImplemented ∧ (∀ b, x ≠ .ofBool b) ∧
      s.heap.contains .none = true := by
  have hs : ((State.initial .standard (.ofLines [])).allocate (.ofInt 5)).2.Reachable :=
    .between (.step 0 (.int 5) _ .start (fun _ _ => trivial) (State.run_literal 5 0 _ _))
  have hget := State.get?_made (State.regular_initial .standard (.ofLines [])).heap (.ofInt 5)
  obtain ⟨htell, hthere, _⟩ := State.payloads_tell hs
  obtain ⟨hnone, hdeclined, hbool, htype⟩ := htell _ _ hget
  refine ⟨_, _, _, hs, hget, rfl, htype .int rfl, fun he => ?_, fun he => ?_, fun b he => ?_,
    hthere .none List.mem_cons_self⟩
  · cases hnone.mp he
  · cases hdeclined.mp he
  · cases (hbool b).mp he

end ObjectModel
