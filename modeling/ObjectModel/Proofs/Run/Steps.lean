import Mathlib.Logic.Relation
import ObjectModel.Proofs.Heap.Identity
import ObjectModel.Proofs.Heap.Reachability
import ObjectModel.Proofs.Run.Log

/-!
# Steps of a state

Everything that a run does to a state is a chain of the steps that `State.Step` lists: the changes
of the primitive actions, the states that a generator is put in, and the ends of a call.

* `State.ReachableBy.regular` -- every state that a session passes through is regular.
-/

namespace ObjectModel

/-! ## 1. Steps -/

/-- What a primitive action does to a state, if anything. -/
inductive State.Change : State → State → Prop where
  | allocate (s : State) (object : Object) : Change s (s.allocate object).2
  | setAttribute (s : State) (h : Handle) (name : String) (value : Handle) :
      Change s (s.setAttribute h name value)
  | eraseAttribute (s : State) (h : Handle) (name : String) : Change s (s.eraseAttribute h name)
  | modifyEntries (s : State) (h : Handle) (change : OrderedMap Handle → OrderedMap Handle) :
      Change s (s.modifyEntries h change)
  | setGlobal (s : State) (name : String) (value : Handle) :
      Change s { s with globals := s.globals.insert name value }
  | setShared (s : State) (name : String) (value : Handle) :
      Change s { s with shared := s.shared.insert name value }
  | pin (s : State) (h : Handle) : Change s { s with pins := s.pins.pin h }
  | unpin (s : State) (h : Handle) : Change s { s with pins := s.pins.unpin h }
  | collect (s : State) (extra : List Handle) : Change s (s.collect extra).2
  | console (s : State) (console : Console) : Change s { s with console }

/-- One step of a run. -/
inductive State.Step : State → State → Prop where
  | change {s t : State} (h : s.Change t) : Step s t
  | setGenerator (s : State) (h : Handle) (g : Generator) : Step s (s.setGenerator h g)
  | enter (s : State) : Step s s.enter
  | leave (s : State) : Step s s.leave

/-- A chain of steps. -/
abbrev State.Steps : State → State → Prop := Relation.ReflTransGen State.Step

theorem State.Step.steps {s t : State} (h : s.Step t) : s.Steps t := .single h

theorem change_whenLive {s : State} (h : Handle) (change : State → State)
    (hc : s.Change (change s)) : Relation.ReflGen State.Change s (whenLive s h change).state := by
  unfold whenLive
  split
  · exact .single hc
  · exact .refl

/-- **A primitive action makes at most one change.** -/
theorem Action.change_of_perform {β : Type} (a : Action β) (e : Engine) (s : State)
    (hp : a.isPrimitive = true) : Relation.ReflGen State.Change s (a.perform e s).state := by
  cases a with
  | inspect look =>
    simp only [perform]
    split <;> exact .refl
  | allocate object => exact .single (.allocate s object)
  | setAttribute target name value =>
    exact change_whenLive target (fun s => s.setAttribute target name value)
      (.setAttribute s target name value)
  | eraseAttribute target name =>
    exact change_whenLive target (fun s => s.eraseAttribute target name)
      (.eraseAttribute s target name)
  | setEntry dict key value =>
    exact change_whenLive dict (fun s => s.modifyEntries dict fun entries =>
      entries.insert key value) (.modifyEntries s dict _)
  | eraseEntry dict key =>
    exact change_whenLive dict (fun s => s.modifyEntries dict fun entries => entries.erase key)
      (.modifyEntries s dict _)
  | setGlobal name value => exact .single (.setGlobal s name value)
  | setShared name value => exact .single (.setShared s name value)
  | pin h => exact .single (.pin s h)
  | unpin h => exact .single (.unpin s h)
  | collect extra => exact .single (.collect s extra)
  | handOver handles => exact .refl
  | write text =>
    simp only [perform, State.write]
    split
    · exact .single (.console s _)
    · exact .refl
  | flush =>
    simp only [perform, State.flush]
    split
    · exact .single (.console s _)
    · exact .refl
  | readLine =>
    simp only [perform, State.readLine]
    split <;> exact .single (.console s _)
  | call callee args => cases hp
  | advance generator => cases hp

/-- **What a primitive action does to the heap**: nothing, or what it says. -/
inductive Action.Deed : {β : Type} → Action β → State → State → Prop where
  | same {β : Type} {a : Action β} {s t : State} : t.heap = s.heap → Deed a s t
  | allocate {s t : State} (object : Object) : t.heap = (s.allocate object).2.heap →
      Deed (.allocate object) s t
  | setAttribute {s t : State} (target : Handle) (name : String) (value : Handle) :
      t.heap = (s.setAttribute target name value).heap → Deed (.setAttribute target name value) s t
  | eraseAttribute {s t : State} (target : Handle) (name : String) :
      t.heap = (s.eraseAttribute target name).heap → Deed (.eraseAttribute target name) s t
  | setEntry {s t : State} (dict : Handle) (key : String) (value : Handle) :
      t.heap = (s.modifyEntries dict fun entries => entries.insert key value).heap →
      Deed (.setEntry dict key value) s t
  | eraseEntry {s t : State} (dict : Handle) (key : String) : t.heap =
      (s.modifyEntries dict fun entries => entries.erase key).heap → Deed (.eraseEntry dict key) s t
  | collect {s t : State} (extra : List Handle) : s.callDepth = 0 →
      t.heap = (s.heap.collect (s.roots extra)).2 → Deed (.collect extra) s t

theorem Action.deed_whenLive {a : Action Unit} {s : State} (h : Handle) (change : State → State)
    (hd : a.Deed s (change s)) : a.Deed s (whenLive s h change).state := by
  unfold whenLive
  split
  · exact hd
  · exact .same rfl

theorem Action.deed_of_perform {β : Type} (a : Action β) (e : Engine) (s : State)
    (hp : a.isPrimitive = true) : a.Deed s (a.perform e s).state := by
  cases a with
  | inspect look =>
    simp only [perform]
    split <;> exact .same rfl
  | allocate object => exact .allocate object rfl
  | setAttribute target name value =>
    exact deed_whenLive target (fun s => s.setAttribute target name value)
      (.setAttribute target name value rfl)
  | eraseAttribute target name =>
    exact deed_whenLive target (fun s => s.eraseAttribute target name)
      (.eraseAttribute target name rfl)
  | setEntry dict key value =>
    exact deed_whenLive dict (fun s => s.modifyEntries dict fun entries => entries.insert key value)
      (.setEntry dict key value rfl)
  | eraseEntry dict key =>
    exact deed_whenLive dict (fun s => s.modifyEntries dict fun entries => entries.erase key)
      (.eraseEntry dict key rfl)
  | setGlobal | setShared | pin | unpin | handOver => exact .same rfl
  | collect extra =>
    simp only [perform, State.collect]
    split
    · exact .same rfl
    · rename_i hd
      exact .collect extra (Nat.eq_zero_of_not_pos hd) rfl
  | write text =>
    simp only [perform, State.write]
    split <;> exact .same rfl
  | flush =>
    simp only [perform, State.flush]
    split <;> exact .same rfl
  | readLine =>
    simp only [perform, State.readLine]
    split <;> exact .same rfl
  | call | advance => cases hp

theorem Action.steps_of_perform {β : Type} (a : Action β) (e : Engine) (s : State)
    (hp : a.isPrimitive = true) : s.Steps (a.perform e s).state := by
  rcases (Relation.reflGen_iff _ _ _).mp (a.change_of_perform e s hp) with he | hc
  · rw [he]
  · exact (State.Step.change hc).steps

/-- What a resumption leaves of its generator is put back by one step. -/
theorem step_settle {g : Handle} {r : Except Fault Resumed} {s u : State}
    {back : Except Fault Resumption} (h : settle g r s = .done back u) : s.Step u := by
  unfold settle at h
  split at h <;> cases h <;> exact .setGenerator s g _

theorem State.steps_running (s : State) (g : Handle) : s.Steps (s.setGenerator g .running).enter :=
  (State.Step.setGenerator s g .running).steps.tail (.enter _)

namespace Passage

variable {w : List Handle} {s t : State} {l : List Entry} {finished : Bool}

theorem steps (h : Passage w s l finished t) : s.Steps t := by
  induction h with
  | idle | cut | refused | stale => exact .refl
  | append _ _ ih ih' => exact ih.trans ih'
  | primitive a e s hp => exact a.steps_of_perform e s hp
  | called _ _ _ _ _ ih => exact ((State.Step.enter _).steps.trans ih).tail (.leave _)
  | answered _ _ _ _ _ _ ih => exact ih
  | lost g _ t _ _ _ ih => exact ((State.steps_running _ g).trans ih).tail (.leave t)
  | resumed g _ t _ _ _ _ _ _ hsettle _ _ ih ih' =>
    have hback := ((State.steps_running _ g).trans ih).tail (.leave t)
    exact (hback.tail (step_settle hsettle)).trans ih'

theorem steps_of_mem (h : Passage w s l finished t) :
    ∀ x ∈ l, s.Steps x.event.before ∧ s.Steps x.event.behind := by
  have hlater : ∀ {s t : State} {l : List Entry}, s.Steps t → (∀ x ∈ l, t.Steps x.event.before ∧
      t.Steps x.event.behind) → ∀ x ∈ l, s.Steps x.event.before ∧ s.Steps x.event.behind :=
    fun h hl x hx => ⟨h.trans (hl x hx).1, h.trans (hl x hx).2⟩
  induction h with
  | idle => exact List.forall_mem_nil _
  | append h _ ih ih' => exact List.forall_mem_append.mpr ⟨ih, hlater h.steps ih'⟩
  | primitive a e s hp => exact List.forall_mem_singleton.mpr ⟨.refl, a.steps_of_perform e s hp⟩
  | cut | refused | stale => exact List.forall_mem_singleton.mpr ⟨.refl, .refl⟩
  | called callee args r hl h ih =>
    have hend := (Passage.called callee args r hl h).steps
    refine List.forall_mem_append.mpr ⟨hlater (State.Step.enter _).steps ih,
      List.forall_mem_singleton.mpr ⟨.refl, ?_⟩⟩
    simpa [Event.behind] using hend
  | answered _ _ _ _ _ h ih =>
    exact List.forall_mem_append.mpr ⟨ih, List.forall_mem_singleton.mpr ⟨.refl, h.steps⟩⟩
  | @lost w s _ _ _ g reason t hget hc h ih =>
    have hin := s.steps_running g
    refine List.forall_mem_append.mpr ⟨hlater hin ih,
      List.forall_mem_cons.mpr ⟨⟨hin, hin.trans h.steps⟩, ?_⟩⟩
    exact List.forall_mem_singleton.mpr ⟨.refl, (Passage.lost g reason t hget hc h).steps⟩
  | @resumed w s _ _ _ _ g r t o hget hc h back u hsettle hrun h' ih ih' =>
    have hin := s.steps_running g
    have hsettled := ((hin.trans h.steps).tail (.leave t)).tail (step_settle hsettle)
    refine List.forall_mem_append.mpr ⟨hlater hin ih,
      List.forall_mem_cons.mpr ⟨⟨hin, hin.trans h.steps⟩, ?_⟩⟩
    exact List.forall_mem_append.mpr ⟨hlater hsettled ih',
      List.forall_mem_singleton.mpr ⟨.refl, hsettled.trans h'.steps⟩⟩

end Passage

/-- **A run passes through nothing but chains of steps.** -/
theorem State.steps_of_log {α : Type} (p : Program α) (n : Nat) (s : State) {x : Entry}
    (hx : x ∈ p.log n s) : s.Steps x.event.before ∧ s.Steps x.event.behind :=
  (Passage.of_run n [] p s).steps_of_mem x hx

theorem State.steps_of_run {α : Type} (p : Program α) (n : Nat) (s : State) :
    s.Steps (p.run (engine n) s).state :=
  (Passage.of_run n [] p s).steps

/-! ## 2. What a step does to the heap -/

namespace State

variable {s t : State} {h : Handle}

/-- Payloads of generators are not touched. -/
def KeepsGenerators (change : Object → Object) : Prop :=
  ∀ (o : Object) (g : Generator), o.payload = .generator g → (change o).payload = .generator g

theorem keepsGenerators_entries (change : OrderedMap Handle → OrderedMap Handle) :
    KeepsGenerators fun object =>
      match object.payload with
      | .dict entries => { object with payload := .dict (change entries) }
      | _ => object := by
  intro o g ho
  simp only [ho]

/-- **What a change does to the heap.** Objects are lost by a collection only, and only outside of
calls. -/
theorem Change.heap_cases (h : s.Change t) :
    t.heap = s.heap ∨ (∃ object, t.heap = (s.heap.allocate object).2) ∨
      (∃ h change, KeepsGenerators change ∧ t.heap = s.heap.modify h change) ∨
      (s.callDepth = 0 ∧ ∃ roots, t.heap = (s.heap.collect roots).2) := by
  cases h with
  | allocate object => exact Or.inr (Or.inl ⟨object, rfl⟩)
  | setAttribute h name value =>
    exact Or.inr (Or.inr (Or.inl
      ⟨h, fun o => { o with attributes := o.attributes.insert name value }, fun _ _ ho => ho, rfl⟩))
  | eraseAttribute h name =>
    exact Or.inr (Or.inr (Or.inl ⟨h, fun o => { o with attributes := o.attributes.erase name },
      fun _ _ ho => ho, rfl⟩))
  | modifyEntries h change =>
    exact Or.inr (Or.inr (Or.inl ⟨h, _, keepsGenerators_entries change, rfl⟩))
  | setGlobal | setShared | pin | unpin | console => exact Or.inl rfl
  | collect extra =>
    unfold State.collect
    split
    · exact Or.inl rfl
    · rename_i hd
      exact Or.inr (Or.inr (Or.inr ⟨Nat.eq_zero_of_not_pos hd, _, rfl⟩))

theorem Change.callDepth_eq (h : s.Change t) : t.callDepth = s.callDepth := by
  cases h with
  | collect extra =>
    unfold State.collect
    split <;> rfl
  | _ => rfl

theorem Step.wellFormed (h : s.Step t) (hs : s.heap.WellFormed) : t.heap.WellFormed := by
  cases h with
  | change h =>
    rcases h.heap_cases with he | ⟨object, he⟩ | ⟨k, change, _, he⟩ | ⟨_, roots, he⟩ <;> rw [he]
    · exact hs
    · exact hs.allocate object
    · exact hs.modify k change
    · exact hs.collect roots
  | setGenerator k g => exact hs.modify k _
  | enter => exact hs
  | leave => exact hs

theorem Steps.wellFormed (h : s.Steps t) (hs : s.heap.WellFormed) : t.heap.WellFormed := by
  induction h with
  | refl => exact hs
  | tail _ hstep ih => exact hstep.wellFormed ih

theorem Steps.taken (hsteps : s.Steps t) (h' : s.heap.Taken h) : t.heap.Taken h := by
  induction hsteps with
  | refl => exact h'
  | tail _ hstep ih =>
    cases hstep with
    | change hc =>
      rcases hc.heap_cases with he | ⟨object, he⟩ | ⟨k, change, _, he⟩ | ⟨_, roots, he⟩ <;> rw [he]
      · exact ih
      · exact ih.allocate object
      · exact ih.modify k change
      · exact ih.sweep _
    | setGenerator k g => exact ih.modify k _
    | enter => exact ih
    | leave => exact ih

theorem Steps.not_contains (hsteps : s.Steps t) (hw : s.heap.WellFormed) (ht : s.heap.Taken h)
    (hn : ¬ s.heap.contains h = true) : ¬ t.heap.contains h = true := by
  induction hsteps with
  | refl => exact hn
  | tail hsteps hstep ih =>
    cases hstep with
    | change hc =>
      rcases hc.heap_cases with he | ⟨object, he⟩ | ⟨k, change, _, he⟩ | ⟨_, roots, he⟩ <;> rw [he]
      · exact ih
      · have hw := Steps.wellFormed hsteps hw
        intro hl
        rcases (Heap.contains_allocate hw object h).mp hl with hnew | hl
        · exact (Steps.taken hsteps ht).ne_allocate hw object hnew
        · exact ih hl
      · rw [Heap.contains_modify]
        exact ih
      · exact fun hl => ih ((Heap.contains_collect _ roots h).mp hl).1
    | setGenerator k g => exact fun hl => ih ((Heap.contains_modify _ k _ h).symm.trans hl)
    | enter => exact ih
    | leave => exact ih

end State

/-! ## 3. Depth and outcomes -/

/-- There is room for one more call. -/
abbrev State.Room (s : State) : Prop := s.callDepth < s.limits.callDepth

section

variable {s : State} {callee : Handle} {args : List Handle} {n : Nat} (hd : s.Room)

include hd

theorem run_call_dispatch :
    (call callee args).run.run (engine (n + 1)) s
      = ((dispatch callee args).run.run (engine n) s.enter).onState State.leave := by
  refine (Program.run_act _ _ _).trans ?_
  change belowLimit ((dispatch callee args).run.run (engine n)) s = _
  rw [belowLimit, if_neg (Nat.not_le.mpr hd), nested_eq]

theorem run_call {f : Object} {label : String} {code : Code} (hget : s.heap.get? callee = some f)
    (hp : f.payload = .function label code) :
    (call callee args).run.run (engine (n + 1)) s
      = ((code.run args).run.run (engine n) s.enter).onState State.leave := by
  have hdispatch : (dispatch callee args).run.run (engine n) s.enter
      = (code.run args).run.run (engine n) s.enter := by
    refine (Run.run_inspect_bind (s := s.enter) hget).trans ?_
    rw [hp]
  rw [run_call_dispatch hd, hdispatch]

end

/-- Primitive actions are noted with their own outcomes, and calls at the depth limit as refused. -/
def Event.Truthful : Event → Prop
  | .performed (.call _ _) s o =>
    s.limits.callDepth ≤ s.callDepth →
      o = .done (.error (.callDepthExceeded s.limits.callDepth)) s ∨ o = .aborted .unfinished s
  | .performed a s o => a.isPrimitive = true → ∃ e, o = a.perform e s
  | .resumed _ _ _ _ => True

namespace Passage

variable {w : List Handle} {s t : State} {l : List Entry} {finished : Bool}

theorem callDepth_eq (h : Passage w s l finished t) : t.callDepth = s.callDepth := by
  induction h with
  | idle | cut | refused | stale => rfl
  | append _ _ ih ih' => exact ih'.trans ih
  | primitive a e s hp =>
    rcases (Relation.reflGen_iff _ _ _).mp (a.change_of_perform e s hp) with he | hc
    · rw [he]
    · exact hc.callDepth_eq
  | called _ _ _ _ _ ih => exact congrArg (· - 1) ih
  | answered _ _ _ _ _ _ ih => exact ih
  | lost _ _ _ _ _ _ ih => exact congrArg (· - 1) ih
  | resumed _ _ _ _ _ _ _ _ _ hsettle _ _ ih ih' =>
    obtain ⟨x, rfl⟩ := exists_settled hsettle
    exact ih'.trans (congrArg (· - 1) ih)

/-- Its entries are truthful and stand within the same generators or deeper. -/
theorem truthful (h : Passage w s l finished t) : ∀ x ∈ l, w ⊆ x.within ∧ x.event.Truthful := by
  have hinner : ∀ {g : Handle} {w : List Handle} {l : List Entry},
      (∀ x ∈ l, g :: w ⊆ x.within ∧ x.event.Truthful) → ∀ x ∈ l, w ⊆ x.within ∧ x.event.Truthful :=
    fun hl x hx => ⟨List.Subset.trans (List.subset_cons_self _ _) (hl x hx).1, (hl x hx).2⟩
  induction h with
  | idle => exact List.forall_mem_nil _
  | append _ _ ih ih' => exact List.forall_mem_append.mpr ⟨ih, ih'⟩
  | @primitive w _ a e _ hp =>
    refine List.forall_mem_singleton.mpr ⟨List.Subset.refl w, ?_⟩
    cases a with
    | call callee args => cases hp
    | _ => exact fun _ => ⟨e, rfl⟩
  | @cut w _ a _ ha =>
    refine List.forall_mem_singleton.mpr ⟨List.Subset.refl w, ?_⟩
    cases a with
    | call callee args => exact fun _ => Or.inr rfl
    | advance g => exact nofun
    | _ => cases ha
  | refused => exact List.forall_mem_singleton.mpr ⟨List.Subset.refl _, fun _ => Or.inl rfl⟩
  | called _ _ _ hl _ ih =>
    refine List.forall_mem_append.mpr
      ⟨ih, List.forall_mem_singleton.mpr ⟨List.Subset.refl _, fun hle => ?_⟩⟩
    exact absurd hle (Nat.not_le.mpr hl)
  | stale => exact List.forall_mem_singleton.mpr ⟨List.Subset.refl _, nofun⟩
  | answered _ _ _ _ _ _ ih =>
    exact List.forall_mem_append.mpr ⟨ih, List.forall_mem_singleton.mpr ⟨List.Subset.refl _, nofun⟩⟩
  | lost _ _ _ _ _ _ ih =>
    refine List.forall_mem_append.mpr
      ⟨hinner ih, List.forall_mem_cons.mpr ⟨⟨List.Subset.refl _, trivial⟩, ?_⟩⟩
    exact List.forall_mem_singleton.mpr ⟨List.Subset.refl _, nofun⟩
  | resumed _ _ _ _ _ _ _ _ _ _ _ _ ih ih' =>
    refine List.forall_mem_append.mpr
      ⟨hinner ih, List.forall_mem_cons.mpr ⟨⟨List.Subset.refl _, trivial⟩, ?_⟩⟩
    exact List.forall_mem_append.mpr
      ⟨ih', List.forall_mem_singleton.mpr ⟨List.Subset.refl _, nofun⟩⟩

end Passage

/-- **Every run ends as deep as it began**, whatever it ran and however it ended. -/
theorem Program.callDepth_run {α : Type} (p : Program α) (n : Nat) (s : State) :
    (p.run (engine n) s).state.callDepth = s.callDepth :=
  (Passage.of_run n [] p s).callDepth_eq

theorem State.steps_of_done {α : Type} {p : Program α} {n : Nat} {s t : State} {a : α}
    (hrun : p.run (engine n) s = .done a t) : s.Steps t := by
  have hsteps := State.steps_of_run p n s
  rwa [hrun] at hsteps

theorem State.depth_of_done {α : Type} {p : Program α} {n : Nat} {s t : State} {a : α}
    (hrun : p.run (engine n) s = .done a t) : t.callDepth = s.callDepth := by
  have hdepth := p.callDepth_run n s
  rwa [hrun] at hdepth

/-! ## 4. Regular states -/

/-- No pin has a count of zero. -/
def Pins.Positive (p : Pins) : Prop := ∀ x ∈ p.counts, 0 < x.2

namespace Pins

variable {p : Pins} {h : Handle}

theorem mem_addOne {counts : List (Handle × Nat)} {x : Handle × Nat} (hx : x ∈ addOne h counts) :
    0 < x.2 ∨ x ∈ counts := by
  induction counts with
  | nil =>
    obtain rfl := List.mem_singleton.mp hx
    exact Or.inl Nat.one_pos
  | cons first rest ih =>
    unfold addOne at hx
    split at hx
    · rcases List.mem_cons.mp hx with rfl | hx
      · exact Or.inl (Nat.succ_pos _)
      · exact Or.inr (List.mem_cons_of_mem _ hx)
    · rcases List.mem_cons.mp hx with rfl | hx
      · exact Or.inr List.mem_cons_self
      · exact (ih hx).imp_right (List.mem_cons_of_mem _)

theorem mem_removeOne {counts : List (Handle × Nat)} {x : Handle × Nat}
    (hx : x ∈ removeOne h counts) : 0 < x.2 ∨ x ∈ counts := by
  induction counts with
  | nil => exact absurd hx List.not_mem_nil
  | cons first rest ih =>
    unfold removeOne at hx
    split at hx
    · split at hx
      · exact Or.inr (List.mem_cons_of_mem _ hx)
      · rename_i hn
        rcases List.mem_cons.mp hx with rfl | hx
        · exact Or.inl (by simp only; omega)
        · exact Or.inr (List.mem_cons_of_mem _ hx)
    · rcases List.mem_cons.mp hx with rfl | hx
      · exact Or.inr List.mem_cons_self
      · exact (ih hx).imp_right (List.mem_cons_of_mem _)

theorem sublist_removeOne (h : Handle) (counts : List (Handle × Nat)) :
    ((removeOne h counts).map (·.1)).Sublist (counts.map (·.1)) := by
  induction counts with
  | nil => exact .slnil
  | cons first rest ih =>
    obtain ⟨other, n⟩ := first
    unfold removeOne
    split
    · split
      · exact List.sublist_cons_self _ _
      · exact List.Sublist.refl _
    · exact ih.cons_cons other

/-- **One more for `h`.** -/
theorem count_pin (p : Pins) (h k : Handle) :
    (p.pin h).count k = if k = h then p.count k + 1 else p.count k := by
  obtain ⟨counts⟩ := p
  unfold pin count
  induction counts with
  | nil =>
    by_cases hk : k = h
    · simp [addOne, hk]
    · simp [addOne, hk, List.lookup_cons, beq_eq_false_iff_ne.mpr hk]
  | cons first rest ih =>
    obtain ⟨other, n⟩ := first
    unfold addOne
    by_cases ho : other = h
    · subst ho
      by_cases hk : k = other
      · simp [hk]
      · simp [hk, List.lookup_cons, beq_eq_false_iff_ne.mpr hk]
    · rw [if_neg ho, List.lookup_cons, List.lookup_cons]
      by_cases hk : k = other
      · subst hk
        simp [ho]
      · rw [beq_eq_false_iff_ne.mpr hk]
        exact ih

theorem Positive.pin (hp : p.Positive) (h : Handle) : (p.pin h).Positive :=
  fun x hx => (mem_addOne hx).elim id (hp x)

theorem Positive.unpin (hp : p.Positive) (h : Handle) : (p.unpin h).Positive :=
  fun x hx => (mem_removeOne hx).elim id (hp x)

/-- The pinned handles are those with a count. -/
theorem Positive.mem_handles_iff (hp : p.Positive) : h ∈ p.handles ↔ 0 < p.count h := by
  obtain ⟨counts⟩ := p
  unfold handles count
  induction counts with
  | nil => simp
  | cons first rest ih =>
    have ih := ih fun x hx => hp x (List.mem_cons_of_mem _ hx)
    have hpos : 0 < first.2 := hp first List.mem_cons_self
    rw [List.map_cons, List.mem_cons, List.lookup_cons]
    by_cases he : h = first.1
    · simp [he, hpos]
    · have hb : (h == first.1) = false := beq_eq_false_iff_ne.mpr he
      simp only [he, false_or, hb]
      exact ih

end Pins

/-- What all states have in common that are reached by steps from the first one. -/
structure State.Regular (s : State) : Prop where
  heap : s.heap.WellFormed
  pins : s.pins.Positive

namespace State

variable {s t : State}

/-- **Every step keeps a state regular.** -/
theorem Regular.step (hs : s.Regular) (h : s.Step t) : t.Regular := by
  refine ⟨h.wellFormed hs.heap, ?_⟩
  cases h with
  | change h =>
    cases h with
    | pin h => exact hs.pins.pin h
    | unpin h => exact hs.pins.unpin h
    | collect extra =>
      unfold collect
      split <;> exact hs.pins
    | _ => exact hs.pins
  | setGenerator h g => exact hs.pins
  | enter => exact hs.pins
  | leave => exact hs.pins

theorem Regular.steps (hs : s.Regular) (h : s.Steps t) : t.Regular := by
  induction h with
  | refl => exact hs
  | tail _ hstep ih => exact ih.step hstep

end State

/-! ## 5. The first state -/

namespace Bootstrap

/-- **What holds of the first heap**: what holds of the types and the singletons and is kept where
texts and functions are added. -/
theorem heap_induction {P : Heap → Prop} (hbase : P (place singletons (place types .empty)))
    (htext : ∀ heap owner name text, P heap → P (furnish heap owner name (.ofText text))) (hcode :
      ∀ heap owner name label code, P heap → P (furnish heap owner name (.ofCode label code)))
    (hplace : ∀ heap label code, P heap → P (Heap.allocate heap (.ofCode label code)).2) :
    P furnished ∧ P heap := by
  have hnamed : P (nameTypes (place singletons (place types .empty))) :=
    List.foldlRecOn _ _ hbase fun heap hheap t _ => htext heap t.handle "__name__" t.name hheap
  have hfurnished : P furnished :=
    List.foldlRecOn _ _ hnamed fun heap hheap m _ =>
      hcode heap m.owner.handle m.name m.qualifiedName (.member m) hheap
  refine ⟨hfurnished, List.foldlRecOn _ _ hfurnished fun heap hheap object hobject => ?_⟩
  obtain ⟨f, _, rfl⟩ := List.mem_map.mp hobject
  exact hplace heap f.name (.builtin f) hheap

theorem wellFormed_place {heap : Heap} (hw : heap.WellFormed) (objects : List Object) :
    (place objects heap).WellFormed :=
  List.foldlRecOn _ _ hw fun _ hheap object _ => hheap.allocate object

theorem wellFormed_heap : heap.WellFormed :=
  (heap_induction (wellFormed_place (wellFormed_place .empty types) singletons)
    (fun _ owner _ _ hw => (hw.allocate _).modify owner _)
    (fun _ owner _ _ _ hw => (hw.allocate _).modify owner _) fun _ _ _ hw => hw.allocate _).2

end Bootstrap

namespace State

variable (limits : Limits) (console : Console)

theorem heap_initial : (State.initial limits console).heap = Bootstrap.heap := by
  unfold initial
  with_reducible rfl

theorem pins_initial : (State.initial limits console).pins = .empty := by
  unfold initial
  with_reducible rfl

theorem globals_initial : (State.initial limits console).globals = Bootstrap.globals := by
  unfold initial
  with_reducible rfl

theorem limits_initial : (State.initial limits console).limits = limits := by
  unfold initial
  with_reducible rfl

theorem callDepth_initial : (State.initial limits console).callDepth = 0 := by
  unfold initial
  with_reducible rfl

theorem room_initial {depth : Nat} (hd : depth ≤ limits.callDepth) :
    (State.initial limits console).callDepth + depth
      ≤ (State.initial limits console).limits.callDepth := by
  rw [callDepth_initial, limits_initial, Nat.zero_add]
  exact hd

theorem regular_initial : (State.initial limits console).Regular where
  heap := by
    rw [heap_initial]
    exact Bootstrap.wellFormed_heap
  pins := by
    rw [pins_initial]
    exact List.forall_mem_nil _

end State

/-! ## 6. Sessions -/

section

variable {admits : Entry → Prop} {limits : Limits} {console : Console} {frame : Script.Frame}
  {s : State}

theorem Session.Reaches.steps (h : Reaches admits limits console frame s) :
    (State.initial limits console).Steps s := by
  induction h with
  | start => exact .refl
  | @step frame _ s t n e outcome _ _ hrun ih =>
    exact ih.trans (State.steps_of_done hrun)

theorem State.ReachableBy.steps (h : s.ReachableBy admits) :
    ∃ limits console, (State.initial limits console).Steps s := by
  cases h with
  | between h => exact ⟨_, _, h.steps⟩
  | before h _ hx => exact ⟨_, _, h.steps.trans (State.steps_of_log _ _ _ hx).1⟩
  | behind h _ hx => exact ⟨_, _, h.steps.trans (State.steps_of_log _ _ _ hx).2⟩

/-- **Every state that a session passes through is regular.** -/
theorem State.ReachableBy.regular (h : s.ReachableBy admits) : s.Regular := by
  obtain ⟨limits, console, hsteps⟩ := h.steps
  exact (State.regular_initial limits console).steps hsteps

end

end ObjectModel
