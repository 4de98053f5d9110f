import ObjectModel.Proofs.Renaming.Lockstep

/-!
# Primitive actions in lockstep

Each primitive action, given related handles on the two sides, keeps in lockstep.

* `lockstep_call`, `lockstep_advance` -- calls and requests, by the setting.
-/

namespace ObjectModel

open List (Forall₂)
open Run (Lockstep)

variable {α β : Type} {S : Setting} {ρ : Renaming} {R : Relation α} {T : Relation β}

/-! ## 1. Common relations -/

/-- The same data on both sides. -/
abbrev Same {α : Type} : Relation α := fun _ => Eq

/-- Nothing is known of an answer. -/
abbrev Any {α : Type} : Relation α := fun _ _ _ => True

/-- Related handles, one by one. -/
abbrev Each : Relation (List Handle) := fun ρ => Forall₂ ρ

theorem Run.Lockstep.bindSame {x y : Run α} {f g : α → Run β} (hx : Lockstep S ρ x y Same)
    (hf : ∀ σ, ρ ≤ σ → ∀ a, Lockstep S σ (f a) (g a) T) : Lockstep S ρ (x >>= f) (y >>= g) T := by
  refine hx.bind fun σ hσ a b hab => ?_
  cases hab
  exact hf σ hσ a

/-! ## 2. Looking at the state -/

theorem lockstep_inspect {look look' : State → Option β}
    (hlook : ∀ s s', s.Similar S.toMode ρ s' → Option.Rel (T ρ) (look s) (look' s')) :
    Lockstep S ρ (inspect look) (inspect look') T := by
  refine .act (.act rfl fun s s' hs _ => ?_)
  have h := hlook s s' hs
  simp only [Action.perform]
  generalize look s = x at h ⊢
  generalize look' s' = y at h ⊢
  cases h with
  | none => exact .aborted .stale (.refl ρ s s') hs
  | some hr => exact .done (.refl ρ s s') hs hr

theorem lockstep_inspectHeap {look look' : Heap → Option β} (hlook : ∀ heap heap',
      heap.Similar S.toMode ρ heap' → Option.Rel (T ρ) (look heap) (look' heap')) :
    Lockstep S ρ (inspectHeap look) (inspectHeap look') T :=
  lockstep_inspect fun s s' hs => hlook s.heap s'.heap hs.heap

theorem lockstep_read {look look' : Heap → Option β}
    (hlook : ∀ heap heap', heap.Similar S.toMode ρ heap' → look heap = look' heap') :
    Lockstep S ρ (inspectHeap look) (inspectHeap look') Same :=
  lockstep_inspectHeap fun heap heap' hs => rel_eq_iff.mpr (hlook heap heap' hs)

/-- Matching objects. -/
abbrev SameObject (M : Mode) : Relation Object := fun ρ => Object.Matches ρ (M.Loose ρ)

section

variable {h h' t t' : Handle} (hh : ρ h h')

include hh

theorem lockstep_object : Lockstep S ρ (object h) (object h') (SameObject S.toMode) :=
  lockstep_inspectHeap fun _ _ hs => hs.get? hh

end

/-! ## 3. Changing the state -/

/-- Actions whose states stay similar under the same renaming. -/
theorem agrees_done {M : Mode} {s s' t t' : State} {b b' : β} (ht : t.Similar M ρ t')
    (hr : T ρ b b') (hl : ∀ {h : Handle}, s.heap.Taken h → t.heap.Taken h)
    (hl' : ∀ {h : Handle}, s'.heap.Taken h → t'.heap.Taken h) :
    (Outcome.done b t).Agrees M T ρ s s' (.done b' t') :=
  .done (.same hl hl') ht hr

/-- Making matching objects. The base of a new type is a type. -/
theorem lockstepAt_allocate {o o' : Object} {s s' : State} (hs : s.Similar S.toMode ρ s')
    (ho : SameObject S.toMode ρ o o') (hbase : ∀ base, o.base = some base → s.heap.IsType base) :
    Run.LockstepAt S ρ s s' (allocate o) (allocate o') Renaming.rel :=
  Lockstep.actAt (Program.Lockstep.actAt rfl hs fun _ => .done (hs.grows_extended o o')
    (hs.allocate ho hbase) (hs.extended_self o o'))

theorem lockstep_allocate {o o' : Object} (ho : SameObject S.toMode ρ o o') (hb : o.base = none) :
    Lockstep S ρ (allocate o) (allocate o') Renaming.rel :=
  fun _ _ hs => lockstepAt_allocate hs ho fun _ h => absurd (hb.symm.trans h) (by simp)

/-- Making objects that have nothing to do with each other. -/
theorem lockstep_allocateApart {o o' : Object} (hn : ¬ S.numbers) (hb : o.base = none) :
    Lockstep S ρ (allocate o) (allocate o') Any := by
  refine .act (.act rfl fun s s' hs _ => ?_)
  have hbase : ∀ base, o.base = some base → s.heap.IsType base :=
    fun _ h => absurd (hb.symm.trans h) (by simp)
  exact agrees_done ((hs.allocate_left hn hbase).allocate_right hn o') trivial
    (fun ht => ht.allocate o) fun ht => ht.allocate o'

theorem agrees_whenLive {M : Mode} {s s' : State} {h h' : Handle}
    {f g : State → State} (hs : s.Similar M ρ s') (hh : ρ h h')
    (hc : (f s).Similar M ρ (g s')) (hl : ∀ {k : Handle}, s.heap.Taken k → (f s).heap.Taken k)
    (hl' : ∀ {k : Handle}, s'.heap.Taken k → (g s').heap.Taken k) :
    (whenLive s h f).Agrees M (fun _ _ _ => True) ρ s s' (whenLive s' h' g) := by
  unfold whenLive
  rw [hs.heap.contains_eq hh]
  split
  · exact agrees_done hc trivial hl hl'
  · exact .aborted .stale (.refl ρ s s') hs

section

variable {h h' v v' : Handle} (hh : ρ h h')

include hh

theorem lockstep_setAttribute (hv : ρ v v') (name : String) :
    Lockstep S ρ (setAttribute h name v) (setAttribute h' name v') Any :=
  .act (.act rfl fun _ _ hs _ =>
    agrees_whenLive (f := fun s => s.setAttribute h name v) (g := fun s => s.setAttribute h' name
      v') hs hh (hs.setAttribute hh hv name) (fun ht => ht.modify _ _) fun ht => ht.modify _ _)

theorem lockstep_eraseAttribute (name : String) :
    Lockstep S ρ (Run.act (.eraseAttribute h name)) (Run.act (.eraseAttribute h' name)) Any :=
  .act (.act rfl fun _ _ hs _ =>
    agrees_whenLive (f := fun s => s.eraseAttribute h name) (g := fun s => s.eraseAttribute h' name)
      hs hh (hs.eraseAttribute hh name) (fun ht => ht.modify _ _) fun ht => ht.modify _ _)

theorem lockstep_setEntry (hv : ρ v v') (key : String) :
    Lockstep S ρ (Run.act (.setEntry h key v)) (Run.act (.setEntry h' key v')) Any := by
  refine .act (.act rfl fun s s' hs _ => ?_)
  have hinsert : (s.modifyEntries h fun entries => entries.insert key v).Similar S.toMode ρ
      (s'.modifyEntries h' fun entries => entries.insert key v') :=
    hs.modifyEntries hh (fun m m' hm => hm.insert key hv) fun hn => by rw [hs.eq_of_numbers hn hv]
  exact agrees_whenLive (f := fun s => s.modifyEntries h _) (g := fun s => s.modifyEntries h' _) hs
    hh hinsert (fun ht => ht.modify _ _) fun ht => ht.modify _ _

theorem lockstep_eraseEntry (key : String) :
    Lockstep S ρ (Run.act (.eraseEntry h key)) (Run.act (.eraseEntry h' key)) Any := by
  refine .act (.act rfl fun s s' hs _ => ?_)
  have herase : (s.modifyEntries h fun entries => entries.erase key).Similar S.toMode ρ
      (s'.modifyEntries h' fun entries => entries.erase key) :=
    hs.modifyEntries hh (fun m m' hm => hm.erase key) fun _ => rfl
  exact agrees_whenLive (f := fun s => s.modifyEntries h _) (g := fun s => s.modifyEntries h' _) hs
    hh herase (fun ht => ht.modify _ _) fun ht => ht.modify _ _

theorem lockstep_setGlobal (name : String) :
    Lockstep S ρ (Run.act (.setGlobal name h)) (Run.act (.setGlobal name h')) Any :=
  .act (.act rfl fun _ _ hs _ => agrees_done (hs.setGlobal hh name) trivial id id)

theorem lockstep_pin : Lockstep S ρ (Run.act (.pin h)) (Run.act (.pin h')) Any :=
  .act (.act rfl fun _ _ hs _ => agrees_done (hs.pin hh) trivial id id)

theorem lockstep_unpin : Lockstep S ρ (Run.act (.unpin h)) (Run.act (.unpin h')) Any :=
  .act (.act rfl fun _ _ hs _ => agrees_done (hs.unpin hh) trivial id id)

end

/-- A name may be given to a dead handle. -/
theorem lockstep_setShared {v v' : Handle} (hv : S.Loose ρ v v') (name : String) :
    Lockstep S ρ (Run.act (.setShared name v)) (Run.act (.setShared name v')) Any :=
  .act (.act rfl fun _ _ hs _ => agrees_done (hs.setShared hv name) trivial id id)

/-- **What a script hands over is not dead.** -/
theorem lockstep_handOver (handles handles' : List Handle) :
    Lockstep S ρ (handOver handles) (handOver handles')
      (fun _ _ _ => ∀ h ∈ handles, ¬ S.dead h) := by
  refine .act (.act rfl fun s s' hs hadmits => ?_)
  refine agrees_done hs (fun h hm => ?_) id id
  rcases hadmits with hn | hd
  · exact S.exact hn h
  · exact hd h hm

/-! ## 4. The console -/

/-- Actions on the console, which is the same on both sides. -/
theorem lockstep_console {a : Action (Except Fault β)} {f : State → Except Fault β × State}
    (ha : a.isPrimitive = true) (hf : ∀ e s, a.perform e s = .done (f s).1 (f s).2)
    (hsame : ∀ s s' : State, s.console = s'.console → (f s).1 = (f s').1 ∧
      (∀ e, (f s).1 = .error e → e.exception = none) ∧ ∃ console, (f s).2 = { s with console } ∧
      (f s').2 = { s' with console }) : Lockstep S ρ (Run.ask a) (Run.ask a) Same := by
  refine Program.Lockstep.act ha fun s s' hs _ => ?_
  obtain ⟨heq, hfault, console, ht, ht'⟩ := hsame s s' hs.console
  rw [hf, hf, ht, ht']
  refine agrees_done (hs.setConsole console) ?_ id id
  rw [← heq]
  cases hr : (f s).1 with
  | ok b => exact .ok rfl
  | error e =>
    have hnone := hfault e hr
    cases e with
    | raised exception text => cases hnone
    | intrinsic cause => exact .error (.intrinsic cause)
    | callDepthExceeded limit => exact .error (.callDepthExceeded limit)
    | baseChainTooDeep name limit => exact .error (.baseChainTooDeep name limit)
    | console cause => exact .error (.console cause)

theorem lockstep_writeText (text : String) :
    Lockstep S ρ (writeText text) (writeText text) Same := by
  refine lockstep_console (f := fun s => s.write text) rfl (fun _ _ => rfl) fun s s' hc => ?_
  unfold State.write
  rw [hc]
  cases s'.console.write text with
  | ok console => exact ⟨rfl, fun _ h => (by cases h), console, rfl, rfl⟩
  | error cause => exact ⟨rfl, fun _ h => (by cases h; rfl), s'.console, by rw [← hc], rfl⟩

theorem lockstep_flushConsole : Lockstep S ρ flushConsole flushConsole Same := by
  refine lockstep_console (f := State.flush) rfl (fun _ _ => rfl) fun s s' hc => ?_
  unfold State.flush
  rw [hc]
  cases s'.console.flush with
  | ok console => exact ⟨rfl, fun _ h => (by cases h), console, rfl, rfl⟩
  | error cause => exact ⟨rfl, fun _ h => (by cases h; rfl), s'.console, by rw [← hc], rfl⟩

theorem lockstep_readLine : Lockstep S ρ readLine readLine Same := by
  refine lockstep_console (f := State.readLine) rfl (fun _ _ => rfl) fun s s' hc => ?_
  unfold State.readLine
  rw [hc]
  cases s'.console.readLine with
  | mk answer console =>
    cases answer with
    | ok line => exact ⟨rfl, fun _ h => (by cases h), console, rfl, rfl⟩
    | error cause => exact ⟨rfl, fun _ h => (by cases h; rfl), console, rfl, rfl⟩

/-! ## 5. Collections, calls and requests -/

/-- **Collections** succeed together. How much they freed is the same only where numbers may be
asked for. -/
theorem lockstep_collectGarbage {extra extra' : List Handle} (he : Forall₂ ρ extra extra') :
    Lockstep S ρ (collectGarbage extra) (collectGarbage extra')
      (fun _ n n' => S.numbers → n = n') := by
  refine Program.Lockstep.act rfl fun s s' hs _ => ?_
  have ht := hs.collect he
  have hl : ∀ (u : State) (l : List Handle) {h : Handle}, u.heap.Taken h →
      (u.collect l).2.heap.Taken h := by
    intro u l h hu
    unfold State.collect
    split
    · exact hu
    · exact hu.sweep _
  change (Outcome.done (s.collect extra).1 (s.collect extra).2).Agrees _ _ ρ s s'
    (.done (s'.collect extra').1 (s'.collect extra').2)
  refine agrees_done ht ?_ (hl s extra) (hl s' extra')
  have hsame : S.numbers → s = s' ∧ extra = extra' := by
    intro hn
    obtain ⟨hss, heq⟩ := hs.same hn
    exact ⟨hss, forall₂_eq he heq⟩
  unfold State.collect
  rw [← hs.callDepth]
  split
  · exact .error (.intrinsic .collectInsideCall)
  · refine .ok fun hn => ?_
    obtain ⟨rfl, rfl⟩ := hsame hn
    rfl

theorem lockstep_call {callee callee' : Handle} {args args' : List Handle} (hc : ρ callee callee')
    (ha : Forall₂ ρ args args') :
    Lockstep S ρ (call callee args) (call callee' args') Renaming.rel := by
  intro s s' hs hlog
  have hrecord : (call callee args).run.record S.engine S.recorder S.within s = _ :=
    Program.record_act _ s
  rw [hrecord] at hlog ⊢
  have hrun : ∀ (c : Handle) (l : List Handle) (u : State), (call c l).run.run S.engine u
      = S.engine.call c l u :=
    fun c l u => Program.run_act S.engine (.call c l) u
  rw [hrun, hrun]
  exact S.call_lockstep hc ha s s' hs hlog

theorem lockstep_advance {g g' : Handle} (hg : ρ g g') :
    Lockstep S ρ (advance g) (advance g') Renaming.rel := by
  intro s s' hs hlog
  have hrecord : (advance g).run.record S.engine S.recorder S.within s = _ := Program.record_act _ s
  rw [hrecord] at hlog ⊢
  have hrun : ∀ (g : Handle) (u : State), (advance g).run.run S.engine u = S.engine.advance g u :=
    fun g u => Program.run_act S.engine (.advance g) u
  rw [hrun, hrun]
  exact S.advance_lockstep hg s s' hs hlog

end ObjectModel
