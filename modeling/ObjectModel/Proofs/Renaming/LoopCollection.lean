import ObjectModel.Proofs.Generators.Dealing
import ObjectModel.Proofs.Renaming.Transparency

/-!
# Collections inside a loop

A loop over an iterable keeps the iterator to itself: no collection that its body makes starts from
there. As long as the collections keep the iterator alive for another reason, the body is handed the
items that the iterable would have given without them.

* `forEach_amid_collections` -- **the body is handed the same items, as they were**.
-/

namespace ObjectModel

open List (Forall₂)

variable {α β : Type} {lost : Handle → Prop} {i i' : Handle} {past ρ σ : Renaming} {M : Mode}
  {s s' t t' : State}

/-! ## 1. Bodies and logs -/

/-- **A program that makes objects and collects, and then comes back.** The types it makes have no
base but `object`. -/
inductive Program.Churns : Program (Except Fault Unit) → Prop where
  | back : Churns (.pure (.ok ()))
  | allocate {object : Object} {next : Handle → Program (Except Fault Unit)} :
      (∀ base, object.base = some base → base = BuiltinType.object.handle) →
      (∀ h, Churns (next h)) → Churns (.perform (.allocate object) next)
  | collect {extra : List Handle} {next : Except Fault Nat → Program (Except Fault Unit)} :
      (∀ freed, Churns (next (.ok freed))) → Churns (.perform (.collect extra) next)

/-- What a collection of the log freed. -/
def Entry.Frees (x : Entry) (h : Handle) : Prop :=
  match x.event with
  | .performed (.collect extra) s _ => s.Frees extra h
  | _ => False

/-- What is demanded of the log of a loop over `i`: collections keep `i` alive, and no stale handle
is handed over. All that is freed counts as lost. -/
structure Entry.Fair (i : Handle) (lost : Handle → Prop) (x : Entry) : Prop where
  roots : x.Roots i
  discreet : x.Discreet fun h => ¬ x.event.before.Live h
  frees : ∀ h, x.Frees h → lost h

theorem Entry.Discreet.mono {dead dead' : Handle → Prop} {x : Entry} (hd : ∀ h, dead h → dead' h)
    (hx : x.Discreet dead') : x.Discreet dead := by
  unfold Entry.Discreet at hx ⊢
  split
  · rename_i action before _ he
    simp only [he] at hx
    cases action with
    | handOver handles => exact fun h hm hh => hx h hm (hd h hh)
    | _ => exact hx
  · rename_i he
    simp only [he] at hx
    exact hx

/-! ## 2. States side by side -/

/-- **The state of a loop beside the state of one that does not collect.** `past` relates whatever
was related at some time, also where it was freed since on the first side. -/
structure Abreast (lost : Handle → Prop) (i i' : Handle) (past : Renaming) (M : Mode) (ρ : Renaming)
    (s s' : State) : Prop where
  similar : s.Similar M ρ s'
  numbers : ¬ M.numbers
  regular : s.Regular
  depth : s.callDepth = 0
  iterator : ρ i i'
  dead : ∀ {h : Handle}, M.dead h → lost h ∧ s.heap.Taken h ∧ ¬ s.Live h
  le : ρ ≤ past
  left : ∀ {a b : Handle}, past a b → s.heap.Taken a
  right : ∀ {a b : Handle}, past a b → s'.heap.Taken b

/-- What was related before, and what is related now. -/
def Renaming.join (past σ : Renaming) (hleft : ∀ {a b c : Handle}, past a c → σ b c → a = b)
    (hright : ∀ {a b c : Handle}, past a b → σ a c → b = c) : Renaming where
  rel a b := past a b ∨ σ a b
  unique := by
    constructor
    · rintro a b c (hac | hac) (hbc | hbc)
      · exact past.unique.1 hac hbc
      · exact hleft hac hbc
      · exact (hleft hbc hac).symm
      · exact σ.unique.1 hac hbc
    · rintro a b c (hab | hab) (hac | hac)
      · exact past.unique.2 hab hac
      · exact hright hab hac
      · exact (hright hac hab).symm
      · exact σ.unique.2 hab hac
  fixed hk := Or.inl (past.fixed hk)

namespace Abreast

/-- Before the first round, both sides are the same state. -/
theorem same (hs : s.Similar .identical ρ s) (hr : s.Regular) (hd : s.callDepth = 0) (hi : ρ i i) :
    Abreast lost i i ρ (Mode.identical.losing fun _ => False) ρ s s where
  similar := hs.losing _
  numbers := id
  regular := hr
  depth := hd
  iterator := hi
  dead hh := hh.elim False.elim False.elim
  le := Renaming.le_refl ρ
  left := hs.heap.taken_left
  right := hs.heap.taken_right

/-- A step of the first side alone. -/
theorem step (ha : Abreast lost i i' past M ρ s s') (hstep : s.Step t) (hdepth : t.callDepth = 0)
    {N : Mode} (hs : t.Similar N σ s') (hn : ¬ N.numbers) (hi : σ i i') (hle : σ ≤ ρ)
    (hdead : ∀ {h : Handle}, N.dead h → M.dead h ∨ lost h ∧ s.Live h ∧ ¬ t.Live h) :
    Abreast lost i i' past N σ t s' where
  similar := hs
  numbers := hn
  regular := ha.regular.step hstep
  depth := hdepth
  iterator := hi
  dead hh := by
    rcases hdead hh with hh | ⟨hl, hlive, hgone⟩
    · obtain ⟨hl, ht, hgone⟩ := ha.dead hh
      exact ⟨hl, hstep.steps.taken ht, hstep.steps.not_contains ha.regular.heap ht hgone⟩
    · exact ⟨hl, hstep.steps.taken (ha.regular.heap.taken hlive), hgone⟩
  le := Renaming.le_trans hle ha.le
  left hab := hstep.steps.taken (ha.left hab)
  right := ha.right

theorem allocate (ha : Abreast lost i i' past M ρ s s') {object : Object}
    (ho : ∀ base, object.base = some base → base = BuiltinType.object.handle) :
    Abreast lost i i' past M ρ (s.allocate object).2 s' := by
  have hbase : ∀ base, object.base = some base → s.heap.IsType base := by
    intro base hb
    rw [ho base hb]
    exact ha.similar.heap.root
  exact ha.step (.change (.allocate s object)) ha.depth (ha.similar.allocate_left ha.numbers hbase)
    ha.numbers ha.iterator (Renaming.le_refl ρ) Or.inl

/-- A collection that keeps the iterator alive. -/
theorem collect (ha : Abreast lost i i' past M ρ s s') {extra : List Handle}
    (hi : s.heap.Leads (s.IsRoot extra) i) (hlost : ∀ h, s.Frees extra h → lost h) :
    Abreast lost i i' past (M.losing (s.Frees extra)) (State.Similar.surviving ρ ha.depth extra)
      (s.collect extra).2 s' := by
  have hkept : ¬ s.Frees extra i :=
    State.not_frees_of_leads ha.depth
      ((Heap.Leads.congr fun _ => State.mem_roots_iff ha.regular.pins).mpr hi)
  have hdepth : (s.collect extra).2.callDepth = 0 := by
    rw [State.collect_eq ha.depth]
    exact ha.depth
  refine ha.step (.change (.collect s extra)) hdepth (ha.similar.collect_left ha.depth extra) id
    ⟨hkept, ha.iterator⟩ (fun _ _ hab => hab.2) fun hh => hh.imp_right fun hf =>
    ⟨hlost _ hf, hf.1, hf.2⟩

/-- What both sides go through together. -/
theorem grow (ha : Abreast lost i i' past M ρ s s') (hg : ρ.Grows s s' σ t t')
    (ht : t.Similar M σ t') (hsteps : s.Steps t) (hdepth : t.callDepth = 0) :
    ∃ past', past.Grows s s' past' t t' ∧ σ ≤ past' ∧ Abreast lost i i' past' M σ t t' := by
  -- what is related now was related before, or it is new on both sides
  have hleft : ∀ {a b c : Handle}, past a c → σ b c → a = b := by
    intro a b c hac hbc
    rcases hg.fresh hbc with hbc | ⟨_, hc⟩
    · exact past.unique.1 hac (ha.le hbc)
    · exact absurd (ha.right hac) hc
  have hright : ∀ {a b c : Handle}, past a b → σ a c → b = c := by
    intro a b c hab hac
    rcases hg.fresh hac with hac | ⟨ha', _⟩
    · exact past.unique.2 hab (ha.le hac)
    · exact absurd (ha.left hab) ha'
  refine ⟨past.join σ hleft hright, ⟨fun _ _ hab => Or.inl hab, ?_, hg.left, hg.right⟩,
    fun _ _ hab => Or.inr hab, ?_⟩
  · rintro a b (hab | hab)
    · exact Or.inl hab
    · exact (hg.fresh hab).imp_left fun hab => ha.le hab
  · exact
      { similar := ht
        numbers := ha.numbers
        regular := ha.regular.steps hsteps
        depth := hdepth
        iterator := hg.le ha.iterator
        dead := fun hh =>
          have ⟨hl, htaken, hgone⟩ := ha.dead hh
          ⟨hl, hsteps.taken htaken, hsteps.not_contains ha.regular.heap htaken hgone⟩
        le := fun _ _ hab => Or.inr hab
        left := fun hab => hab.elim (fun hab => hg.left (ha.left hab)) fun hab =>
            ht.heap.taken_left hab
        right := fun hab => hab.elim (fun hab => hg.right (ha.right hab)) fun hab =>
            ht.heap.taken_right hab }

end Abreast

/-- **A body that churns keeps the states side by side**, by induction on what it does. -/
theorem Program.Churns.abreast {p : Program (Except Fault Unit)} (hp : p.Churns) {n : Nat}
    (ha : Abreast lost i i' past M ρ s s') (hlog : ∀ x ∈ p.log n s, x.Fair i lost) :
    ∃ t N σ, p.run (engine n) s = .done (.ok ()) t ∧ Abreast lost i i' past N σ t s' ∧
      s.Steps t := by
  induction hp generalizing M ρ s with
  | back => exact ⟨s, M, ρ, rfl, ha, .refl⟩
  | @allocate object next ho _ ih =>
    rw [log, record_perform] at hlog
    obtain ⟨t, N, σ, hrun, ht, hsteps⟩ :=
      ih (s.allocate object).1 (ha.allocate ho) fun x hx => hlog x (List.mem_append_right _ hx)
    exact ⟨t, N, σ, hrun, ht, (State.Step.change (.allocate s object)).steps.trans hsteps⟩
  | @collect extra next _ ih =>
    have hperform : Action.perform (engine n) (.collect extra) s
        = .done (.ok (s.heap.collect (s.roots extra)).1) (s.collect extra).2 := by
      simp only [Action.perform, State.collect_eq ha.depth]
    rw [log, record_perform, hperform] at hlog
    have hentry := hlog _ (List.mem_append_left _ (List.mem_append_right _ List.mem_cons_self))
    obtain ⟨t, N, σ, hrun, ht, hsteps⟩ := ih _ (ha.collect (hentry.roots ha.depth) hentry.frees)
        fun x hx => hlog x (List.mem_append_right _ hx)
    refine ⟨t, N, σ, ?_, ht, (State.Step.change (.collect s extra)).steps.trans hsteps⟩
    rw [run_perform, hperform]
    exact hrun

/-! ## 3. Programs side by side -/

/-- How two runs ended: with related answers in states side by side, or for the same reason. -/
inductive Outcome.Alongside (lost : Handle → Prop) (i i' : Handle) (R : Relation α)
    (past : Renaming) (s s' : State) : Outcome α → Outcome α → Prop where
  | done {past' ρ : Renaming} {M : Mode} {a a' : α} {t t' : State} : past.Grows s s' past' t t' →
      Abreast lost i i' past' M ρ t t' → R past' a a' →
      Alongside lost i i' R past s s' (.done a t) (.done a' t')
  | aborted (reason : Abort) (t t' : State) :
      Alongside lost i i' R past s s' (.aborted reason t) (.aborted reason t')

/-- What two runs did from later states on, they did behind earlier ones. -/
theorem Outcome.Alongside.behind {R : Relation α} {past' : Renaming} {o o' : Outcome α}
    (hg : past.Grows s s' past' t t') (ho : o.Alongside lost i i' R past' t t' o') :
    o.Alongside lost i i' R past s s' o' := by
  cases ho with
  | done hg' ha hr => exact .done (hg.trans hg') ha hr
  | aborted reason t t' => exact .aborted reason t t'

/-- **Programs that go on side by side**, if the log of the first one is fair. -/
def Program.Alongside (n : Nat) (lost : Handle → Prop) (i i' : Handle) (past : Renaming)
    (s s' : State) (p q : Program α) (R : Relation α) : Prop :=
  (∀ x ∈ p.log n s, x.Fair i lost) →
    (p.run (engine n) s).Alongside lost i i' R past s s' (q.run (engine n) s')

namespace Program.Alongside

variable {n : Nat} {p q : Program α} {R : Relation α} {T : Relation β}

theorem pure {a a' : α} (ha : Abreast lost i i' past M ρ s s') (hr : R past a a') :
    Alongside n lost i i' past s s' (Pure.pure a) (Pure.pure a') R :=
  fun _ => .done (.refl past s s') ha hr

theorem bind {f g : α → Program β} (hx : Alongside n lost i i' past s s' p q R)
    (hf : ∀ past' ρ M a a' t t', past ≤ past' → Abreast lost i i' past' M ρ t t' → R past' a a' →
      Alongside n lost i i' past' t t' (f a) (g a') T) :
    Alongside n lost i i' past s s' (p >>= f) (q >>= g) T := by
  intro hlog
  have hl : (p >>= f).log n s = _ := record_bind p f s
  rw [hl] at hlog
  have ho := hx fun x hm => hlog x (List.mem_append_left _ hm)
  have hafter := fun x hm => hlog x (List.mem_append_right _ hm)
  rw [run_bind, run_bind]
  generalize p.run (engine n) s = o at ho hafter ⊢
  generalize q.run (engine n) s' = o' at ho ⊢
  cases ho with
  | done hg ha hr => exact (hf _ _ _ _ _ _ _ hg.le ha hr hafter).behind hg
  | aborted reason t t' => exact .aborted reason t t'

/-- **Loops whose rounds go on side by side**, by induction on the rounds. -/
theorem loop {ι : Type} {J : Relation ι} {acc acc' : ι} {body body' : ι → Program (ι ⊕ β)}
    (ha : Abreast lost i i' past M ρ s s') (hJ : J past acc acc')
    (hbody : ∀ past ρ M acc acc' s s', Abreast lost i i' past M ρ s s' → J past acc acc' →
      Alongside n lost i i' past s s' (body acc) (body' acc') (Turn J T)) :
    Alongside n lost i i' past s s' (Program.loop acc body) (Program.loop acc' body') T := by
  -- the renaming of the past grows with every round, so the induction is for all of them
  have hrounds : ∀ (rounds : Nat) (acc acc' : ι) (past ρ : Renaming) (M : Mode) (s s' : State),
      Abreast lost i i' past M ρ s s' → J past acc acc' →
      (∀ x ∈ recordUntil (fun acc s => (body acc).run (engine n) s)
      (fun acc s => (body acc).log n s) rounds acc s, x.Fair i lost) → (repeatUntil
      (fun acc s => (body acc).run (engine n) s) rounds acc s).Alongside lost i i' T past s s'
        (repeatUntil (fun acc s => (body' acc).run (engine n) s) rounds acc' s') := by
    intro rounds
    induction rounds with
    | zero => exact fun _ _ _ _ _ s s' _ _ _ => .aborted .unfinished s s'
    | succ rounds ih =>
      intro acc acc' past ρ M s s' ha hJ hlog
      rw [recordUntil_succ] at hlog
      rw [repeatUntil_succ, repeatUntil_succ]
      have ho := hbody past ρ M acc acc' s s' ha hJ fun x hm => hlog x (List.mem_append_left _ hm)
      have hafter := fun x hm => hlog x (List.mem_append_right _ hm)
      dsimp only at hafter ⊢
      generalize (body acc).run (engine n) s = o at ho hafter ⊢
      generalize (body' acc').run (engine n) s' = o' at ho ⊢
      cases ho with
      | aborted reason t t' => exact .aborted reason t t'
      | done hg ha hr =>
        cases hr with
        | again hJ => exact (ih _ _ _ _ _ _ _ ha hJ hafter).behind hg
        | ended hT => exact .done hg ha hT
  intro hlog
  unfold Program.loop at hlog ⊢
  rw [log, record_iterate] at hlog
  rw [run_iterate, run_iterate]
  have ho := hrounds (engine n).rounds acc acc' past ρ M s s' ha hJ fun x hm =>
      hlog x (List.mem_append_left _ hm)
  generalize repeatUntil (fun acc s => (body acc).run (engine n) s) (engine n).rounds acc s
    = o at ho ⊢
  generalize repeatUntil (fun acc s => (body' acc).run (engine n) s) (engine n).rounds acc' s'
    = o' at ho ⊢
  cases ho with
  | done hg ha hr => exact .done hg ha hr
  | aborted reason t t' => exact .aborted reason t t'

end Program.Alongside

/-- **What keeps in lockstep goes on side by side.** No stale handle is handed over, so none that
was lost. -/
theorem Program.Alongside.of_lockstep {n : Nat} {x y : Run α} {R T : Relation α}
    (ha : Abreast lost i i' past M ρ s s') (hx : Run.Lockstep (M.setting n) ρ x y R)
    (hR : ∀ σ past', σ ≤ past' → ∀ a b, R σ a b → T past' a b) :
    Program.Alongside n lost i i' past s s' x.run y.run (Answers T) := by
  intro hlog
  have hadmits : ∀ e ∈ x.run.log n s, M.Admits e := by
    refine fun e he => Or.inr ((hlog e he).discreet.mono fun h hh => ?_)
    exact (State.steps_of_log _ n s he).1.not_contains ha.regular.heap (ha.dead hh).2.1
      (ha.dead hh).2.2
  have ho : (x.run.run (engine n) s).Agrees M (Answers R) ρ s s' (y.run.run (engine n) s') :=
    (hx s s' ha.similar hadmits).1
  have hsteps := State.steps_of_run x.run n s
  have hdepth := (x.run.callDepth_run n s).trans ha.depth
  generalize x.run.run (engine n) s = o at ho hsteps hdepth ⊢
  generalize y.run.run (engine n) s' = o' at ho ⊢
  cases ho with
  | aborted reason _ _ => exact .aborted reason _ _
  | done hg ht hr =>
    obtain ⟨past', hg', hle, ha'⟩ := ha.grow hg ht hsteps hdepth
    refine .done hg' ha' ?_
    cases hr with
    | ok hv => exact .ok (hR _ _ hle _ _ hv)
    | error he => exact .error (he.mono fun _ _ hab => hle hab)

/-! ## 4. Loops over an iterable -/

/-- An item, and the object that it named when it was handed over. -/
abbrev Note := Handle × Option Object

/-- The body of a loop that notes its items, and then does something with them. -/
def noting (visit : Handle → Run Unit) (seen : Array Note) (item : Handle) : Run (Array Note) := do
  let object ← inspect fun s => some (s.heap.get? item)
  visit item
  return seen.push (item, object)

/-- The same item, and the same object apart from handles. -/
def SameNote (lost : Handle → Prop) (past : Renaming) (note note' : Note) : Prop :=
  past note.1 note'.1 ∧ Option.Rel (Object.Matches past fun a b => past a b ∨ lost a) note.2 note'.2

theorem SameNote.mono {past' : Renaming} (hle : past ≤ past') {note note' : Note}
    (h : SameNote lost past note note') : SameNote lost past' note note' :=
  ⟨hle h.1, rel_mono (fun _ _ ho => ho.mono (fun _ _ hab => hle hab) fun _ _ hab =>
    hab.imp_left fun hab => hle hab) h.2⟩

/-- Notes of the same items in the same order. -/
def SameNotes (lost : Handle → Prop) : Relation (Array Note) :=
  fun past seen seen' => Forall₂ (SameNote lost past) seen.toList seen'.toList

theorem SameNotes.mono {past' : Renaming} (hle : past ≤ past') {seen seen' : Array Note}
    (h : SameNotes lost past seen seen') : SameNotes lost past' seen seen' :=
  h.imp fun _ _ hn => hn.mono hle

theorem SameNotes.push {seen seen' : Array Note} {note note' : Note}
    (h : SameNotes lost past seen seen') (hn : SameNote lost past note note') :
    SameNotes lost past (seen.push note) (seen'.push note') := by
  unfold SameNotes
  rw [Array.toList_push, Array.toList_push]
  exact List.rel_append h (.cons hn .nil)

/-- The next item with a note of it. -/
def nextNote (i : Handle) : Run (Option Note) := do
  match ← nextItem i with
  | none => return none
  | some item => return some (item, ← inspect fun s => some (s.heap.get? item))

/-- What a round does behind that. -/
def roundOff (visit : Handle → Run Unit) (seen : Array Note) :
    Option Note → Run (Array Note ⊕ Array Note)
  | none => return .inr seen
  | some note => do
    visit note.1
    return .inl (seen.push note)

theorem forEach_noting (x : Handle) (visit : Handle → Run Unit) :
    forEach x #[] (noting visit) = iter x >>= fun i => Run.loop #[] fun seen => nextNote i
      >>= roundOff visit seen := by
  refine congrArg (iter x >>= ·) (funext fun i => congrArg (Run.loop #[]) (funext fun seen => ?_))
  unfold nextNote
  rw [bind_assoc]
  refine congrArg (nextItem i >>= ·) (funext fun item => ?_)
  cases item with
  | none => simp only [pure_bind, roundOff]
  | some item => simp only [noting, roundOff, bind_assoc, pure_bind]

/-- The next note is made alike on both sides. -/
theorem lockstep_nextNote {S : Setting} (hi : ρ i i') :
    Run.Lockstep S ρ (nextNote i) (nextNote i') (fun σ =>
    Option.Rel fun note note' => σ note.1 note'.1 ∧
      Option.Rel (Object.Matches σ (S.Loose σ)) note.2 note'.2) := by
  refine (paired_nextItem trivial hi).at_setting.bind fun σ _ item item' hitem => ?_
  cases hitem with
  | none => exact .pure .none
  | @some item item' hitem =>
    have hlook : Run.Lockstep S σ (inspect fun s => some (s.heap.get? item))
        (inspect fun s => some (s.heap.get? item'))
        (fun τ o o' => τ item item' ∧ Option.Rel (Object.Matches τ (S.Loose τ)) o o') :=
      lockstep_inspect fun s s' hs => .some ⟨hitem, hs.heap.get? hitem⟩
    exact hlook.bind fun τ _ _ _ ho => .pure (.some ho)

section

variable {n : Nat} {visit : Handle → Run Unit} {seen seen' : Array Note}

/-- A body that churns, beside one that does nothing. -/
theorem alongside_visit (hvisit : ∀ item, (visit item).run.Churns)
    (ha : Abreast lost i i' past M ρ s s') (item : Handle) :
    Program.Alongside n lost i i' past s s' (visit item).run (pure () : Run Unit).run
      (Answers fun _ _ _ => True) := by
  intro hlog
  obtain ⟨t, N, σ, hrun, ht, hsteps⟩ := (hvisit item).abreast ha hlog
  rw [hrun]
  exact .done (.same hsteps.taken id) ht (.ok trivial)

/-- Whatever fails on one side fails on the other. -/
theorem Program.Alongside.runBind {x y : Run α} {f g : α → Run β} {R : Relation α} {T : Relation β}
    (hx : Program.Alongside n lost i i' past s s' x.run y.run (Answers R))
    (hf : ∀ past' ρ M a a' t t', past ≤ past' → Abreast lost i i' past' M ρ t t' → R past' a a' →
      Program.Alongside n lost i i' past' t t' (f a).run (g a').run (Answers T)) :
    Program.Alongside n lost i i' past s s' (x >>= f).run (y >>= g).run (Answers T) := by
  rw [ExceptT.run_bind, ExceptT.run_bind]
  refine hx.bind fun past' ρ M r r' t t' hle ha hr => ?_
  cases hr with
  | ok hr => exact hf past' ρ M _ _ t t' hle ha hr
  | error he => exact .pure ha (.error he)

/-- **One round**: the same item is noted, or both loops are over. -/
theorem alongside_round (hvisit : ∀ item, (visit item).run.Churns)
    (ha : Abreast lost i i' past M ρ s s') (hseen : SameNotes lost past seen seen') :
    Program.Alongside n lost i i' past s s' (nextNote i >>= roundOff visit seen).run
      (nextNote i' >>= roundOff (fun _ => pure ()) seen').run
        (Answers (Turn (SameNotes lost) (SameNotes lost))) := by
  have hnote := Program.Alongside.of_lockstep (n := n)
    (T := fun past => Option.Rel (SameNote lost past)) ha (lockstep_nextNote ha.iterator)
    fun σ past' hle note note' hn => rel_mono
      (fun a b hab => ⟨hle hab.1, rel_mono (fun o o' ho => ho.mono (fun _ _ h => hle h) fun a b h =>
      h.imp (fun h => hle h) fun h => (ha.dead h).1) hab.2⟩) hn
  refine hnote.runBind fun past' ρ M note note' t t' hle ha hn => ?_
  cases hn with
  | none => exact .pure ha (.ok (.ended (hseen.mono hle)))
  | @some note note' hn =>
    refine Program.Alongside.runBind (alongside_visit hvisit ha note.1)
      fun past'' ρ M _ _ t t' hle' ha _ => ?_
    exact .pure ha (.ok (.again ((hseen.mono (Renaming.le_trans hle hle')).push (hn.mono hle'))))

/-- **The loops**, from the states in which their iterators were made. -/
theorem alongside_rounds (hvisit : ∀ item, (visit item).run.Churns)
    (ha : Abreast lost i i' past M ρ s s') :
    Program.Alongside n lost i i' past s s' (Run.loop #[] fun seen => nextNote i
      >>= roundOff visit seen).run
      (Run.loop #[] fun seen => nextNote i' >>= roundOff (fun _ => pure ()) seen).run
        (Answers (SameNotes lost)) := by
  refine Program.Alongside.loop (J := SameNotes lost) ha .nil
    fun past ρ M seen seen' s s' ha hseen => ?_
  refine (alongside_round hvisit ha hseen).bind fun past' ρ M r r' t t' _ ha hr => ?_
  cases hr with
  | error he => exact .pure ha (.ended (.error he))
  | ok hr =>
    cases hr with
    | again hseen => exact .pure ha (.again hseen)
    | ended hseen => exact .pure ha (.ended (.ok hseen))

end

/-! ## 5. All items -/

/-- The same outcome with another answer. -/
def Outcome.map (f : α → β) (o : Outcome α) : Outcome β := o.andThen fun a s => .done (f a) s

/-- A loop whose accumulator is read off that of another one. -/
theorem repeatUntil_map {ι κ γ : Type} {body : ι → State → Outcome (ι ⊕ β)}
    {body' : κ → State → Outcome (κ ⊕ γ)} {f : ι → κ} {g : β → γ}
    (hbody : ∀ acc s, body' (f acc) s = (body acc s).map (Sum.map f g)) (rounds : Nat) (acc : ι)
    (s : State) : repeatUntil body' rounds (f acc) s = (repeatUntil body rounds acc s).map g := by
  induction rounds generalizing acc s with
  | zero => rfl
  | succ rounds ih =>
    rw [repeatUntil_succ, repeatUntil_succ]
    dsimp only
    rw [hbody]
    cases body acc s with
    | aborted reason t => rfl
    | done answer t =>
      cases answer with
      | inl acc => exact ih acc t
      | inr answer => rfl

theorem Run.loop_map {ι κ γ : Type} {body : ι → Run (ι ⊕ β)} {body' : κ → Run (κ ⊕ γ)} {f : ι → κ}
    {g : β → γ} {e : Engine} (hbody : ∀ acc s, (body' (f acc)).run.run e s
      = ((body acc).run.run e s).map (Except.map (Sum.map f g))) (start : ι) (s : State) :
    (Run.loop (f start) body').run.run e s
      = ((Run.loop start body).run.run e s).map (Except.map g) := by
  rw [Run.run_loop, Run.run_loop]
  refine repeatUntil_map (fun acc s => ?_) e.rounds start s
  rw [hbody]
  cases (body acc).run.run e s with
  | aborted reason t => rfl
  | done r t =>
    cases r with
    | error fault => rfl
    | ok r => cases r <;> rfl

/-- The items of the notes. -/
def notedItems (seen : Array Note) : Array Handle := seen.map (·.1)

theorem notedItems_empty : notedItems #[] = #[] := Array.map_empty

theorem notedItems_push (seen : Array Note) (note : Note) :
    notedItems (seen.push note) = (notedItems seen).push note.1 :=
  Array.map_push

/-- **Collecting all items is noting them and doing nothing.** -/
theorem run_collect (x : Handle) (e : Engine) (s : State) :
    (collect x).run.run e s = ((forEach x #[] (noting fun _ => pure ())).run.run e s).map
      (Except.map fun seen => (notedItems seen).toList) := by
  rw [forEach_noting]
  unfold collect forEach
  rw [ExceptT.run_bind, Program.run_bind, ExceptT.run_bind, Program.run_bind, ExceptT.run_bind,
    Program.run_bind]
  cases (iter x).run.run e s with
  | aborted reason t => rfl
  | done r t =>
    cases r with
    | error fault => rfl
    | ok i =>
      have hloop : ∀ body : Array Handle → Run (Array Handle ⊕ Array Handle),
          (∀ seen s, (body (notedItems seen)).run.run e s
          = ((nextNote i >>= roundOff (fun _ => pure ()) seen).run.run e s).map
          (Except.map (Sum.map notedItems notedItems))) → (Run.loop #[] body).run.run e t
            = ((Run.loop #[] fun seen => nextNote i >>= roundOff (fun _ => pure ()) seen).run.run
                e t).map (Except.map notedItems) :=
        fun body hbody => (congrArg (fun start => (Run.loop start body).run.run e t)
          notedItems_empty).symm.trans (Run.loop_map hbody #[] t)
      refine (congrArg (Outcome.andThen · _) (hloop _ fun seen s => ?_)).trans ?_
      · unfold nextNote
        rw [bind_assoc, ExceptT.run_bind, Program.run_bind, ExceptT.run_bind, Program.run_bind]
        cases (nextItem i).run.run e s with
        | aborted reason t => rfl
        | done r t =>
          cases r with
          | error fault => rfl
          | ok item =>
            cases item with
            | none => rfl
            | some item =>
              have hpush := (notedItems_push seen (item, t.heap.get? item)).symm
              exact congrArg (fun items => (Outcome.done (.ok (.inl items)) t : Outcome
                (Except Fault (Array Handle ⊕ Array Handle)))) hpush
      · change _ = Outcome.map _
          ((Run.loop #[] fun seen => nextNote i >>= roundOff (fun _ => pure ()) seen).run.run e t)
        cases (Run.loop #[] fun seen => nextNote i >>= roundOff (fun _ => pure ()) seen).run.run e
          t with
        | aborted reason t => rfl
        | done r t => cases r <;> rfl

/-! ## 6. A body that keeps the iterator -/

/-- Frees what the iterator does not keep alive. -/
def collectKeeping (i _item : Handle) : Run Unit := do
  let _ ← collectGarbage [i]

theorem churns_collectKeeping (i item : Handle) : (collectKeeping i item).run.Churns :=
  .collect fun _ => .back

/-- What the log of such a loop notes. -/
def Entry.Keeps (i : Handle) (x : Entry) : Prop := x.Roots i ∧ ∀ dead, x.Discreet dead

theorem Entry.Calm.keeps {x : Entry} (hx : x.Calm) (i : Handle) : x.Keeps i :=
  ⟨hx.roots i, hx.discreet⟩

section

variable {r : Recorder} {w : List Handle} {e : Engine} {n : Nat} {pending : List Handle}

theorem keeps_collectKeeping (i item : Handle) (s : State) :
    ∀ x ∈ (collectKeeping i item).run.record e r w s, x.Keeps i :=
  Run.forall_record_bind (Program.forall_record_perform rfl
    ⟨fun _ => .root (.extra List.mem_cons_self), fun _ => trivial⟩ fun _ _ => List.forall_mem_nil _)
    fun _ _ _ => List.forall_mem_nil _

theorem run_collectKeeping (hd : s.callDepth = 0) (i item : Handle) :
    (collectKeeping i item).run.run e s = .done (.ok ()) (s.collect [i]).2 :=
  (Run.run_bind_ok (run_collectGarbage hd [i])).trans rfl

/-- Nothing is handed out where nothing is left. -/
theorem State.Ready.run_nextItem_end (hs : s.Ready i []) :
    ∃ t, (nextItem i).run.run (engine (n + 2)) s = .done (.ok none) t := by
  obtain ⟨held, covered, hg⟩ := id hs.stands
  have hat : (Deal.items held).At held.length (.suspended (.items held [] covered)) :=
    Or.inl (by simp only [Deal.items, List.drop_length])
  obtain ⟨fault, t, hdone, hcarries, _⟩ :=
    State.Stands.advance_end (s := s.enter) (hg.congr rfl) hs.orderly.regular.heap hat
      (Nat.le_refl _) (engine n)
  have hnext : (ObjectModel.next i).run.run (engine (n + 2)) s = .done (.error fault) t.leave := by
    rw [hs.run_next, hdone]
    rfl
  have ht : t.leave.Orderly := (composed_next (K := []) i).builds.orderly_done hs.orderly hnext
  exact ⟨t.leave, Run.run_nextItem_of_isStop hnext (Fault.Carries.isStop (hcarries.congr rfl) ht)⟩

/-- A round keeps the iterator, and leaves it ready if the loop goes on. -/
theorem State.Ready.keeps_round (hs : s.Ready i pending) (hd : s.callDepth = 0)
    (seen : Array Note) :
    (∀ x ∈ (nextNote i >>= roundOff (collectKeeping i) seen).run.record (engine (n + 2))
      (recorder (n + 2)) w s, x.Keeps i) ∧
      ∀ seen' t, (nextNote i >>= roundOff (collectKeeping i) seen).run.run (engine (n + 2)) s
        = .done (.ok (.inl seen')) t → t.callDepth = 0 ∧ ∃ pending, t.Ready i pending := by
  constructor
  · refine Run.forall_record_bind (Run.forall_record_bind
      (fun x hx => (hs.calm_nextItem x hx).keeps i) fun item t _ => ?_) fun note t _ => ?_
    · cases item with
      | none => exact List.forall_mem_nil _
      | some item =>
        exact Run.forall_record_bind (fun x hx => (calm_inspect _ t x hx).keeps i) fun _ _ _ =>
          List.forall_mem_nil _
    · cases note with
      | none => exact List.forall_mem_nil _
      | some note =>
        exact Run.forall_record_bind (keeps_collectKeeping i note.1 t) fun _ _ _ =>
          List.forall_mem_nil _
  · intro seen' t hrun
    cases pending with
    | nil =>
      obtain ⟨u, hitem⟩ := hs.run_nextItem_end (n := n)
      have hround : (nextNote i >>= roundOff (collectKeeping i) seen).run.run (engine (n + 2)) s
          = .done (.ok (.inr seen)) u :=
        (Run.run_bind_ok ((Run.run_bind_ok hitem).trans rfl)).trans rfl
      cases hround.symm.trans hrun
    | cons h rest =>
      obtain ⟨u, hitem, hready, hbeside⟩ := hs.run_nextItem (n := n)
      have hdepth : u.callDepth = 0 := hbeside.callDepth.trans hd
      have hlook : (inspect fun s => some (s.heap.get? h)).run.run (engine (n + 2)) u
          = .done (.ok (u.heap.get? h)) u := Run.run_inspect rfl
      have hnote : (nextNote i).run.run (engine (n + 2)) s
          = .done (.ok (some (h, u.heap.get? h))) u :=
        (Run.run_bind_ok hitem).trans ((Run.run_bind_ok hlook).trans rfl)
      have hround : (nextNote i >>= roundOff (collectKeeping i) seen).run.run (engine (n + 2)) s
          = .done (.ok (.inl (seen.push (h, u.heap.get? h)))) (u.collect [i]).2 :=
        (Run.run_bind_ok hnote).trans ((Run.run_bind_ok (run_collectKeeping hdepth i h)).trans rfl)
      obtain ⟨_, rfl⟩ := Outcome.done.inj (hround.symm.trans hrun)
      refine ⟨?_, rest, hready.collect hdepth (.root (.extra List.mem_cons_self))⟩
      rw [State.collect_eq hdepth]
      exact hdepth

/-- **A loop over a tuple that keeps its iterator**, from `iter` on. -/
theorem keeps_forEach_tuple {x : Handle} (hm : s.heap.Answers x "__iter__" (.tuple .iter))
    (hiter : (iter x).run.run (engine (n + 2)) s = .done (.ok i) t) (ht : t.Ready i pending)
    (hd : t.callDepth = 0) :
    ∀ y ∈ (forEach x #[] (noting (collectKeeping i))).run.log (n + 2) s, y.Keeps i := by
  rw [forEach_noting]
  refine Run.forall_record_bind (fun y hy => (calm_iter_tuple hm y hy).keeps i) fun i' t' hrun => ?_
  obtain ⟨h, rfl⟩ := Outcome.done.inj (hiter.symm.trans hrun)
  cases h
  have hround := fun seen (s : State) (hs : s.callDepth = 0 ∧ ∃ pending, s.Ready i pending) =>
    hs.2.elim fun _ hready => hready.keeps_round (n := n) (w := []) hs.1 seen
  exact Run.forall_record_loop hround #[] ⟨hd, _, ht⟩

end

/-! ## 7. The same items -/

/-- **Two loops ended alike**: with notes of the same items, with the same fault, or for the same
reason. -/
inductive Outcome.Hands (lost : Handle → Prop) (past : Renaming) :
    Outcome (Except Fault (Array Note)) → Outcome (Except Fault (Array Note)) → Prop where
  | done {r r' : Except Fault (Array Note)} (t t' : State) : Answers (SameNotes lost) past r r' →
      Hands lost past (.done r t) (.done r' t')
  | aborted (reason : Abort) (t t' : State) :
      Hands lost past (.aborted reason t) (.aborted reason t')

/-- What happens behind a part that came to an answer happens in the whole. -/
theorem Run.mem_log_bind {x : Run α} {f : α → Run β} {n : Nat} {a : α}
    (hx : x.run.run (engine n) s = .done (.ok a) t) {y : Entry} (hy : y ∈ (f a).run.log n t) :
    y ∈ (x >>= f).run.log n s := by
  rw [ExceptT.run_bind, Program.log, Program.record_bind, hx]
  exact List.mem_append_right _ hy

section

variable {x : Handle} {visit : Handle → Run Unit} {n : Nat}

/-- **Collections inside a loop are safe if they keep the iterator alive.** The body is handed the
items that `collect` would give, each naming the same object as there, up to a renaming of the
handles that were given out meanwhile. The loop looks up a stale handle only if it would have done
so without the collections. -/
theorem forEach_amid_collections (hs : s.Reachable) (hd : s.callDepth = 0)
    (hx : s.heap.Taken x) (hvisit : ∀ item, (visit item).run.Churns)
    (hlog : ∀ y ∈ (forEach x #[] (noting visit)).run.log n s,
      y.Discreet fun h => ¬ y.event.before.Live h)
    (hkept : ∀ i t, (iter x).run.run (engine n) s = .done (.ok i) t →
      ∀ y ∈ (forEach x #[] (noting visit)).run.log n s, y.Roots i) :
    let looping := (forEach x #[] (noting visit)).run
    let plain := (forEach x #[] (noting fun _ => pure ())).run
    (∃ past : Renaming, (∀ a b, past a b → a = b ∨ ¬ s.heap.Taken a ∧ ¬ s.heap.Taken b) ∧
        (looping.run (engine n) s).Hands (fun h => ∃ y ∈ looping.log n s, y.Frees h) past
          (plain.run (engine n) s)) ∧
      (collect x).run.run (engine n) s
          = (plain.run (engine n) s).map (Except.map fun seen => (notedItems seen).toList) := by
  intro looping plain
  refine ⟨?_, run_collect x (engine n) s⟩
  obtain ⟨ρ, hself⟩ := hs.tidy
  have hiter : ((iter x).run.run (engine n) s).Agrees .identical (Answers Renaming.rel) ρ s s
      ((iter x).run.run (engine n) s) :=
    ((paired_iter (hself.complete trivial hx)).at_setting (S := Mode.identical.setting n) s s hself
      fun _ _ => Or.inl trivial).1
  have hsteps := State.steps_of_run (iter x).run n s
  have hdepth := ((iter x).run.callDepth_run n s).trans hd
  have hsame : ∀ {σ : Renaming} {t : State}, t.Similar .identical σ t → ∀ a b, σ a b → a = b :=
    fun ht => (ht.same trivial).2
  have hlooping : looping = (iter x >>= fun i => Run.loop #[] fun seen => nextNote i
      >>= roundOff visit seen).run :=
    congrArg ExceptT.run (forEach_noting x visit)
  have hplain : plain = (iter x >>= fun i => Run.loop #[] fun seen => nextNote i
      >>= roundOff (fun _ => pure ()) seen).run :=
    congrArg ExceptT.run (forEach_noting x fun _ => pure ())
  -- nothing is collected before the first round, so both loops begin with the same run of `iter`
  generalize hrun : (iter x).run.run (engine n) s = o at hiter hsteps hdepth hkept
  cases hiter with
  | @aborted σ t _ reason hg ht =>
    refine ⟨σ, fun a b hab => Or.inl (hsame ht a b hab), ?_⟩
    rw [hlooping, hplain, ExceptT.run_bind, Program.run_bind, ExceptT.run_bind,
      Program.run_bind, hrun]
    exact .aborted reason t t
  | @done σ r _ t _ hg ht hr =>
    cases hr with
    | @error fault _ he =>
      refine ⟨σ, fun a b hab => Or.inl (hsame ht a b hab), ?_⟩
      rw [hlooping, hplain, ExceptT.run_bind, Program.run_bind, ExceptT.run_bind,
        Program.run_bind, hrun]
      exact .done t t (.error he)
    | @ok i _ hi =>
      have ha : Abreast (fun h => ∃ y ∈ looping.log n s, y.Frees h) i i σ
          (Mode.identical.losing fun _ => False) σ t t :=
        .same ht (hs.regular.steps hsteps) hdepth hi
      have hfair : ∀ y ∈ (Run.loop #[] fun seen => nextNote i >>= roundOff visit seen).run.log n t,
          y.Fair i fun h => ∃ y ∈ looping.log n s, y.Frees h := by
        intro y hy
        have hy : y ∈ looping.log n s := hlooping ▸ Run.mem_log_bind hrun hy
        exact ⟨hkept i t rfl y hy, hlog y hy, fun h hf => ⟨y, hy, hf⟩⟩
      -- what the rounds did is a part of the loop's log, so they are fair to the iterator
      have ho := alongside_rounds hvisit ha hfair
      have hlrun : looping.run (engine n) s = _ := hlooping ▸ Run.run_bind_ok hrun
      have hprun : plain.run (engine n) s = _ := hplain ▸ Run.run_bind_ok hrun
      rw [hlrun, hprun]
      generalize (Run.loop #[] fun seen => nextNote i >>= roundOff visit seen).run.run (engine n) t
        = o at ho ⊢
      generalize (Run.loop #[] fun seen => nextNote i >>= roundOff (fun _ => pure ()) seen).run.run
        (engine n) t = o' at ho ⊢
      cases ho with
      | aborted reason u u' =>
        exact ⟨σ, fun a b hab => Or.inl (hsame ht a b hab), .aborted reason u u'⟩
      | @done past _ _ _ _ u u' hg' _ hseen =>
        refine ⟨past, fun a b hab => ?_, .done u u' hseen⟩
        exact (hg'.fresh hab).imp (hsame ht a b) fun hnew =>
          ⟨mt hsteps.taken hnew.1, mt hsteps.taken hnew.2⟩

end

/-- A loop over a pinned tuple of one number, whose body frees all but the iterator and what is
pinned. -/
theorem forEach_amid_collections_of_tuple :
    let made := (State.initial .standard (.ofLines [])).pinnedSingleton 5
    made.2.Reachable ∧ made.2.callDepth = 0 ∧ made.2.heap.Taken made.1 ∧
      ∃ i t, (iter made.1).run.run (engine 2) made.2 = .done (.ok i) t ∧
      (∀ item, (collectKeeping i item).run.Churns) ∧
      (∀ y ∈ (forEach made.1 #[] (noting (collectKeeping i))).run.log 2 made.2, y.Discreet fun h =>
        ¬ y.event.before.Live h) ∧
      (∀ i' t', (iter made.1).run.run (engine 2) made.2 = .done (.ok i') t' →
        ∀ y ∈ (forEach made.1 #[] (noting (collectKeeping i))).run.log 2 made.2, y.Roots i') ∧
      let looping := (forEach made.1 #[] (noting (collectKeeping i))).run
      let plain := (forEach made.1 #[] (noting fun _ => pure ())).run
      (∃ past : Renaming, (∀ a b, past a b →
        a = b ∨ ¬ made.2.heap.Taken a ∧ ¬ made.2.heap.Taken b) ∧
          (looping.run (engine 2) made.2).Hands (fun h => ∃ y ∈ looping.log 2 made.2, y.Frees h)
            past (plain.run (engine 2) made.2)) ∧
        (collect made.1).run.run (engine 2) made.2 = (plain.run (engine 2) made.2).map
            (Except.map fun seen => (notedItems seen).toList) := by
  intro made
  obtain ⟨_, hd, hroom, _, hm, hnext⟩ := State.pinnedSingleton_initial
  have hs : made.2.Reachable := .between (.step 0 (.unary .pin (.list .tuple [.int 5])) _ .start
      (fun _ _ => trivial) (State.run_pinnedSingleton _ 5 0 _))
  have hget := State.get?_pinnedSingleton (State.regular_initial .standard (.ofLines [])).heap 5
  have hx : made.2.heap.Taken made.1 := hs.regular.heap.taken (Heap.contains_of_get? hget)
  have hc : made.2.heap.Contents made.1
      [.item ((State.initial .standard (.ofLines [])).allocate (.ofInt 5)).1] := .tuple hm hget rfl
  obtain ⟨i, rest, t, hiter, hready, hbeside, _⟩ := hc.ready hs.orderly (hd ▸ hroom) hnext 1
  have hkeeps := keeps_forEach_tuple (n := 0) hm hiter hready (hbeside.callDepth.trans hd)
  have hlog : ∀ y ∈ (forEach made.1 #[] (noting (collectKeeping i))).run.log 2 made.2,
      y.Discreet fun h => ¬ y.event.before.Live h :=
    fun y hy => (hkeeps y hy).2 _
  have hkept : ∀ i' t', (iter made.1).run.run (engine 2) made.2 = .done (.ok i') t' →
      ∀ y ∈ (forEach made.1 #[] (noting (collectKeeping i))).run.log 2 made.2, y.Roots i' := by
    intro i' t' hiter' y hy
    obtain ⟨h, _⟩ := Outcome.done.inj (hiter.symm.trans hiter')
    cases h
    exact (hkeeps y hy).1
  exact ⟨hs, hd, hx, i, t, hiter, churns_collectKeeping i, hlog, hkept,
    forEach_amid_collections hs hd hx (churns_collectKeeping i) hlog hkept⟩

end ObjectModel
