import ObjectModel.Proofs.Renaming.Discreet
import ObjectModel.Proofs.Renaming.Lookup

/-!
# Runs in lockstep

Two runs that start from similar states and do the same, up to the handles that they use, end alike:
with related answers in similar states, or for the same reason.

* `Run.Lockstep.bind`, `Run.Lockstep.loop`, `Run.Lockstep.attempt` -- the rules for composed
  programs.
-/

namespace ObjectModel

open List (Forall₂)

variable {α β γ : Type}

/-! ## 1. Outcomes -/

/-- Answers that are compared under a renaming. -/
abbrev Relation (α : Type) := Renaming → α → α → Prop

/-- Related values, or matching faults. -/
inductive Answers (R : Relation α) (ρ : Renaming) : Except Fault α → Except Fault α → Prop where
  | ok {a b : α} : R ρ a b → Answers R ρ (.ok a) (.ok b)
  | error {f g : Fault} : f.Matches ρ g → Answers R ρ (.error f) (.error g)

theorem Answers.imp {R R' : Relation α} {ρ : Renaming} {x y : Except Fault α} (h : Answers R ρ x y)
    (hr : ∀ a b, R ρ a b → R' ρ a b) : Answers R' ρ x y := by
  cases h with
  | ok h => exact .ok (hr _ _ h)
  | error he => exact .error he

/-- **Two runs ended alike**: with related answers in similar states, or for the same reason. -/
inductive Outcome.Agrees (M : Mode) (R : Relation α) (ρ : Renaming) (s s' : State) :
    Outcome α → Outcome α → Prop where
  | done {σ : Renaming} {a a' : α} {t t' : State} : ρ.Grows s s' σ t t' → t.Similar M σ t' →
      R σ a a' → Agrees M R ρ s s' (.done a t) (.done a' t')
  | aborted {σ : Renaming} {t t' : State} (reason : Abort) : ρ.Grows s s' σ t t' →
      t.Similar M σ t' → Agrees M R ρ s s' (.aborted reason t) (.aborted reason t')

/-- What two runs did from later states on, they did behind earlier ones. -/
theorem Outcome.Agrees.behind {M : Mode} {R : Relation α} {ρ σ : Renaming} {s s' t t' : State}
    {o o' : Outcome α} (hg : ρ.Grows s s' σ t t') (ho : o.Agrees M R σ t t' o') :
    o.Agrees M R ρ s s' o' := by
  cases ho with
  | done hg' ht hr => exact .done (hg.trans hg') ht hr
  | aborted reason hg' ht => exact .aborted reason (hg.trans hg') ht

namespace Mode

variable (M : Mode)

/-- A state that is similar to itself. -/
def Tidy (s : State) : Prop := ∃ ρ, s.Similar M ρ s

/-- What is demanded of the first log. -/
def Admits (x : Entry) : Prop := M.numbers ∨ x.Discreet M.dead

/-- **The runs from `s` and `s'` end alike**, if the log of the first one is admitted. Where the
states are equal, all states on the way are similar to themselves. -/
def LockstepAt (ρ : Renaming) (s s' : State) (run run' : State → Outcome α)
    (log : State → List Entry) (R : Relation α) : Prop :=
  (∀ x ∈ log s, M.Admits x) → (run s).Agrees M R ρ s s' (run' s') ∧
    (M.numbers → ∀ x ∈ log s, M.Tidy x.event.before ∧ M.Tidy x.event.behind)

/-- **Runs from similar states end alike.** -/
def Lockstep (ρ : Renaming) (run run' : State → Outcome α) (log : State → List Entry)
    (R : Relation α) : Prop :=
  ∀ s s', s.Similar M ρ s' → M.LockstepAt ρ s s' run run' log R

variable {M} {ρ : Renaming} {R : Relation α} {T : Relation β}

theorem tidy_left {s s' : State} (hs : s.Similar M ρ s') (hn : M.numbers) : M.Tidy s := by
  obtain ⟨rfl, _⟩ := hs.same hn
  exact ⟨ρ, hs⟩

theorem tidy_state {s s' : State} {o o' : Outcome α} (ho : o.Agrees M R ρ s s' o')
    (hn : M.numbers) : M.Tidy o.state := by
  cases ho with
  | done _ ht _ => exact tidy_left ht hn
  | aborted _ _ ht => exact tidy_left ht hn

namespace Lockstep

variable {run run' : State → Outcome α} {log : State → List Entry}
  {next next' : α → State → Outcome β} {after : α → State → List Entry}

/-- **One run after another**, of which the second may rely on how the first one ended. -/
theorem andThenAt {s s' : State} (hx : M.LockstepAt ρ s s' run run' log R)
    (hf : ∀ σ a a' t t', run s = .done a t → run' s' = .done a' t' → ρ ≤ σ → t.Similar M σ t' →
      R σ a a' → M.LockstepAt σ t t' (next a) (next' a') (after a) T) :
    M.LockstepAt ρ s s' (fun s => (run s).andThen next) (fun s => (run' s).andThen next')
      (fun s => log s ++ recordAfter (run s) after) T := by
  intro hlog
  obtain ⟨ho, htidy⟩ := hx fun x hm => hlog x (List.mem_append_left _ hm)
  have hafter : ∀ x ∈ recordAfter (run s) after, M.Admits x :=
    fun x hm => hlog x (List.mem_append_right _ hm)
  simp only [List.mem_append]
  generalize run s = o at ho hf hafter ⊢
  generalize run' s' = o' at ho hf ⊢
  cases ho with
  | aborted reason hg ht =>
    refine ⟨.aborted reason hg ht, fun hn x hm => ?_⟩
    exact htidy hn x (hm.resolve_right List.not_mem_nil)
  | @done σ a a' t t' hg ht hr =>
    obtain ⟨ho, htidy'⟩ := hf σ a a' t t' rfl rfl hg.le ht hr hafter
    exact ⟨ho.behind hg, fun hn x hm => hm.elim (htidy hn x) (htidy' hn x)⟩

theorem andThen (hx : M.Lockstep ρ run run' log R)
    (hf : ∀ σ, ρ ≤ σ → ∀ a b, R σ a b → M.Lockstep σ (next a) (next' b) (after a) T) :
    M.Lockstep ρ (fun s => (run s).andThen next) (fun s => (run' s).andThen next')
      (fun s => log s ++ recordAfter (run s) after) T :=
  fun s s' hs => andThenAt (hx s s' hs) fun σ a a' t t' _ _ hσ ht hr => hf σ hσ a a' hr t t' ht

theorem single {M : Mode} {ρ : Renaming} {s s' : State} {within : List Handle} {a : Action β}
    {o o' : Outcome β} {T : Relation β} (hs : s.Similar M ρ s') (ho : o.Agrees M T ρ s s' o') :
    o.Agrees M T ρ s s' o' ∧
      (M.numbers → ∀ x ∈ [(⟨within, .performed a s o⟩ : Entry)], M.Tidy x.event.before ∧
        M.Tidy x.event.behind) := by
  refine ⟨ho, fun hn x hm => ?_⟩
  rw [List.mem_singleton.mp hm]
  exact ⟨tidy_left hs hn, tidy_state ho hn⟩

theorem imp {R' : Relation α} (hx : M.Lockstep ρ run run' log R)
    (hr : ∀ σ, ρ ≤ σ → ∀ a b, R σ a b → R' σ a b) : M.Lockstep ρ run run' log R' := by
  intro s s' hs hlog
  obtain ⟨ho, htidy⟩ := hx s s' hs hlog
  refine ⟨?_, htidy⟩
  generalize run s = o at ho ⊢
  generalize run' s' = o' at ho ⊢
  cases ho with
  | done hg ht hr' => exact .done hg ht (hr _ hg.le _ _ hr')
  | aborted reason hg ht => exact .aborted reason hg ht

end Lockstep

end Mode

/-! ## 2. Settings -/

/-- **An engine of which calls and requests keep in lockstep**, with the recorder that notes what
happens inside of them. -/
structure Setting extends Mode where
  engine : Engine
  recorder : Recorder
  within : List Handle
  call_lockstep : ∀ {ρ : Renaming} {callee callee' : Handle} {args args' : List Handle},
    ρ callee callee' → Forall₂ ρ args args' →
    toMode.Lockstep ρ (engine.call callee args) (engine.call callee' args')
      (fun s => recorder.call within callee args s
        ++ [⟨within, .performed (.call callee args) s (engine.call callee args s)⟩])
      (Answers Renaming.rel)
  advance_lockstep : ∀ {ρ : Renaming} {g g' : Handle}, ρ g g' →
    toMode.Lockstep ρ (engine.advance g) (engine.advance g')
      (fun s => recorder.advance within g s
        ++ [⟨within, .performed (.advance g) s (engine.advance g s)⟩]) (Answers Renaming.rel)

/-- Programs that keep in lockstep from two given states on. -/
def Program.LockstepAt (S : Setting) (ρ : Renaming) (s s' : State) (p q : Program α)
    (R : Relation α) : Prop :=
  S.LockstepAt ρ s s' (p.run S.engine) (q.run S.engine) (p.record S.engine S.recorder S.within) R

/-- Programs that keep in lockstep in a setting. -/
def Program.Lockstep (S : Setting) (ρ : Renaming) (p q : Program α) (R : Relation α) : Prop :=
  S.Lockstep ρ (p.run S.engine) (q.run S.engine) (p.record S.engine S.recorder S.within) R

def Run.LockstepAt (S : Setting) (ρ : Renaming) (s s' : State) (x y : Run α) (R : Relation α) :
    Prop :=
  Program.LockstepAt S ρ s s' x.run y.run (Answers R)

/-- Programs that may fail: their values are related, or their faults match. -/
def Run.Lockstep (S : Setting) (ρ : Renaming) (x y : Run α) (R : Relation α) : Prop :=
  Program.Lockstep S ρ x.run y.run (Answers R)

variable {S : Setting} {ρ : Renaming} {R : Relation α} {T : Relation β}

namespace Program.Lockstep

variable {p q : Program α}

theorem pure {a b : α} (h : R ρ a b) : Lockstep S ρ (Pure.pure a) (Pure.pure b) R := by
  intro s s' hs _
  exact ⟨.done (.refl ρ s s') hs h, fun _ => List.forall_mem_nil _⟩

theorem bindAt {f g : α → Program β} {s s' : State} (hx : LockstepAt S ρ s s' p q R)
    (hf : ∀ σ a a' t t', p.run S.engine s = .done a t → q.run S.engine s' = .done a' t' → ρ ≤ σ →
      t.Similar S.toMode σ t' → R σ a a' → LockstepAt S σ t t' (f a) (g a') T) :
    LockstepAt S ρ s s' (p >>= f) (q >>= g) T := by
  have h := Mode.Lockstep.andThenAt hx hf
  intro hlog
  have hl : (p >>= f).record S.engine S.recorder S.within s = _ := record_bind p f s
  rw [hl] at hlog ⊢
  rw [run_bind, run_bind]
  exact h hlog

theorem bind {f g : α → Program β} (hx : Lockstep S ρ p q R)
    (hf : ∀ σ, ρ ≤ σ → ∀ a b, R σ a b → Lockstep S σ (f a) (g b) T) :
    Lockstep S ρ (p >>= f) (q >>= g) T :=
  fun s s' hs => bindAt (hx s s' hs) fun σ a a' t t' _ _ hσ ht hr => hf σ hσ a a' hr t t' ht

theorem imp {R' : Relation α} (hx : Lockstep S ρ p q R)
    (hr : ∀ σ, ρ ≤ σ → ∀ a b, R σ a b → R' σ a b) : Lockstep S ρ p q R' :=
  Mode.Lockstep.imp hx hr

/-- A single action, of which nothing happens inside. -/
theorem actAt {a a' : Action β} {s s' : State} (ha : a.isPrimitive = true)
    (hs : s.Similar S.toMode ρ s') (h : S.Admits ⟨S.within, .performed a s (a.perform S.engine s)⟩ →
      (a.perform S.engine s).Agrees S.toMode T ρ s s' (a'.perform S.engine s')) :
    LockstepAt S ρ s s' (Program.act a) (Program.act a') T := by
  intro hlog
  have hin : a.inside S.recorder S.within s = [] := by
    cases a with
    | call callee args => cases ha
    | advance g => cases ha
    | _ => rfl
  rw [record_act, hin, List.nil_append] at hlog ⊢
  rw [run_act, run_act]
  exact Mode.Lockstep.single hs (h (hlog _ List.mem_cons_self))

theorem act {a a' : Action β} (ha : a.isPrimitive = true) (h : ∀ s s', s.Similar S.toMode ρ s' →
      S.Admits ⟨S.within, .performed a s (a.perform S.engine s)⟩ →
      (a.perform S.engine s).Agrees S.toMode T ρ s s' (a'.perform S.engine s')) :
    Lockstep S ρ (Program.act a) (Program.act a') T :=
  fun s s' hs => actAt ha hs (h s s' hs)

end Program.Lockstep

/-! ## 3. Loops -/

/-- The two ways in which a round of a loop comes back. -/
inductive Turn {σ : Type} (J : Relation σ) (T : Relation β) (ρ : Renaming) :
    σ ⊕ β → σ ⊕ β → Prop where
  | again {acc acc' : σ} : J ρ acc acc' → Turn J T ρ (.inl acc) (.inl acc')
  | ended {b b' : β} : T ρ b b' → Turn J T ρ (.inr b) (.inr b')

section Loops

variable {ι : Type} {J : Relation ι} {acc acc' : ι}

/-- How a loop goes on behind a round. -/
def goOn (again : ι → State → Outcome β) : ι ⊕ β → State → Outcome β
  | .inl acc, s => again acc s
  | .inr answer, s => .done answer s

theorem repeatUntil_succ (body : ι → State → Outcome (ι ⊕ β)) (rounds : Nat) (acc : ι) :
    repeatUntil body (rounds + 1) acc = fun s =>
      (body acc s).andThen (goOn (repeatUntil body rounds)) := by
  funext s
  rw [repeatUntil]
  cases body acc s with
  | done answer t => cases answer <;> rfl
  | aborted reason t => rfl

/-- What is noted behind a round. -/
def goOnRecording (again : ι → State → List Entry) : ι ⊕ β → State → List Entry
  | .inl acc, s => again acc s
  | .inr _, _ => []

theorem recordUntil_succ (body : ι → State → Outcome (ι ⊕ β)) (inside : ι → State → List Entry)
    (rounds : Nat) (acc : ι) :
    recordUntil body inside (rounds + 1) acc
      = fun s => inside acc s ++ recordAfter (body acc s)
        (goOnRecording (recordUntil body inside rounds)) := by
  funext s
  rw [recordUntil]
  cases body acc s with
  | done answer t => cases answer <;> rfl
  | aborted reason t => rfl

/-- **Loops whose rounds keep in lockstep**, by induction on the rounds. `J` relates the
accumulators. -/
theorem Mode.Lockstep.rounds {M : Mode} {body body' : ι → State → Outcome (ι ⊕ β)}
    {inside : ι → State → List Entry} (hbody : ∀ σ, ρ ≤ σ → ∀ acc acc', J σ acc acc' →
      M.Lockstep σ (body acc) (body' acc') (inside acc) (Turn J T)) (rounds : Nat)
    {σ : Renaming} (hσ : ρ ≤ σ) (hJ : J σ acc acc') :
    M.Lockstep σ (repeatUntil body rounds acc) (repeatUntil body' rounds acc')
      (recordUntil body inside rounds acc) T := by
  induction rounds generalizing acc acc' σ with
  | zero =>
    intro s s' hs _
    exact ⟨.aborted .unfinished (.refl σ s s') hs, fun _ => List.forall_mem_nil _⟩
  | succ rounds ih =>
    rw [repeatUntil_succ, repeatUntil_succ, recordUntil_succ]
    refine Mode.Lockstep.andThen (hbody σ hσ acc acc' hJ) fun τ hτ r r' hr => ?_
    cases hr with
    | again hJ => exact ih (Renaming.le_trans hσ hτ) hJ
    | ended hT =>
      intro s s' hs _
      exact ⟨.done (.refl τ s s') hs hT, fun _ => List.forall_mem_nil _⟩

theorem Program.Lockstep.loop {body body' : ι → Program (ι ⊕ β)} (hJ : J ρ acc acc') (hbody : ∀ σ, ρ
      ≤ σ → ∀ acc acc', J σ acc acc' → Program.Lockstep S σ (body acc) (body' acc') (Turn J T)) :
    Program.Lockstep S ρ (Program.loop acc body) (Program.loop acc' body') T := by
  have hrounds := Mode.Lockstep.rounds hbody S.engine.rounds (Renaming.le_refl ρ) hJ
  have hall := Mode.Lockstep.andThen hrounds fun σ _ b b' hb =>
      Program.Lockstep.pure (S := S) (R := T) hb
  intro s s' hs hlog
  unfold Program.loop at hlog ⊢
  rw [Program.record_iterate] at hlog ⊢
  rw [Program.run_iterate, Program.run_iterate]
  exact hall s s' hs hlog

end Loops

/-! ## 4. Programs that may fail -/

namespace Run.Lockstep

variable {x y : Run α}

theorem pure {a b : α} (h : R ρ a b) : Lockstep S ρ (Pure.pure a : Run α) (Pure.pure b) R :=
  Program.Lockstep.pure (.ok h)

theorem throw {f g : Fault} (h : f.Matches ρ g) :
    Lockstep S ρ (MonadExcept.throw f : Run α) (MonadExcept.throw g) R :=
  Program.Lockstep.pure (.error h)

theorem bindAt {f g : α → Run β} {s s' : State} (hx : LockstepAt S ρ s s' x y R)
    (hf : ∀ σ a a' t t', x.run.run S.engine s = .done (.ok a) t →
      y.run.run S.engine s' = .done (.ok a') t' → ρ ≤ σ → t.Similar S.toMode σ t' → R σ a a' →
      LockstepAt S σ t t' (f a) (g a') T) :
    LockstepAt S ρ s s' (x >>= f) (y >>= g) T := by
  unfold LockstepAt
  rw [ExceptT.run_bind, ExceptT.run_bind]
  refine Program.Lockstep.bindAt hx fun σ r r' t t' hl hr hσ ht h => ?_
  cases h with
  | ok h => exact hf σ _ _ t t' hl hr hσ ht h
  | error he => exact Program.Lockstep.pure (.error he) t t' ht

/-- **The second parts keep in lockstep for related answers of the first parts.** -/
theorem bind {f g : α → Run β} (hx : Lockstep S ρ x y R)
    (hf : ∀ σ, ρ ≤ σ → ∀ a b, R σ a b → Lockstep S σ (f a) (g b) T) :
    Lockstep S ρ (x >>= f) (y >>= g) T :=
  fun s s' hs => bindAt (hx s s' hs) fun σ a a' t t' _ _ hσ ht hr => hf σ hσ a a' hr t t' ht

theorem imp {R' : Relation α} (hx : Lockstep S ρ x y R)
    (hr : ∀ σ, ρ ≤ σ → ∀ a b, R σ a b → R' σ a b) : Lockstep S ρ x y R' :=
  Program.Lockstep.imp hx fun σ hσ _ _ h => h.imp (hr σ hσ)

theorem ite {c c' : Prop} [Decidable c] [Decidable c'] {x' y' : Run α} (hc : c ↔ c')
    (hx : c → Lockstep S ρ x x' R) (hy : ¬ c → Lockstep S ρ y y' R) :
    Lockstep S ρ (if c then x else y) (if c' then x' else y') R := by
  by_cases h : c
  · rw [if_pos h, if_pos (hc.mp h)]
    exact hx h
  · rw [if_neg h, if_neg (mt hc.mpr h)]
    exact hy h

theorem attempt (hx : Lockstep S ρ x y R) :
    Lockstep S ρ (Run.attempt x) (Run.attempt y) (Answers R) := by
  have hrun : ∀ z : Run α, (Run.attempt z).run = z.run >>= fun r => Pure.pure (.ok r) :=
    fun z => map_eq_pure_bind _ _
  unfold Lockstep
  rw [hrun, hrun]
  exact Program.Lockstep.bind hx fun σ _ r r' hr => Program.Lockstep.pure (.ok hr)

/-- **Loops.** `J` relates the accumulators. -/
theorem loop {ι : Type} {acc acc' : ι} {body body' : ι → Run (ι ⊕ β)} (J : Relation ι)
    (hJ : J ρ acc acc') (hbody : ∀ σ, ρ ≤ σ → ∀ acc acc', J σ acc acc' → Lockstep S σ (body acc)
      (body' acc') (Turn J T)) : Lockstep S ρ (Run.loop acc body) (Run.loop acc' body') T := by
  refine Program.Lockstep.loop hJ fun σ hσ acc acc' hJ => ?_
  refine Program.Lockstep.bind (hbody σ hσ acc acc' hJ) fun τ _ r r' hr => ?_
  cases hr with
  | error he => exact Program.Lockstep.pure (.ended (.error he))
  | ok hr =>
    cases hr with
    | again hJ => exact Program.Lockstep.pure (.again hJ)
    | ended hT => exact Program.Lockstep.pure (.ended (.ok hT))

theorem actAt {a a' : Action β} {s s' : State}
    (h : Program.LockstepAt S ρ s s' (Program.act a) (Program.act a') T) :
    LockstepAt S ρ s s' (Run.act a) (Run.act a') T := by
  have hrun : ∀ a : Action β, (Run.act a).run = Program.act a >>= fun r => Pure.pure (.ok r) :=
    fun a => map_eq_pure_bind _ _
  unfold LockstepAt
  rw [hrun, hrun]
  exact Program.Lockstep.bindAt h fun σ r r' t t' _ _ _ ht hr =>
    Program.Lockstep.pure (.ok hr) t t' ht

theorem act {a a' : Action β} (h : Program.Lockstep S ρ (Program.act a) (Program.act a') T) :
    Lockstep S ρ (Run.act a) (Run.act a') T := fun s s' hs => actAt (h s s' hs)

end Run.Lockstep

end ObjectModel
