import ObjectModel.Proofs.Renaming.Script

/-!
# The machine in lockstep

Calls and requests keep in lockstep at every bound on their nesting, so every engine of the machine
is a setting.

* `Mode.drives` -- **calls and requests keep in lockstep**, by induction on the nesting.
-/

namespace ObjectModel

open List (Forall₂)
open Run (Lockstep)

variable {α β : Type} {M : Mode} {ρ : Renaming} {s s' : State}

/-! ## 1. Runs one level deeper -/

theorem Outcome.Agrees.nested {R : Relation α} {run run' : State → Outcome α}
    (ho : (run s.enter).Agrees M R ρ s.enter s'.enter (run' s'.enter)) :
    (ObjectModel.nested run s).Agrees M R ρ s s' (ObjectModel.nested run' s') := by
  unfold ObjectModel.nested
  generalize run s.enter = o at ho ⊢
  generalize run' s'.enter = o' at ho ⊢
  cases ho with
  | done hg ht hr => exact .done ⟨hg.le, hg.fresh, hg.left, hg.right⟩ ht.leave hr
  | aborted reason hg ht => exact .aborted reason ⟨hg.le, hg.fresh, hg.left, hg.right⟩ ht.leave

namespace Mode.LockstepAt

variable {run run' : State → Outcome β} {log : State → List Entry} {R : Relation β}

/-- **A call or a request is noted when it is over**, and what is demanded of its entry may be
relied on. -/
theorem noted {within : List Handle} {a : Action β} (hs : s.Similar M ρ s')
    (h : M.Admits ⟨within, .performed a s (run s)⟩ → M.LockstepAt ρ s s' run run' log R) :
    M.LockstepAt ρ s s' run run' (fun s => log s ++ [⟨within, .performed a s (run s)⟩]) R := by
  intro hlog
  have hadmits := hlog _ (List.mem_append_right _ List.mem_cons_self)
  obtain ⟨ho, htidy⟩ := h hadmits fun x hm => hlog x (List.mem_append_left _ hm)
  refine ⟨ho, fun hn x hm => ?_⟩
  rcases List.mem_append.mp hm with hm | hm
  · exact htidy hn x hm
  · rw [List.mem_singleton.mp hm]
    exact ⟨tidy_left hs hn, tidy_state ho hn⟩

end Mode.LockstepAt

/-! ## 2. Calls -/

variable {S : Setting} {callee callee' : Handle} {args args' : List Handle}

theorem Code.lockstep_run (code : Code) (hd : S.numbers ∨ code.Discreet)
    (ha : Forall₂ ρ args args') : Lockstep S ρ (code.run args) (code.run args') Renaming.rel := by
  cases code with
  | member m => exact (m.paired_run (fun _ => trivial) ha).at_setting
  | builtin f => exact (f.paired_run hd (fun _ => trivial) ha).at_setting
  | script body => exact body.lockstep_applyTo hd ha

/-- What a call does once it was admitted. -/
theorem lockstepAt_dispatch (hs : s.Similar S.toMode ρ s') (hc : ρ callee callee')
    (ha : Forall₂ ρ args args') (hd : S.numbers ∨ ∀ o name code, s.heap.get? callee = some o →
      o.payload = .function name code → code.Discreet) :
    Run.LockstepAt S ρ s s' (dispatch callee args) (dispatch callee' args') Renaming.rel := by
  refine Lockstep.bindAt (lockstep_object hc s s' hs) fun σ o o' t t' hl _ hσ ht ho => ?_
  obtain ⟨heq, hget⟩ := inspect_ends hl
  cases heq
  have hc := hσ hc
  have ha := Renaming.all hσ ha
  have hcode : S.numbers ∨ ∀ name code, o.payload = .function name code → code.Discreet :=
    hd.imp_right fun h name code => h o name code hget
  have hp := ho.payload
  generalize o.payload = p at hp hcode ⊢
  generalize o'.payload = p' at hp ⊢
  cases hp with
  | function name code =>
    exact code.lockstep_run (hcode.imp_right fun h => h name code rfl) ha s t' ht
  | bound hr hf => exact lockstep_call hf (.cons hr ha) s t' ht
  | _ =>
    refine (paired_findHook hc "__call__").at_setting.bind (fun τ hτ hook hook' hhook => ?_) s t' ht
    cases hhook with
    | none => exact lockstep_raiseMessage _ _
    | some hf => exact lockstep_call hf (.cons (hτ hc) (Renaming.all hτ ha))

/-! ## 3. Requests -/

/-- What a resumption left of its generator is put back. -/
theorem settle_agrees {g g' : Handle} (hs : s.Similar M ρ s') (hg : ρ g g')
    {back back' : Except Fault Resumed} (hb : Answers (Resumed.Matches M) ρ back back') :
    (settle g back s).Agrees M (Answers fun ρ => Resumption.Matches ρ) ρ s s'
      (settle g' back' s') := by
  have hput : ∀ {x x' : Generator} {answer answer' : Except Fault Resumption},
      x.Matches ρ (M.Loose ρ) x' → Answers (fun ρ => Resumption.Matches ρ) ρ answer answer' →
      (Outcome.done answer (s.setGenerator g x)).Agrees M (Answers fun ρ => Resumption.Matches ρ) ρ
      s s' (.done answer' (s'.setGenerator g' x')) :=
    fun hx ha => agrees_done (hs.setGenerator hg hx) ha (fun ht => ht.modify _ _) fun ht =>
      ht.modify _ _
  cases hb with
  | error he => exact hput (.stopped .none) (.error he)
  | @ok r r' hr =>
    obtain ⟨back, rest⟩ := r
    obtain ⟨back', rest'⟩ := r'
    obtain ⟨hb, hrest⟩ := hr
    cases hb with
    | yielded hv => exact hput (.suspended hrest) (.ok (.yielded hv))
    | completed hv => exact hput (.stopped hv) (.ok (.completed hv))

/-- **A resumed generator**: its computation is run while it counts as running, and what is left of
it is put back. -/
theorem lockstepAt_resumeWith {g g' : Handle} {outer : List Handle} {c c' : Coroutine}
    (hw : S.within = g :: outer) (hs : s.Similar S.toMode ρ s') (hg : ρ g g')
    (hc : c.Matches ρ (S.Loose ρ) c') :
    S.LockstepAt ρ s s' (resumeWith (c.resume.run.run S.engine) g)
      (resumeWith (c'.resume.run.run S.engine) g')
      (fun s => c.resume.run.record S.engine S.recorder (g :: outer)
        (s.setGenerator g .running).enter ++
        [⟨outer, .resumed g c (s.setGenerator g .running).enter
          (c.resume.run.run S.engine (s.setGenerator g .running).enter)⟩])
      (Answers fun ρ => Resumption.Matches ρ) := by
  intro hlog
  have hd : S.numbers ∨ c.Discreet := hlog _ (List.mem_append_right _ List.mem_cons_self)
  have hrunning := hs.setGenerator hg .running
  have hresume := Coroutine.lockstep_resume hd hc _ _ hrunning.enter
  rw [hw] at hresume
  obtain ⟨ho, htidy⟩ := hresume fun x hm => hlog x (List.mem_append_left _ hm)
  constructor
  · have hback := ho.nested
    have hgrows : ρ.Grows s s' ρ (s.setGenerator g .running) (s'.setGenerator g' .running) :=
      .same (fun ht => ht.modify _ _) fun ht => ht.modify _ _
    unfold resumeWith
    generalize nested (c.resume.run.run S.engine) (s.setGenerator g .running) = o at hback ⊢
    generalize nested (c'.resume.run.run S.engine) (s'.setGenerator g' .running) = o' at hback ⊢
    cases hback with
    | done hgrows' ht hr =>
      exact (settle_agrees ht (hgrows'.le hg) hr).behind (hgrows.trans hgrows')
    | aborted reason hgrows' ht => exact .aborted reason (hgrows.trans hgrows') ht
  · intro hn x hm
    rcases List.mem_append.mp hm with hm | hm
    · exact htidy hn x hm
    · rw [List.mem_singleton.mp hm]
      exact ⟨Mode.tidy_left hrunning.enter hn, Mode.tidy_state ho hn⟩

/-! ## 4. The engines -/

/-- An engine of which calls and requests keep in lockstep, whatever they are made within. -/
structure Mode.Drives (M : Mode) (e : Engine) (r : Recorder) : Prop where
  call : ∀ (within : List Handle) {ρ : Renaming} {callee callee' : Handle}
    {args args' : List Handle}, ρ callee callee' →
    Forall₂ ρ args args' → M.Lockstep ρ (e.call callee args) (e.call callee' args')
      (fun s => r.call within callee args s ++
        [⟨within, .performed (.call callee args) s (e.call callee args s)⟩]) (Answers Renaming.rel)
  advance : ∀ (within : List Handle) {ρ : Renaming} {g g' : Handle}, ρ g g' →
    M.Lockstep ρ (e.advance g) (e.advance g') (fun s => r.advance within g s
    ++ [⟨within, .performed (.advance g) s (e.advance g s)⟩]) (Answers Renaming.rel)

/-- The setting of programs that run within the computations of some generators. -/
def Mode.Drives.setting {e : Engine} {r : Recorder} (h : M.Drives e r) (within : List Handle) :
    Setting :=
  ⟨M, e, r, within, h.call within, h.advance within⟩

namespace Mode.Drives

variable {e : Engine} {r : Recorder} (h : M.Drives e r)

include h

theorem call_succ (within : List Handle) (hc : ρ callee callee') (ha : Forall₂ ρ args args') :
    M.Lockstep ρ (belowLimit ((dispatch callee args).run.run e))
      (belowLimit ((dispatch callee' args').run.run e))
      (fun s => recordCall e r within callee args s ++
        [⟨within, .performed (.call callee args) s
          (belowLimit ((dispatch callee args).run.run e) s)⟩]) (Answers Renaming.rel) := by
  intro s s' hs
  refine .noted hs fun hadmits hlog => ?_
  unfold belowLimit
  unfold recordCall at hlog ⊢
  rw [← hs.limits, ← hs.callDepth]
  split
  · exact ⟨.done (.refl ρ s s') hs (.error (.callDepthExceeded _)), fun _ => List.forall_mem_nil _⟩
  · rename_i hbelow
    rw [if_neg hbelow] at hlog
    have hdispatch := lockstepAt_dispatch (S := h.setting within) hs.enter hc ha hadmits
    obtain ⟨ho, htidy⟩ := hdispatch hlog
    exact ⟨ho.nested, htidy⟩

theorem advance_succ (within : List Handle) {g g' : Handle} (hg : ρ g g') :
    M.Lockstep ρ (advanceWith e g) (advanceWith e g')
      (fun s => recordAdvance e r within g s
        ++ [⟨within, .performed (.advance g) s (advanceWith e g s)⟩]) (Answers Renaming.rel) := by
  intro s s' hs
  refine .noted hs fun _ hlog => ?_
  unfold advanceWith
  unfold recordAdvance at hlog ⊢
  have hget := hs.heap.get? hg
  generalize s.heap.get? g = x at hget hlog ⊢
  generalize s'.heap.get? g' = x' at hget ⊢
  cases hget with
  | none => exact ⟨.aborted .stale (.refl ρ s s') hs, fun _ => List.forall_mem_nil _⟩
  | @some o o' ho =>
    have hp := ho.payload
    dsimp only at hlog ⊢
    generalize o.payload = p at hp hlog ⊢
    generalize o'.payload = p' at hp ⊢
    have hrefused : Run.Lockstep (h.setting within) ρ (refusal p) (refusal p') Renaming.rel :=
      (paired_refusal hp).at_setting
    cases hp with
    | generator hgenerator =>
      cases hgenerator with
      | @suspended c c' hc =>
        have hback := lockstepAt_resumeWith (S := h.setting (g :: within)) rfl hs hg hc
        have hall := Mode.Lockstep.andThenAt hback fun σ back back' t t' _ _ _ ht hb =>
            lockstep_conclude (S := h.setting within) hb t t' ht
        dsimp only at hlog ⊢
        rw [List.append_cons] at hlog ⊢
        exact hall hlog
      | _ => exact hrefused s s' hs hlog
    | _ => exact hrefused s s' hs hlog

end Mode.Drives

/-- **Every engine of the machine keeps in lockstep**, by induction on the nesting. -/
theorem Mode.drives (M : Mode) (n : Nat) : M.Drives (engine n) (recorder n) := by
  induction n with
  | zero =>
    have hunfinished : ∀ {ρ : Renaming} {s s' : State}
        {a : Action (Except Fault Handle)} (within : List Handle), s.Similar M ρ s' →
        M.LockstepAt ρ s s' (fun s => .aborted .unfinished s) (fun s => .aborted .unfinished s)
          (fun s => [] ++ [⟨within, .performed a s (.aborted .unfinished s)⟩])
              (Answers Renaming.rel) :=
      fun within hs => .noted hs fun _ _ => ⟨.aborted .unfinished (.refl _ _ _) hs,
        fun _ => List.forall_mem_nil _⟩
    exact ⟨fun within _ _ _ _ _ _ _ _ _ hs => hunfinished within hs,
      fun within _ _ _ _ _ _ hs => hunfinished within hs⟩
  | succ n ih =>
    exact ⟨fun within _ _ _ _ _ hc ha => ih.call_succ within hc ha,
      fun within _ _ _ hg => ih.advance_succ within hg⟩

/-- **The machine as a setting.** -/
def Mode.setting (M : Mode) (n : Nat) : Setting := (M.drives n).setting []

end ObjectModel
