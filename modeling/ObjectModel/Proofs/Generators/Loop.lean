import ObjectModel.Proofs.Generators.Snapshot
import ObjectModel.Proofs.Renaming.Lockstep

/-!
# Loops over a generator of items

`list` and `tuple` answer `iter` with a generator that holds their items. A loop asks it for one
item after another, and nobody but the loop knows the generator.

* `forEach_collecting_stale` -- **a body that collects loses the iterator**, whatever it keeps of
  what was there before the loop.
-/

namespace ObjectModel

variable {α β σ : Type} {P : Entry → Prop} {e : Engine} {r : Recorder} {w : List Handle}
  {s t u : State}

/-! ## 1. Logs, part by part -/

namespace Run

theorem run_bind_aborted {x : Run α} {f : α → Run β} {reason : Abort}
    (hx : x.run.run e s = .aborted reason t) : (x >>= f).run.run e s = .aborted reason t := by
  rw [ExceptT.run_bind, Program.run_bind, hx]
  rfl

theorem run_attempt (x : Run α) (e : Engine) (s : State) :
    (Run.attempt x).run.run e s = (x.run.run e s).andThen fun outcome t => .done (.ok outcome) t :=
  Program.run_bind e x.run _ s

theorem run_attempt_done {x : Run α} {outcome : Except Fault α}
    (hx : x.run.run e s = .done outcome t) :
    (Run.attempt x).run.run e s = .done (.ok outcome) t := by
  rw [run_attempt, hx]
  rfl

/-- How a round of a loop came back. -/
def turn : Except Fault (σ ⊕ β) → σ ⊕ Except Fault β
  | .ok (.inl next) => .inl next
  | .ok (.inr answer) => .inr (.ok answer)
  | .error fault => .inr (.error fault)

theorem loop_eq (start : σ) (body : σ → Run (σ ⊕ β)) :
    (Run.loop start body).run = Program.loop start fun acc => (body acc).run
      >>= fun outcome => pure (turn outcome) := by
  refine congrArg (Program.loop start)
    (funext fun acc => congrArg ((body acc).run >>= ·) (funext fun outcome => ?_))
  cases outcome with
  | error fault => rfl
  | ok answer => cases answer <;> rfl

theorem run_loop (start : σ) (body : σ → Run (σ ⊕ β)) (e : Engine) (s : State) :
    (Run.loop start body).run.run e s
      = repeatUntil (fun acc s => ((body acc).run.run e s).andThen fun outcome t =>
        .done (turn outcome) t) e.rounds start s := by
  rw [loop_eq, Program.loop, Program.run_iterate]
  simp only [Program.run_bind]
  change Outcome.andThen (repeatUntil (fun acc s => ((body acc).run.run e s).andThen
    fun outcome t => .done (turn outcome) t) e.rounds start s) _ = _
  cases repeatUntil (fun acc s => ((body acc).run.run e s).andThen fun outcome t =>
    .done (turn outcome) t) e.rounds start s <;> rfl

/-- A loop that goes into its second round and does not come back. -/
theorem run_loop_twice {body : σ → Run (σ ⊕ β)} {start acc : σ} {rounds : Nat} {reason : Abort}
    (he : e.rounds = rounds + 2) (hfirst : (body start).run.run e s = .done (.ok (.inl acc)) t)
    (hsecond : (body acc).run.run e t = .aborted reason u) :
    (Run.loop start body).run.run e s = .aborted reason u := by
  rw [run_loop, he]
  simp only [repeatUntil_succ, hfirst, hsecond, Outcome.andThen_done, Outcome.andThen_aborted,
    turn, goOn]

/-- **What holds of the entries of a loop**, by induction on its rounds: `I` holds before every
round. -/
theorem forall_record_loop {I : State → Prop} {body : σ → Run (σ ⊕ β)}
    (hbody : ∀ acc s, I s → (∀ y ∈ (body acc).run.record e r w s, P y) ∧
      ∀ next t, (body acc).run.run e s = .done (.ok (.inl next)) t → I t)
    (start : σ) (hs : I s) : ∀ y ∈ (Run.loop start body).run.record e r w s, P y := by
  have hround : ∀ acc s, I s →
      ∀ y ∈ ((body acc).run >>= fun outcome => pure (turn outcome)).record e r w s, P y := by
    intro acc s hs y hy
    rw [Program.record_bind] at hy
    rcases List.mem_append.mp hy with hy | hy
    · exact (hbody acc s hs).1 y hy
    · exact Program.forall_recordAfter (P := P) (fun _ _ => List.forall_mem_nil _) y hy
  have hrounds : ∀ (rounds : Nat) (acc : σ) (s : State), I s → ∀ y
      ∈ recordUntil (fun acc s => ((body acc).run >>= fun outcome => pure (turn outcome)).run e s)
        (fun acc s => ((body acc).run >>= fun outcome => pure (turn outcome)).record e r w s) rounds
            acc s, P y := by
    intro rounds
    induction rounds with
    | zero => exact fun _ _ _ => List.forall_mem_nil _
    | succ rounds ih =>
      intro acc s hs y hy
      rw [recordUntil_succ] at hy
      rcases List.mem_append.mp hy with hy | hy
      · exact hround acc s hs y hy
      · rw [Program.run_bind] at hy
        generalize ho : (body acc).run.run e s = o at hy
        cases o with
        | aborted reason t => exact absurd hy List.not_mem_nil
        | done outcome t =>
          cases outcome with
          | error fault => exact absurd hy List.not_mem_nil
          | ok answer =>
            cases answer with
            | inr answer => exact absurd hy List.not_mem_nil
            | inl next => exact ih next t ((hbody acc s hs).2 next t ho) y hy
  intro y hy
  rw [loop_eq, Program.loop, Program.record_iterate] at hy
  rcases List.mem_append.mp hy with hy | hy
  · exact hrounds e.rounds start s hs y hy
  · exact Program.forall_recordAfter (P := P) (fun _ _ => List.forall_mem_nil _) y hy

end Run

/-! ## 2. Loops over an iterable -/

/-- So many items were taken from the iterator and handed to the callback, which went on from
`start` to `acc`. -/
inductive Taken (e : Engine) (iterator : Handle) (body : σ → Handle → Run σ) :
    Nat → σ → State → σ → State → Prop where
  | none (start : σ) (s : State) : Taken e iterator body 0 start s start s
  | more {k : Nat} {start acc acc' : σ} {s t u v : State} {item : Handle} :
      Taken e iterator body k start s acc t → (nextItem iterator).run.run e t
      = .done (.ok (some item)) u → (body acc item).run.run e u = .done (.ok acc') v →
      Taken e iterator body (k + 1) start s acc' v

section

variable {e : Engine} {iterable iterator item : Handle} {body : σ → Handle → Run σ} {start acc : σ}
  {k : Nat} {s s₀ t u v : State} {fault : Fault}

/-- One round of a loop over an iterator. -/
def takeOne (iterator : Handle) (body : σ → Handle → Run σ) (acc : σ) : Run (σ ⊕ σ) := do
  match ← nextItem iterator with
  | none => return .inr acc
  | some item => return .inl (← body acc item)

theorem forEach_eq (iterable : Handle) (start : σ) (body : σ → Handle → Run σ) :
    forEach iterable start body = iter iterable >>= fun iterator =>
      Run.loop start (takeOne iterator body) :=
  rfl

/-- Behind the items that were taken, the rest of the rounds is left. -/
theorem Taken.rounds (h : Taken e iterator body k start s acc t) (rest : Nat) :
    repeatUntil (fun acc s => ((takeOne iterator body acc).run.run e s).andThen fun outcome t =>
      .done (Run.turn outcome) t) (rest + k) start s
      = repeatUntil (fun acc s => ((takeOne iterator body acc).run.run e s).andThen fun outcome t =>
        .done (Run.turn outcome) t) rest acc t := by
  induction h generalizing rest with
  | none => rfl
  | @more k start acc acc' s t u v item _ hitem hbody ih =>
    have hround : (takeOne iterator body acc).run.run e t = .done (.ok (.inl acc')) v :=
      (Run.run_bind_ok hitem).trans ((Run.run_bind_ok hbody).trans rfl)
    rw [show rest + (k + 1) = rest + 1 + k by omega, ih, repeatUntil_succ]
    simp only [hround, Outcome.andThen_done, Run.turn, goOn]

/-- **A round that does not go on ends the loop.** -/
theorem Taken.ends {answer : Except Fault σ} (h : Taken e iterator body k start s₀ acc t)
    (hk : k < e.rounds) (hiter : (iter iterable).run.run e s = .done (.ok iterator) s₀)
    (hround : (takeOne iterator body acc).run.run e t = .done (answer.map .inr) v) :
    (forEach iterable start body).run.run e s = .done answer v := by
  obtain ⟨rest, hrounds⟩ : ∃ rest, e.rounds = rest + 1 + k := ⟨e.rounds - 1 - k, by omega⟩
  rw [forEach_eq, Run.run_bind_ok hiter, Run.run_loop, hrounds, h.rounds, repeatUntil_succ]
  simp only [hround, Outcome.andThen_done]
  cases answer <;> rfl

theorem rounds_engine (n : Nat) : (engine n).rounds = n := by
  cases n <;> rfl

/-- The end of the iterator is the end of the loop. -/
theorem Taken.ended {n : Nat} (h : Taken (engine n) iterator body k start s₀ acc t) (hk : k < n)
    (hiter : (iter iterable).run.run (engine n) s = .done (.ok iterator) s₀)
    (hend : (nextItem iterator).run.run (engine n) t = .done (.ok Option.none) v) :
    (forEach iterable start body).run.run (engine n) s = .done (.ok acc) v :=
  h.ends (by rwa [rounds_engine]) hiter (Run.run_bind_ok hend)

/-- A fault of the callback ends the loop. -/
theorem Taken.failed {n : Nat} (h : Taken (engine n) iterator body k start s₀ acc t) (hk : k < n)
    (hiter : (iter iterable).run.run (engine n) s = .done (.ok iterator) s₀)
    (hitem : (nextItem iterator).run.run (engine n) t = .done (.ok (some item)) u)
    (hbody : (body acc item).run.run (engine n) u = .done (.error fault) v) :
    (forEach iterable start body).run.run (engine n) s = .done (.error fault) v :=
  h.ends (by rwa [rounds_engine]) hiter ((Run.run_bind_ok hitem).trans (Run.run_bind_error hbody))

/-- These items were handed out by the iterator, one request after the other. -/
inductive Handed (e : Engine) (iterator : Handle) (s : State) : List Handle → State → Prop where
  | none : Handed e iterator s [] s
  | more {items : List Handle} {item : Handle} {t u : State} : Handed e iterator s items t →
      (nextItem iterator).run.run e t = .done (.ok (some item)) u →
      Handed e iterator s (items ++ [item]) u

/-- **Collecting** gives what the iterator hands out before its end. -/
theorem Handed.run_collect {n : Nat} {items : List Handle}
    (h : Handed (engine n) iterator s₀ items t) (hn : items.length < n)
    (hiter : (iter iterable).run.run (engine n) s = .done (.ok iterator) s₀)
    (hend : (nextItem iterator).run.run (engine n) t = .done (.ok Option.none) v) :
    (collect iterable).run.run (engine n) s = .done (.ok items) v := by
  have htaken : Taken (engine n) iterator (fun items item => return items.push item) items.length
      #[] s₀ items.toArray t := by
    clear hn hend
    induction h with
    | none => exact .none #[] s₀
    | more _ hitem ih =>
      rw [List.length_append, ← List.push_toArray]
      exact .more ih hitem rfl
  exact Run.run_bind_ok (htaken.ended hn hiter hend)

end

/-! ## 3. Logs of requests -/

/-- What holds of the entry of a call of the builtin member `m` on `c`. -/
def Entry.CalledWith (P : Entry → Prop) (w : List Handle) (c : Handle) (m : Member) (n : Nat)
    (s : State) : Prop :=
  ∀ {f : Handle} {o : Object} {label : String}, s.heap.get? f = some o → o.payload = .function label
    (.member m) → P ⟨w, .performed (.call f [c]) s ((Action.call f [c]).perform (engine (n + 1)) s)⟩

namespace Entry.Suits

variable {c g : Handle} {name : String} {m : Member} {n : Nat} {onHook : Option Handle → Run Handle}

theorem member (hP : Suits P) (hcall : ∀ hook, onHook (some hook) = ObjectModel.call hook [c])
    (hm : s.heap.Answers c name m) (hcalled : CalledWith P w c m n s)
    (hmember : ∀ x ∈ (m.run [c]).run.record (engine n) (recorder n) w s.enter, P x) :
    ∀ x ∈ (findHook c name >>= onHook).run.record (engine (n + 1)) (recorder (n + 1)) w s, P x := by
  obtain ⟨f, o, label, hhook, hget, hp⟩ := hm
  have hfound : (findHook c name).run.run (engine (n + 1)) s = .done (.ok (some f)) s :=
    Run.run_inspect hhook
  have hplain : ∀ entries, o.payload ≠ .dict entries := by
    intro entries he
    cases hp.symm.trans he
  intro x hx
  rw [Run.record_bind_ok hfound, hcall] at hx
  rcases List.mem_append.mp hx with hx | hx
  · exact Program.forall_record_perform rfl hP.hook (fun _ _ => List.forall_mem_nil _) x hx
  · exact forall_record_call hget hp (fun _ => hP.object (s := s.enter) hget hplain) hmember
      (hcalled hget hp) x hx

section

variable (hP : Suits P) {x : Generator} (hg : s.Stands g x)
  (hm : s.heap.Answers g "__next__" (.generator .next))
  (hcalled : CalledWith P w g (.generator .next) (n + 1) s)
  (hadvance : ∀ t o, P ⟨w, .performed (.advance g) t o⟩)
    (hresumed : ∀ c t o, x = .suspended c → P ⟨w, .resumed g c t o⟩)
  (hlog : ∀ c, x = .suspended c →
    ∀ y ∈ c.resume.run.record (engine n) (recorder n) (g :: w)
      (s.enter.setGenerator g .running).enter, P y)

include hP hg hm hcalled hadvance hresumed hlog

/-- **A request** does what the computation of the generator does. -/
theorem next :
    ∀ y ∈ (ObjectModel.next g).run.record (engine (n + 2)) (recorder (n + 2)) w s, P y := by
  obtain ⟨o, hget, hp⟩ := hg
  have hinside : ∀ y ∈ recordAdvance (engine n) (recorder n) w g s.enter, P y := by
    by_cases hc : ∃ c, x = .suspended c
    · obtain ⟨c, rfl⟩ := hc
      rw [recordAdvance_suspended (s := s.enter) _ _ _ hget hp]
      intro y hy
      rcases List.mem_append.mp hy with hy | hy
      · exact hlog c rfl y hy
      · rcases List.mem_cons.mp hy with rfl | hy
        · exact hresumed c _ _ rfl
        · exact Program.forall_recordAfter (fun back t => hP.conclude back t) y hy
    · have hne : ∀ c, o.payload ≠ .generator (.suspended c) := by
        intro c he
        cases hp.symm.trans he
        exact hc ⟨c, rfl⟩
      rw [recordAdvance_refusal (s := s.enter) _ _ _ hget hne, hp]
      cases x with
      | suspended c => exact absurd ⟨c, rfl⟩ hc
      | running => exact hP.raiseMessage .valueError _ s.enter
      | stopped result => exact hP.raise .stopIteration [] s.enter
  have hrequest : ∀ y ∈ (ObjectModel.advance g).run.record (engine (n + 1))
      (recorder (n + 1)) w s.enter, P y := by
    intro y hy
    have hrecord : (ObjectModel.advance g).run.record (engine (n + 1)) (recorder (n + 1)) w s.enter
        = recordAdvance (engine n) (recorder n) w g s.enter ++
          [⟨w, .performed (.advance g) s.enter
              ((Action.advance g).perform (engine (n + 1)) s.enter)⟩] := Program.record_act _ _
    rw [hrecord] at hy
    rcases List.mem_append.mp hy with hy | hy
    · exact hinside y hy
    · rw [List.mem_singleton.mp hy]
      exact hadvance _ _
  have hmember : ∀ y ∈ ((Member.generator .next).run [g]).run.record (engine (n + 1))
      (recorder (n + 1)) w s.enter, P y := by
    refine Run.forall_record_bind (hP.look (s := s.enter) hget fun entries he => ?_)
      fun o' t hrun => ?_
    · cases hp.symm.trans he
    · have hobject : (ObjectModel.object g).run.run (engine (n + 1)) s.enter
          = .done (.ok o) s.enter := Run.run_inspect hget
      obtain ⟨h, rfl⟩ := Outcome.done.inj (hobject.symm.trans hrun)
      cases h
      rw [if_pos (show o.isGenerator = true by rw [Object.isGenerator, hp])]
      exact hrequest
  exact hP.member (fun _ => rfl) hm hcalled hmember

theorem nextItem :
    ∀ y ∈ (ObjectModel.nextItem g).run.record (engine (n + 2)) (recorder (n + 2)) w s, P y := by
  refine Run.forall_record_bind
    (Run.forall_record_attempt (hP.next hg hm hcalled hadvance hresumed hlog)) fun outcome t _ => ?_
  cases outcome with
  | ok item => exact List.forall_mem_nil _
  | error fault =>
    refine Run.forall_record_bind (hP.isStopIteration fault t) fun stop u _ => ?_
    cases stop <;> exact List.forall_mem_nil _

end

end Entry.Suits

/-- An entry that is neither a collection nor a hand-over, and runs code that asks for no
numbers. -/
structure Entry.Calm (x : Entry) : Prop where
  discreet : ∀ dead, x.Discreet dead
  roots : ∀ g, x.Roots g

theorem Entry.suits_calm : Entry.Suits Entry.Calm where
  allocate := ⟨fun _ => trivial, fun _ => trivial⟩
  setAttribute := ⟨fun _ => trivial, fun _ => trivial⟩
  message := ⟨fun _ => trivial, fun _ => trivial⟩
  isInstance := ⟨fun _ => trivial, fun _ => trivial⟩
  hook := ⟨fun _ => trivial, fun _ => trivial⟩
  object _ _ := ⟨fun _ => trivial, fun _ => trivial⟩

/-- A call of a builtin member is calm. -/
theorem Entry.calm_called (w : List Handle) (c : Handle) (m : Member) (n : Nat) (s : State) :
    CalledWith Calm w c m n s := by
  intro f o label hget hp
  refine ⟨fun dead o' name' code hget' hp' => ?_, fun _ => trivial⟩
  rw [hget] at hget'
  cases hget'
  rw [hp] at hp'
  cases hp'
  trivial

theorem calm_inspect (look : State → Option α) (s : State) :
    ∀ x ∈ (inspect look).run.record e r w s, x.Calm :=
  Program.forall_record_perform rfl ⟨fun _ => trivial, fun _ => trivial⟩ fun _ _ =>
    List.forall_mem_nil _

section

variable {c f : Handle} {name : String} {m : Member} {n : Nat} {onHook : Option Handle → Run Handle}

/-- A tuple answers `iter` calmly. -/
theorem calm_iter_tuple (hm : s.heap.Answers c "__iter__" (.tuple .iter)) :
    ∀ x ∈ (iter c).run.record (engine (n + 1)) (recorder (n + 1)) w s, x.Calm := by
  refine Entry.suits_calm.member (fun _ => rfl) hm (Entry.calm_called _ _ _ _ _)
    (Run.forall_record_bind ?_ fun items t _ => ?_)
  · refine Run.forall_record_bind (Run.forall_record_bind (calm_inspect _ _) fun _ _ _ =>
      List.forall_mem_nil _) fun items t _ => ?_
    cases items with
    | none => exact Entry.suits_calm.raiseMessage .typeError _ t
    | some items => exact List.forall_mem_nil _
  · exact Program.forall_record_perform rfl ⟨fun _ => trivial, fun _ => trivial⟩ fun _ _ =>
      List.forall_mem_nil _

end

/-! ## 4. A generator of items -/

/-- **A generator of items that can be asked**: its type has the builtin members, and there is room
for a call. -/
structure State.Ready (s : State) (g : Handle) (pending : List Handle) : Prop where
  orderly : s.Orderly
  room : s.callDepth < s.limits.callDepth
  next : Bootstrap.OffersMember s.heap (.generator .next)
  stands : ∃ held covered, s.Stands g (.suspended (.items held pending covered))

/-- The states differ in the object `g` alone, apart from new objects. -/
structure State.Beside (g : Handle) (s t : State) : Prop where
  globals : t.globals = s.globals
  pins : t.pins = s.pins
  callDepth : t.callDepth = s.callDepth
  kept : ∀ {k : Handle} {o : Object}, k ≠ g → s.heap.get? k = some o → t.heap.get? k = some o

theorem State.Beside.trans {g : Handle} (h : s.Beside g t) (h' : t.Beside g u) : s.Beside g u where
  globals := h'.globals.trans h.globals
  pins := h'.pins.trans h.pins
  callDepth := h'.callDepth.trans h.callDepth
  kept hk hget := h'.kept hk (h.kept hk hget)

theorem State.beside_setGenerator (s : State) (g : Handle) (x : Generator) :
    s.Beside g (s.setGenerator g x) where
  globals := rfl
  pins := rfl
  callDepth := rfl
  kept hk hget := by
    rw [setGenerator, modify, Heap.get?_modify, if_neg hk]
    exact hget

/-- **What a builtin type offers is not the generator**: where all other objects are kept, it is. -/
theorem State.Stands.offers_of_kept {g : Handle} {x : Generator}
    {b : BuiltinType} {name : String} {payload : Payload} (hg : s.Stands g x)
    (hkept : ∀ {k : Handle} {o : Object}, k ≠ g → s.heap.get? k = some o → t.heap.get? k = some o)
    (ho : s.Orderly) (h : Bootstrap.Offers s.heap b.handle name payload)
    (hp : ∀ x, payload ≠ .generator x) : Bootstrap.Offers t.heap b.handle name payload := by
  obtain ⟨object, hobject, hx⟩ := hg
  have hne : ∀ {k : Handle} {o : Object}, s.heap.get? k = some o → (∀ x, o.payload ≠ .generator x) →
      k ≠ g := by
    rintro k o hk hno rfl
    rw [hobject] at hk
    cases hk
    exact hno x hx
  obtain ⟨o, member, f, hget, hm, hf, hfp⟩ := h
  obtain ⟨o', hget', htype⟩ := ho.heap.builtin b
  rw [hget] at hget'
  cases hget'
  refine ⟨o, member, f, hkept (hne hget fun x he => ?_) hget, hm,
    hkept (hne hf fun x he => ?_) hf, hfp⟩
  · rw [htype] at he
    cases he
  · exact hp x (hfp.symm.trans he)

namespace State.Stands

variable {g : Handle} {x : Generator} {n : Nat}

theorem answers {name label : String} {m : Member} (hg : s.Stands g x) (ho : s.Orderly)
    (hm : Bootstrap.Offers s.heap BuiltinType.generator.handle name (.function label (.member m))) :
    s.heap.Answers g name m := by
  obtain ⟨o, hget, hp⟩ := hg
  have htype : o.type = BuiltinType.generator.handle := ho.heap.kind hget (by rw [hp]; rfl)
  refine .of_offers ho.heap hget ?_ (htype ▸ hm)
  rw [htype]
  exact ho.heap.isType_builtin .generator

theorem run_next (hg : s.Stands g x) (hm : s.heap.Answers g "__next__" (.generator .next))
    (hd : s.Room) :
    (ObjectModel.next g).run.run (engine (n + 2)) s
      = (advanceWith (engine n) g s.enter).onState State.leave := by
  obtain ⟨o, hget, hp⟩ := hg
  have hmember : ((Member.generator .next).run [g]).run.run (engine (n + 1)) s.enter
      = advanceWith (engine n) g s.enter := by
    refine (run_object_bind (s := s.enter) hget).trans ?_
    have hgenerator : o.isGenerator = true := by rw [Object.isGenerator, hp]
    rw [if_pos hgenerator]
    exact Program.run_act _ _ _
  rw [← hmember]
  exact run_hook _ (fun _ => rfl) hm hd

end State.Stands

namespace State.Ready

variable {g h : Handle} {pending : List Handle} {n : Nat}

theorem answers (hs : s.Ready g pending) : s.heap.Answers g "__next__" (.generator .next) := by
  obtain ⟨_, _, hg⟩ := hs.stands
  exact hg.answers hs.orderly hs.next

theorem run_next (hs : s.Ready g pending) :
    (ObjectModel.next g).run.run (engine (n + 2)) s
      = (advanceWith (engine n) g s.enter).onState State.leave := by
  obtain ⟨_, _, hg⟩ := id hs.stands
  exact hg.run_next hs.answers hs.room

/-- **The next item is handed out**, and the generator is ready for the others. -/
theorem run_nextItem (hs : s.Ready g (h :: pending)) :
    ∃ t, (nextItem g).run.run (engine (n + 2)) s = .done (.ok (some h)) t ∧ t.Ready g pending ∧
      s.Beside g t := by
  obtain ⟨held, covered, o, hget, hp⟩ := id hs.stands
  let rest : Generator := .suspended (.items held pending (List.subset_of_cons_subset covered))
  have hnext : (ObjectModel.next g).run.run (engine (n + 2)) s
      = .done (.ok h) ((s.setGenerator g .running).setGenerator g rest) := by
    rw [hs.run_next, advanceWith_suspended _ (s := s.enter) hget hp]
    rfl
  have hbeside : s.Beside g ((s.setGenerator g .running).setGenerator g rest) :=
    (s.beside_setGenerator g _).trans (State.beside_setGenerator _ g _)
  refine ⟨(s.setGenerator g .running).setGenerator g rest, ?_, ?_, hbeside⟩
  · exact Run.run_bind_ok (Run.run_attempt_done hnext)
  · have hoffers := State.Stands.offers_of_kept ⟨o, hget, hp⟩ hbeside.kept hs.orderly hs.next nofun
    exact ⟨(hs.orderly.setGenerator g _).setGenerator g _, hs.room, hoffers, held, _,
      State.stands_setGenerator (State.stands_setGenerator ⟨o, hget, hp⟩ _) _⟩

/-- A request for the next item is calm. -/
theorem calm_nextItem (hs : s.Ready g pending) :
    ∀ x ∈ (nextItem g).run.record (engine (n + 2)) (recorder (n + 2)) w s, x.Calm := by
  obtain ⟨held, covered, hg⟩ := id hs.stands
  refine Entry.suits_calm.nextItem hg hs.answers (Entry.calm_called _ _ _ _ _)
    (fun _ _ => ⟨fun _ => trivial, fun _ => trivial⟩) ?_ ?_
  · rintro _ t o ⟨⟩
    exact ⟨fun _ => trivial, fun _ => trivial⟩
  · rintro _ ⟨⟩ x hx
    cases pending <;> exact absurd hx List.not_mem_nil

/-- A collection that keeps the generator leaves it ready. -/
theorem collect (hs : s.Ready g pending) (hd : s.callDepth = 0) {extra : List Handle}
    (hg : s.heap.Leads (s.IsRoot extra) g) : (s.collect extra).2.Ready g pending := by
  obtain ⟨heq, hc⟩ := hs.orderly.regular.collected hd extra
  have hkept : ∀ {k : Handle} {o : Object}, s.heap.Leads (s.IsRoot extra) k →
      s.heap.get? k = some o → (s.collect extra).2.heap.get? k = some o := by
    intro k o hk hget
    rw [heq]
    exact (hc.get?_eq k ((hc.live_iff k).mpr ⟨Heap.contains_of_get? hget, hk⟩)).trans hget
  have horderly : (s.collect extra).2.Orderly :=
    hs.orderly.perform (a := .collect extra) (engine 0) rfl nofun
  refine ⟨horderly, ?_, ?_, ?_⟩
  · rw [heq]
    exact hs.room
  · obtain ⟨o, member, f, hget, hm, hf, hp⟩ := hs.next
    have howner : s.heap.Leads (s.IsRoot extra) BuiltinType.generator.handle :=
      .root (.type .generator)
    obtain ⟨name, hname⟩ := OrderedMap.mem_values.mp (OrderedMap.mem_values_of_get? hm)
    have hmember : s.heap.Leads (s.IsRoot extra) member := .step howner hget (.attributeValue hname)
    exact ⟨o, member, f, hkept howner hget, hm, hkept hmember hf, hp⟩
  · obtain ⟨held, covered, o, hget, hp⟩ := hs.stands
    exact ⟨held, covered, o, hkept hg hget, hp⟩

end State.Ready

/-! ## 5. Losing the iterator -/

/-- **An iterator over items is made**: it is new, and it can be asked. -/
theorem Heap.Contents.ready {c h : Handle} {pending : List Element}
    (hc : s.heap.Contents c (.item h :: pending)) (hs : s.Orderly)
    (hd : s.callDepth < s.limits.callDepth)
    (hnext : Bootstrap.OffersMember s.heap (.generator .next)) (n : Nat) :
    ∃ g rest t, (iter c).run.run (engine (n + 1)) s = .done (.ok g) t ∧ t.Ready g (h :: rest) ∧
      s.Beside g t ∧ ¬ s.Live g := by
  obtain ⟨m, hm, computation, hsupplies, hrun⟩ := hc.member
  obtain ⟨held, rest, covered, he⟩ := hsupplies.exists_items
  cases he
  let made := s.allocate (.ofCoroutine (.items held (h :: rest) covered))
  refine ⟨made.1, rest, made.2, ?_, ?_, ?_, ?_⟩
  · have hiter : (iter c).run.run (engine (n + 1)) s
        = ((m.run [c]).run.run (engine n) s.enter).onState State.leave :=
      run_hook _ (fun _ => rfl) hm hd
    rw [hiter, hrun (engine n) s.enter rfl]
    rfl
  · have hfits : ∀ o, (Action.allocate (.ofCoroutine (.items held (h :: rest) covered))).made?
        = some o → s.Fits o := by
      rintro _ ⟨⟩
      exact .coroutine _
    exact ⟨hs.perform (engine 0) rfl hfits, hd, hnext.allocate hs.regular.heap _, held, covered,
      State.stands_allocate hs.regular.heap rfl⟩
  · exact ⟨rfl, rfl, rfl, fun _ hget => Heap.get?_allocate_of_live hs.regular.heap hget⟩
  · exact Heap.not_contains_iff.mpr (Heap.get?_allocate_fresh hs.regular.heap _)

/-- **Nothing leads to a new object** that only its maker knows: what the roots lead to was live
before. -/
theorem State.Beside.not_leads {g : Handle} {extra : List Handle} (hb : s.Beside g t) (hs : s.Sound)
    (hg : ¬ s.Live g) (hextra : ∀ h ∈ extra, s.Live h) : ¬ t.heap.Leads (t.IsRoot extra) g := by
  have hlive : ∀ {h : Handle}, t.heap.Leads (t.IsRoot extra) h → s.Live h := by
    intro h hl
    induction hl with
    | root hroot =>
      have hroot : s.IsRoot extra _ := hroot.congr hb.globals hb.pins
      cases hroot with
      | global hm => exact hs.root (.global hm)
      | pinned hm => exact hs.root (.pinned hm)
      | extra hm => exact hextra _ hm
      | _ => exact hs.root (by constructor)
    | @step h r o _ hget href ih =>
      obtain ⟨o', hget'⟩ := Heap.contains_iff.mp ih
      have hne : h ≠ g := fun he => hg (he ▸ ih)
      obtain rfl : o' = o := Option.some.inj ((hb.kept hne hget').symm.trans hget)
      exact hs.stored hget' href
  exact fun hl => hg (hlive hl)

theorem run_nextItem_stale {g : Handle} (hg : s.heap.get? g = none) :
    (nextItem g).run.run e s = .aborted .stale s := by
  have hhook : s.heap.hook g "__next__" = none := by simp [Heap.hook, Heap.typeOf, hg]
  have hnext : (next g).run.run e s = .aborted .stale s := Run.run_inspect_bind_stale hhook
  rw [nextItem, ExceptT.run_bind, Program.run_bind, Run.run_attempt, hnext]
  rfl

theorem run_collectGarbage (hd : s.callDepth = 0) (extra : List Handle) :
    (collectGarbage extra).run.run e s
      = .done (.ok (s.heap.collect (s.roots extra)).1) (s.collect extra).2 := by
  refine (Program.run_act _ _ _).trans ?_
  rw [Action.perform, State.collect, if_neg (by omega)]

/-- **A body that collects loses the iterator.** It may keep whatever was live before the loop, but
nothing of that leads to the iterator. So the loop looks up a stale handle when it asks for the
second item, whether there is one or not. -/
theorem forEach_collecting_stale {c h : Handle} {pending : List Element}
    {extra : List Handle} {start : σ} {body : σ → Handle → Run σ} {n : Nat}
    (hs : s.Sound) (ho : s.Orderly) (hd : s.callDepth = 0)
    (hroom : 0 < s.limits.callDepth) (hc : s.heap.Contents c (.item h :: pending))
    (hnext : Bootstrap.OffersMember s.heap (.generator .next))
    (hextra : ∀ k ∈ extra, s.Live k) (hbody : ∀ acc item t, t.callDepth = 0 →
      ∃ acc', (body acc item).run.run (engine (n + 2)) t = .done (.ok acc') (t.collect extra).2) :
    ∃ t, (forEach c start body).run.run (engine (n + 2)) s = .aborted .stale t := by
  obtain ⟨g, rest, t, hiter, hready, hbeside, hnew⟩ := hc.ready ho (hd ▸ hroom) hnext (n + 1)
  obtain ⟨u, hitem, hready', hbeside'⟩ := hready.run_nextItem (n := n)
  have hb := hbeside.trans hbeside'
  have hdepth : u.callDepth = 0 := hb.callDepth.trans hd
  obtain ⟨acc, hcollect⟩ := hbody start h u hdepth
  obtain ⟨heq, hcollected⟩ := hready'.orderly.regular.collected hdepth extra
  have hgone : (u.collect extra).2.heap.get? g = none := by
    rw [heq]
    exact Heap.not_contains_iff.mp fun hk => hb.not_leads hs hnew hextra
      ((hcollected.live_iff g).mp hk).2
  refine ⟨(u.collect extra).2, ?_⟩
  rw [forEach, Run.run_bind_ok hiter]
  refine Run.run_loop_twice rfl
    ((Run.run_bind_ok hitem).trans ((Run.run_bind_ok hcollect).trans rfl)) ?_
  rw [ExceptT.run_bind, Program.run_bind, run_nextItem_stale hgone]
  rfl

/-! ## 6. A pinned tuple of one number -/

namespace State

/-- A tuple of one number, pinned. -/
def pinnedSingleton (s : State) (n : Int64) : Handle × State :=
  let item := s.allocate (.ofInt n)
  let tuple := item.2.allocate (.ofItems [item.1])
  (tuple.1, { tuple.2 with pins := tuple.2.pins.pin tuple.1 })

theorem run_pinnedSingleton (s : State) (n : Int64) (bound : Nat) (frame : Script.Frame) :
    ((Script.Expr.unary .pin (.list .tuple [.int n])).eval.run.run frame).run (engine bound) s
      = .done (.ok .nothing, frame) (s.pinnedSingleton n).2 := rfl

theorem get?_pinnedSingleton {s : State} (hs : s.heap.WellFormed) (n : Int64) :
    (s.pinnedSingleton n).2.heap.get? (s.pinnedSingleton n).1
      = some (.ofItems [(s.allocate (.ofInt n)).1]) :=
  Heap.get?_allocate_self (hs.allocate _) _

/-- Such a tuple in the first state, and what its type and that of generators offer. -/
theorem pinnedSingleton_initial :
    let made := (State.initial .standard (.ofLines [])).pinnedSingleton 5
    made.2.ReachableBy Entry.Careful ∧ made.2.callDepth = 0 ∧ 0 < made.2.limits.callDepth ∧
      0 < made.2.pins.count made.1 ∧ made.2.heap.Answers made.1 "__iter__" (.tuple .iter) ∧
      Bootstrap.OffersMember made.2.heap (.generator .next) := by
  refine ⟨.between (.step 0 (.unary .pin (.list .tuple [.int 5])) _ .start ?_
    (run_pinnedSingleton _ 5 0 _)), ?_⟩
  · decide +kernel
  · decide +kernel

end State

/-- The body of a loop that counts the items and collects. -/
def countAndCollect (count : Nat) (_item : Handle) : Run Nat := do
  let _ ← collectGarbage []
  return count + 1

theorem run_countAndCollect (hd : s.callDepth = 0) (count : Nat) (item : Handle) :
    (countAndCollect count item).run.run e s = .done (.ok (count + 1)) (s.collect []).2 :=
  (Run.run_bind_ok (run_collectGarbage hd [])).trans rfl

/-- A loop over a pinned tuple of one number that collects between its items looks up a stale
handle. -/
theorem forEach_pinned_tuple_stale :
    let made := (State.initial .standard (.ofLines [])).pinnedSingleton 5
    made.2.ReachableBy Entry.Careful ∧ made.2.callDepth = 0 ∧
        0 < made.2.pins.count made.1 ∧ made.2.heap.Contents made.1
        [.item ((State.initial .standard (.ofLines [])).allocate (.ofInt 5)).1] ∧ ∀ n, ∃ t,
        (forEach made.1 0 countAndCollect).run.run (engine (n + 2)) made.2 = .aborted .stale t := by
  intro made
  obtain ⟨hs, hd, hroom, hpinned, hiter, hnext⟩ := State.pinnedSingleton_initial
  have hget := State.get?_pinnedSingleton (State.regular_initial .standard (.ofLines [])).heap 5
  refine ⟨hs, hd, hpinned, .tuple hiter hget rfl, fun n => ?_⟩
  exact forEach_collecting_stale hs.intact.sound hs.orderly hd hroom (.tuple hiter hget rfl) hnext
    (List.forall_mem_nil _) fun count item t ht => ⟨_, run_countAndCollect ht count item⟩

end ObjectModel
