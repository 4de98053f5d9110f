import ObjectModel.Proofs.Faults.Candid
import ObjectModel.Proofs.Lists.Sequence
import ObjectModel.Proofs.Types.Naming

/-!
# Asking a generator

`next` looks up `__next__`, calls it, and the builtin member passes the request on to the generator.
What is said here holds of every generator, whatever its computation is.

* `State.Requests.history_next`, `State.Requests.untouched_next` -- `next` asks its generator once,
  and no other one but through the computation of that one.
-/

namespace ObjectModel

variable {α β σ : Type} {s t u : State} {g h k v : Handle} {x y : Generator}
  {c : Coroutine} {n : Nat}

/-! ## 1. Logs within a computation -/

/-- The entry as it is noted within the computations `outer`. -/
def Entry.under (outer : List Handle) (x : Entry) : Entry := ⟨x.within ++ outer, x.event⟩

/-- The recorder notes the same within other computations. -/
structure Recorder.Nests (r : Recorder) : Prop where
  call : ∀ w outer callee args s, r.call (w ++ outer) callee args s
    = (r.call w callee args s).map (Entry.under outer)
  advance : ∀ w outer generator s, r.advance (w ++ outer) generator s
    = (r.advance w generator s).map (Entry.under outer)

section

variable {e : Engine} {r : Recorder} {w outer : List Handle}

theorem Recorder.Nests.inside (hr : r.Nests) (a : Action β) (s : State) :
    a.inside r (w ++ outer) s = (a.inside r w s).map (Entry.under outer) := by
  cases a with
  | call callee args => exact hr.call w outer callee args s
  | advance generator => exact hr.advance w outer generator s
  | _ => rfl

theorem map_recordAfter (f : Entry → Entry) {o : Outcome β} {next next' : β → State → List Entry}
    (h : ∀ answer t, next' answer t = (next answer t).map f) :
    recordAfter o next' = (recordAfter o next).map f := by
  cases o with
  | done answer t => exact h answer t
  | aborted reason t => rfl

theorem map_recordUntil (f : Entry → Entry) {body : σ → State → Outcome (σ ⊕ β)}
    {inside inside' : σ → State → List Entry} (h : ∀ acc s, inside' acc s = (inside acc s).map f)
    (rounds : Nat) (acc : σ) (s : State) :
    recordUntil body inside' rounds acc s = (recordUntil body inside rounds acc s).map f := by
  induction rounds generalizing acc s with
  | zero => rfl
  | succ rounds ih =>
    rw [recordUntil, recordUntil, List.map_append, h]
    refine congrArg _ ?_
    split
    · exact ih _ _
    · rfl

/-- **A program does the same within other computations.** -/
theorem Program.record_under (hr : r.Nests) (p : Program α) (s : State) :
    p.record e r (w ++ outer) s = (p.record e r w s).map (Entry.under outer) := by
  induction p generalizing s with
  | pure value => rfl
  | perform action next ih =>
    rw [record_perform, record_perform, List.map_append, List.map_append, hr.inside,
      map_recordAfter _ fun answer t => ih answer t]
    rfl
  | iterate body start next ihbody ih =>
    rw [record_iterate, record_iterate, List.map_append,
      map_recordUntil _ fun acc t => ihbody acc t, map_recordAfter _ fun answer t => ih answer t]

end

theorem nests_recorder (n : Nat) : (recorder n).Nests := by
  induction n with
  | zero => exact ⟨fun _ _ _ _ _ => rfl, fun _ _ _ _ => rfl⟩
  | succ n ih =>
    refine ⟨fun w outer callee args s => ?_, fun w outer g s => ?_⟩
    · change recordCall _ _ _ _ _ _ = (recordCall _ _ _ _ _ _).map _
      unfold recordCall
      split
      · rfl
      · exact Program.record_under ih _ _
    · change recordAdvance _ _ _ _ _ = (recordAdvance _ _ _ _ _).map _
      cases hget : s.heap.get? g with
      | none =>
        unfold recordAdvance
        rw [hget]
        rfl
      | some object =>
        by_cases hc : ∃ c, object.payload = .generator (.suspended c)
        · obtain ⟨c, hc⟩ := hc
          have hinner : c.resume.run.record (engine n) (recorder n) (g :: w ++ outer)
              (s.setGenerator g .running).enter
              = (c.resume.run.record (engine n) (recorder n) (g :: w)
                  (s.setGenerator g .running).enter).map (Entry.under outer) :=
            Program.record_under ih _ _
          rw [recordAdvance_suspended _ _ _ hget hc, recordAdvance_suspended _ _ _ hget hc,
            List.map_append, List.map_cons, ← hinner,
            map_recordAfter _ fun back t => Program.record_under ih (conclude back).run t]
          rfl
        · have hne : ∀ c, object.payload ≠ .generator (.suspended c) := fun c h => hc ⟨c, h⟩
          rw [recordAdvance_refusal _ _ _ hget hne, recordAdvance_refusal _ _ _ hget hne]
          exact Program.record_under ih _ _

/-- What holds of the events of a log holds of them within a computation. -/
theorem Program.forall_within {P : Event → Prop} {w : List Handle} {p : Program α}
    (hp : ∀ x ∈ p.log n s, P x.event) : ∀ x ∈ p.record (engine n) (recorder n) w s, P x.event := by
  intro x hx
  have hrecord : p.record (engine n) (recorder n) ([] ++ w) s = (p.log n s).map (Entry.under w) :=
    record_under (nests_recorder n) p s
  rw [List.nil_append] at hrecord
  rw [hrecord] at hx
  obtain ⟨y, hy, rfl⟩ := List.mem_map.mp hx
  exact hp y hy

/-! ## 2. Generators that are left alone -/

namespace Generator

variable {events : List Event} {behind : Option Generator}

theorem Request.ne_nil (h : Request g x events behind) : events ≠ [] := by
  cases h <;> exact List.cons_ne_nil _ _

theorem Lifetime.of_nil (h : Lifetime g x events behind) (he : events = []) : behind = some x := by
  cases h with
  | rest => rfl
  | next hr _ => exact absurd (List.append_eq_nil_iff.mp he).1 hr.ne_nil
  | last hr => exact absurd he hr.ne_nil

/-- A generator that has stopped stays as it is, whoever asks it. -/
theorem Lifetime.of_stopped (h : Lifetime g x events behind) :
    ∀ result, x = stopped result → ∀ y, behind = some y → y = stopped result := by
  induction h with
  | rest x =>
    rintro result rfl _ ⟨⟩
    rfl
  | next hr _ ih =>
    rintro result rfl
    cases hr
    exact ih result rfl
  | last _ =>
    intro _ _ y hy
    cases hy

theorem history_eq_nil {l : List Entry} (hl : ∀ e ∈ l, concerns g e.event = false) :
    history g l = [] := by
  unfold history
  rw [List.map_eq_nil_iff, List.filter_eq_nil_iff]
  intro e he
  simp [hl e he]

end Generator

/-- The entry does not ask a generator that is to be kept, and writes no attribute of their type. -/
structure Entry.Quiet (keep : Handle → Prop) (x : Entry) : Prop where
  spares : x.Spares (· = BuiltinType.generator.handle)
  concerns : ∀ k, keep k → Generator.concerns k x.event = false

/-- **Generators that are to be kept are in the state they were in**, and the members of their type
are the same. -/
structure State.Leaves (keep : Handle → Prop) (s t : State) : Prop where
  spares : s.Spares (· = BuiltinType.generator.handle) t
  stands : ∀ {k : Handle} {x : Generator}, keep k → x ≠ .running → s.Stands k x → t.Stands k x

namespace State

variable {keep keep' : Handle → Prop}

theorem Leaves.trans (h : s.Leaves keep t) (h' : t.Leaves keep u) : s.Leaves keep u where
  spares := h.spares.trans h'.spares
  stands hk hx hs := h'.stands hk hx (h.stands hk hx hs)

theorem Leaves.mono (h : s.Leaves keep t) (hk : ∀ k, keep' k → keep k) : s.Leaves keep' t where
  spares := h.spares
  stands hk' := h.stands (hk _ hk')

/-- Objects were added only. -/
theorem Leaves.of_kept (hk : s.heap.KeptIn t.heap) : s.Leaves keep t where
  spares := .of_kept hk
  stands _ _ hs := hs.of_kept hk

theorem Leaves.of_heap_eq (he : t.heap = s.heap) : s.Leaves keep t := .of_kept fun hget => he ▸ hget

theorem leaves_setGenerator (s : State) (hh : ¬ keep h) (y : Generator) :
    s.Leaves keep (s.setGenerator h y) where
  spares := s.spares_setGenerator h y
  stands hk _ hs := by
    refine hs.setGenerator_of_ne ?_ y
    rintro rfl
    exact hh hk

theorem Spares.generator (hs : s.Spares keep t) (hg : s.Stands g x) : ∃ y, t.Stands g y := by
  obtain ⟨o, hget, hp⟩ := hg
  obtain ⟨o', hget', halike, _⟩ := hs.kept hget
  rcases halike.payload_cases with hp' | ⟨_, _, hdict, _⟩ | ⟨_, y, _, hp'⟩
  · exact ⟨x, o', hget', hp'.trans hp⟩
  · cases hp.symm.trans hdict
  · exact ⟨y, o', hget', hp'⟩

/-- **What a run inside of calls leaves alone**: the generators that it does not ask, and those that
have stopped. -/
theorem leaves_of_log {p : Program α} {a : α} (hr : s.Regular) (hd : 0 < s.callDepth)
    (hrun : p.run (engine n) s = .done a t) (hlog : ∀ x ∈ p.log n s, x.Quiet keep) :
    s.Leaves (fun k => keep k ∨ ∃ result, s.Stands k (.stopped result)) t where
  spares := by
    have hspares := spares_of_log p n hr hd fun x hx => (hlog x hx).spares
    rwa [hrun] at hspares
  stands {k x} hk hx hs := by
    have hspares := spares_of_log p n hr hd fun x hx => (hlog x hx).spares
    have hcourse := Generator.course_of_keeps p n hr.heap hx hs.keeps
    rw [hrun] at hspares hcourse
    obtain ⟨behind, hlife, hsome, hnone⟩ := hcourse.lifetime
    obtain ⟨o, hget, _⟩ := id hs
    obtain ⟨o', hget', _⟩ := hspares.kept hget
    have hbehind : behind = some x := by
      rcases hk with hk | ⟨result, hstopped⟩
      · exact hlife.of_nil (Generator.history_eq_nil fun e he => (hlog e he).concerns k hk)
      · cases behind with
        | none => cases hnone rfl
        | some y => rw [hlife.of_stopped result (hs.unique hstopped) y rfl, hs.unique hstopped]
    exact (hsome x hbehind).2.stands hget'

end State

/-! ## 3. Requests -/

/-- **Generators can be asked**: the members of their type are the builtin ones. -/
structure State.Requests (s : State) : Prop where
  orderly : s.Orderly
  iter : Bootstrap.Offers s.heap BuiltinType.generator.handle "__iter__"
    (.function (Member.generator .iter).qualifiedName (.member (.generator .iter)))
  next : Bootstrap.Offers s.heap BuiltinType.generator.handle "__next__"
    (.function (Member.generator .next).qualifiedName (.member (.generator .next)))

/-- The state in which the computation of `g` goes on when `next` is called on it. -/
def State.asked (s : State) (g : Handle) : State := (s.enter.setGenerator g .running).enter

namespace State

variable {keep : Handle → Prop}

theorem callDepth_asked (s : State) (g : Handle) : (s.asked g).callDepth = s.callDepth + 2 := rfl

theorem limits_asked (s : State) (g : Handle) : (s.asked g).limits = s.limits := rfl

theorem leaves_enter (s : State) : s.Leaves keep s.enter := .of_heap_eq rfl

theorem leaves_leave (s : State) : s.Leaves keep s.leave := .of_heap_eq rfl

theorem leaves_asked (s : State) (hg : ¬ keep g) : s.Leaves keep (s.asked g) :=
  s.leaves_enter.trans ((s.enter.leaves_setGenerator hg .running).trans (leaves_enter _))

theorem Stands.asked (hs : s.Stands k x) (hne : k ≠ g) : (s.asked g).Stands k x :=
  (hs.congr (t := s.enter) rfl).setGenerator_of_ne hne .running

/-- What was left alone while `g` was running is left alone by the whole request. -/
theorem Leaves.request (h : (s.asked g).Leaves keep t) (hg : ¬ keep g) (x : Generator) :
    s.Leaves keep (t.leave.setGenerator g x) :=
  ((s.leaves_asked hg).trans h).trans (t.leaves_leave.trans (t.leave.leaves_setGenerator hg x))

theorem Leaves.stands_request (h : (s.asked g).Leaves keep t) (hg : s.Stands g x) (y : Generator) :
    (t.leave.setGenerator g y).Stands g y := by
  have hrunning : (s.asked g).Stands g .running :=
    (stands_setGenerator (s := s.enter) (hg.congr rfl) .running).congr rfl
  obtain ⟨z, hz⟩ := h.spares.generator hrunning
  exact stands_setGenerator (s := t.leave) (hz.congr rfl) y

namespace Requests

theorem of_leaves (hs : s.Requests) (hl : s.Leaves keep t) (ht : t.Orderly) : t.Requests where
  orderly := ht
  iter := hl.spares.offers rfl hs.iter
  next := hl.spares.offers rfl hs.next

theorem asked (hs : s.Requests) (g : Handle) : (s.asked g).Requests := by
  have hl : s.Leaves (fun _ => False) (s.asked g) := s.leaves_asked id
  exact hs.of_leaves hl (hs.orderly.enter.setGenerator g .running).enter

variable (hs : s.Requests) (hd : s.Room)

include hs hd

theorem run_iter (hg : s.Stands g x) (n : Nat) :
    (ObjectModel.iter g).run.run (engine (n + 1)) s = .done (.ok g) s :=
  run_hook [g] (fun _ => rfl) (hg.answers hs.orderly hs.iter) hd

/-- A request resumes the computation two levels down and answers as it came back. -/
theorem run_next {r : Except Fault Resumed} {back : Except Fault Resumption}
    (hg : s.Stands g (.suspended c)) (hrun : c.resume.run.run (engine n) (s.asked g) = .done r t)
    (hsettle : settle g r t.leave = .done back u) :
    (ObjectModel.next g).run.run (engine (n + 2)) s
      = ((conclude back).run.run (engine n) u).onState State.leave := by
  obtain ⟨o, hget, hp⟩ := id hg
  have hresume : resumeWith (c.resume.run.run (engine n)) g s.enter = .done back u := by
    rw [resumeWith, nested_eq]
    change ((c.resume.run.run (engine n) (s.asked g)).onState State.leave).andThen (settle g) = _
    rw [hrun]
    exact hsettle
  rw [hg.run_next (hg.answers hs.orderly hs.next) hd,
    advanceWith_suspended _ (s := s.enter) hget hp, hresume]
  rfl

theorem run_next_yielded {rest : Coroutine} (hg : s.Stands g (.suspended c))
    (hrun : c.resume.run.run (engine n) (s.asked g) = .done (.ok ⟨.yielded v, rest⟩) t) :
    (ObjectModel.next g).run.run (engine (n + 2)) s
      = .done (.ok v) (t.leave.setGenerator g (.suspended rest)).leave :=
  hs.run_next hd hg hrun rfl

theorem run_next_failed {fault : Fault} (hg : s.Stands g (.suspended c))
    (hrun : c.resume.run.run (engine n) (s.asked g) = .done (.error fault) t) :
    (ObjectModel.next g).run.run (engine (n + 2)) s
      = .done (.error fault) (t.leave.setGenerator g (.stopped none)).leave :=
  hs.run_next hd hg hrun rfl

/-- The end of a computation is a `StopIteration` with its final value, if the type of the value has
a name. -/
theorem run_next_completed {result : Option Handle} {rest : Coroutine}
    (hg : s.Stands g (.suspended c))
    (hrun : c.resume.run.run (engine n) (s.asked g) = .done (.ok ⟨.completed result, rest⟩) t)
    (hn : ∀ a ∈ result, ∃ path name, t.heap.Naming a path name) :
    ∃ fault u, (ObjectModel.next g).run.run (engine (n + 2)) s = .done (.error fault) u ∧
      (∀ {k : Handle} {o : Object}, (t.leave.setGenerator g (.stopped result)).heap.get? k
        = some o → u.heap.get? k = some o) ∧
      fault.Carries u .stopIteration result.toList := by
  have ht : t.Orderly := by
    have horderly := c.builds_resume.orderly (hs.asked g).orderly n
    rwa [hrun] at horderly
  have hw := (ht.leave.setGenerator g (.stopped result)).regular.heap
  obtain ⟨u, hkept, hend⟩ := raise_cases (α := Handle) hw .stopIteration result.toList (engine n)
  have hnamed : ∀ a ∈ result.toList, ∃ path name, u.heap.Naming a path name := by
    intro a ha
    obtain ⟨path, name, hway⟩ := hn a (Option.mem_toList.mp ha)
    refine ⟨path, name, hway.transfer fun k _ o hget => ?_⟩
    obtain ⟨o', hget', halike⟩ := (t.leave.alike_setGenerator g (.stopped result)).kept hget
    exact ⟨o', hkept hget', halike⟩
  obtain ⟨message, hmessage⟩ := Heap.plainMessage_total hnamed
  obtain ⟨fault, hdone, hcarries⟩ :=
    hend.resolve_right fun h => absurd (h.2.symm.trans hmessage) (by simp)
  refine ⟨fault, u.leave, (hs.run_next hd hg hrun rfl).trans ?_, hkept, hcarries.congr rfl⟩
  change ((raise .stopIteration result.toList : Run Handle).run.run (engine n) _).onState
    State.leave = _
  rw [hdone]
  rfl

/-- A generator that has stopped answers with a plain `StopIteration`. -/
theorem run_next_stopped {result : Option Handle} (hg : s.Stands g (.stopped result)) (n : Nat) :
    ∃ fault u, (ObjectModel.next g).run.run (engine (n + 2)) s = .done (.error fault) u ∧
      s.heap.KeptIn u.heap ∧ fault.Carries u .stopIteration [] := by
  obtain ⟨o, hget, hp⟩ := id hg
  obtain ⟨u, hkept, hend⟩ :=
    raise_cases (α := Handle) (s := s.enter) hs.orderly.regular.heap .stopIteration [] (engine n)
  obtain ⟨fault, hdone, hcarries⟩ := hend.resolve_right fun h => by simp [Heap.plainMessage] at h
  refine ⟨fault, u.leave, ?_, hkept, hcarries.congr rfl⟩
  have hne : ∀ c, o.payload ≠ .generator (.suspended c) := by
    intro c hc
    cases hp.symm.trans hc
  rw [hg.run_next (hg.answers hs.orderly hs.next) hd,
    advanceWith_refusal _ (s := s.enter) hget hne, hp]
  change ((raise .stopIteration [] : Run Handle).run.run (engine n) _).onState State.leave = _
  rw [hdone]
  rfl

end Requests

end State

/-! ## 4. What a request does -/

/-- **The log of a call of a builtin member**: beside what the member does, its function is looked
at. -/
theorem record_call_member {f : Handle} {args w : List Handle} {o : Object}
    {label : String} {m : Member} (hget : s.heap.get? f = some o)
    (hp : o.payload = .function label (.member m)) (hd : s.Room) :
    (call f args).run.record (engine (n + 1)) (recorder (n + 1)) w s
      = (object f).run.record (engine n) (recorder n) w s.enter
        ++ ((m.run args).run.record (engine n) (recorder n) w s.enter ++
        [⟨w, .performed (.call f args) s ((Action.call f args).perform (engine (n + 1)) s)⟩]) := by
  have hcode : (object f).run.run (engine n) s.enter = .done (.ok o) s.enter := Run.run_inspect hget
  have hdispatch : (dispatch f args).run.record (engine n) (recorder n) w s.enter
      = (object f).run.record (engine n) (recorder n) w s.enter ++ (m.run args).run.record
          (engine n) (recorder n) w s.enter := by
    refine (Run.record_bind_ok hcode).trans ?_
    rw [hp]
    rfl
  have hcalled : (call f args).run.record (engine (n + 1)) (recorder (n + 1)) w s
      = recordCall (engine n) (recorder n) w f args s ++
        [⟨w, .performed (.call f args) s ((Action.call f args).perform (engine (n + 1)) s)⟩] :=
          Program.record_act _ _
  rw [hcalled, recordCall, if_neg (Nat.not_le.mpr hd), hdispatch, List.append_assoc]

/-- **The log of a hook** that is a builtin member: beside what the member does, objects are looked
at and the hook is called. -/
theorem record_hook {name : String} {m : Member} {onHook : Option Handle → Run Handle}
    (hcall : ∀ hook, onHook (some hook) = call hook [g]) (hm : s.heap.Answers g name m)
    (hd : s.Room) (n : Nat) (w : List Handle) :
    ∃ looks calls, (findHook g name >>= onHook).run.record (engine (n + 1)) (recorder (n + 1)) w s
        = looks ++ ((m.run [g]).run.record (engine n) (recorder n) w s.enter ++ calls) ∧
      ∀ x ∈ looks ++ calls, ∀ k, Generator.concerns k x.event = false := by
  obtain ⟨f, o, label, hhook, hget, hp⟩ := hm
  have hfound : (findHook g name).run.run (engine (n + 1)) s = .done (.ok (some f)) s :=
    Run.run_inspect hhook
  refine ⟨(findHook g name).run.record (engine (n + 1)) (recorder (n + 1)) w s ++
      (object f).run.record (engine n) (recorder n) w s.enter,
    [⟨w, .performed (.call f [g]) s ((Action.call f [g]).perform (engine (n + 1)) s)⟩], ?_, ?_⟩
  · rw [Run.record_bind_ok hfound, hcall, record_call_member hget hp hd, List.append_assoc]
  · intro x hx k
    simp only [findHook, object, inspectHeap, Run.record_inspect, List.mem_append,
      List.mem_singleton] at hx
    rcases hx with (rfl | rfl) | rfl <;> rfl

/-- Builtin code asks no generator but the one that it was told to ask. -/
theorem Generator.suits_untouched (k : Handle) :
    Entry.Suits fun x => concerns k x.event = false where
  allocate := rfl
  setAttribute := rfl
  message := rfl
  isInstance := rfl
  hook := rfl
  object _ _ := rfl

namespace State

/-- **The log of a request**, likewise. -/
theorem Stands.record_next (hg : s.Stands g x) (hm : s.heap.Answers g "__next__" (.generator .next))
    (hd : s.Room) (n : Nat) (w : List Handle) :
    ∃ looks calls, (ObjectModel.next g).run.record (engine (n + 2)) (recorder (n + 2)) w s
        = looks ++ (recordAdvance (engine n) (recorder n) w g s.enter ++
          ⟨w, .performed (.advance g) s.enter (advanceWith (engine n) g s.enter)⟩ :: calls) ∧
      ∀ x ∈ looks ++ calls, ∀ k, Generator.concerns k x.event = false := by
  obtain ⟨looks, calls, hrecord, hsilent⟩ :
    ∃ looks calls, (ObjectModel.next g).run.record (engine (n + 2)) (recorder (n + 2)) w s
      = looks ++ (((Member.generator .next).run [g]).run.record (engine (n + 1))
        (recorder (n + 1)) w s.enter ++ calls) ∧
        ∀ x ∈ looks ++ calls, ∀ k, Generator.concerns k x.event = false :=
    record_hook (fun _ => rfl) hm hd (n + 1) w
  obtain ⟨o, hget, hp⟩ := hg
  have hgenerator : o.isGenerator = true := by rw [Object.isGenerator, hp]
  have hseen : (object g).run.run (engine (n + 1)) s.enter = .done (.ok o) s.enter :=
    Run.run_inspect hget
  have hmember : ((Member.generator .next).run [g]).run.record (engine (n + 1))
    (recorder (n + 1)) w s.enter
      = (object g).run.record (engine (n + 1)) (recorder (n + 1)) w s.enter ++
        (recordAdvance (engine n) (recorder n) w g s.enter ++
          [⟨w, .performed (.advance g) s.enter (advanceWith (engine n) g s.enter)⟩]) := by
    refine (Run.record_bind_ok hseen).trans ?_
    rw [if_pos hgenerator]
    exact congrArg _ (Program.record_act _ _)
  refine ⟨looks ++ (object g).run.record (engine (n + 1)) (recorder (n + 1)) w s.enter, calls,
    hrecord.trans ?_, ?_⟩
  · rw [hmember]
    simp only [List.append_assoc, List.cons_append, List.nil_append]
  · intro x hx k
    simp only [object, inspectHeap, Run.record_inspect, List.mem_append, List.mem_singleton] at hx
    rcases hx with (hx | rfl) | hx
    · exact hsilent x (List.mem_append_left _ hx) k
    · rfl
    · exact hsilent x (List.mem_append_right _ hx) k

namespace Requests

section

variable (hs : s.Requests) (hd : s.Room)

include hs hd

/-- **A request asks its generator once**: its computation is resumed, if there is one, and the
request is answered. -/
theorem history_next (hg : s.Stands g x) (n : Nat) :
    Generator.history g ((ObjectModel.next g).run.log (n + 2) s)
      = Generator.history g (recordAdvance (engine n) (recorder n) [] g s.enter) ++
        [.performed (.advance g) s.enter (advanceWith (engine n) g s.enter)] := by
  obtain ⟨looks, calls, hlog, hsilent⟩ := hg.record_next (hg.answers hs.orderly hs.next) hd n []
  have hlooks : Generator.history g looks = [] :=
    Generator.history_eq_nil fun e he => hsilent e (List.mem_append_left _ he) g
  have hcalls : Generator.history g calls = [] :=
    Generator.history_eq_nil fun e he => hsilent e (List.mem_append_right _ he) g
  have hanswer :
      Generator.history g [⟨[], .performed (.advance g) s.enter (advanceWith (engine n) g s.enter)⟩]
      = [.performed (.advance g) s.enter (advanceWith (engine n) g s.enter)] :=
    Generator.history_singleton List.not_mem_nil (by simp [Generator.concerns])
  rw [Program.log, hlog, List.append_cons, Generator.history_append, Generator.history_append,
    Generator.history_append, hlooks, hcalls, hanswer, List.nil_append, List.append_nil]

theorem history_next_suspended {r : Except Fault Resumed} (hg : s.Stands g (.suspended c))
    (hrun : c.resume.run.run (engine n) (s.asked g) = .done r t) :
    Generator.history g ((ObjectModel.next g).run.log (n + 2) s)
      = [.resumed g c (s.asked g) (.done r t),
        .performed (.advance g) s.enter (advanceWith (engine n) g s.enter)] := by
  obtain ⟨o, hget, hp⟩ := id hg
  have hinner : ∀ e ∈ c.resume.run.record (engine n) (recorder n) [g] (s.asked g), g
      ∈ e.within := by
    intro e he
    rw [← List.nil_append [g], Program.record_under (nests_recorder n)] at he
    obtain ⟨y, _, rfl⟩ := List.mem_map.mp he
    exact List.mem_append_right _ List.mem_cons_self
  have hconclude : Generator.history g
      (recordAfter (resumeWith (c.resume.run.run (engine n)) g s.enter) fun back t =>
      (conclude back).run.record (engine n) (recorder n) [] t) = [] :=
    Generator.history_of_noted (w := [])
      (Program.forall_recordAfter fun back t => (direct_conclude back).record _ _ _ t)
  have hadvance : Generator.history g (recordAdvance (engine n) (recorder n) [] g s.enter)
      = [.resumed g c (s.asked g) (.done r t)] := by
    rw [recordAdvance_suspended _ _ _ (s := s.enter) hget hp, List.append_cons,
      Generator.history_append, hconclude, List.append_nil, ← hrun]
    exact Generator.history_resumption List.not_mem_nil hinner
  rw [hs.history_next hd hg n, hadvance]
  rfl

/-- A generator that has stopped is not resumed. -/
theorem history_next_stopped {result : Option Handle} (hg : s.Stands g (.stopped result))
    (n : Nat) :
    Generator.history g ((ObjectModel.next g).run.log (n + 2) s)
      = [.performed (.advance g) s.enter (advanceWith (engine n) g s.enter)] := by
  obtain ⟨o, hget, hp⟩ := id hg
  have hne : ∀ c, o.payload ≠ .generator (.suspended c) := by
    intro c hc
    cases hp.symm.trans hc
  have hrefusal : Generator.history g ((refusal o.payload).run.record (engine n) (recorder n)
      [] s.enter) = [] :=
    Generator.history_of_noted ((direct_refusal o.payload).record _ _ [] _)
  rw [hs.history_next hd hg n, recordAdvance_refusal _ _ _ (s := s.enter) hget hne, hrefusal,
    List.nil_append]

end

/-- To be taken for an iterator is not to be asked. -/
theorem untouched_iter (hs : s.Requests) (hg : s.Stands g x) (n : Nat) (k : Handle) :
    ∀ e ∈ (ObjectModel.iter g).run.log (n + 1) s, Generator.concerns k e.event = false :=
  (Generator.suits_untouched k).member (fun _ => rfl) (hg.answers hs.orderly hs.iter)
    (fun _ _ => rfl) (List.forall_mem_nil _)

/-- **Who is asked**: beside the generator itself, those that its computation asks. -/
theorem untouched_next (hs : s.Requests) (hg : s.Stands g x) (hk : k ≠ g) (hc : ∀ c, x
      = .suspended c → ∀ e ∈ c.resume.run.log n (s.asked g), Generator.concerns k e.event = false) :
    ∀ e ∈ (ObjectModel.next g).run.log (n + 2) s, Generator.concerns k e.event = false := by
  have hother : decide (g = k) = false := decide_eq_false fun h => hk h.symm
  exact (Generator.suits_untouched k).next hg (hg.answers hs.orderly hs.next) (fun _ _ => rfl)
    (fun _ _ => hother) (fun _ _ _ _ => hother)
    fun c hx => Program.forall_within (P := fun y => Generator.concerns k y = false) (hc c hx)

end Requests

end State

end ObjectModel
