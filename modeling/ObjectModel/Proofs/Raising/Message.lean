import ObjectModel.Proofs.Data.Rendering

/-!
# Messages of exceptions

An exception gets its text in two ways. The machine raises one with a text that it reads off the
payloads of the arguments; a program that raises an exception object asks its `__str__`, and reads
the payloads only where that fails.

* `State.messages_agree` -- **both ways give the same text**, at any depth.
-/

namespace ObjectModel

open List (Forall₂)

/-! ## 1. Atoms -/

/-- What an object without items stands for. -/
inductive Atom where
  | text (s : String)
  | int (n : Int64)
  | bool (b : Bool)
  | none
  | notImplemented

namespace Atom

def payload : Atom → Payload
  | text s => .str s
  | int n => .int n
  | bool b => .bool b
  | none => .none
  | notImplemented => .notImplemented

def type : Atom → BuiltinType
  | text _ => .str
  | int _ => .int
  | bool _ => .bool
  | none => .noneType
  | notImplemented => .notImplementedType

/-- How it is written where texts are quoted. -/
def repr : Atom → String
  | text s => Text.quote s
  | int n => Text.ofInt n.toInt
  | bool b => if b then "True" else "False"
  | none => "None"
  | notImplemented => "NotImplemented"

/-- How it is written on its own. -/
def str : Atom → String
  | text s => s
  | a => a.repr

/-- **The message of an exception**: empty, the only argument as it is written on its own, or all of
them as a tuple. -/
def message : List Atom → String
  | [] => ""
  | [only] => only.str
  | several => tupleText (several.map repr)

theorem message_several {atoms : List Atom} (h : 2 ≤ atoms.length) :
    message atoms = tupleText (atoms.map repr) := by
  rcases atoms with _ | ⟨first, _ | ⟨second, rest⟩⟩
  · exact absurd h (by decide)
  · exact absurd h (Nat.not_succ_le_self 1)
  · rfl

/-- The member that writes it where texts are quoted. -/
def reprMember : Atom → Member
  | text _ => .str .repr
  | int _ => .int .repr
  | bool _ => .bool .repr
  | none => .none .repr
  | notImplemented => .notImplemented .repr

/-- How many calls `str` of it takes: `object.__str__` asks `__repr__`. -/
def height : Atom → Nat
  | none => 2
  | notImplemented => 2
  | _ => 1

theorem height_le (a : Atom) : a.height ≤ 2 := by
  unfold height
  split <;> omega

/-- How many calls the message of an exception takes. -/
def heights : List Atom → Nat
  | [] => 0
  | [only] => only.height
  | _ => 2

end Atom

/-- The object `h` stands for `a`. -/
def Heap.Bears (heap : Heap) (h : Handle) (a : Atom) : Prop :=
  ∃ o, heap.get? h = some o ∧ o.payload = a.payload

section

variable {heap heap' : Heap} {h : Handle} {a : Atom} {args : List Handle} {atoms : List Atom}

theorem Heap.Bears.kept (hb : heap.Bears h a)
    (hk : ∀ {k o}, heap.get? k = some o → heap'.get? k = some o) : heap'.Bears h a := by
  obtain ⟨o, hget, hp⟩ := hb
  exact ⟨o, hk hget, hp⟩

theorem Heap.Bears.plainRepr_eq (hb : heap.Bears h a) : heap.plainRepr h = some a.repr := by
  obtain ⟨o, hget, hp⟩ := hb
  rw [plainRepr, hget]
  cases a with
  | bool b =>
    cases b <;> simp only [hp, Atom.payload, Atom.repr, Option.bind_eq_bind, Option.bind_some,
      Option.pure_def] <;> rfl
  | _ =>
    simp only [hp, Atom.payload, Atom.repr, Option.bind_eq_bind, Option.bind_some, Option.pure_def]

theorem Heap.mapM_plainRepr (hargs : Forall₂ heap.Bears args atoms) :
    args.mapM heap.plainRepr = some (atoms.map Atom.repr) := by
  induction hargs with
  | nil => rfl
  | cons hb _ ih => rw [List.mapM_cons, hb.plainRepr_eq, ih]; rfl

/-- **The plain message**, read off the payloads. -/
theorem Heap.plainMessage_atoms (hargs : Forall₂ heap.Bears args atoms) :
    heap.plainMessage args = some (Atom.message atoms) := by
  have hseveral := mapM_plainRepr hargs
  cases hargs with
  | nil => rfl
  | @cons h a _ _ hb hrest =>
    cases hrest with
    | nil =>
      have hplain := hb.plainRepr_eq
      obtain ⟨o, hget, hp⟩ := hb
      simp only [plainMessage, hget, hp, Option.bind_eq_bind, Option.bind_some]
      cases a with
      | text s => rfl
      | _ => exact hplain
    | cons _ _ =>
      simp only [plainMessage, hseveral, Option.bind_eq_bind, Option.bind_some, Option.pure_def]
      rfl

end

/-! ## 2. Texts under a limit of calls -/

/-- The program gives the text if `k` levels are left, and comes to the limit of calls otherwise. -/
def Run.Says (x : Run String) (n : Nat) (s : State) (text : String) (k : Nat) : Prop :=
  x.Yields (engine n) s (if k ≤ s.levels then some text else none)

section

variable {s : State} {h : Handle} {a : Atom} {n k : Nat} {text name : String} {m : Member}
  {args : List Handle} {atoms : List Atom}

theorem Run.Says.pure (hs : s.Native) (text : String) :
    (Pure.pure text : Run String).Says n s text 0 := by
  rw [Says, if_pos (Nat.zero_le _)]
  exact .pure hs text

/-- A hook takes one level more than the program whose text it writes. -/
theorem says_renderWith {x : Run String} (hs : s.Native) (hm : s.heap.Answers h name m)
    (hmember : (m.run [h]).run.run (engine n) s.enter = (x >>= newText).run.run (engine n) s.enter)
    (hx : x.Says n s.enter text k) : (renderWith name h).Says (n + 1) s text (k + 1) := by
  have hyields := yields_renderWith hs hm hmember hx
  have hanswer : (if 0 < s.levels then (if k ≤ s.enter.levels then some text else none) else none)
      = if k + 1 ≤ s.levels then some text else none := by
    rw [State.levels_enter]
    split
    · exact if_congr (by omega) rfl rfl
    · rw [if_neg (by omega)]
  rwa [hanswer] at hyields

/-! ### Atoms -/

theorem Heap.Bears.answers (hs : s.Native) (hb : s.heap.Bears h a)
    (hm : a.type.member? name = some m) : s.heap.Answers h name m := by
  obtain ⟨o, hget, hp⟩ := hb
  have htype : o.type = a.type.handle := hs.orderly.heap.kind hget (by rw [hp]; cases a <;> rfl)
  exact hs.unaltered.answers hs.orderly.heap hget htype (by cases a <;> rfl) hm

theorem run_reprMember_atom (hb : s.heap.Bears h a) (e : Engine) :
    (a.reprMember.run [h]).run.run e s
      = ((Pure.pure a.repr : Run String) >>= newText).run.run e s := by
  obtain ⟨o, hget, hp⟩ := hb
  rw [pure_bind]
  cases a with
  | text s =>
    exact Run.run_bind_ok
      (run_textReceiver_layer (Heap.layer?_eq_some_iff.mpr ⟨o, hget, .text hp⟩) _)
  | int n =>
    exact Run.run_bind_ok (run_intReceiver_layer (Heap.layer?_eq_some_iff.mpr ⟨o, hget, .int hp⟩) _)
  | bool b =>
    exact Run.run_bind_ok (run_boolReceiver_layer (Heap.layer?_eq_some_iff.mpr ⟨o, hget, .bool hp⟩))
  | none => rfl
  | notImplemented => rfl

/-- **`repr` of an atom** takes one call. -/
theorem says_repr (hs : s.Native) (hb : s.heap.Bears h a) : (repr h).Says (n + 1) s a.repr 1 := by
  have hm : a.type.member? "__repr__" = some a.reprMember := by cases a <;> rfl
  exact says_renderWith hs (hb.answers hs hm) (run_reprMember_atom (s := s.enter) hb _)
    (.pure hs.enter a.repr)

theorem says_toText_text (hs : s.Native) (hb : s.heap.Bears h (.text text)) :
    (toText h).Says (n + 1) s text 1 := by
  have hanswers : s.heap.Answers h "__str__" (.str .str) := hb.answers hs rfl
  obtain ⟨o, hget, hp⟩ := hb
  by_cases hlevels : 1 ≤ s.levels
  · have hmember : ((Member.str .str).run [h]).run.run (engine n) s.enter = .done (.ok h) s.enter :=
      Run.run_bind_ok (run_textReceiver_layer (s := s.enter)
        (Heap.layer?_eq_some_iff.mpr ⟨o, hget, .text hp⟩) _)
    have htext : o.textValue = some text := by rw [Object.textValue, hp]; rfl
    rw [Run.Says, if_pos hlevels]
    exact ⟨s, .refl hs, run_renderWith_value hanswers (State.room_of_levels hlevels) hmember
      hget htext⟩
  · rw [Run.Says, if_neg hlevels]
    exact ⟨s, .refl hs, run_renderWith_refused hanswers (by omega)⟩

/-- **`str` of an atom** takes one call, or two where `object.__str__` asks `__repr__`. -/
theorem says_toText (hs : s.Native) (hb : s.heap.Bears h a) :
    (toText h).Says (n + 2) s a.str a.height := by
  cases a with
  | text text => exact says_toText_text hs hb
  | int i =>
    exact says_renderWith hs (hb.answers hs (m := .int .str) rfl)
      (run_reprMember_atom (s := s.enter) hb _) (.pure hs.enter _)
  | bool b =>
    exact says_renderWith hs (hb.answers hs (m := .bool .str) rfl)
      (run_reprMember_atom (s := s.enter) hb _) (.pure hs.enter _)
  | none =>
    exact says_renderWith hs (hb.answers hs (m := .object .str) rfl) rfl
      (says_repr (s := s.enter) hs.enter hb)
  | notImplemented =>
    exact says_renderWith hs (hb.answers hs (m := .object .str) rfl) rfl
      (says_repr (s := s.enter) hs.enter hb)

/-! ### Tuples of atoms -/

/-- The atoms are rendered one after another, or the first one comes to the limit. -/
theorem yields_mapM_repr (hs : s.Native) (hargs : Forall₂ s.heap.Bears args atoms)
    (hne : args ≠ []) :
    (args.mapM repr).Yields (engine (n + 1)) s
      (if 1 ≤ s.levels then some (atoms.map Atom.repr) else none) := by
  have hitems : ∀ h ∈ args, ∀ t, s.Grows t →
      (repr h).Yields (engine (n + 1)) t (if 1 ≤ s.levels then s.heap.plainRepr h else none) := by
    intro h hh t ht
    obtain ⟨a, _, hb⟩ : ∃ a ∈ atoms, s.heap.Bears h a := exists_of_forall₂_right hargs.flip h hh
    rw [hb.plainRepr_eq, ← ht.levels_eq]
    exact says_repr ht.native (hb.kept ht.kept)
  have hyields := Run.Yields.mapM hs hitems
  by_cases hlevels : 1 ≤ s.levels
  · simp only [if_pos hlevels] at hyields ⊢
    rwa [Heap.mapM_plainRepr hargs] at hyields
  · obtain ⟨first, rest, rfl⟩ := List.exists_cons_of_ne_nil hne
    simp only [if_neg hlevels] at hyields ⊢
    have hnone : (first :: rest).mapM (fun _ => none)
        = (none : Option (List String)) := by rw [List.mapM_cons]; rfl
    rwa [hnone] at hyields

/-- **`repr` of a tuple of atoms** takes two calls. -/
theorem says_repr_tuple (hs : s.Native) (hget : s.heap.get? h = some (.ofItems args))
    (hargs : Forall₂ s.heap.Bears args atoms) (hne : args ≠ []) :
    (repr h).Says (n + 2) s (tupleText (atoms.map Atom.repr)) 2 := by
  have hl : s.heap.layer? h = some (.tuple args) :=
    Heap.layer?_eq_some_iff.mpr ⟨_, hget, .tuple rfl⟩
  have hmember : ((Member.tuple .repr).run [h]).run.run (engine (n + 1)) s.enter
      = ((tupleText <$> args.mapM repr) >>= newText).run.run (engine (n + 1)) s.enter := by
    refine (Run.run_bind_ok (run_tupleReceiver_layer (s := s.enter) hl _)).trans ?_
    rw [renderItems_eq, bind_map_left]
  refine says_renderWith hs (hs.answers hl rfl) hmember ?_
  have hyields := (yields_mapM_repr (n := n) hs.enter hargs hne).map tupleText
  by_cases hlevels : 1 ≤ s.enter.levels
  · rw [Run.Says, if_pos hlevels]
    rwa [if_pos hlevels] at hyields
  · rw [Run.Says, if_neg hlevels]
    rwa [if_neg hlevels] at hyields

/-- The same of a new one. -/
theorem says_newTuple (hs : s.Native) (hargs : Forall₂ s.heap.Bears args atoms) (hne : args ≠ []) :
    (newTuple args >>= repr).Says (n + 2) s (tupleText (atoms.map Atom.repr)) 2 := by
  have hgrows := hs.grows_allocate (.items args)
  have hget := Heap.get?_allocate_self hs.orderly.regular.heap (.ofItems args)
  obtain ⟨u, hu, hrun⟩ :=
    says_repr_tuple (n := n) hgrows.native hget (hargs.imp fun _ _ hb => hb.kept hgrows.kept) hne
  rw [hgrows.levels_eq, hgrows.limits_eq] at hrun
  exact ⟨u, hgrows.trans hu, hrun⟩

/-- **The message as `__str__` puts it together.** -/
theorem says_exceptionText (hs : s.Native) (hargs : Forall₂ s.heap.Bears args atoms) :
    (exceptionText args).Says (n + 2) s (Atom.message atoms) (Atom.heights atoms) := by
  cases hargs with
  | nil => exact .pure hs ""
  | cons hb hrest =>
    cases hrest with
    | nil => exact says_toText hs hb
    | cons hb' hrest => exact says_newTuple hs (.cons hb (.cons hb' hrest)) (List.cons_ne_nil _ _)

end

/-! ## 3. Exceptions -/

/-- **An exception object** of some kind, with atoms for arguments. -/
structure Heap.Raisable (heap : Heap) (kind : ExceptionKind) (args : List Handle)
    (atoms : List Atom) (exception : Handle) : Prop where
  found : ∃ tuple attributes, heap.get? exception = some ⟨.plain, kind.type, attributes⟩ ∧
    attributes.get? "args" = some tuple ∧ heap.get? tuple = some (.ofItems args)
  atoms : Forall₂ heap.Bears args atoms

namespace Heap.Raisable

variable {heap heap' : Heap} {s : State} {bound n : Nat} {kind : ExceptionKind} {args : List Handle}
  {atoms : List Atom} {exception : Handle}

theorem kept (hr : heap.Raisable kind args atoms exception)
    (hk : ∀ {k o}, heap.get? k = some o → heap'.get? k = some o) :
    heap'.Raisable kind args atoms exception := by
  obtain ⟨⟨tuple, attributes, hget, hargs, htuple⟩, hatoms⟩ := hr
  exact ⟨⟨tuple, attributes, hk hget, hargs, hk htuple⟩, hatoms.imp fun _ _ hb => hb.kept hk⟩

theorem exceptionArgs_eq (hr : heap.Raisable kind args atoms exception) :
    heap.exceptionArgs exception = some args := by
  obtain ⟨tuple, attributes, hget, hargs, htuple⟩ := hr.found
  rw [exceptionArgs, tupleAttribute_of_get? hget hargs htuple]
  rfl

theorem className_eq (hr : heap.Raisable kind args atoms exception) (ho : heap.Orderly bound) :
    heap.className exception = some kind.name := by
  obtain ⟨tuple, attributes, hget, _⟩ := hr.found
  obtain ⟨o, htype, hp⟩ := ho.builtin (.exception kind)
  exact (className_of_get? hget).trans (Naming.type htype hp).typeName_eq

/-- Every kind of exception has the `__str__` of `Exception`. -/
theorem answers (hr : heap.Raisable kind args atoms exception) (ho : heap.Orderly bound)
    (hu : heap.Unaltered) : heap.Answers exception "__str__" (.exception .str) := by
  obtain ⟨tuple, attributes, hget, _⟩ := hr.found
  have hbase : ∀ k : ExceptionKind, k ≠ .exception → (BuiltinType.exception k).base?
      = some (.exception .exception) ∧ (BuiltinType.exception k).ownMember? "__str__" = none := by
    intro k hk
    cases k with
    | exception => exact absurd rfl hk
    | _ => decide +kernel
  by_cases hk : kind = .exception
  · subst hk
    exact hu.answers (b := .exception .exception) ho hget rfl rfl (by decide +kernel)
  · exact hu.answers_of_base (b := .exception kind) ho hget rfl (hbase kind hk).1 (hbase kind hk).2
      (by decide +kernel)

/-- **`str` of an exception** gives its message, or comes to the limit. -/
theorem says_toText (hr : s.heap.Raisable kind args atoms exception) (hs : s.Native) :
    (toText exception).Says (n + 3) s (Atom.message atoms) (Atom.heights atoms + 1) := by
  have hmember : ((Member.exception .str).run [exception]).run.run (engine (n + 2)) s.enter
      = (exceptionText args >>= newText).run.run (engine (n + 2)) s.enter :=
    @Run.run_inspect_bind _ _ _ s.enter (fun s => s.heap.exceptionArgs exception) _ _
      hr.exceptionArgs_eq
  exact says_renderWith hs (hr.answers hs.orderly.heap hs.unaltered) hmember
    (says_exceptionText hs.enter hr.atoms)

/-- **Raising an exception object** gives it the text of its message, whether or not `__str__` gets
to its end. -/
theorem run_raiseValue {α : Type} (hr : s.heap.Raisable kind args atoms exception) (hs : s.Native) :
    ∃ u, s.Grows u ∧ (raiseValue exception : Run α).run.run (engine (n + 3)) s
      = .done (.error (.raised exception (rendered kind.name (Atom.message atoms)))) u := by
  obtain ⟨u, hu, hrun⟩ := hr.says_toText (n := n) hs
  refine ⟨u, hu, ?_⟩
  refine (@Run.run_inspect_bind _ _ _ s (fun s => s.heap.className exception) _ _
    (hr.className_eq hs.orderly.heap)).trans ?_
  refine (Run.run_bind_ok (Run.run_attempt_done hrun)).trans ?_
  by_cases hlevels : Atom.heights atoms + 1 ≤ s.levels
  · rw [if_pos hlevels]
    rfl
  · rw [if_neg hlevels]
    -- the message is read off the payloads, which are still there
    have hr' := hr.kept hu.kept
    refine (@Run.run_inspect_bind _ _ _ u (fun s => s.heap.exceptionArgs exception) _ _
      hr'.exceptionArgs_eq).trans ?_
    refine (@Run.run_inspect_bind _ _ _ u (fun s => s.heap.plainMessage args) _ _
      (plainMessage_atoms hr'.atoms)).trans ?_
    rfl

end Heap.Raisable

/-! ## 4. Both ways -/

theorem rendered_eq (name message : String) :
    rendered name message = if message = "" then name else name ++ ": " ++ message := by
  unfold rendered
  exact if_congr String.isEmpty_iff rfl rfl

namespace State

variable {s : State} {kind : ExceptionKind} {args : List Handle} {atoms : List Atom}

theorem Made.raisable {exception : Handle} {t : State} (hm : s.Made kind args exception t)
    (hargs : Forall₂ s.heap.Bears args atoms) : t.heap.Raisable kind args atoms exception := by
  obtain ⟨tuple, attributes, hget, hvalue, htuple, _⟩ := hm.found
  exact ⟨⟨tuple, attributes, hget, hvalue, htuple⟩, hargs.imp fun _ _ hb => hb.kept hm.kept⟩

/-- Native states stay so where an exception was made. -/
theorem Native.makeException (hs : s.Native) (kind : ExceptionKind) (args : List Handle) :
    (s.makeException kind args).2.Native := by
  have hw := hs.orderly.regular.heap
  have hstate : ((raise kind args : Run Handle).run.run (engine 0) s).state
      = (s.makeException kind args).2 := by
    rw [run_raise hw]
    split <;> rfl
  have hspares : s.Spares (fun _ => True) (s.makeException kind args).2 :=
    .of_kept (made_makeException hw kind args).kept
  refine ⟨?_, ?_, hspares.unaltered (fun _ _ => trivial) hs.orderly.heap hs.unaltered⟩
  · exact hstate ▸ (paired_raise kind
      (Renaming.known_all fun _ => .mem)).composed_known.builds.orderly hs.orderly 0
  · exact hstate ▸ (steps_of_run (raise kind args : Run Handle).run 0 s).singles hw hs.singles

theorem Native.atDepth (hs : s.Native) (depth : Nat) :
    ({ s with callDepth := depth } : State).Native :=
  ⟨⟨⟨hs.orderly.regular.heap, hs.orderly.regular.pins⟩, hs.orderly.heap⟩, hs.singles, hs.unaltered⟩

end State

/-- **An exception has the same text, whether the machine raises it or a program raises the
object.** The text is the name of the kind, with the message behind it if there is one: the only
argument as `str` gives it, or several as `repr` gives their tuple. So it is at any depth, also
where no level is left and `__str__` cannot be asked. -/
theorem State.messages_agree {α : Type} {s : State} (hs : s.Reachable)
    (hu : s.heap.Unaltered) (kind : ExceptionKind) {args : List Handle}
    {atoms : List Atom} (hargs : Forall₂ s.heap.Bears args atoms) {n : Nat} (hn : 3 ≤ n) :
    (∃ (exception : Handle) (t : State) (text : String),
      text
        = (if Atom.message atoms = "" then kind.name else kind.name ++ ": " ++ Atom.message atoms) ∧
      (raise kind args : Run α).exec n s = .done (.error (.raised exception text)) t ∧
      t.heap.exceptionArgs exception = some args ∧
      ∀ depth, ∃ u, (raiseValue exception : Run α).exec n { t with callDepth := depth }
        = .done (.error (.raised exception text)) u) ∧
    (∀ only, args = [only] → 2 ≤ s.levels →
      ∃ u, (toText only).exec n s = .done (.ok (Atom.message atoms)) u) ∧
    (∀ tuple, s.heap.get? tuple = some (.ofItems args) → 2 ≤ args.length → 2 ≤ s.levels →
      ∃ u, (repr tuple).exec n s = .done (.ok (Atom.message atoms)) u) := by
  have hnative := Native.of_reachable hs hu
  have hmade := made_makeException hnative.orderly.regular.heap kind args
  have hraisable := hmade.raisable hargs
  obtain ⟨m, rfl⟩ := Nat.exists_eq_add_of_le' hn
  refine ⟨⟨_, _, _, rfl, ?_, hraisable.exceptionArgs_eq, fun depth => ?_⟩,
    fun only hone hlevels => ?_, fun tuple hget hlength hlevels => ?_⟩
  · rw [← rendered_eq]
    refine (run_raise hnative.orderly.regular.heap kind args _).trans ?_
    rw [Heap.plainMessage_atoms hraisable.atoms]
  · rw [← rendered_eq]
    obtain ⟨u, _, hrun⟩ :=
      hraisable.run_raiseValue (s := { (s.makeException kind args).2 with callDepth := depth })
        (n := m) ((hnative.makeException kind args).atDepth depth)
    exact ⟨u, hrun⟩
  · subst hone
    cases hargs with
    | cons hb hrest =>
      cases hrest with
      | nil =>
        obtain ⟨u, _, hrun⟩ := says_toText (n := m + 1) hnative hb
        rw [if_pos (Nat.le_trans (Atom.height_le _) hlevels)] at hrun
        exact ⟨u, hrun⟩
  · obtain ⟨u, _, hrun⟩ :=
      says_repr_tuple (n := m + 1) hnative hget hargs (List.ne_nil_of_length_pos (by omega))
    rw [if_pos hlevels, ← Atom.message_several (hargs.length_eq ▸ hlength)] at hrun
    exact ⟨u, hrun⟩

/-- Where no level is left, `ValueError(NotImplemented, None)` is raised both ways with the same
text. -/
theorem State.messages_agree_exhausted :
    ∃ (s : State) (exception : Handle) (t u : State), s.Reachable ∧ s.heap.Unaltered ∧
      Forall₂ s.heap.Bears [.notImplemented, .none] [.notImplemented, .none] ∧ 3 ≤ 3 ∧
      (raise .valueError [.notImplemented, .none] : Run Handle).exec 3 s
        = .done (.error (.raised exception "ValueError: (NotImplemented, None)")) t ∧
      (raiseValue exception : Run Handle).exec 3 { t with callDepth := t.limits.callDepth }
        = .done (.error (.raised exception "ValueError: (NotImplemented, None)")) u := by
  have hs : (State.initial .standard (.ofLines [])).Reachable := .between .start
  have hu := State.unaltered_initial .standard (.ofLines [])
  generalize State.initial .standard (.ofLines []) = s at hs hu
  have hargs : Forall₂ s.heap.Bears [.notImplemented, .none] [.notImplemented, .none] :=
    .cons (hs.singles .notImplemented .notImplemented rfl) (.cons (hs.singles .none .none rfl) .nil)
  obtain ⟨⟨exception, t, text, htext, hraise, _, hvalue⟩, _, _⟩ :=
    State.messages_agree (α := Handle) hs hu .valueError hargs (Nat.le_refl 3)
  obtain ⟨u, hvalue⟩ := hvalue t.limits.callDepth
  have hshown : text = "ValueError: (NotImplemented, None)" := htext.trans (by decide +kernel)
  rw [hshown] at hraise hvalue
  exact ⟨s, exception, t, u, hs, hu, hargs, Nat.le_refl 3, hraise, hvalue⟩

end ObjectModel
