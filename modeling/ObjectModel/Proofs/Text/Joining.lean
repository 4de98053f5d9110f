import ObjectModel.Proofs.Data.Elements
import ObjectModel.Proofs.Faults.Unfailing

/-!
# Joining texts

`join` asks an iterator for one piece after another and puts the separator in front of every piece
but the first, whatever was joined so far.

* `State.joins_exact` -- **what is joined, and how much is taken for it.**
-/

namespace ObjectModel

variable {s t u w : State} {c g v sep : Handle} {n : Nat} {separator : String}
  {pieces : List String} {stray : Option Handle} {o : Outcome (Except Fault Handle)}

/-! ## 1. Pieces -/

/-- **The pieces that an iterator hands out**, one request after the other: each is a text right
behind its request. -/
inductive State.HandsOut (n : Nat) (g : Handle) : State → List String → State → Prop where
  | nothing (s : State) : HandsOut n g s [] s
  | piece {s t u : State} {v : Handle} {piece : String} {pieces : List String} :
      (nextItem g).exec n s = .done (.ok (some v)) t → t.IsText v piece → HandsOut n g t pieces u →
      HandsOut n g s (piece :: pieces) u

/-- **A `join` at work.** The iterator of its argument hands out the pieces. Asked once more, it has
ended or hands out a stray object that is no text; `w` is the state right behind this last
request. -/
structure State.Joins (s : State) (n : Nat) (separator : String) (pieces : List String)
    (stray : Option Handle) (w : State) (o : Outcome (Except Fault Handle)) : Prop where
  orderly : s.Orderly
  rounds : pieces.length < n
  asked : ∃ sep c g t u, s.IsText sep separator ∧ (iter c).exec n s = .done (.ok g) t ∧
    t.HandsOut n g pieces u ∧ (nextItem g).exec n u = .done (.ok stray) w ∧
    o = ((Member.str .join).run [sep, c]).exec n s
  strays : ∀ v, stray = some v → ∃ object, w.heap.get? v = some object ∧ object.textValue = none

/-- The callback of `join`. -/
abbrev joinItem (separator : String) (joined : Option String) (item : Handle) :
    Run (Option String) := do
  return joinPiece separator joined (← textArgument "str.join" "items" item)

/-- **The pieces are joined one by one**, by induction on what is handed out. -/
theorem State.HandsOut.taken {k : Nat} {joined : Option String} (h : t.HandsOut n g pieces u)
    (separator : String) :
    Taken (engine n) g (joinItem separator) k none s joined t →
    Taken (engine n) g (joinItem separator) (k + pieces.length) none s
      (pieces.foldl (joinPiece separator) joined) u := by
  induction h generalizing k joined with
  | nothing => exact id
  | @piece t t' u v piece pieces hnext htext _ ih =>
    intro htaken
    rw [List.length_cons, ← Nat.add_assoc, Nat.add_right_comm, List.foldl_cons]
    exact ih (.more htaken hnext (Run.run_bind_ok (htext.run_textArgument _ _ _)))

theorem foldl_joinPiece (separator : String) (pieces : List String) (text : String) :
    pieces.foldl (joinPiece separator) (some text)
      = some (separator.intercalate (text :: pieces)) := by
  induction pieces generalizing text with
  | nil => rw [List.foldl_nil, String.intercalate_singleton]
  | cons piece pieces ih =>
    rw [List.foldl_cons, joinPiece, ih, String.intercalate_cons_append,
      String.intercalate_cons_cons]

/-- The joined text has the separator between the pieces, also if they are empty. -/
theorem getD_foldl_joinPiece (separator : String) (pieces : List String) :
    (pieces.foldl (joinPiece separator) none).getD "" = separator.intercalate pieces := by
  cases pieces with
  | nil => rw [List.foldl_nil, Option.getD_none, String.intercalate_nil]
  | cons piece pieces => rw [List.foldl_cons, joinPiece, foldl_joinPiece, Option.getD_some]

/-! ## 2. What is joined -/

/-- A request leaves an orderly state. -/
theorem State.Orderly.next {item : Option Handle} (hs : s.Orderly)
    (hnext : (nextItem g).exec n s = .done (.ok item) t) : t.Orderly :=
  (composed_nextItem (K := []) trivial g).builds.orderly_done hs hnext

theorem State.HandsOut.orderly (h : s.HandsOut n g pieces t) (hs : s.Orderly) : t.Orderly := by
  induction h with
  | nothing => exact hs
  | piece hnext _ _ ih => exact ih (hs.next hnext)

/-- **An error with a message**: a text is made for it and raised, and nothing else happens. -/
theorem State.Orderly.raisesMessage {α : Type} (hs : s.Orderly) (kind : ExceptionKind)
    (message : String) (n : Nat) :
    ∃ fault text t u, (raiseMessage kind message : Run α).exec n s = .done (.error fault) u ∧
      s.Placed (.ofText message) text t ∧ t.Raises kind [text] fault u := by
  obtain ⟨text, t, ht, hp⟩ := State.exists_placed hs.regular.heap (.ofText message)
  have horderly : t.Orderly := by
    have hmade := hs.allocate (.text message)
    rwa [ht] at hmade
  obtain ⟨type, name, base, htype, hpayload⟩ :=
    Heap.isType_iff.mp (horderly.heap.isType_builtin .str)
  have hnaming : t.heap.Naming text _ name := .object hp.found rfl (.type htype hpayload)
  have hnamed : ∀ a ∈ [text], ∃ path name, t.heap.Naming a path name :=
    List.forall_mem_singleton.mpr ⟨_, _, hnaming⟩
  obtain ⟨fault, u, hrun, hraises⟩ := State.raises (α := α) horderly hnamed kind n
  refine ⟨fault, text, t, u, ?_, hp, hraises⟩
  have hallocate : (newText message).run.run (engine n) s = .done (.ok text) t := by
    cases ht
    rfl
  exact (Run.run_bind_ok hallocate).trans hrun

namespace State.Joins

theorem orderly_last (h : s.Joins n separator pieces stray w o) : w.Orderly := by
  obtain ⟨_, c, g, t, u, _, hiter, hpieces, hlast, _⟩ := h.asked
  have hbuilds :=
    (paired_iter (Known.mem (List.mem_singleton_self c)).related).composed_known.builds
  exact (hpieces.orderly (hbuilds.orderly_done h.orderly hiter)).next hlast

theorem joined (h : s.Joins n separator pieces none w o) :
    ∃ h u, o = .done (.ok h) u ∧ w.Placed (.ofText (separator.intercalate pieces)) h u := by
  obtain ⟨text, u, hu, hp⟩ :=
    State.exists_placed h.orderly_last.regular.heap (.ofText (separator.intercalate pieces))
  obtain ⟨sep, c, g, t, t', hsep, hiter, hpieces, hlast, rfl⟩ := h.asked
  have hloop : (forEach c none (joinItem separator)).run.run (engine n) s = _ :=
    (hpieces.taken separator (.none none t)).ended (by rw [Nat.zero_add]; exact h.rounds)
      hiter hlast
  refine ⟨text, u, ?_, hp⟩
  have hjoin : (strJoin sep c).exec n s = _ :=
    (Run.run_bind_ok (hsep.run_textReceiver _ _)).trans (Run.run_bind_ok hloop)
  refine hjoin.trans ?_
  rw [getD_foldl_joinPiece]
  cases hu
  rfl

theorem refused (h : s.Joins n separator pieces (some v) w o) :
    ∃ fault text w' u, o = .done (.error fault) u ∧
      w.Placed (.ofText "`str.join` requires `items` to be str") text w' ∧
      w'.Raises .typeError [text] fault u := by
  obtain ⟨fault, text, w', u, hraise, hp, hraises⟩ :=
    h.orderly_last.raisesMessage (α := String) .typeError "`str.join` requires `items` to be str" n
  obtain ⟨object, hget, hvalue⟩ := h.strays v rfl
  obtain ⟨sep, c, g, t, t', hsep, hiter, hpieces, hlast, rfl⟩ := h.asked
  have hargument : (textArgument "str.join" "items" v).run.run (engine n) w
      = .done (.error fault) u := by
    have hnone : (textValue v).run.run (engine n) w = .done (.ok none) w := by
      refine (run_object_bind hget).trans ?_
      rw [hvalue]
      rfl
    exact (Run.run_bind_ok hnone).trans hraise
  have hloop : (forEach c none (joinItem separator)).run.run (engine n) s
      = .done (.error fault) u :=
    (hpieces.taken separator (.none none t)).failed (by rw [Nat.zero_add]; exact h.rounds) hiter
      hlast (Run.run_bind_error hargument)
  refine ⟨fault, text, w', u, ?_, hp, hraises⟩
  exact (Run.run_bind_ok (hsep.run_textReceiver _ _)).trans (Run.run_bind_error hloop)

end State.Joins

/-- **What is joined, and how much is taken for it.** Of an iterator that ends behind its pieces, a
new text is made with the separator between them. A stray object is a `TypeError` right behind the
request that it came from: no other request was made, so one more item was taken than there were
pieces. The join of two parts is the join of the first, the separator, and the join of the
second. -/
theorem State.joins_exact :
    (∀ {n separator pieces s w o}, State.Joins s n separator pieces none w o →
      ∃ h u, o = .done (.ok h) u ∧ w.Placed (.ofText (separator.intercalate pieces)) h u) ∧
    (∀ {n separator pieces s v w o}, State.Joins s n separator pieces (some v) w o →
      ∃ fault text w' u, o = .done (.error fault) u ∧
        w.Placed (.ofText "`str.join` requires `items` to be str") text w' ∧
        w'.Raises .typeError [text] fault u) ∧
    ∀ {n n₁ n₂ separator first second s s₁ s₂ w w₁ w₂ o o₁ o₂}, first ≠ [] → second ≠ [] →
      State.Joins s₁ n₁ separator first none w₁ o₁ → State.Joins s₂ n₂ separator second none w₂ o₂ →
      State.Joins s n separator (first ++ second) none w o →
      ∃ a b h₁ h₂ h u₁ u₂ u, o₁ = .done (.ok h₁) u₁ ∧ u₁.IsText h₁ a ∧ o₂ = .done (.ok h₂) u₂ ∧
        u₂.IsText h₂ b ∧ o = .done (.ok h) u ∧ u.IsText h (a ++ separator ++ b) := by
  refine ⟨Joins.joined, Joins.refused,
    fun {n n₁ n₂ separator first second} _ _ _ _ _ _ _ _ _ hfirst hsecond hj₁ hj₂ hj => ?_⟩
  obtain ⟨h₁, u₁, ho₁, hp₁⟩ := hj₁.joined
  obtain ⟨h₂, u₂, ho₂, hp₂⟩ := hj₂.joined
  obtain ⟨h, u, ho, hp⟩ := hj.joined
  refine ⟨_, _, h₁, h₂, h, u₁, u₂, u, ho₁, ⟨_, hp₁.found, rfl⟩, ho₂, ⟨_, hp₂.found, rfl⟩, ho, _,
    hp.found, ?_⟩
  rw [String.intercalate_append_of_ne_nil hfirst hsecond]
  rfl

/-! ## 3. Requests -/

/-- **Values that are texts are handed out as pieces**, by induction on the pieces. -/
theorem State.Dealing.handsOut {d : Deal} (n : Nat) (pieces : List String) :
    ∀ {k : Nat} {s : State}, s.Dealing g d k →
    k + pieces.length ≤ d.size → (∀ j piece t v, pieces[j]? = some piece → s.ButFor g t →
      d.shows (k + j) t v → t.IsText v piece) →
    ∃ t, s.HandsOut (n + 2) g pieces t ∧ t.Dealing g d (k + pieces.length) ∧ s.ButFor g t := by
  induction pieces with
  | nil => exact fun hs _ _ => ⟨_, .nothing _, hs, .of_kept id⟩
  | cons piece pieces ih =>
    intro k s hs hsize htexts
    rw [List.length_cons, ← Nat.add_assoc, Nat.add_right_comm] at hsize ⊢
    obtain ⟨v, t, hnext, hv, ht, hb⟩ := hs.run_nextItem_value (by omega) n
    obtain ⟨u, hpieces, hu, hb'⟩ := ih ht hsize fun j piece u v hj hb' hv =>
      htexts (j + 1) piece u v hj (hb.trans hb')
        (by rw [← Nat.add_assoc, Nat.add_right_comm]; exact hv)
    exact ⟨u, .piece hnext (htexts 0 piece t v rfl hb hv) hpieces, hu, hb.trans hb'⟩

/-- The text at `h`, if there is one. -/
def State.text? (s : State) (h : Handle) : Option String := (s.heap.get? h).bind Object.textValue

theorem State.isText_of_text? {text : String} (h : s.text? v = some text) : s.IsText v text := by
  obtain ⟨object, hget, htext⟩ := Option.bind_eq_some_iff.mp h
  refine ⟨object, hget, ?_⟩
  unfold Object.textValue at htext
  split at htext
  · rename_i hp
    cases htext
    exact hp
  · cases htext

/-- The state behind these pieces, if the iterator hands them out. -/
def State.behindPieces (n : Nat) (g : Handle) : List String → State → Option State
  | [], s => some s
  | piece :: pieces, s =>
    match (nextItem g).exec n s with
    | .done (.ok (some v)) t => if t.text? v = some piece then behindPieces n g pieces t else none
    | _ => none

theorem State.handsOut_of_behindPieces (h : behindPieces n g pieces s = some t) :
    s.HandsOut n g pieces t := by
  induction pieces generalizing s with
  | nil =>
    cases h
    exact .nothing _
  | cons piece pieces ih =>
    rw [behindPieces] at h
    split at h
    case h_1 v u hnext =>
      split at h
      case isTrue htext => exact .piece hnext (isText_of_text? htext) (ih h)
      case isFalse => cases h
    case h_2 => cases h

/-- What the last request of a `join` answers, and the state behind it. -/
def State.lastRequest (n : Nat) (c : Handle) (pieces : List String) (s : State) :
    Option (Option Handle × State) := do
  let g ← ((iter c).exec n s).value?
  let t ← behindPieces n g pieces ((iter c).exec n s).state
  let stray ← ((nextItem g).exec n t).value?
  return (stray, ((nextItem g).exec n t).state)

theorem State.joins_of_lastRequest (hs : s.Orderly) (hn : pieces.length < n)
    (hsep : s.text? sep = some separator) (h : s.lastRequest n c pieces = some (stray, w)) (hstray :
      ∀ v, stray = some v → ∃ object, w.heap.get? v = some object ∧ object.textValue = none) :
    s.Joins n separator pieces stray w (((Member.str .join).run [sep, c]).exec n s) := by
  obtain ⟨g, hiter, h⟩ := Option.bind_eq_some_iff.mp h
  obtain ⟨t, hpieces, h⟩ := Option.bind_eq_some_iff.mp h
  obtain ⟨last, hlast, h⟩ := Option.bind_eq_some_iff.mp h
  cases h
  exact ⟨hs, hn, ⟨sep, c, g, _, t, isText_of_text? hsep, Outcome.eq_ok hiter,
    handsOut_of_behindPieces hpieces, Outcome.eq_ok hlast, rfl⟩, hstray⟩

/-- Makes a comma and three tuples. -/
def commaAndPieces : List Script.Expr :=
  [.setLocal "sep" (.text ","), .setLocal "c" (.list .tuple [.text "", .text "a"]),
    .setLocal "d" (.list .tuple [.text "", .text "a", .text "", .text "a"]),
    .setLocal "e" (.list .tuple [.text "", .text "a", .int 7])]

/-- Joined by commas, `("", "a")` is `,a` and `("", "a", "", "a")` is `,a,,a`. Of `("", "a", 7)`,
three items are taken before the error. -/
theorem State.joins_exact_commas :
    ∃ (s : State) (v : Handle) (w w₁ w₂ : State) (o o₁ o₂ : Outcome (Except Fault Handle)),
      s.Reachable ∧
    s.Joins 5 "," ["", "a"] none w o ∧ s.Joins 5 "," ["", "a", "", "a"] none w₁ o₁ ∧
    s.Joins 5 "," ["", "a"] (some v) w₂ o₂ ∧
    (∃ h u, o = .done (.ok h) u ∧ u.IsText h ",a") ∧
    (∃ h u, o₁ = .done (.ok h) u ∧ u.IsText h ",a,,a") ∧
    ∃ fault u, o₂ = .done (.error fault) u ∧ w₂.heap.KeptIn u.heap := by
  obtain ⟨_, s, hs, sep, -, c, -, d, -, e, -, hsep, ⟨⟨_, w⟩, hc, rfl⟩, ⟨⟨_, w₁⟩, hd, rfl⟩,
      ⟨stray, w₂⟩, he, v, hv, object, hget, htext⟩ :=
    Session.exists_reached (fun _ => True) .standard 5 commaAndPieces
      (fun frame s => ∃ sep ∈ frame.locals.get? "sep", ∃ c ∈ frame.locals.get? "c",
        ∃ d ∈ frame.locals.get? "d", ∃ e ∈ frame.locals.get? "e", s.text? sep = some "," ∧
        (∃ last ∈ s.lastRequest 5 c ["", "a"], last.1 = none) ∧
        (∃ last ∈ s.lastRequest 5 d ["", "a", "", "a"], last.1 = none) ∧
        ∃ last ∈ s.lastRequest 5 e ["", "a"], ∃ v ∈ last.1, ∃ o ∈ last.2.heap.get? v,
          o.textValue = none) (by decide +kernel)
  have hj := State.joins_of_lastRequest hs.orderly (by decide) hsep hc fun _ hv => by cases hv
  have hj₁ := State.joins_of_lastRequest hs.orderly (by decide) hsep hd fun _ hv => by cases hv
  have hj₂ := State.joins_of_lastRequest hs.orderly (by decide) hsep he fun v' hv' => by
    cases hv.symm.trans hv'
    exact ⟨object, hget, htext⟩
  obtain rfl : stray = some v := hv
  obtain ⟨hjoined, hrefused, _⟩ := State.joins_exact
  obtain ⟨h, u, ho, hp⟩ := hjoined hj
  obtain ⟨h₁, u₁, ho₁, hp₁⟩ := hjoined hj₁
  obtain ⟨fault, text, w', u₂, ho₂, hp₂, hraises⟩ := hrefused hj₂
  exact ⟨s, v, w, w₁, w₂, _, _, _, hs, hj, hj₁, hj₂, ⟨h, u, ho, _, hp.found, rfl⟩,
    ⟨h₁, u₁, ho₁, _, hp₁.found, rfl⟩, fault, u₂, ho₂, fun hget => hraises.kept (hp₂.kept hget)⟩

end ObjectModel
