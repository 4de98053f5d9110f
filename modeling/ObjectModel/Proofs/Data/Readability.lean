import ObjectModel.Proofs.Data.Rendering

/-!
# Data values can be read back

Different data values have different texts. Two equal texts are read from the front, each in front
of some rest: the first character tells the type, and for every type it is settled where the text
ends.

* `Text.Told` -- **the text of a value can be told from what follows**.
-/

namespace ObjectModel

variable {r r' rest : List Char} {c : Char}

namespace Text

variable {α : Type}

/-! ## 1. What may follow -/

/-- What may follow the text of a data value: nothing, a comma, or the end of a container. -/
def Ends : List Char → Prop
  | [] => True
  | c :: _ => c ∈ [',', ')', ']', '\x7d']

/-- What may follow the last item of a container: the closing character, perhaps behind a comma. -/
inductive Closes : List Char → Prop where
  | bracket {c : Char} {rest : List Char} : c ∈ [')', ']', '\x7d'] → Closes (c :: rest)
  | comma {c : Char} {rest : List Char} : c ∈ [')', ']', '\x7d'] → Closes (',' :: c :: rest)

theorem Closes.ends (h : Closes rest) : Ends rest := by
  cases h with
  | bracket hc => exact List.mem_cons_of_mem _ hc
  | comma _ => exact List.mem_cons_self

theorem Closes.ne_separator {rest' : List Char} (h : Closes rest) : rest ≠ ',' :: ' ' :: rest' := by
  rintro rfl
  cases h with
  | bracket hc => revert hc; decide
  | comma hc => revert hc; decide

/-- **The text of `x` can be told from what follows**: no other value has a text that is the same up
to such a rest. -/
def Told (code : α → List Char) (Rest : List Char → Prop) (x : α) : Prop :=
  ∀ (y : α) (r r' : List Char), Rest r → Rest r' → code x ++ r = code y ++ r' → x = y ∧ r = r'

/-! ## 2. Quoted texts -/

/-- The character that is written as a backslash and `c`. -/
def unescape (c : Char) : Char := if c = 'n' then '\n' else if c = 't' then '\t' else c

/-- A character stands for itself, or is written with a backslash. -/
theorem escape_cases (c : Char) :
    (c ≠ '\x27' ∧ c ≠ '\\' ∧ escape c = [c]) ∨ ∃ d, escape c = ['\\', d] ∧ unescape d = c := by
  unfold escape
  split_ifs with hquote hslash hline htab
  · exact Or.inr ⟨'\x27', rfl, hquote.symm⟩
  · exact Or.inr ⟨'\\', rfl, hslash.symm⟩
  · exact Or.inr ⟨'n', rfl, hline.symm⟩
  · exact Or.inr ⟨'t', rfl, htab.symm⟩
  · exact Or.inl ⟨hquote, hslash, rfl⟩

theorem escape_append_inj {d : Char} (h : escape c ++ r = escape d ++ r') : c = d ∧ r = r' := by
  rcases escape_cases c with ⟨_, hc, hec⟩ | ⟨c', hec, rfl⟩ <;>
    rcases escape_cases d with ⟨_, hd, hed⟩ | ⟨d', hed, rfl⟩ <;> rw [hec, hed] at h
  · exact List.cons.inj h
  · exact absurd (List.cons.inj h).1 hc
  · exact absurd (List.cons.inj h).1.symm hd
  · obtain ⟨rfl, hrest⟩ := List.cons.inj (List.cons.inj h).2
    exact ⟨rfl, hrest⟩

/-- No character stands inside quotes as a bare quote. -/
theorem escape_append_ne : escape c ++ r ≠ '\x27' :: r' := by
  intro h
  rcases escape_cases c with ⟨hc, _, hec⟩ | ⟨d, hec, _⟩ <;> rw [hec] at h
  · exact hc (List.cons.inj h).1
  · exact absurd (List.cons.inj h).1 (by decide)

/-- **A quoted text ends at its closing quote.** -/
theorem told_quoteChars (xs : List Char) : Told quoteChars (fun _ => True) xs := by
  have hbody : ∀ (ys r r' : List Char),
      xs.flatMap escape ++ '\x27' :: r = ys.flatMap escape ++ '\x27' :: r' → xs = ys ∧ r = r' := by
    induction xs with
    | nil =>
      intro ys r r' h
      cases ys with
      | nil => exact ⟨rfl, (List.cons.inj h).2⟩
      | cons d ys =>
        rw [List.flatMap_cons, List.append_assoc] at h
        exact absurd h.symm escape_append_ne
    | cons c xs ih =>
      intro ys r r' h
      rw [List.flatMap_cons, List.append_assoc] at h
      cases ys with
      | nil => exact absurd h escape_append_ne
      | cons d ys =>
        rw [List.flatMap_cons, List.append_assoc] at h
        obtain ⟨rfl, hrest⟩ := escape_append_inj h
        obtain ⟨rfl, rfl⟩ := ih ys r r' hrest
        exact ⟨rfl, rfl⟩
  intro ys r r' _ _ h
  refine hbody ys r r' ?_
  simpa only [quoteChars, List.cons_append, List.append_assoc, List.nil_append, List.cons.injEq,
    true_and] using h

theorem quote_injective : Function.Injective quote := by
  intro x y h
  have hchars :
      quoteChars x.toList ++ [] = quoteChars y.toList ++ [] := by rw [String.ofList_injective h]
  exact String.toList_injective (told_quoteChars x.toList y.toList [] [] trivial trivial hchars).1

/-- The places, counted from `i`, of the quotes that are not escaped: a backslash takes the next
character along. -/
def bareQuotes (i : Nat) : List Char → List Nat
  | '\\' :: _ :: rest => bareQuotes (i + 2) rest
  | c :: rest => if c = '\x27' then i :: bareQuotes (i + 1) rest else bareQuotes (i + 1) rest
  | [] => []

theorem bareQuotes_escape (i : Nat) (c : Char) (rest : List Char) :
    bareQuotes i (escape c ++ rest) = bareQuotes (i + (escape c).length) rest := by
  rcases escape_cases c with ⟨hquote, hslash, he⟩ | ⟨d, he, _⟩ <;> rw [he]
  · rw [List.singleton_append, bareQuotes, if_neg hquote, List.length_singleton]
    rintro _ _ rfl
    exact absurd rfl hslash
  · rfl

theorem bareQuotes_flatMap (i : Nat) (chars rest : List Char) :
    bareQuotes i (chars.flatMap escape ++ rest)
      = bareQuotes (i + (chars.flatMap escape).length) rest := by
  induction chars generalizing i with
  | nil => rfl
  | cons c chars ih =>
    rw [List.flatMap_cons, List.append_assoc, bareQuotes_escape, ih, List.length_append,
      Nat.add_assoc]

/-- **The only quotes that are not escaped are the first and the last character.** -/
theorem bareQuotes_quote (text : String) :
    bareQuotes 0 (quote text).toList = [0, (quote text).length - 1] := by
  have hchars : (quote text).toList = '\x27' :: (text.toList.flatMap escape ++ ['\x27']) :=
    String.toList_ofList ..
  have hlength : (quote text).length - 1 = 0 + 1 + (text.toList.flatMap escape).length := by
    rw [← String.length_toList, hchars, List.length_cons, List.length_append, List.length_singleton]
    omega
  rw [hlength, hchars, bareQuotes, if_pos rfl, bareQuotes_flatMap]
  · rfl
  · exact fun _ _ h => absurd h (by decide)

/-! ## 3. Numbers -/

def isNumeral (c : Char) : Bool := c.isDigit || c == '-'

theorem isNumeral_of_mem_ofInt {n : Int} (hc : c ∈ (ofInt n).toList) : isNumeral c = true := by
  have hdigits : ∀ m : Nat, c ∈ m.repr.toList → isNumeral c = true := by
    intro m hc
    rw [Nat.repr_eq_ofList_toDigits, String.toList_ofList] at hc
    rw [isNumeral, Nat.isDigit_of_mem_toDigits (by decide) (by decide) hc, Bool.true_or]
  rw [ofInt, Int.toString_eq_repr, Int.repr_eq_if] at hc
  split_ifs at hc
  · exact hdigits _ hc
  · rw [String.toList_append] at hc
    rcases List.mem_append.mp hc with hc | hc
    · rw [List.mem_singleton.mp hc]
      rfl
    · exact hdigits _ hc

theorem ofInt_toList_ne_nil (n : Int) : (ofInt n).toList ≠ [] := by
  have hdigits : ∀ m : Nat, m.repr.toList ≠ [] := by
    intro m
    rw [Nat.repr_eq_ofList_toDigits, String.toList_ofList]
    exact Nat.toDigits_ne_nil
  rw [ofInt, Int.toString_eq_repr, Int.repr_eq_if]
  split_ifs
  · exact hdigits _
  · rw [String.toList_append]
    exact List.append_ne_nil_of_right_ne_nil _ (hdigits _)

/-- Different numbers have different numerals. -/
theorem ofInt_injective : Function.Injective ofInt := by
  have hdigits (m : Nat) : m.repr.toList = Nat.toDigits 10 m := by
    rw [Nat.repr_eq_ofList_toDigits, String.toList_ofList]
  have hnat {m k : Nat} (h : m.repr.toList = k.repr.toList) : m = k := by
    rw [hdigits, hdigits] at h
    rw [← Nat.ofDigitChars_ten_toDigits (n := m), h, Nat.ofDigitChars_ten_toDigits]
  have hsign (m k : Nat) : m.repr ≠ "-" ++ k.repr := by
    intro h
    have hm : '-' ∈ m.repr.toList := by
      rw [h, String.toList_append]
      exact List.mem_append_left _ List.mem_cons_self
    exact absurd (Nat.isDigit_of_mem_toDigits (by decide) (by decide) (hdigits m ▸ hm)) (by decide)
  intro a b h
  rw [ofInt, ofInt, Int.toString_eq_repr, Int.toString_eq_repr, Int.repr_eq_if, Int.repr_eq_if] at h
  split_ifs at h
  · have := hnat (congrArg String.toList h)
    omega
  · exact absurd h (hsign _ _)
  · exact absurd h.symm (hsign _ _)
  · have htail := congrArg String.toList h
    rw [String.toList_append, String.toList_append] at htail
    have := hnat (List.append_cancel_left htail)
    omega

theorem Ends.takeWhile_isNumeral (h : Ends r) : r.takeWhile isNumeral = [] := by
  cases r with
  | nil => rfl
  | cons c r =>
    have hc : ∀ c ∈ [',', ')', ']', '\x7d'], ¬ isNumeral c = true := by simp [isNumeral]
    exact List.takeWhile_cons_of_neg (hc c h)

/-- A number ends in front of the first character that is none of a number. -/
theorem told_ofInt (n : Int64) : Told (fun n : Int64 => (ofInt n.toInt).toList) Ends n := by
  intro m r r' hr hr' h
  have htake := congrArg (List.takeWhile isNumeral) h
  rw [List.takeWhile_append_of_pos fun _ => isNumeral_of_mem_ofInt,
    List.takeWhile_append_of_pos fun _ => isNumeral_of_mem_ofInt,
    hr.takeWhile_isNumeral, hr'.takeWhile_isNumeral, List.append_nil, List.append_nil] at htake
  obtain rfl := Int64.toInt_inj.mp (ofInt_injective (String.toList_injective htake))
  exact ⟨rfl, List.append_cancel_left h⟩

/-! ## 4. Items between separators -/

section

variable (code : α → List Char)

/-- The texts of the items behind the first one, each with a separator in front. -/
def following (xs : List α) : List Char := xs.flatMap fun x => ',' :: ' ' :: code x

/-- The texts of the items, with separators between them. -/
def joined : List α → List Char
  | [] => []
  | x :: xs => code x ++ following code xs

variable {code} {xs : List α}

theorem toList_joinWith (f : α → String) (xs : List α) :
    (joinWith ", " (xs.map f)).toList = joined (fun x => (f x).toList) xs := by
  rw [joinWith, String.toList_intercalate, List.map_map]
  cases xs with
  | nil => rfl
  | cons x xs =>
    induction xs generalizing x with
    | nil => simp [joined, following]
    | cons y ys ih =>
      rw [List.map_cons, List.intercalate_cons_of_ne_nil (by simp), ih y]
      simp [joined, following]

theorem ends_following (hr : Closes r) : Ends (following code xs ++ r) := by
  cases xs with
  | nil => exact hr.ends
  | cons x xs => exact List.mem_cons_self

theorem told_following (hcode : ∀ x ∈ xs, Told code Ends x) : Told (following code) Closes xs := by
  induction xs with
  | nil =>
    intro ys r r' hr _ h
    cases ys with
    | nil => exact ⟨rfl, h⟩
    | cons y ys => exact absurd h hr.ne_separator
  | cons x xs ih =>
    intro ys r r' hr hr' h
    cases ys with
    | nil => exact absurd h.symm hr'.ne_separator
    | cons y ys =>
      have hitem : code x ++ (following code xs ++ r) = code y ++ (following code ys ++ r') := by
        simpa [following] using h
      obtain ⟨rfl, hrest⟩ :=
        hcode x List.mem_cons_self y _ _ (ends_following hr) (ends_following hr') hitem
      obtain ⟨rfl, rfl⟩ :=
        ih (fun x' hx' => hcode x' (List.mem_cons_of_mem x hx')) ys r r' hr hr' hrest
      exact ⟨rfl, rfl⟩

/-- **Items between separators can be told apart** if the texts of the items can, and none of them
looks like the end of the container. -/
theorem told_joined (hcode : ∀ x ∈ xs, Told code Ends x)
    (hne : ∀ (x : α) (r : List Char), ¬ Closes (code x ++ r)) : Told (joined code) Closes xs := by
  intro ys r r' hr hr' h
  cases xs with
  | nil =>
    cases ys with
    | nil => exact ⟨rfl, h⟩
    | cons y ys =>
      have hitem : r = code y ++ (following code ys ++ r') := by simpa [joined] using h
      exact absurd (hitem ▸ hr) (hne y _)
  | cons x xs =>
    cases ys with
    | nil =>
      have hitem : code x ++ (following code xs ++ r) = r' := by simpa [joined] using h
      exact absurd (hitem.symm ▸ hr') (hne x _)
    | cons y ys =>
      have hitem : code x ++ (following code xs ++ r)
          = code y ++ (following code ys ++ r') := by simpa [joined] using h
      obtain ⟨rfl, hrest⟩ :=
        hcode x List.mem_cons_self y _ _ (ends_following hr) (ends_following hr') hitem
      obtain ⟨rfl, rfl⟩ :=
        told_following (fun x' hx' => hcode x' (List.mem_cons_of_mem x hx')) ys r r' hr hr' hrest
      exact ⟨rfl, rfl⟩

end

/-- What stands behind the items of a tuple. -/
def tupleEnd (xs : List α) : List Char := if xs.length = 1 then [',', ')'] else [')']

theorem closes_tupleEnd (xs : List α) (r : List Char) : Closes (tupleEnd xs ++ r) := by
  unfold tupleEnd
  split_ifs
  · exact .comma (by decide)
  · exact .bracket (by decide)

theorem toList_tupleText (f : α → String) (xs : List α) :
    (tupleText (xs.map f)).toList = '(' :: (joined (fun x => (f x).toList) xs ++ tupleEnd xs) := by
  rw [← toList_joinWith]
  cases xs with
  | nil => simp [tupleText, tupleEnd]
  | cons x xs =>
    cases xs with
    | nil => simp [tupleText, tupleEnd, joinWith]
    | cons y ys => simp [tupleText, tupleEnd]

/-! ## 5. The first character -/

/-- The type of the data values whose text begins with `c`. -/
def opened? (c : Char) : Option BuiltinType :=
  if isNumeral c then some .int
  else if c = '\x27' then some .str
  else if c = 'T' ∨ c = 'F' then some .bool
  else if c = 'N' then some .noneType
  else if c = '(' then some .tuple
  else if c = '[' then some .list
  else if c = '\x7b' then some .dict
  else none

/-- No data value begins as a container ends. -/
theorem not_closes_of_opened? {t : BuiltinType} (h : opened? c = some t) : ¬ Closes (c :: r) := by
  have hnone : ∀ c ∈ [',', ')', ']', '\x7d'], opened? c = none := by simp [opened?, isNumeral]
  intro hr
  rw [hnone c hr.ends] at h
  cases h

end Text

/-! ## 6. Data values -/

namespace Datum

open Text

/-- The characters of the text. -/
def chars (t : Datum) : List Char := t.render.toList

def entryChars (entry : String × Datum) : List Char :=
  quoteChars entry.1.toList ++ ':' :: ' ' :: entry.2.chars

section

variable (items : List Datum) (entries : List (String × Datum))

theorem chars_int (n : Int64) : (of (.int n)).chars = (ofInt n.toInt).toList := rfl

theorem chars_text (text : String) : (of (.text text)).chars = quoteChars text.toList :=
  String.toList_ofList ..

theorem chars_bool (b : Bool) :
    (of (.bool b)).chars = if b then ['T', 'r', 'u', 'e'] else ['F', 'a', 'l', 's', 'e'] := by
  cases b <;> rfl

theorem chars_none : (of .none).chars = ['N', 'o', 'n', 'e'] := rfl

theorem chars_tuple :
    (of (.tuple items)).chars = '(' :: (joined chars items ++ tupleEnd items) := by
  rw [chars, render_of]
  exact toList_tupleText render items

theorem chars_list : (of (.list items)).chars = '[' :: (joined chars items ++ [']']) := by
  have hitems := toList_joinWith render items
  rw [chars, render_of, Layer.map, Layer.write, String.toList_append, String.toList_append, hitems]
  rfl

theorem chars_dict :
    (of (.dict entries)).chars = '\x7b' :: (joined entryChars entries ++ ['\x7d']) := by
  have hentry : (fun entry : String × Datum => (quote entry.1 ++ ": " ++ entry.2.render).toList)
      = entryChars := by
    funext entry
    simp [entryChars, chars, quote]
  have hentries :=
    toList_joinWith (fun entry : String × Datum => quote entry.1 ++ ": " ++ entry.2.render) entries
  rw [hentry] at hentries
  rw [chars, render_of, Layer.map, Layer.write, List.map_map, String.toList_append,
    String.toList_append]
  exact congrArg (fun body => '\x7b' :: (body ++ ['\x7d'])) hentries

end

/-- **The first character tells the type.** -/
theorem exists_opened (l : Layer Datum) :
    ∃ c rest, (of l).chars = c :: rest ∧ opened? c = some l.type := by
  cases l with
  | int n =>
    obtain ⟨c, rest, hc⟩ := List.exists_cons_of_ne_nil (ofInt_toList_ne_nil n.toInt)
    refine ⟨c, rest, hc, if_pos (isNumeral_of_mem_ofInt (n := n.toInt) ?_)⟩
    rw [hc]
    exact List.mem_cons_self
  | text text => exact ⟨_, _, chars_text text, by simp [opened?, isNumeral, Layer.type]⟩
  | bool b => cases b <;> exact ⟨_, _, chars_bool _, by simp [opened?, isNumeral, Layer.type]⟩
  | none => exact ⟨_, _, chars_none, by simp [opened?, isNumeral, Layer.type]⟩
  | tuple items => exact ⟨_, _, chars_tuple items, by simp [opened?, isNumeral, Layer.type]⟩
  | list items => exact ⟨_, _, chars_list items, by simp [opened?, isNumeral, Layer.type]⟩
  | dict entries => exact ⟨_, _, chars_dict entries, by simp [opened?, isNumeral, Layer.type]⟩

theorem not_closes_chars (t : Datum) (r : List Char) : ¬ Closes (t.chars ++ r) := by
  obtain ⟨l⟩ := t
  obtain ⟨c, rest, hc, ht⟩ := exists_opened l
  rw [hc]
  exact not_closes_of_opened? ht

theorem not_closes_entryChars (entry : String × Datum) (r : List Char) :
    ¬ Closes (entryChars entry ++ r) :=
  not_closes_of_opened? (c := '\x27') (t := .str) (by simp [opened?, isNumeral])

/-- Equal texts are texts of the same type. -/
theorem type_eq_of_chars_eq {l m : Layer Datum} (h : (of l).chars ++ r = (of m).chars ++ r') :
    l.type = m.type := by
  obtain ⟨c, rest, hc, hl⟩ := exists_opened l
  obtain ⟨d, rest', hd, hm⟩ := exists_opened m
  rw [hc, hd] at h
  obtain rfl := (List.cons.inj h).1
  exact Option.some.inj (hl.symm.trans hm)

theorem told_entryChars {entry : String × Datum} (h : Told chars Ends entry.2) :
    Told entryChars Ends entry := by
  obtain ⟨key, t⟩ := entry
  rintro ⟨key', u⟩ r r' hr hr' heq
  rw [entryChars, entryChars, List.append_assoc, List.append_assoc] at heq
  obtain ⟨hkey, hrest⟩ := told_quoteChars key.toList key'.toList _ _ trivial trivial heq
  obtain ⟨rfl, rfl⟩ := h u r r' hr hr' (List.cons.inj (List.cons.inj hrest).2).2
  exact ⟨by rw [String.toList_injective hkey], rfl⟩

/-- A container between its opening character and its end. -/
theorem told_body {α : Type} {code : α → List Char} {xs ys : List α} {opening : Char}
    (ending : List α → List Char) (hcode : ∀ x ∈ xs, Told code Ends x)
    (hne : ∀ (x : α) (r : List Char), ¬ Closes (code x ++ r))
    (hends : ∀ (xs : List α) (r : List Char), Closes (ending xs ++ r)) (h : opening
      :: (joined code xs ++ ending xs) ++ r = opening :: (joined code ys ++ ending ys) ++ r') :
    xs = ys ∧ r = r' := by
  have hbody : joined code xs ++ (ending xs ++ r) = joined code ys ++ (ending ys ++ r') := by
    rw [← List.append_assoc, ← List.append_assoc]
    exact (List.cons.inj h).2
  obtain ⟨rfl, hrest⟩ := told_joined hcode hne ys _ _ (hends xs r) (hends ys r') hbody
  exact ⟨rfl, List.append_cancel_left hrest⟩

/-- **The text of a data value can be told from what follows.** -/
theorem told_chars (t : Datum) : Told chars Ends t := by
  -- on the data value: the items of a container are told apart first
  induction t using Datum.induction with
  | h l ih =>
    rintro ⟨m⟩ r r' hr hr' h
    have htype := type_eq_of_chars_eq h
    cases l with
    | int n =>
      cases m with
      | int k =>
        rw [chars_int, chars_int] at h
        obtain ⟨rfl, rfl⟩ := told_ofInt n k r r' hr hr' h
        exact ⟨rfl, rfl⟩
      | _ => cases htype
    | text x =>
      cases m with
      | text y =>
        rw [chars_text, chars_text] at h
        obtain ⟨hxy, rfl⟩ := told_quoteChars x.toList y.toList r r' trivial trivial h
        exact ⟨by rw [String.toList_injective hxy], rfl⟩
      | _ => cases htype
    | bool b =>
      cases m with
      | bool c =>
        rw [chars_bool, chars_bool] at h
        obtain rfl : b = c := by
          cases b <;> cases c
          · rfl
          · exact absurd (List.cons.inj h).1 (by decide)
          · exact absurd (List.cons.inj h).1 (by decide)
          · rfl
        exact ⟨rfl, List.append_cancel_left h⟩
      | _ => cases htype
    | none =>
      cases m with
      | none => exact ⟨rfl, List.append_cancel_left h⟩
      | _ => cases htype
    | tuple xs =>
      cases m with
      | tuple ys =>
        rw [chars_tuple, chars_tuple] at h
        obtain ⟨rfl, rfl⟩ := told_body tupleEnd ih not_closes_chars closes_tupleEnd h
        exact ⟨rfl, rfl⟩
      | _ => cases htype
    | list xs =>
      cases m with
      | list ys =>
        rw [chars_list, chars_list] at h
        obtain ⟨rfl, rfl⟩ :=
          told_body (fun _ => [']']) ih not_closes_chars (fun _ _ => .bracket (by decide)) h
        exact ⟨rfl, rfl⟩
      | _ => cases htype
    | dict xs =>
      cases m with
      | dict ys =>
        rw [chars_dict, chars_dict] at h
        have hentries : ∀ entry ∈ xs, Told entryChars Ends entry := fun entry hentry =>
          told_entryChars (ih entry.2 (List.mem_map_of_mem hentry))
        obtain ⟨rfl, rfl⟩ := told_body (fun _ => ['\x7d']) hentries not_closes_entryChars
            (fun _ _ => .bracket (by decide)) h
        exact ⟨rfl, rfl⟩
      | _ => cases htype

/-- **Different data values have different texts.** -/
theorem render_injective : Function.Injective render := by
  intro t u h
  have hchars : t.chars ++ [] = u.chars ++ [] := by rw [chars, chars, h]
  exact (told_chars t u [] [] trivial trivial hchars).1

end Datum

/-- **`repr` is unambiguous.** Two data values, each in a state of a session in which the builtin
types are as they were placed and with no more levels than are left, both have a text, and it is the
same exactly if the data values are. In particular no two texts are quoted alike, and the only
quotes that are not escaped in a quoted text are its first and its last character. -/
theorem State.repr_unambiguous {s s' : State} (hs : s.Reachable) (hs' : s'.Reachable)
    (hu : s.heap.Unaltered) (hu' : s'.heap.Unaltered) {a b : Handle} {t u : Datum}
    (ha : s.heap.Shows a t) (hb : s'.heap.Shows b u) (hat : t.nesting ≤ s.levels)
    (hbu : u.nesting ≤ s'.levels) {n n' : Nat} (hn : s.levels < n) (hn' : s'.levels < n') :
    (∃ (x y : String) (v v' : State), (repr a).exec n s = .done (.ok x) v ∧
      (repr b).exec n' s' = .done (.ok y) v' ∧ (x = y ↔ t = u)) ∧
    Function.Injective Text.quote ∧
    ∀ text : String, Text.bareQuotes 0 (Text.quote text).toList
      = [0, (Text.quote text).length - 1] := by
  obtain ⟨v, _, hrun⟩ := (State.Native.of_reachable hs hu).run_repr ha hat hn
  obtain ⟨v', _, hrun'⟩ := (State.Native.of_reachable hs' hu').run_repr hb hbu hn'
  exact ⟨⟨t.render, u.render, v, v', hrun, hrun', Datum.render_injective.eq_iff⟩,
    Text.quote_injective, Text.bareQuotes_quote⟩

/-! ## 7. One text that looks like two -/

/-- A tuple of one text that has a quote, a comma and a quote in it, and a tuple of two texts. -/
theorem State.repr_unambiguous_texts :
    ∃ (s : State) (a b : Handle), s.Reachable ∧ s.heap.Unaltered ∧
      s.heap.Shows a (.of (.tuple [.of (.text "a', 'b")])) ∧
      s.heap.Shows b (.of (.tuple [.of (.text "a"), .of (.text "b")])) ∧
      (Datum.of (.tuple [.of (.text "a', 'b")])).nesting ≤ s.levels ∧
      (Datum.of (.tuple [.of (.text "a"), .of (.text "b")])).nesting ≤ s.levels ∧
      s.levels < s.levels + 1 ∧
      ∃ (x y : String) (v v' : State), (repr a).exec (s.levels + 1) s = .done (.ok x) v ∧
        (repr b).exec (s.levels + 1) s = .done (.ok y) v' ∧ x ≠ y := by
  obtain ⟨_, s, hs, x, -, y, -, z, -, a, -, b, -, hplaced, htwo, hx, hy, hz, ha, hb⟩ :=
    Session.exists_reached (fun _ => True) .standard 0
      [.setLocal "x" (.text "a', 'b"), .setLocal "y" (.text "a"), .setLocal "z" (.text "b"),
        .setLocal "a" (.list .tuple [.name "x"]),
          .setLocal "b" (.list .tuple [.name "y", .name "z"])]
      (fun frame s => ∃ x ∈ frame.locals.get? "x", ∃ y ∈ frame.locals.get? "y",
        ∃ z ∈ frame.locals.get? "z", ∃ a ∈ frame.locals.get? "a", ∃ b ∈ frame.locals.get? "b",
        s.heap.AsPlaced ∧ 2 ≤ s.levels ∧ s.heap.layer? x = some (.text "a', 'b") ∧
        s.heap.layer? y = some (.text "a") ∧ s.heap.layer? z = some (.text "b") ∧
        s.heap.layer? a = some (.tuple [x]) ∧
        s.heap.layer? b = some (.tuple [y, z])) (by decide +kernel)
  have hu := hplaced.unaltered
  have ha : s.heap.Shows a (.of (.tuple [.of (.text "a', 'b")])) :=
    .of_layer ha (.tuple (.cons (.of_layer hx (.text _)) .nil))
  have hb : s.heap.Shows b (.of (.tuple [.of (.text "a"), .of (.text "b")])) :=
    .of_layer hb (.tuple (.cons (.of_layer hy (.text _)) (.cons (.of_layer hz (.text _)) .nil)))
  have hat : (Datum.of (.tuple [.of (.text "a', 'b")])).nesting ≤ s.levels := htwo
  have hbu : (Datum.of (.tuple [.of (.text "a"), .of (.text "b")])).nesting ≤ s.levels := htwo
  have hn := Nat.lt_succ_self s.levels
  obtain ⟨⟨x, y, v, v', hx, hy, hiff⟩, _⟩ := State.repr_unambiguous hs hs hu hu ha hb hat hbu hn hn
  refine ⟨s, a, b, hs, hu, ha, hb, hat, hbu, hn, x, y, v, v', hx, hy, fun hxy => ?_⟩
  have hitems := Layer.tuple.inj (Datum.of.inj (hiff.mp hxy))
  exact absurd (congrArg List.length hitems) (by decide)

end ObjectModel
