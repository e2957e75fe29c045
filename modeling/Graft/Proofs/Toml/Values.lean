import Mathlib.Data.List.Basic
import Graft.Proofs.Toml.Numbers
import Graft.Proofs.Toml.Strings

/-!
# Values are read as they were written

A value in a line is read back (`scalar?_spell`), and so is a list of such values however many lines it
takes (`value?_plain`). The character that a spelled value starts with decides how it is read: it opens
no array and no table, and it is nothing that the reader passes over between values (`Starts`).
-/

namespace Graft.Toml

variable {c : Char} {t : Tree} {e text rest : Text} {items : List Tree} {spelled : List Text}
  {fuel : Nat}

/-! ## Values in a line -/

/-- A character that a spelled value may start with. -/
structure Starts (c : Char) : Prop where
  blank : Alphabet.isBlank c = false
  mark : c ∉ ['\n', '\r', '#', '[', '{', ']']

/-- A value may start with a digit. -/
theorem starts_of_isDigit (h : Alphabet.isDigit c = true) : Starts c := by
  have hne : ∀ d, Alphabet.isDigit d = false → c ≠ d := by
    rintro d hd rfl
    rw [h] at hd
    cases hd
  constructor
  · simp [Alphabet.isBlank, hne ' ' rfl, hne '\t' rfl]
  · simp [hne '\n' rfl, hne '\r' rfl, hne '#' rfl, hne '[' rfl, hne '{' rfl, hne ']' rfl]

/-- The digits of a number, or a minus and digits. -/
theorem toString_cases (n : Int) : ∃ c ds, (toString n).toList = c :: ds ∧
    (c = '-' ∨ Alphabet.isDigit c = true) := by
  cases n with
  | ofNat m =>
    obtain ⟨d, ds, hds⟩ := List.exists_cons_of_ne_nil (Nat.toDigits_ne_nil (n := m) (b := 10))
    exact ⟨d, ds, toList_toString_ofNat m ▸ hds, .inr (isDigit_of_mem_toDigits (hds ▸ List.mem_cons_self))⟩
  | negSucc m => exact ⟨'-', _, toList_toString_negSucc m, .inl rfl⟩

/-- A string starts with a quotation mark. -/
theorem string_cases (t : Text) : ∃ c tail, string t = c :: tail ∧ (c = '"' ∨ c = '\'') := by
  unfold string
  cases Style.of t with
  | basic => exact ⟨_, _, rfl, .inl rfl⟩
  | literal => exact ⟨_, _, rfl, .inr rfl⟩
  | multiBasic => exact ⟨_, _, rfl, .inl rfl⟩
  | multiLiteral => exact ⟨_, _, rfl, .inr rfl⟩

/-- What a spelled value starts with. -/
theorem spell?_cases (h : spell? t = some e) : ∃ c tail, e = c :: tail ∧ Starts c := by
  unfold spell? at h
  split at h
  · cases h
    exact ⟨'t', "rue".toList, rfl, by decide, by decide⟩
  · cases h
    exact ⟨'f', "alse".toList, rfl, by decide, by decide⟩
  · next n =>
    split at h
    · cases h
      obtain ⟨c, ds, hds, rfl | hc⟩ := toString_cases n
      · exact ⟨'-', ds, hds, by decide, by decide⟩
      · exact ⟨c, ds, hds, starts_of_isDigit hc⟩
    · cases h
  · next s =>
    cases h
    obtain ⟨c, tail, htail, rfl | rfl⟩ := string_cases s.toList
    · exact ⟨'"', tail, htail, by decide, by decide⟩
    · exact ⟨'\'', tail, htail, by decide, by decide⟩
  · cases h

/-- What starts with a digit or a minus is a number, unless it is a moment. -/
theorem scalar?_eq_read? (hc : c = '-' ∨ Alphabet.isDigit c = true)
    (hmoment : Moment.read? (c :: rest) = none) : scalar? (c :: rest) = Number.read? (c :: rest) := by
  -- No string and no flag starts with a digit or a minus.
  have hne : ∀ d, d ≠ '-' → Alphabet.isDigit d = false → c ≠ d := by
    rintro d hminus hd rfl
    rcases hc with rfl | hc
    · exact hminus rfl
    · rw [hc] at hd
      cases hd
  have hword : ∀ (d : Char) (word : Text), d ≠ '-' → Alphabet.isDigit d = false →
      Text.after? (d :: word) (c :: rest) = none :=
    fun d word hminus hd => if_neg (hne d hminus hd).symm
  have hquoted : Quoted.read? (c :: rest) = none := by
    have hdouble : Text.follow? "\"\"\"" (c :: rest) = none := hword '"' _ (by decide) (by decide)
    have hsingle : Text.follow? "'''" (c :: rest) = none := hword '\'' _ (by decide) (by decide)
    unfold Quoted.read?
    rw [hdouble, hsingle]
    split
    · next heq => cases heq
    · next heq => cases heq
    · next heq => exact absurd (List.cons.inj heq).1 (hne '"' (by decide) (by decide))
    · next heq => exact absurd (List.cons.inj heq).1 (hne '\'' (by decide) (by decide))
    · rfl
  have hflag : flag? (c :: rest) = none := by
    have htrue : Text.follow? "true" (c :: rest) = none := hword 't' _ (by decide) (by decide)
    have hfalse : Text.follow? "false" (c :: rest) = none := hword 'f' _ (by decide) (by decide)
    unfold flag?
    rw [htrue, hfalse]
    rfl
  unfold scalar?
  rw [hquoted, hflag, hmoment]
  rfl

/-- The digits of a number, with its sign, are no moment. -/
theorem moment?_toString (n : Int) (hrest : Follows rest) :
    Moment.read? ((toString n).toList ++ rest) = none := by
  cases n with
  | ofNat m =>
    rw [toList_toString_ofNat]
    exact Moment.read?_digits (fun c hc => isDigit_of_mem_toDigits hc) hrest
  | negSucc m =>
    rw [toList_toString_negSucc]
    exact Moment.read?_cons (by decide) _

/-- A value in a line is read back as it was written. -/
theorem scalar?_spell (h : spell? t = some e) (hrest : Follows rest) :
    scalar? (e ++ rest) = some (t, rest) := by
  unfold spell? at h
  -- The branches are the kinds of value that have a place in a line.
  split at h
  · cases h
    rfl
  · cases h
    rfl
  · next n =>
    split at h
    · next hfits =>
      cases h
      obtain ⟨c, ds, hds, hc⟩ := toString_cases n
      have hmoment := moment?_toString n hrest
      rw [hds, List.cons_append] at hmoment
      rw [← read?_toString n hfits hrest, hds, List.cons_append]
      exact scalar?_eq_read? hc hmoment
    · cases h
  · next s =>
    cases h
    obtain ⟨c, tail, rfl, hc⟩ := hrest.exists_cons
    have hquotes : c ≠ '"' ∧ c ≠ '\'' := by
      rcases hc with rfl | rfl | rfl <;> decide
    have hread : Quoted.read? (string s.toList ++ c :: tail) = some (s.toList, c :: tail) :=
      read?_string s.toList (by simpa using hquotes.1) (by simpa using hquotes.2)
    unfold scalar?
    rw [hread]
    simp only [String.ofList_toList]
  · cases h

/-! ## Lists -/

/-- A list that is mapped as a whole is mapped from its head on. -/
theorem mapM_cons_cases {α β : Type} {f : α → Option β} {a : α} {l : List α} {l' : List β}
    (h : (a :: l).mapM f = some l') : ∃ b bs, f a = some b ∧ l.mapM f = some bs ∧ l' = b :: bs := by
  simp only [List.mapM_cons, Option.bind_eq_bind, Option.bind_eq_some_iff, Option.pure_def,
    Option.some.injEq] at h
  obtain ⟨b, hb, bs, hbs, rfl⟩ := h
  exact ⟨b, bs, hb, hbs, rfl⟩

/-- Nothing is read from nothing. -/
theorem mapM_nil_cases {α β : Type} {f : α → Option β} {l' : List β}
    (h : ([] : List α).mapM f = some l') : l' = [] := by
  rw [List.mapM_nil] at h
  exact (Option.some.inj h).symm

/-- Nothing is passed over before a value. -/
theorem Starts.skipFill (h : Starts c) (rest : Text) : skipFill false (c :: rest) = c :: rest := by
  have hmark := h.mark
  simp only [List.mem_cons, List.not_mem_nil, or_false, not_or] at hmark
  simp [Toml.skipFill, h.blank, hmark.1, hmark.2.1, hmark.2.2.1]

/-- A value in a line, with what comes after it. -/
theorem valueWithin?_spell (h : spell? t = some e) (hrest : Follows rest) :
    valueWithin? (fuel + 1) (e ++ rest) = some (t, rest) := by
  obtain ⟨c, tail, rfl, hc⟩ := spell?_cases h
  have hmark := hc.mark
  simp only [List.mem_cons, List.not_mem_nil, or_false, not_or] at hmark
  rw [List.cons_append, valueWithin?.eq_def]
  split
  · next heq => cases heq
  · next heq => exact absurd (List.cons.inj heq).1 hmark.2.2.2.1
  · next heq => exact absurd (List.cons.inj heq).1 hmark.2.2.2.2.1
  · exact scalar?_spell h hrest

/-- The lines that a list of more than one value takes. -/
def itemLines (spelled : List Text) : Text :=
  spelled.flatMap fun item => "    ".toList ++ item ++ [',', '\n']

/-- The blanks before a value are passed over. -/
theorem skipFill_itemLines_cons (h : spell? t = some e) (rest : Text) :
    skipFill false (itemLines (e :: spelled) ++ rest) =
      e ++ ',' :: '\n' :: (itemLines spelled ++ rest) := by
  obtain ⟨c, tail, rfl, hc⟩ := spell?_cases h
  have hskip : ∀ text, skipFill false ("    ".toList ++ text) = skipFill false text := fun _ => rfl
  unfold itemLines
  rw [List.flatMap_cons]
  simp only [List.append_assoc, List.cons_append, List.nil_append]
  rw [hskip]
  exact hc.skipFill _

/-- The last item of an array, with a comma after it. -/
theorem items?_last (hvalue : valueWithin? fuel text = some (t, ',' :: rest)) {tail : Text}
    (hend : skipFill false rest = ']' :: tail) : items? (fuel + 1) text = some ([t], tail) := by
  have hcomma : skipFill false (',' :: rest) = ',' :: rest := rfl
  rw [items?, hvalue]
  simp only [Option.bind_eq_bind, Option.bind_some, hcomma, hend]
  rfl

/-- An item of an array with others after it. -/
theorem items?_cons (hvalue : valueWithin? fuel text = some (t, ',' :: rest))
    (hnext : ∀ tail, skipFill false rest ≠ ']' :: tail) :
    items? (fuel + 1) text =
      (items? fuel (skipFill false rest)).map fun (items, tail) => (t :: items, tail) := by
  have hcomma : skipFill false (',' :: rest) = ',' :: rest := rfl
  rw [items?, hvalue]
  simp only [Option.bind_eq_bind, Option.bind_some, hcomma]
  cases items? fuel (skipFill false rest) <;> rfl

/-- A spelled value is no closing bracket. -/
theorem ne_bracket_of_spell (h : spell? t = some e) (rest tail : Text) : e ++ rest ≠ ']' :: tail := by
  obtain ⟨c, more, rfl, hc⟩ := spell?_cases h
  intro heq
  have hbracket : c = ']' := (List.cons.inj heq).1
  exact hc.mark (by simp [hbracket])

/-- The lines of a list are read back, up to its closing bracket. -/
theorem items?_itemLines (h : items.mapM spell? = some spelled) (hne : items ≠ [])
    (hfuel : items.length < fuel) (rest : Text) :
    items? fuel (skipFill false (itemLines spelled ++ ']' :: rest)) = some (items, rest) := by
  -- The induction is on the items, of which the last has the closing bracket behind it.
  induction items generalizing spelled fuel with
  | nil => exact absurd rfl hne
  | cons item items ih =>
    obtain ⟨e, others, hitem, hothers, rfl⟩ := mapM_cons_cases h
    obtain ⟨fuel, rfl⟩ : ∃ k, fuel = k + 2 := ⟨fuel - 2, by
      rw [List.length_cons] at hfuel
      omega⟩
    have hvalue : valueWithin? (fuel + 1) (e ++ ',' :: '\n' :: (itemLines others ++ ']' :: rest)) =
        some (item, ',' :: '\n' :: (itemLines others ++ ']' :: rest)) :=
      valueWithin?_spell hitem ⟨',', rfl, .inr (.inl rfl)⟩
    have hline : ∀ text, skipFill false ('\n' :: text) = skipFill false text := fun _ => rfl
    rw [skipFill_itemLines_cons hitem]
    cases items with
    | nil =>
      obtain rfl := mapM_nil_cases hothers
      exact items?_last hvalue rfl
    | cons next items =>
      obtain ⟨e', others, hnext, -, rfl⟩ := mapM_cons_cases hothers
      have hmore := ih hothers (List.cons_ne_nil _ _) (by
        simp only [List.length_cons] at hfuel ⊢
        omega : (next :: items).length < fuel + 1)
      rw [items?_cons hvalue (by
        rw [hline, skipFill_itemLines_cons hnext]
        exact ne_bracket_of_spell hnext _), hline, hmore]
      rfl

/-- What follows an opening bracket is the end of an empty array, or its items. -/
theorem valueWithin?_bracket (hnext : ∀ tail, skipFill false rest ≠ ']' :: tail) :
    valueWithin? (fuel + 1) ('[' :: rest) =
      (items? fuel (skipFill false rest)).map fun (items, tail) => (.list items, tail) := by
  rw [valueWithin?]
  split
  · next heq => exact absurd heq (hnext _)
  · rfl

/-- A list is read back as it was written, whatever follows. -/
theorem valueWithin?_list (h : items.mapM spell? = some spelled) (hfuel : items.length + 2 ≤ fuel)
    (rest : Text) : valueWithin? fuel (list spelled ++ rest) = some (.list items, rest) := by
  obtain ⟨fuel, rfl⟩ : ∃ k, fuel = k + 1 := ⟨fuel - 1, by omega⟩
  -- An empty list and a list of one item stand in one line, longer ones have a line for each item.
  match items with
  | [] =>
    cases h
    rfl
  | [item] =>
    obtain ⟨e, others, hitem, hothers, rfl⟩ := mapM_cons_cases h
    obtain rfl := mapM_nil_cases hothers
    obtain ⟨fuel, rfl⟩ : ∃ k, fuel = k + 2 := ⟨fuel - 2, by
      rw [List.length_singleton] at hfuel
      omega⟩
    have hskip : skipFill false (e ++ ']' :: rest) = e ++ ']' :: rest := by
      obtain ⟨c, tail, rfl, hc⟩ := spell?_cases hitem
      exact hc.skipFill _
    have hvalue : valueWithin? (fuel + 1) (e ++ ']' :: rest) = some (item, ']' :: rest) :=
      valueWithin?_spell hitem ⟨']', rfl, .inr (.inr rfl)⟩
    have hend : skipFill false (']' :: rest) = ']' :: rest := rfl
    have hlist : list [e] ++ rest = '[' :: (e ++ ']' :: rest) := by
      simp [list]
    rw [hlist, valueWithin?_bracket (by rw [hskip]; exact ne_bracket_of_spell hitem _), hskip, items?,
      hvalue]
    simp only [Option.bind_eq_bind, Option.bind_some, hend]
    rfl
  | item :: next :: items =>
    obtain ⟨e, others, hitem, hothers, rfl⟩ := mapM_cons_cases h
    obtain ⟨e', others, hnext, -, rfl⟩ := mapM_cons_cases hothers
    have hitems := items?_itemLines h (List.cons_ne_nil _ _) (by omega : _ < fuel) rest
    have hline : ∀ text, skipFill false ('\n' :: text) = skipFill false text := fun _ => rfl
    have hlist : list (e :: e' :: others) ++ rest =
        '[' :: '\n' :: (itemLines (e :: e' :: others) ++ ']' :: rest) := by
      show ('[' :: '\n' :: itemLines (e :: e' :: others) ++ [']']) ++ rest = _
      simp only [List.cons_append, List.append_assoc, List.nil_append]
    rw [hlist, valueWithin?_bracket (by
      rw [hline, skipFill_itemLines_cons hitem]
      exact ne_bracket_of_spell hitem _), hline, hitems]
    rfl

/-- The lines of a list have a character for each value. -/
theorem length_le_itemLines (h : items.mapM spell? = some spelled) :
    items.length ≤ (itemLines spelled).length := by
  induction items generalizing spelled with
  | nil => exact Nat.zero_le _
  | cons item items ih =>
    obtain ⟨e, others, -, hothers, rfl⟩ := mapM_cons_cases h
    have hmore := ih hothers
    have hline : (itemLines (e :: others)).length =
        ("    ".toList ++ e ++ [',', '\n']).length + (itemLines others).length := by
      rw [itemLines, List.flatMap_cons, List.length_append]
      rfl
    rw [hline]
    simp only [List.length_append, List.length_cons]
    omega

/-- A list takes more characters than it has values. -/
theorem length_lt_list (h : items.mapM spell? = some spelled) :
    items.length < (list spelled).length := by
  match items with
  | [] =>
    cases h
    decide
  | [item] =>
    obtain ⟨e, others, hitem, hothers, rfl⟩ := mapM_cons_cases h
    obtain rfl := mapM_nil_cases hothers
    simp [list]
  | item :: next :: items =>
    have hlines := length_le_itemLines h
    obtain ⟨e, others, hitem, hothers, rfl⟩ := mapM_cons_cases h
    obtain ⟨e', others, hnext, -, rfl⟩ := mapM_cons_cases hothers
    show _ < ('[' :: '\n' :: itemLines (e :: e' :: others) ++ [']']).length
    simp only [List.length_append, List.length_cons] at hlines ⊢
    omega

/-- A value is read back as it was written. -/
theorem value?_plain (h : plain? t = some e) (hrest : Follows rest) :
    value? (e ++ rest) = some (t, rest) := by
  unfold plain? at h
  unfold value?
  split at h
  · next items =>
    obtain ⟨spelled, hspelled, rfl⟩ := Option.map_eq_some_iff.mp h
    have hlength := length_lt_list hspelled
    apply valueWithin?_list hspelled
    rw [List.length_append]
    omega
  · exact valueWithin?_spell h hrest

end Graft.Toml
