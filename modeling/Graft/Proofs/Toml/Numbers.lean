import Mathlib.Data.List.Basic
import Graft.Toml.Value

/-!
# Whole numbers are read as they were written

A whole number that fits in 64 bits is written in decimal, and reading that gives the number and leaves
what follows, if that ends a value (`read?_toString`). Its digits are not taken for a moment in time
either, since no moment has so many digits and nothing else (`Moment.read?_digits`).
-/

namespace Graft.Toml

variable {c : Char} {ds rest : Text} {n : Nat}

/-- What may follow a value: the end of its line, or what goes on or ends an array. -/
def Follows (rest : Text) : Prop := ∃ c ∈ rest.head?, c = '\n' ∨ c = ',' ∨ c = ']'

/-- What follows a value starts with one of the marks that may. -/
theorem Follows.exists_cons (h : Follows rest) :
    ∃ c tail, rest = c :: tail ∧ (c = '\n' ∨ c = ',' ∨ c = ']') := by
  obtain ⟨c, hc, hends⟩ := h
  obtain ⟨tail, rfl⟩ := List.head?_eq_some_iff.mp hc
  exact ⟨c, tail, rfl, hends⟩

/-! ## Digits -/

/-- The digits are the same as those of the standard library. -/
theorem isDigit_eq (c : Char) : Alphabet.isDigit c = c.isDigit := by
  unfold Alphabet.isDigit Char.isDigit
  simp only [Char.le_def, ge_iff_le]

/-- The digits of a number. -/
theorem isDigit_of_mem_toDigits (h : c ∈ Nat.toDigits 10 n) : Alphabet.isDigit c = true := by
  rw [isDigit_eq]
  exact Nat.isDigit_of_mem_toDigits (by decide) (by decide) h

/-- Only zero starts with a zero. -/
theorem head?_toDigits (hn : 0 < n) : (Nat.toDigits 10 n).head? ≠ some '0' := by
  induction n using Nat.strongRecOn with
  | _ n ih =>
    rw [Nat.toDigits_eq_if (by decide)]
    split
    · next hlt =>
      have hdigits : ∀ m, m < 10 → 0 < m → m.digitChar ≠ '0' := by decide
      simpa using hdigits n hlt hn
    · have hrest := ih (n / 10) (by omega) (by omega)
      rw [List.head?_append_of_ne_nil _ Nat.toDigits_ne_nil]
      exact hrest

/-- A decimal digit has its value as a hexadecimal one. -/
theorem digit?_of_isDigit (h : Alphabet.isDigit c = true) : Hex.digit? c = some (c.toNat - 48) := by
  unfold Hex.digit?
  exact if_pos h

/-- The value of the digits of a number. -/
theorem value_toDigits (n : Nat) : Number.value 10 (Nat.toDigits 10 n) = n := by
  have hfold : ∀ (ds : Text) (m : Nat), (∀ c ∈ ds, Alphabet.isDigit c = true) →
      ds.foldl (fun n d => n * 10 + (Hex.digit? d).getD 0) m = Nat.ofDigitChars 10 ds m := by
    intro ds
    induction ds with
    | nil => exact fun m _ => rfl
    | cons d ds ih =>
      intro m hds
      have hd := digit?_of_isDigit (hds d List.mem_cons_self)
      have hrest := ih (10 * m + (d.toNat - 48)) fun c hc => hds c (List.mem_cons_of_mem d hc)
      rw [List.foldl_cons, hd, Option.getD_some, Nat.mul_comm m 10, hrest]
      rfl
  unfold Number.value
  rw [hfold _ 0 fun c hc => isDigit_of_mem_toDigits hc]
  exact Nat.ofDigitChars_toDigits (by decide) (by decide)

/-- Digits are taken as far as they go. -/
theorem digits_append (hds : ∀ c ∈ ds, Alphabet.isDigit c = true) (hrest : Follows rest) :
    Number.digits Alphabet.isDigit (ds ++ rest) = (ds, rest) := by
  induction ds with
  | nil =>
    obtain ⟨c, tail, rfl, rfl | rfl | rfl⟩ := hrest.exists_cons <;> rfl
  | cons d ds ih =>
    have hd := hds d List.mem_cons_self
    have hmark : d ≠ '_' := by
      rintro rfl
      cases hd
    rw [List.cons_append, Number.digits.eq_def]
    split
    · next heq => exact absurd (List.cons.inj heq).1 hmark
    · next heq =>
      obtain ⟨rfl, rfl⟩ := List.cons.inj heq
      rw [if_pos hd, ih fun c hc => hds c (List.mem_cons_of_mem d hc)]
    · next heq => exact absurd heq (List.cons_ne_nil _ _)

/-! ## Moments -/

/-- A field of a moment is followed by a mark, but digits are followed by digits or by what ends a
value. -/
theorem field?_digits {length low high m : Nat} {tail : Text}
    (hds : ∀ c ∈ ds, Alphabet.isDigit c = true) (hrest : Follows rest)
    (h : Moment.field? length low high (ds ++ rest) = some (m, tail)) :
    Text.follow? "-" tail = none ∧ Text.follow? ":" tail = none := by
  obtain ⟨c, more, rfl, hc⟩ := hrest.exists_cons
  have hcDigit : Alphabet.isDigit c = false := by
    rcases hc with rfl | rfl | rfl <;> rfl
  unfold Moment.field? at h
  simp only at h
  split at h
  · next hfield =>
    rw [Bool.and_eq_true, decide_eq_true_eq, List.all_eq_true] at hfield
    -- All of the field are digits, so it ends within them.
    have hwithin : length ≤ ds.length := by
      by_contra hlonger
      have hmem : c ∈ (ds ++ c :: more).take length := by
        obtain ⟨k, rfl⟩ : ∃ k, length = ds.length + (k + 1) := ⟨length - ds.length - 1, by omega⟩
        rw [List.take_length_add_append, List.take_succ_cons]
        exact List.mem_append_right ds List.mem_cons_self
      rw [hfield.2 c hmem] at hcDigit
      cases hcDigit
    split at h
    · cases h
      rw [List.drop_append_of_le_length hwithin]
      cases hdrop : ds.drop length with
      | nil => rcases hc with rfl | rfl | rfl <;> exact ⟨rfl, rfl⟩
      | cons d others =>
        have hd : Alphabet.isDigit d = true :=
          hds d (List.mem_of_mem_drop (hdrop ▸ List.mem_cons_self))
        have hdash : d ≠ '-' := by rintro rfl; cases hd
        have hcolon : d ≠ ':' := by rintro rfl; cases hd
        constructor
        · exact if_neg hdash.symm
        · exact if_neg hcolon.symm
    · cases h
  · cases h

/-- Digits alone are no moment. -/
theorem Moment.read?_digits (hds : ∀ c ∈ ds, Alphabet.isDigit c = true) (hrest : Follows rest) :
    Moment.read? (ds ++ rest) = none := by
  have hdate : Moment.date? (ds ++ rest) = none := by
    unfold Moment.date?
    cases hyear : Moment.field? 4 0 9999 (ds ++ rest) with
    | none => rfl
    | some found => simp [(field?_digits hds hrest hyear).1]
  have htime : Moment.time? (ds ++ rest) = none := by
    unfold Moment.time? Moment.minutes?
    cases hhour : Moment.field? 2 0 23 (ds ++ rest) with
    | none => rfl
    | some found => simp [(field?_digits hds hrest hhour).2]
  unfold Moment.read?
  rw [hdate, htime]
  rfl

/-- What does not start with a digit is no moment. -/
theorem Moment.read?_cons (hc : Alphabet.isDigit c = false) (rest : Text) :
    Moment.read? (c :: rest) = none := by
  have hfield : ∀ length low high, 0 < length → Moment.field? length low high (c :: rest) = none := by
    intro length low high hpos
    obtain ⟨k, rfl⟩ : ∃ k, length = k + 1 := ⟨length - 1, by omega⟩
    simp [Moment.field?, hc]
  have hdate : Moment.date? (c :: rest) = none := by
    unfold Moment.date?
    rw [hfield 4 0 9999 (by decide)]
    rfl
  have htime : Moment.time? (c :: rest) = none := by
    unfold Moment.time? Moment.minutes?
    rw [hfield 2 0 23 (by decide)]
    rfl
  unfold Moment.read?
  rw [hdate, htime]
  rfl

/-! ## Whole numbers -/

/-- The digits of a number are taken as a whole. -/
theorem whole?_toDigits (n : Nat) (hrest : Follows rest) :
    Number.whole? (Nat.toDigits 10 n ++ rest) = some (Nat.toDigits 10 n, rest) := by
  rcases Nat.eq_zero_or_pos n with rfl | hn
  · rfl
  · have hdigits : ∀ c ∈ Nat.toDigits 10 n, Alphabet.isDigit c = true :=
      fun c hc => isDigit_of_mem_toDigits hc
    have hhead := head?_toDigits hn
    obtain ⟨d, ds, hds⟩ := List.exists_cons_of_ne_nil (Nat.toDigits_ne_nil (n := n) (b := 10))
    rw [hds] at hdigits hhead ⊢
    have hd : d ≠ '0' := fun hd => hhead (by rw [hd]; rfl)
    have hall := digits_append hdigits hrest
    rw [Number.whole?.eq_def]
    split
    · next heq =>
      cases heq
      exact absurd rfl hd
    · unfold Number.digits?
      rw [hall]
      exact if_pos (by simp [hdigits d List.mem_cons_self])

/-- A decimal number without a sign, or after a minus. -/
theorem decimal?_toDigits {text : Text} {isNegative : Bool} (n : Nat) (hrest : Follows rest)
    (hsign : Number.sign text = (isNegative, Nat.toDigits 10 n ++ rest))
    (hfits : Tree.isWord (if isNegative then -n else n) = true) :
    Number.decimal? text = some (.integer (if isNegative then -n else n), rest) := by
  -- A digit starts no word, and what follows a value starts no fraction and no exponent.
  have hword : ∀ word : String, (∃ c ∈ word.toList.head?, Alphabet.isDigit c = false) →
      Text.follow? word (Nat.toDigits 10 n ++ rest) = none := by
    rintro word ⟨c, hc, hcDigit⟩
    obtain ⟨letters, hletters⟩ := List.head?_eq_some_iff.mp hc
    obtain ⟨d, ds, hds⟩ := List.exists_cons_of_ne_nil (Nat.toDigits_ne_nil (n := n) (b := 10))
    have hd : Alphabet.isDigit d = true := isDigit_of_mem_toDigits (hds ▸ List.mem_cons_self)
    have hne : c ≠ d := by
      rintro rfl
      rw [hd] at hcDigit
      cases hcDigit
    unfold Text.follow?
    rw [hletters, hds]
    exact if_neg hne
  have hinf := hword "inf" ⟨'i', rfl, rfl⟩
  have hnan := hword "nan" ⟨'n', rfl, rfl⟩
  have hend : Number.fraction? rest = none ∧ Number.exponent? rest = none := by
    obtain ⟨c, tail, rfl, rfl | rfl | rfl⟩ := hrest.exists_cons <;> exact ⟨rfl, rfl⟩
  unfold Number.decimal?
  rw [hsign]
  simp only [hinf, hnan, whole?_toDigits n hrest, hend.1, hend.2, value_toDigits, Number.integer?,
    hfits, Option.orElse_eq_orElse, Option.orElse_none, Option.bind_eq_bind, Option.bind_some,
    if_true]
  rfl

/-- Neither a minus nor a digit other than zero starts a number to another base, and zero does not do so
before what may follow a value. -/
theorem read?_eq_decimal? {text : Text}
    (h : ∀ c ∈ (text.drop 1).head?, text.head? = some '0' → c = '\n' ∨ c = ',' ∨ c = ']') :
    Number.read? text = Number.decimal? text := by
  rw [Number.read?.eq_def]
  split
  · simpa using h 'x' rfl rfl
  · simpa using h 'o' rfl rfl
  · simpa using h 'b' rfl rfl
  · rfl

/-- Digits start no number to another base. -/
theorem read?_toDigits (n : Nat) (hrest : Follows rest) :
    Number.read? (Nat.toDigits 10 n ++ rest) = Number.decimal? (Nat.toDigits 10 n ++ rest) := by
  apply read?_eq_decimal?
  intro c hc hzero
  rcases Nat.eq_zero_or_pos n with rfl | hn
  · obtain ⟨d, tail, rfl, hd⟩ := hrest.exists_cons
    cases hc
    exact hd
  · rw [List.head?_append_of_ne_nil _ Nat.toDigits_ne_nil] at hzero
    exact absurd hzero (head?_toDigits hn)

/-- Digits have no sign. -/
theorem sign_toDigits (n : Nat) (rest : Text) :
    Number.sign (Nat.toDigits 10 n ++ rest) = (false, Nat.toDigits 10 n ++ rest) := by
  obtain ⟨d, ds, hds⟩ := List.exists_cons_of_ne_nil (Nat.toDigits_ne_nil (n := n) (b := 10))
  have hd : Alphabet.isDigit d = true := isDigit_of_mem_toDigits (hds ▸ List.mem_cons_self)
  rw [hds, List.cons_append, Number.sign.eq_def]
  split
  · next heq =>
    cases (List.cons.inj heq).1
    cases hd
  · next heq =>
    cases (List.cons.inj heq).1
    cases hd
  · rfl

/-- A number that is not negative is printed by its digits. -/
theorem toList_toString_ofNat (m : Nat) : (toString (Int.ofNat m)).toList = Nat.toDigits 10 m := by
  show (Nat.repr m).toList = Nat.toDigits 10 m
  rw [Nat.repr, String.toList_ofList]

/-- A negative number is printed by a sign and digits. -/
theorem toList_toString_negSucc (m : Nat) :
    (toString (Int.negSucc m)).toList = '-' :: Nat.toDigits 10 (m + 1) := by
  show ("-" ++ Nat.repr (m + 1)).toList = '-' :: Nat.toDigits 10 (m + 1)
  rw [Nat.repr, String.toList_append, String.toList_ofList]
  simp

/-- A whole number is read back as it was written. -/
theorem read?_toString (n : Int) (hfits : Tree.isWord n = true) (hrest : Follows rest) :
    Number.read? ((toString n).toList ++ rest) = some (.integer n, rest) := by
  cases n with
  | ofNat m =>
    rw [toList_toString_ofNat, read?_toDigits m hrest]
    exact decimal?_toDigits m hrest (sign_toDigits m rest) hfits
  | negSucc m =>
    have hsign : Number.sign ('-' :: Nat.toDigits 10 (m + 1) ++ rest) =
        (true, Nat.toDigits 10 (m + 1) ++ rest) := rfl
    rw [toList_toString_negSucc, read?_eq_decimal? (by simp)]
    exact decimal?_toDigits (m + 1) hrest hsign hfits

end Graft.Toml
