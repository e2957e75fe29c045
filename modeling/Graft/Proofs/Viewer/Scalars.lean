import Mathlib.Data.List.Basic
import Graft.Proofs.Text.Front
import Graft.Proofs.Viewer.Grammar

/-!
# Numbers and words of JSON

The reader of scalars takes exactly the numbers, the truth values and null. It takes as much as it can
of a number, so a number is read in full only if nothing behind it would go on with it.
-/

namespace Graft.Viewer.Json

variable {c : Char} {t rest : Text}

/-- A digit lies between `0` and `9`. -/
theorem isDigit_iff : Alphabet.isDigit c = true ↔ '0' ≤ c ∧ c ≤ '9' := by
  simp [Alphabet.isDigit]

/-- Nothing at the start of a text goes on with a number in front of it. -/
def Stops (t : Text) : Prop := ∀ c ∈ t.head?, Alphabet.isDigit c = false ∧ c ≠ '.' ∧ c ≠ 'e' ∧ c ≠ 'E'

/-! ## Digits -/

/-- Digits are passed over, if no digit follows them. -/
theorem Digits.digits? (h : Digits t) (hrest : ∀ c ∈ rest.head?, Alphabet.isDigit c = false) :
    digits? (t ++ rest) = some rest := by
  obtain ⟨hne, ht⟩ := h
  have hdigits : ∀ c ∈ t, Alphabet.isDigit c = true := fun c hc => isDigit_iff.mpr (ht c hc)
  have hstop : rest.dropWhile Alphabet.isDigit = rest := by
    cases rest with
    | nil => rfl
    | cons c rest => exact List.dropWhile_cons_of_neg (by simp [hrest c (by simp)])
  obtain ⟨c, u, rfl⟩ := List.exists_cons_of_ne_nil hne
  have hhead : ((c :: u) ++ rest).head?.any Alphabet.isDigit = true := hdigits c (by simp)
  rw [Json.digits?, if_pos hhead, List.dropWhile_append_of_pos hdigits, hstop]

/-- What is passed over is digits. -/
theorem exists_digits (h : digits? t = some rest) : ∃ u, Digits u ∧ t = u ++ rest := by
  rw [Json.digits?] at h
  split at h
  · next hhead =>
    obtain rfl := Option.some.inj h
    refine ⟨t.takeWhile Alphabet.isDigit, ⟨?_, fun c hc => isDigit_iff.mp (List.mem_takeWhile_imp hc)⟩,
      List.takeWhile_append_dropWhile.symm⟩
    cases t with
    | nil => cases hhead
    | cons c t =>
      have hc : Alphabet.isDigit c = true := hhead
      simp [List.takeWhile_cons_of_pos hc]
  · cases h

/-! ## The parts of a number -/

/-- The whole part of a number is passed over, if no digit follows it. -/
theorem Whole.wholePart? (h : Whole t) (hrest : ∀ c ∈ rest.head?, Alphabet.isDigit c = false) :
    wholePart? (t ++ rest) = some rest := by
  cases h with
  | zero =>
    have hstop : rest.head?.any Alphabet.isDigit = false := by
      cases rest with
      | nil => rfl
      | cons c rest => exact hrest c (by simp)
    simp [Json.wholePart?, hstop]
  | digits h hc =>
    have hdigits := h.digits? hrest
    rw [Json.wholePart?.eq_def]
    split
    · next heq => exact absurd (List.cons.inj heq).1 hc
    · exact hdigits

/-- What is passed over is the whole part of a number. -/
theorem exists_whole (h : wholePart? t = some rest) : ∃ u, Whole u ∧ t = u ++ rest := by
  rw [Json.wholePart?.eq_def] at h
  split at h
  · split at h
    · cases h
    · obtain rfl := Option.some.inj h
      exact ⟨['0'], .zero, rfl⟩
  · next hzero =>
    obtain ⟨u, hu, rfl⟩ := exists_digits h
    obtain ⟨c, u, rfl⟩ := List.exists_cons_of_ne_nil hu.1
    refine ⟨c :: u, .digits hu ?_, rfl⟩
    rintro rfl
    exact hzero _ rfl

/-- Decimals are passed over, if neither a digit nor a point follows them. -/
theorem Decimals.decimals? (h : Decimals t)
    (hrest : ∀ c ∈ rest.head?, Alphabet.isDigit c = false ∧ c ≠ '.') :
    decimals? (t ++ rest) = some rest := by
  cases h with
  | missing =>
    rw [List.nil_append, Json.decimals?.eq_def]
    split
    · exact absurd rfl (hrest '.' (by simp)).2
    · rfl
  | point h => exact h.digits? fun c hc => (hrest c hc).1

/-- What is passed over is decimals. -/
theorem exists_decimals (h : decimals? t = some rest) : ∃ u, Decimals u ∧ t = u ++ rest := by
  rw [Json.decimals?.eq_def] at h
  split at h
  · obtain ⟨u, hu, rfl⟩ := exists_digits h
    exact ⟨'.' :: u, .point hu, rfl⟩
  · obtain rfl := Option.some.inj h
    exact ⟨[], .missing, rfl⟩

/-- A sign in front of digits is skipped. -/
theorem skipSign_append {sign : Text} (hsign : sign = [] ∨ sign = ['+'] ∨ sign = ['-']) (h : Digits t) :
    skipSign (sign ++ (t ++ rest)) = t ++ rest := by
  obtain rfl | rfl | rfl := hsign
  · obtain ⟨c, u, rfl⟩ := List.exists_cons_of_ne_nil h.1
    have hc := h.2 c (by simp)
    rw [List.nil_append, List.cons_append, skipSign.eq_def]
    split
    · next heq => exact absurd ((List.cons.inj heq).1 ▸ hc.1) (by decide)
    · next heq => exact absurd ((List.cons.inj heq).1 ▸ hc.1) (by decide)
    · rfl
  · rfl
  · rfl

/-- What is passed over in front of an exponent is a sign or nothing. -/
theorem exists_sign (t : Text) :
    ∃ sign, (sign = [] ∨ sign = ['+'] ∨ sign = ['-']) ∧ t = sign ++ skipSign t := by
  rw [skipSign.eq_def]
  split
  · exact ⟨['+'], .inr (.inl rfl), rfl⟩
  · exact ⟨['-'], .inr (.inr rfl), rfl⟩
  · exact ⟨[], .inl rfl, rfl⟩

/-- An exponent is passed over, if a number can stop behind it. -/
theorem Exponent.exponent? (h : Exponent t) (hrest : Stops rest) : exponent? (t ++ rest) = some rest := by
  cases h with
  | missing =>
    cases rest with
    | nil => rfl
    | cons c rest =>
      obtain ⟨-, -, he, hE⟩ := hrest c (by simp)
      simp [Json.exponent?, he, hE]
  | power he hsign h =>
    have hdigits := h.digits? fun c hc => (hrest c hc).1
    rw [List.cons_append, List.append_assoc, Json.exponent?, if_pos (by simpa using he),
      skipSign_append hsign h, hdigits]

/-- What is passed over is an exponent. -/
theorem exists_exponent (h : exponent? t = some rest) : ∃ u, Exponent u ∧ t = u ++ rest := by
  cases t with
  | nil =>
    obtain rfl := Option.some.inj h
    exact ⟨[], .missing, rfl⟩
  | cons c t =>
    rw [Json.exponent?] at h
    split at h
    · next he =>
      obtain ⟨u, hu, hdigits⟩ := exists_digits h
      obtain ⟨sign, hsign, ht⟩ := exists_sign t
      refine ⟨c :: (sign ++ u), .power (by simpa using he) hsign hu, ?_⟩
      rw [ht, hdigits, List.cons_append, List.append_assoc]
    · obtain rfl := Option.some.inj h
      exact ⟨[], .missing, rfl⟩

/-! ## Numbers -/

/-- A minus in front of a number is passed over, and its three parts are read after one another. -/
theorem exists_minus (t : Text) :
    ∃ sign u, (sign = [] ∨ sign = ['-']) ∧ t = sign ++ u ∧
      number? t = (wholePart? u).bind fun v => (decimals? v).bind exponent? := by
  rw [number?.eq_def]
  split
  · exact ⟨['-'], _, .inr rfl, rfl, rfl⟩
  · exact ⟨[], t, .inl rfl, rfl, rfl⟩

/-- The whole part of a number starts with a digit. -/
theorem Whole.head (h : Whole t) : ∃ c u, t = c :: u ∧ Alphabet.isDigit c = true := by
  cases h with
  | zero => exact ⟨'0', [], rfl, rfl⟩
  | digits h _ => exact ⟨_, _, rfl, isDigit_iff.mpr (h.2 _ (by simp))⟩

/-- Where the exponent and the rest start, there is neither a digit nor a point. -/
theorem Exponent.head (h : Exponent t) (hrest : Stops rest) :
    ∀ c ∈ (t ++ rest).head?, Alphabet.isDigit c = false ∧ c ≠ '.' := by
  cases h with
  | missing => exact fun c hc => ⟨(hrest c hc).1, (hrest c hc).2.1⟩
  | power he _ _ =>
    intro c hc
    obtain rfl := Option.some.inj hc
    obtain rfl | rfl := he
    · decide
    · decide

/-- Where the decimals and the rest start, there is no digit. -/
theorem Decimals.head (h : Decimals t) (hrest : ∀ c ∈ rest.head?, Alphabet.isDigit c = false) :
    ∀ c ∈ (t ++ rest).head?, Alphabet.isDigit c = false := by
  cases h with
  | missing => exact hrest
  | point _ =>
    intro c hc
    obtain rfl := Option.some.inj hc
    rfl

/-- A number is passed over, if it can stop where the rest starts. -/
theorem number?_append {sign whole decimals exponent : Text} (hsign : sign = [] ∨ sign = ['-'])
    (hwhole : Whole whole) (hdecimals : Decimals decimals) (hexponent : Exponent exponent)
    (hrest : Stops rest) :
    number? (sign ++ (whole ++ (decimals ++ exponent)) ++ rest) = some rest := by
  -- What stands behind a part never goes on with it, so each part is taken as it is written.
  have hbehind := hexponent.head hrest
  have hread : (wholePart? (whole ++ (decimals ++ (exponent ++ rest)))).bind
      (fun v => (decimals? v).bind exponent?) = some rest := by
    rw [hwhole.wholePart? (hdecimals.head fun c hc => (hbehind c hc).1), Option.bind_some,
      hdecimals.decimals? hbehind, Option.bind_some, hexponent.exponent? hrest]
  simp only [List.append_assoc]
  obtain rfl | rfl := hsign
  · obtain ⟨c, u, rfl, hc⟩ := hwhole.head
    rw [List.nil_append, number?.eq_def]
    split
    · next heq => exact absurd ((List.cons.inj heq).1 ▸ hc) (by decide)
    · exact hread
  · exact hread

/-- What is passed over is a number: a sign or none, a whole part, decimals and an exponent. -/
theorem exists_number (h : number? t = some rest) :
    ∃ sign whole decimals exponent, (sign = [] ∨ sign = ['-']) ∧ Whole whole ∧ Decimals decimals ∧
      Exponent exponent ∧ t = sign ++ (whole ++ (decimals ++ exponent)) ++ rest := by
  obtain ⟨sign, u, hsign, rfl, hparts⟩ := exists_minus t
  rw [hparts] at h
  obtain ⟨v, hv, h⟩ := Option.bind_eq_some_iff.mp h
  obtain ⟨w, hw, hrest⟩ := Option.bind_eq_some_iff.mp h
  obtain ⟨whole, hwhole, rfl⟩ := exists_whole hv
  obtain ⟨decimals, hdecimals, rfl⟩ := exists_decimals hw
  obtain ⟨exponent, hexponent, rfl⟩ := exists_exponent hrest
  exact ⟨sign, whole, decimals, exponent, hsign, hwhole, hdecimals, hexponent, by simp⟩

/-! ## Scalars -/

/-- A number starts with a minus or a digit. -/
theorem number_head {sign : Text} (hsign : sign = [] ∨ sign = ['-']) (hwhole : Whole t) (rest : Text) :
    ∃ c u, sign ++ (t ++ rest) = c :: u ∧ (c = '-' ∨ Alphabet.isDigit c = true) := by
  obtain ⟨c, u, rfl, hc⟩ := hwhole.head
  obtain rfl | rfl := hsign
  · exact ⟨c, u ++ rest, rfl, .inr hc⟩
  · exact ⟨'-', c :: (u ++ rest), rfl, .inl rfl⟩

/-- A scalar starts with a minus, a digit or a letter. -/
theorem Scalar.head (h : Scalar t) :
    ∃ c u, t = c :: u ∧ (c = '-' ∨ Alphabet.isDigit c = true ∨ c = 'n' ∨ c = 't' ∨ c = 'f') := by
  cases h with
  | word h =>
    obtain rfl | rfl | rfl := h
    · exact ⟨'n', _, rfl, by decide⟩
    · exact ⟨'t', _, rfl, by decide⟩
    · exact ⟨'f', _, rfl, by decide⟩
  | number hsign hwhole _ _ =>
    obtain ⟨c, u, heq, hc⟩ := number_head hsign hwhole _
    exact ⟨c, u, heq, hc.imp_right .inl⟩

/-- The words are tried one after the other, and then a number. -/
theorem scalar?_eq_some_iff_or :
    scalar? t = some rest ↔ t = "null".toList ++ rest ∨ Text.follow? "null" t = none ∧
      (t = "true".toList ++ rest ∨ Text.follow? "true" t = none ∧
        (t = "false".toList ++ rest ∨ Text.follow? "false" t = none ∧ number? t = some rest)) := by
  simp only [Json.scalar?, Option.orElse_eq_orElse, Option.orElse_eq_or, Option.or_eq_some_iff,
    Text.follow?_eq_some_iff]

/-- A number, a truth value or null is passed over, if a number can stop where the rest starts. -/
theorem Scalar.scalar? (h : Scalar t) (hrest : Stops rest) : scalar? (t ++ rest) = some rest := by
  cases h with
  | word h =>
    obtain rfl | rfl | rfl := h
    · rfl
    · rfl
    · rfl
  | number hsign hwhole hdecimals hexponent =>
    have hnumber := number?_append hsign hwhole hdecimals hexponent hrest
    obtain ⟨c, u, heq, hc⟩ := number_head hsign hwhole _
    rw [heq] at hnumber ⊢
    -- The words start with letters, and the number does not.
    have hletter (word : String) (d : Char) (hword : word.toList.head? = some d) (hne : d ≠ '-')
        (hdigit : Alphabet.isDigit d = false) : Text.follow? word (c :: u ++ rest) = none := by
      refine Text.follow?_of_head? word hword fun hd => ?_
      obtain rfl := Option.some.inj hd
      obtain rfl | hc := hc
      · exact hne rfl
      · rw [hc] at hdigit
        cases hdigit
    exact scalar?_eq_some_iff_or.mpr (.inr ⟨hletter "null" 'n' rfl (by decide) rfl,
      .inr ⟨hletter "true" 't' rfl (by decide) rfl,
        .inr ⟨hletter "false" 'f' rfl (by decide) rfl, hnumber⟩⟩⟩)

/-- What is passed over is a number, a truth value or null. -/
theorem exists_scalar (h : scalar? t = some rest) : ∃ u, Scalar u ∧ t = u ++ rest := by
  obtain h | ⟨-, h | ⟨-, h | ⟨-, h⟩⟩⟩ := scalar?_eq_some_iff_or.mp h
  · exact ⟨_, .word (.inl rfl), h⟩
  · exact ⟨_, .word (.inr (.inl rfl)), h⟩
  · exact ⟨_, .word (.inr (.inr rfl)), h⟩
  · obtain ⟨sign, whole, decimals, exponent, hsign, hwhole, hdecimals, hexponent, h⟩ := exists_number h
    exact ⟨_, .number hsign hwhole hdecimals hexponent, h⟩

end Graft.Viewer.Json
