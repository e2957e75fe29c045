import Mathlib.Data.List.Basic
import Graft.Text.Basic

/-!
# Where a text is cut

What measuring, taking a word off the front, splitting at the last occurrence of a character and
trimming say about a text, each as an equation between the text and its parts. Positions in bytes and
cuts of a text are two sides of one thing: a cut has the byte length of what stands before it as its
position (`byteLength_append`).
-/

namespace Graft.Text

/-! ## Length in bytes -/

/-- The lengths of two texts in a row add up. -/
@[simp]
theorem byteLength_append (t u : Text) : byteLength (t ++ u) = byteLength t + byteLength u := by
  induction t with
  | nil => simp [byteLength]
  | cons c t ih =>
    rw [List.cons_append, byteLength, byteLength, ih]
    omega

/-- The empty text has no bytes. -/
@[simp]
theorem byteLength_nil : byteLength [] = 0 := rfl

/-- The first character has its own bytes. -/
@[simp]
theorem byteLength_cons (c : Char) (t : Text) : byteLength (c :: t) = c.utf8Size + byteLength t := rfl

/-- A text that is not empty has bytes. -/
theorem byteLength_pos {t : Text} (h : t ≠ []) : 0 < byteLength t := by
  cases t with
  | nil => exact absurd rfl h
  | cons c t =>
    have := c.utf8Size_pos
    rw [byteLength_cons]
    omega

/-- A longer front has no fewer bytes. -/
theorem byteLength_take_le {m n : Nat} (h : m ≤ n) (t : Text) :
    byteLength (t.take m) ≤ byteLength (t.take n) := by
  obtain ⟨more, hmore⟩ := List.take_prefix_take_left (l := t) h
  rw [← hmore, byteLength_append]
  exact Nat.le_add_right _ _

/-- A front that has no more bytes than some front of the text has no more characters. -/
theorem le_length_of_byteLength_take {n : Nat} {t u : Text} (hu : u ≠ [])
    (h : byteLength ((t ++ u).take n) ≤ byteLength t) : n ≤ t.length := by
  by_contra hlt
  obtain ⟨c, u, rfl⟩ := List.exists_cons_of_ne_nil hu
  have hpos := c.utf8Size_pos
  have hle := byteLength_take_le (Nat.succ_le_of_lt (Nat.lt_of_not_le hlt)) (t ++ c :: u)
  rw [Nat.succ_eq_add_one, List.take_length_add_append, List.take_succ_cons, List.take_zero] at hle
  simp only [byteLength_append, byteLength_cons, byteLength_nil] at hle
  omega

/-! ## A word at the front -/

/-- A word is taken off the front exactly if it stands there. -/
theorem after?_eq_some_iff {word text rest : Text} :
    after? word text = some rest ↔ text = word ++ rest := by
  induction word generalizing text with
  | nil => simp [after?]
  | cons w word ih =>
    cases text with
    | nil => simp [after?]
    | cons c text =>
      rw [after?]
      by_cases hc : w = c
      · subst hc
        rw [if_pos rfl, ih]
        simp
      · rw [if_neg hc]
        simp [Ne.symm hc]

/-! ## The last occurrence of a character -/

/-- A character that occurs has a last occurrence. -/
theorem exists_last_occurrence {c : Char} {t : Text} (h : c ∈ t) :
    ∃ before rest, c ∉ rest ∧ t = before ++ c :: rest := by
  induction t with
  | nil => simp at h
  | cons d t ih =>
    by_cases ht : c ∈ t
    · obtain ⟨before, rest, hrest, rfl⟩ := ih ht
      exact ⟨d :: before, rest, hrest, rfl⟩
    · have hd : c = d := by simpa [ht] using h
      exact ⟨[], t, ht, by rw [hd, List.nil_append]⟩

/-- There is no cut before a character that does not occur. -/
theorem splitAtLast_eq_none_iff {c : Char} {t : Text} : splitAtLast c t = none ↔ c ∉ t := by
  induction t with
  | nil => simp [splitAtLast]
  | cons d t ih =>
    rw [splitAtLast]
    -- A later occurrence goes first.
    cases h : splitAtLast c t with
    | some parts =>
      have hmem : c ∈ t := by
        by_contra hno
        rw [ih.mpr hno] at h
        simp at h
      simp [hmem]
    | none =>
      have hno : c ∉ t := ih.mp h
      by_cases hd : d = c
      · simp [hd]
      · simp [hd, hno, Ne.symm hd]

/-- A text splits before a character after which it does not occur again. -/
theorem splitAtLast_append {c : Char} {rest : Text} (h : c ∉ rest) (before : Text) :
    splitAtLast c (before ++ c :: rest) = some (before, c :: rest) := by
  induction before with
  | nil =>
    rw [List.nil_append, splitAtLast, splitAtLast_eq_none_iff.mpr h]
    simp
  | cons d before ih => rw [List.cons_append, splitAtLast, ih]

/-- The text splits before the last occurrence of a character. -/
theorem splitAtLast_eq_some {c : Char} {t before rest : Text}
    (h : splitAtLast c t = some (before, rest)) :
    ∃ tail, rest = c :: tail ∧ c ∉ tail ∧ t = before ++ c :: tail := by
  have hmem : c ∈ t := by
    by_contra hno
    rw [splitAtLast_eq_none_iff.mpr hno] at h
    cases h
  obtain ⟨front, tail, htail, rfl⟩ := exists_last_occurrence hmem
  rw [splitAtLast_append htail] at h
  obtain ⟨rfl, rfl⟩ := Prod.mk.inj (Option.some.inj h)
  exact ⟨tail, rfl, htail, rfl⟩

/-! ## Trimming at the end -/

/-- Trimming cuts off characters of the class. -/
theorem trimEndBy_append (p : Char → Bool) (t : Text) :
    ∃ cut, t = trimEndBy p t ++ cut ∧ ∀ c ∈ cut, p c = true := by
  induction t with
  | nil => exact ⟨[], rfl, by simp⟩
  | cons c t ih =>
    obtain ⟨cut, ht, hcut⟩ := ih
    rw [trimEndBy]
    -- The character is cut off only if nothing behind it is left.
    cases h : trimEndBy p t with
    | nil =>
      rw [h, List.nil_append] at ht
      by_cases hc : p c = true
      · refine ⟨c :: cut, by simp [hc, ht], ?_⟩
        simpa [hc] using hcut
      · exact ⟨cut, by simp [hc, ← ht], hcut⟩
    | cons k kept =>
      refine ⟨cut, ?_, hcut⟩
      rw [h] at ht
      simp only [List.cons_append]
      rw [ht]
      simp

/-- What is left after trimming does not end with a character of the class. -/
theorem trimEndBy_getLast? (p : Char → Bool) (t : Text) :
    ∀ c ∈ (trimEndBy p t).getLast?, p c = false := by
  induction t with
  | nil => simp [trimEndBy]
  | cons c t ih =>
    rw [trimEndBy]
    cases h : trimEndBy p t with
    | nil =>
      by_cases hc : p c = true
      · simp [hc]
      · simp [hc]
    | cons k kept =>
      rw [h] at ih
      rw [List.getLast?_cons_cons]
      exact ih

/-- Characters of the class after a text that does not end with one are what trimming cuts off. -/
theorem trimEndBy_eq {p : Char → Bool} {t cut : Text} (ht : ∀ c ∈ t.getLast?, p c = false)
    (hcut : ∀ c ∈ cut, p c = true) : trimEndBy p (t ++ cut) = t := by
  induction t with
  | nil =>
    rw [List.nil_append]
    induction cut with
    | nil => rfl
    | cons c cut ih =>
      rw [trimEndBy, ih fun d hd => hcut d (by simp [hd])]
      simp [hcut c (by simp)]
  | cons c t ih =>
    rw [List.cons_append, trimEndBy]
    cases t with
    | nil =>
      rw [ih (by simp)]
      have hc : p c = false := ht c (by simp)
      simp [hc]
    | cons d t =>
      rw [ih (by simpa using ht)]

/-- A text that does not end with a character of the class is not touched by trimming what follows it. -/
theorem exists_trimEndBy_append {p : Char → Bool} {t : Text} (ht : ∀ c ∈ t.getLast?, p c = false)
    (u : Text) : ∃ more, trimEndBy p (t ++ u) = t ++ more := by
  obtain ⟨cut, hcut, hall⟩ := trimEndBy_append p (t ++ u)
  generalize trimEndBy p (t ++ u) = kept at hcut ⊢
  rcases List.append_eq_append_iff.mp hcut with ⟨x, hkept, -⟩ | ⟨x, hhead, hx⟩
  · exact ⟨x, hkept⟩
  · -- Had the cut reached into the text, it would have a character that is not of the class.
    rcases List.eq_nil_or_concat x with rfl | ⟨x, c, rfl⟩
    · exact ⟨[], by simpa using hhead.symm⟩
    · have hlast : p c = false := ht c (by simp [hhead])
      have hclass : p c = true := hall c (by simp [hx])
      rw [hlast] at hclass
      cases hclass

/-- Trimming leaves nothing exactly of a text of characters of the class. -/
theorem trimEndBy_eq_nil_iff {p : Char → Bool} {t : Text} : trimEndBy p t = [] ↔ ∀ c ∈ t, p c = true := by
  constructor
  · intro h
    obtain ⟨cut, ht, hcut⟩ := trimEndBy_append p t
    rw [h, List.nil_append] at ht
    rw [ht]
    exact hcut
  · intro h
    simpa using trimEndBy_eq (t := []) (by simp) h

/-- A text that does not end with a character of the class is not trimmed. -/
theorem trimEndBy_of_getLast? {p : Char → Bool} {t : Text} (h : ∀ c ∈ t.getLast?, p c = false) :
    trimEndBy p t = t := by
  have hcut : ∀ c ∈ ([] : Text), p c = true := by simp
  simpa using trimEndBy_eq h hcut

/-- A text behind which something is left after trimming is not touched by it. -/
theorem trimEndBy_append_of_ne_nil {p : Char → Bool} {u : Text} (h : trimEndBy p u ≠ []) (t : Text) :
    trimEndBy p (t ++ u) = t ++ trimEndBy p u := by
  obtain ⟨cut, hu, hcut⟩ := trimEndBy_append p u
  have hlast := trimEndBy_getLast? p u
  have hends : ∀ c ∈ (t ++ trimEndBy p u).getLast?, p c = false := by
    rw [List.getLast?_append_of_ne_nil _ h]
    exact hlast
  have := trimEndBy_eq hends hcut
  rwa [List.append_assoc, ← hu] at this

/-- What is left of a text after trimming stands at its front. -/
theorem trimEndBy_isPrefix (p : Char → Bool) (t : Text) : trimEndBy p t <+: t := by
  obtain ⟨cut, hcut, -⟩ := trimEndBy_append p t
  exact ⟨cut, hcut.symm⟩

/-- It does not matter at which end a text is trimmed first. -/
theorem trimEnd_trimStart (t : Text) : trimEnd (trimStart t) = trimStart (trimEnd t) := by
  unfold trimEnd trimStart
  induction t with
  | nil => rfl
  | cons c t ih =>
    by_cases hc : Alphabet.isSpace c = true
    · rw [List.dropWhile_cons_of_pos hc, ih, trimEndBy]
      cases trimEndBy Alphabet.isSpace t with
      | nil => simp [hc]
      | cons k kept => exact (List.dropWhile_cons_of_pos hc).symm
    · rw [List.dropWhile_cons_of_neg hc, trimEndBy]
      cases trimEndBy Alphabet.isSpace t with
      | nil => simp [hc]
      | cons k kept => exact (List.dropWhile_cons_of_neg hc).symm

end Graft.Text
