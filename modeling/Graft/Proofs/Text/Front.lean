import Mathlib.Data.List.Basic
import Mathlib.Data.List.Forall2
import Mathlib.Data.List.TakeWhile
import Graft.Proofs.Text.Cut

/-!
# What is read off the front of a text

White space and words are taken off the front of a text, and what is left is the end of it. Each is said
in both directions: how the text is put together from what was taken and what is left, and what is
taken off a text that is put together.
-/

namespace Graft.Text

variable {t u rest : Text} {word : String} {d : Char}

/-! ## White space -/

/-- White space at the front is cut off. -/
theorem exists_trimStart (t : Text) :
    ∃ blank, t = blank ++ trimStart t ∧ ∀ c ∈ blank, Alphabet.isSpace c = true :=
  ⟨t.takeWhile Alphabet.isSpace, List.takeWhile_append_dropWhile.symm, fun _ hc => List.mem_takeWhile_imp hc⟩

/-- Nothing that starts with white space is left. -/
theorem trimStart_head? (t : Text) : ∀ c ∈ (trimStart t).head?, Alphabet.isSpace c = false := by
  intro c hc
  have := List.head?_dropWhile_not Alphabet.isSpace t
  rw [show t.dropWhile Alphabet.isSpace = trimStart t from rfl, Option.mem_def.mp hc] at this
  simpa using this

/-- White space in front is trimmed with what is behind it. -/
theorem trimStart_blank (h : ∀ c ∈ u, Alphabet.isSpace c = true) (t : Text) :
    trimStart (u ++ t) = trimStart t :=
  List.dropWhile_append_of_pos h

/-- A text that starts with no white space is not trimmed. -/
theorem trimStart_of_head? (h : ∀ c ∈ t.head?, Alphabet.isSpace c = false) : trimStart t = t := by
  cases t with
  | nil => rfl
  | cons c t =>
    have hc : Alphabet.isSpace c = false := h c (by simp)
    exact List.dropWhile_cons_of_neg (by simp [hc])

/-- A text that neither starts nor ends with white space is not trimmed. -/
theorem trim_of_ends (hfirst : ∀ c ∈ t.head?, Alphabet.isSpace c = false)
    (hlast : ∀ c ∈ t.getLast?, Alphabet.isSpace c = false) : trim t = t := by
  rw [trim, trimStart_of_head? hfirst]
  exact trimEndBy_of_getLast? hlast

/-- White space that must be there is white space at the front, and all of it. -/
theorem spaces?_eq_some (h : spaces? t = some rest) :
    ∃ blank, t = blank ++ rest ∧ blank ≠ [] ∧ ∀ c ∈ blank, Alphabet.isSpace c = true := by
  cases t with
  | nil => cases h
  | cons c t =>
    rw [spaces?] at h
    split at h
    · next hc =>
      obtain ⟨blank, ht, hblank⟩ := exists_trimStart t
      obtain rfl := Option.some.inj h
      refine ⟨c :: blank, ?_, by simp, List.forall_mem_cons.mpr ⟨hc, hblank⟩⟩
      rw [List.cons_append, ← ht]
    · cases h

/-- White space that must be there is taken if there is any. -/
theorem spaces?_cons {c : Char} (h : Alphabet.isSpace c = true) (t : Text) :
    spaces? (c :: t) = some (trimStart t) := by
  rw [spaces?, if_pos h]

/-- White space in front of anything else is what is taken. -/
theorem spaces?_append (hne : u ≠ []) (h : ∀ c ∈ u, Alphabet.isSpace c = true)
    (hrest : ∀ c ∈ rest.head?, Alphabet.isSpace c = false) : spaces? (u ++ rest) = some rest := by
  obtain ⟨c, u, rfl⟩ := List.exists_cons_of_ne_nil hne
  obtain ⟨hc, hu⟩ := List.forall_mem_cons.mp h
  rw [List.cons_append, spaces?_cons hc, trimStart_blank hu, trimStart_of_head? hrest]

/-! ## Up to a character -/

/-- A text without a character is passed over in the search for it. -/
theorem dropWhile_ne_append (h : d ∉ t) (u : Text) : (t ++ u).dropWhile (· ≠ d) = u.dropWhile (· ≠ d) := by
  refine List.dropWhile_append_of_pos fun c hc => ?_
  rw [decide_eq_true_iff]
  rintro rfl
  exact h hc

/-- A text without a character belongs to what stands before that character. -/
theorem takeWhile_ne_append (h : d ∉ t) (u : Text) :
    (t ++ u).takeWhile (· ≠ d) = t ++ u.takeWhile (· ≠ d) := by
  refine List.takeWhile_append_of_pos fun c hc => ?_
  rw [decide_eq_true_iff]
  rintro rfl
  exact h hc

/-! ## Words -/

/-- A word is taken off the front exactly if it stands there. -/
theorem follow?_eq_some_iff : follow? word t = some rest ↔ t = word.toList ++ rest :=
  after?_eq_some_iff

/-- A word in front of a text is taken off. -/
theorem follow?_append (word : String) (rest : Text) : follow? word (word.toList ++ rest) = some rest :=
  follow?_eq_some_iff.mpr rfl

/-- A word of like characters is read exactly if it stands at the front. -/
theorem afterAlike?_eq_some_iff {isAlike : Char → Char → Bool} {w : Text} :
    afterAlike? isAlike w t = some rest ↔
      ∃ front, t = front ++ rest ∧ List.Forall₂ (fun d c => isAlike d c = true) w front := by
  -- The induction is on the word, which is used up one character at a time with the text.
  induction w generalizing t with
  | nil =>
    constructor
    · intro h
      exact ⟨[], Option.some.inj h, .nil⟩
    · rintro ⟨front, rfl, h⟩
      cases h
      rfl
  | cons d w ih =>
    cases t with
    | nil =>
      refine ⟨nofun, ?_⟩
      rintro ⟨front, hfront, h⟩
      cases h
      cases hfront
    | cons c t =>
      rw [afterAlike?]
      split
      · next hc =>
        rw [ih]
        constructor
        · rintro ⟨front, rfl, h⟩
          exact ⟨c :: front, rfl, .cons hc h⟩
        · rintro ⟨front, hfront, h⟩
          cases h with
          | cons hd h =>
            obtain ⟨rfl, rfl⟩ := List.cons.inj hfront
            exact ⟨_, rfl, h⟩
      · next hc =>
        refine ⟨nofun, ?_⟩
        rintro ⟨front, hfront, h⟩
        cases h with
        | cons hd h =>
          obtain ⟨rfl, rfl⟩ := List.cons.inj hfront
          exact absurd hd hc

/-- If every character is like itself, a word is read where it stands. -/
theorem afterAlike?_append {isAlike : Char → Char → Bool} (hself : ∀ c, isAlike c c = true) (w rest : Text) :
    afterAlike? isAlike w (w ++ rest) = some rest :=
  afterAlike?_eq_some_iff.mpr ⟨w, rfl, List.forall₂_same.mpr fun c _ => hself c⟩

/-- A word is not followed in a text that starts with another character. -/
theorem follow?_of_head? (word : String) (hword : word.toList.head? = some d) (ht : d ∉ t.head?) :
    follow? word t = none := by
  unfold follow?
  cases hlist : word.toList with
  | nil =>
    rw [hlist] at hword
    cases hword
  | cons e word =>
    obtain rfl : e = d := by simpa [hlist] using hword
    cases t with
    | nil => rfl
    | cons f t =>
      have hne : e ≠ f := fun heq => ht (by simp [heq])
      exact if_neg hne

end Graft.Text
