import Mathlib.Data.List.Basic
import Graft.Text.Scan
import Graft.Proofs.Text.Cut

/-!
# What the pieces of a text consist of

Trimming, splitting and taking words give parts of a text, and a scan gives what its recogniser found
somewhere in it.
-/

namespace Graft

namespace Text

variable {c separator : Char} {t piece : Text}

/-- Trimming adds nothing. -/
theorem mem_of_mem_trim (h : c ∈ trim t) : c ∈ t := by
  obtain ⟨cut, ht, -⟩ := trimEndBy_append Alphabet.isSpace (trimStart t)
  have hstart : c ∈ trimStart t := by
    rw [ht]
    exact List.mem_append_left cut h
  exact (List.dropWhile_sublist _).subset hstart

/-- The pieces between separators have nothing but what is in the text. -/
theorem mem_of_mem_splitOn (hpiece : piece ∈ splitOn separator t) (h : c ∈ piece) : c ∈ t := by
  induction t generalizing piece with
  | nil =>
    rw [splitOn, List.mem_singleton] at hpiece
    rw [hpiece] at h
    cases h
  | cons d t ih =>
    rw [splitOn] at hpiece
    cases hsplit : splitOn separator t with
    | nil =>
      rw [hsplit, List.mem_singleton] at hpiece
      rw [hpiece, List.mem_singleton] at h
      exact h ▸ List.mem_cons_self
    | cons first pieces =>
      rw [hsplit] at hpiece ih
      simp only at hpiece
      -- The character before them starts a piece of its own, or belongs to the first one.
      split at hpiece
      · rcases List.mem_cons.mp hpiece with rfl | hpiece
        · cases h
        · exact List.mem_cons_of_mem d (ih hpiece h)
      · rcases List.mem_cons.mp hpiece with rfl | hpiece
        · rcases List.mem_cons.mp h with rfl | h
          · exact List.mem_cons_self
          · exact List.mem_cons_of_mem d (ih List.mem_cons_self h)
        · exact List.mem_cons_of_mem d (ih (List.mem_cons_of_mem first hpiece) h)

/-- A text whose last piece is empty is empty or ends with the separator. -/
theorem eq_nil_or_getLast?_of_splitOn (h : (splitOn separator t).getLast? = some []) :
    t = [] ∨ t.getLast? = some separator := by
  induction t with
  | nil => exact Or.inl rfl
  | cons d t ih =>
    right
    -- With an empty last piece in the rest, the rest has its last character from the induction.
    have hrest : (splitOn separator t).getLast? = some [] → t ≠ [] →
        (d :: t).getLast? = some separator := by
      intro hlast hne
      have hend := (ih hlast).resolve_left hne
      rw [List.getLast?_cons, hend, Option.getD_some]
    rw [splitOn] at h
    cases hsplit : splitOn separator t with
    | nil =>
      rw [hsplit] at h
      cases h
    | cons first pieces =>
      rw [hsplit] at h hrest
      simp only at h
      split at h
      · next hd =>
        rw [List.getLast?_cons_cons] at h
        cases t with
        | nil => rw [hd, List.getLast?_singleton]
        | cons e t => exact hrest h (List.cons_ne_nil e t)
      · cases pieces with
        | nil => cases h
        | cons second pieces =>
          rw [List.getLast?_cons_cons] at h
          refine hrest (by rwa [List.getLast?_cons_cons]) ?_
          rintro rfl
          cases hsplit

/-- A character before a text is passed over, is a word of its own, or belongs to the first word. -/
theorem words_cons (d : Char) (t : Text) :
    words (d :: t) =
      if Alphabet.isSpace d then words t
      else
        match t, words t with
        | e :: _, first :: others =>
          if Alphabet.isSpace e then [d] :: first :: others else (d :: first) :: others
        | _, others => [d] :: others := rfl

/-- The words of a text have nothing but what is in the text. -/
theorem mem_of_mem_words (hpiece : piece ∈ words t) (h : c ∈ piece) : c ∈ t := by
  induction t generalizing piece with
  | nil => cases hpiece
  | cons d t ih =>
    -- A word is one of the rest, or starts with the first character and goes on like one of them.
    have hword : piece ∈ words t ∨ ∃ rest, piece = d :: rest ∧ (rest = [] ∨ rest ∈ words t) := by
      rw [words_cons] at hpiece
      split at hpiece
      · exact Or.inl hpiece
      · split at hpiece
        · next first others hwords =>
          rw [hwords]
          split at hpiece
          · rcases List.mem_cons.mp hpiece with rfl | hpiece
            · exact Or.inr ⟨[], rfl, Or.inl rfl⟩
            · exact Or.inl hpiece
          · rcases List.mem_cons.mp hpiece with rfl | hpiece
            · exact Or.inr ⟨first, rfl, Or.inr List.mem_cons_self⟩
            · exact Or.inl (List.mem_cons_of_mem first hpiece)
        · rcases List.mem_cons.mp hpiece with rfl | hpiece
          · exact Or.inr ⟨[], rfl, Or.inl rfl⟩
          · exact Or.inl hpiece
    rcases hword with hrest | ⟨rest, rfl, hrest⟩
    · exact List.mem_cons_of_mem d (ih hrest h)
    · rcases List.mem_cons.mp h with rfl | h
      · exact List.mem_cons_self
      · rcases hrest with rfl | hrest
        · cases h
        · exact List.mem_cons_of_mem d (ih hrest h)

end Text

namespace Scan

variable {α : Type} {find : Recogniser α}

/-- A match is what the recogniser says of the text from some position on. -/
theorem exists_of_found {covered : Nat} {lineStart : Bool} {text span : Text} {value : α}
    (h : Piece.found value span ∈ go find covered lineStart text) :
    ∃ lineStart rest length, find lineStart rest = some (value, length) := by
  -- What a match covers is skipped, and so the recogniser is only asked where nothing is left to skip.
  induction text generalizing covered lineStart with
  | nil => simp [go] at h
  | cons c text ih =>
    cases covered with
    | succ covered =>
      rw [go] at h
      exact ih h
    | zero =>
      rw [go] at h
      cases hfind : find lineStart (c :: text) with
      | none =>
        rw [hfind] at h
        rcases List.mem_cons.mp h with hplain | h
        · cases hplain
        · exact ih h
      | some found =>
        rw [hfind] at h
        rcases List.mem_cons.mp h with hfound | h
        · rw [Piece.found.injEq] at hfound
          exact ⟨lineStart, c :: text, found.2, by rw [hfind, hfound.1]⟩
        · exact ih h

/-- What a scan lists is what the recogniser says of the text from some position on. -/
theorem exists_of_mem_all {text : Text} {value : α} (h : value ∈ all find text) :
    ∃ lineStart rest length, find lineStart rest = some (value, length) := by
  obtain ⟨piece, hpiece, hvalue⟩ := List.mem_filterMap.mp h
  cases piece with
  | plain c => cases hvalue
  | found value' span =>
    cases hvalue
    exact exists_of_found hpiece

/-- Each piece of a scan begins at a character of its own. -/
theorem length_go_le (find : Recogniser α) (covered : Nat) (lineStart : Bool) (text : Text) :
    (go find covered lineStart text).length ≤ text.length := by
  induction text generalizing covered lineStart with
  | nil => simp [go]
  | cons c text ih =>
    cases covered with
    | succ covered => exact Nat.le_succ_of_le (ih covered (c = '\n'))
    | zero =>
      rw [go]
      cases find lineStart (c :: text) with
      | none => exact Nat.succ_le_succ (ih 0 (c = '\n'))
      | some found => exact Nat.succ_le_succ (ih (found.2 - 1) (c = '\n'))

/-- A scan finds no more than there are characters. -/
theorem length_all_le (find : Recogniser α) (text : Text) : (all find text).length ≤ text.length :=
  Nat.le_trans (List.length_filterMap_le _ _) (length_go_le find 0 true text)

end Scan

end Graft
