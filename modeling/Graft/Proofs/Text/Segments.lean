import Mathlib.Data.List.Basic
import Graft.Text.Basic

/-!
# Segments

The pieces of a text between separators, joined, are the text again (`Text.joinWith_splitOn`), and pieces
without the separator are those of what they are joined to (`Text.splitOn_joinWith`). The segments of a word
are its pieces between slashes. None of them has a slash in it (`Word.slash_notMem_of_mem_segments`), joined
they are the word again (`Word.joinWith_splitOn`), and segments that are joined in front of a word are the
first ones of the whole (`Word.splitOn_joinWith`).
-/

namespace Graft

namespace Text

variable {c separator : Char} {t piece : Text}

/-- There is always a piece. -/
theorem exists_splitOn_eq_cons (separator : Char) (t : Text) :
    ∃ piece pieces, splitOn separator t = piece :: pieces := by
  cases t with
  | nil => exact ⟨[], [], rfl⟩
  | cons c t =>
    rw [splitOn]
    cases splitOn separator t with
    | nil => exact ⟨_, _, rfl⟩
    | cons piece pieces =>
      simp only
      split <;> exact ⟨_, _, rfl⟩

/-- There is always a last piece. -/
theorem exists_splitOn_eq_concat (separator : Char) (t : Text) :
    ∃ pieces piece, splitOn separator t = pieces ++ [piece] := by
  obtain ⟨first, others, hsplit⟩ := exists_splitOn_eq_cons separator t
  rw [hsplit]
  exact (List.eq_nil_or_concat' _).resolve_left (List.cons_ne_nil first others)

/-- A separator ends an empty piece. -/
theorem splitOn_separator (separator : Char) (t : Text) :
    splitOn separator (separator :: t) = [] :: splitOn separator t := by
  obtain ⟨piece, pieces, hsplit⟩ := exists_splitOn_eq_cons separator t
  rw [splitOn, hsplit]
  simp

/-- Any other character belongs to the first piece. -/
theorem splitOn_cons_of_ne (hc : c ≠ separator) {pieces : List Text}
    (hsplit : splitOn separator t = piece :: pieces) :
    splitOn separator (c :: t) = (c :: piece) :: pieces := by
  rw [splitOn, hsplit]
  simp [hc]

/-- What stands before the first separator is the first piece. -/
theorem splitOn_append_separator (h : separator ∉ piece) (t : Text) :
    splitOn separator (piece ++ separator :: t) = piece :: splitOn separator t := by
  induction piece with
  | nil => exact splitOn_separator separator t
  | cons c piece ih =>
    have hc : c ≠ separator := fun hc => h (hc ▸ List.mem_cons_self)
    exact splitOn_cons_of_ne hc (ih fun hmem => h (List.mem_cons_of_mem c hmem))

/-- A text without the separator is one piece. -/
theorem splitOn_of_notMem (h : separator ∉ t) : splitOn separator t = [t] := by
  induction t with
  | nil => rfl
  | cons c t ih =>
    have hc : c ≠ separator := fun hc => h (hc ▸ List.mem_cons_self)
    exact splitOn_cons_of_ne hc (ih fun hmem => h (List.mem_cons_of_mem c hmem))

/-- Pieces have no separator in them. -/
theorem separator_notMem_of_mem_splitOn (h : piece ∈ splitOn separator t) : separator ∉ piece := by
  induction t generalizing piece with
  | nil =>
    rw [splitOn, List.mem_singleton] at h
    exact h ▸ List.not_mem_nil
  | cons c t ih =>
    by_cases hc : c = separator
    · rw [hc, splitOn_separator] at h
      rcases List.mem_cons.mp h with rfl | h
      · exact List.not_mem_nil
      · exact ih h
    · obtain ⟨first, pieces, hsplit⟩ := exists_splitOn_eq_cons separator t
      rw [splitOn_cons_of_ne hc hsplit] at h
      rw [hsplit] at ih
      rcases List.mem_cons.mp h with rfl | h
      · rw [List.mem_cons, not_or]
        exact ⟨Ne.symm hc, ih List.mem_cons_self⟩
      · exact ih (List.mem_cons_of_mem first h)

/-- Pieces that are joined by what separated them are the text. -/
theorem joinWith_splitOn (separator : Char) (t : Text) :
    joinWith [separator] (splitOn separator t) = t := by
  induction t with
  | nil => rfl
  | cons c t ih =>
    obtain ⟨first, pieces, hsplit⟩ := exists_splitOn_eq_cons separator t
    by_cases hc : c = separator
    · rw [hc, splitOn_separator, hsplit]
      rw [hsplit] at ih
      show [] ++ [separator] ++ joinWith [separator] (first :: pieces) = separator :: t
      rw [ih]
      rfl
    · rw [splitOn_cons_of_ne hc hsplit]
      rw [hsplit] at ih
      -- The character goes in front of the first piece, whether or not that is the only one.
      cases pieces with
      | nil => exact congrArg (c :: ·) ih
      | cons second pieces => exact congrArg (c :: ·) ih

/-- Pieces that are joined by what is in none of them are the pieces of the whole. -/
theorem splitOn_joinWith {pieces : List Text} (hne : pieces ≠ []) (h : ∀ piece ∈ pieces, separator ∉ piece) :
    splitOn separator (joinWith [separator] pieces) = pieces := by
  induction pieces with
  | nil => exact absurd rfl hne
  | cons first pieces ih =>
    obtain ⟨hfirst, hpieces⟩ := List.forall_mem_cons.mp h
    cases pieces with
    | nil => exact splitOn_of_notMem hfirst
    | cons second pieces =>
      have hjoin : joinWith [separator] (first :: second :: pieces) =
          first ++ separator :: joinWith [separator] (second :: pieces) := List.append_assoc ..
      rw [hjoin, splitOn_append_separator hfirst, ih (List.cons_ne_nil _ _) hpieces]

/-- Where two texts meet, the last piece of the one and the first piece of the other become one. -/
theorem splitOn_append {u last first : Text} {earlier others : List Text}
    (ht : splitOn separator t = earlier ++ [last]) (hu : splitOn separator u = first :: others) :
    splitOn separator (t ++ u) = earlier ++ (last ++ first) :: others := by
  induction t generalizing earlier last with
  | nil =>
    obtain ⟨rfl, rfl⟩ : earlier = [] ∧ last = [] := by
      cases earlier <;> simp_all [splitOn]
    exact hu
  | cons c t ih =>
    obtain ⟨piece, pieces, hsplit⟩ := exists_splitOn_eq_cons separator t
    by_cases hc : c = separator
    · rw [hc, splitOn_separator] at ht
      cases earlier with
      | nil =>
        rw [hsplit] at ht
        cases ht
      | cons first earlier =>
        obtain ⟨rfl, hrest⟩ := List.cons.inj ht
        rw [hc, List.cons_append, splitOn_separator, ih hrest]
        rfl
    · rw [splitOn_cons_of_ne hc hsplit] at ht
      -- The character goes in front of the first piece, which may be the last one.
      cases earlier with
      | nil =>
        obtain ⟨rfl, rfl⟩ := List.cons.inj ht
        have hrest : splitOn separator t = [] ++ [piece] := hsplit
        exact splitOn_cons_of_ne hc (ih hrest)
      | cons first earlier =>
        obtain ⟨rfl, rfl⟩ := List.cons.inj ht
        have hrest : splitOn separator t = (piece :: earlier) ++ [last] := hsplit
        exact splitOn_cons_of_ne hc (ih hrest)

end Text

namespace Word

variable {segments others : List String}

/-- Joining words is joining their texts. -/
theorem toList_joinWith (separator : String) (words : List String) :
    (joinWith separator words).toList = Text.joinWith separator.toList (words.map String.toList) := by
  induction words with
  | nil => rfl
  | cons first words ih =>
    cases words with
    | nil => rfl
    | cons second words =>
      have hcons : joinWith separator (first :: second :: words) =
          first ++ separator ++ joinWith separator (second :: words) := rfl
      rw [hcons, String.toList_append, String.toList_append, ih]
      rfl

/-- A word has at least one piece. -/
theorem splitOn_ne_nil (separator : Char) (s : String) : splitOn separator s ≠ [] := by
  obtain ⟨piece, pieces, hsplit⟩ := Text.exists_splitOn_eq_cons separator s.toList
  rw [splitOn, hsplit]
  exact List.cons_ne_nil _ _

/-- A segment has no slash in it. -/
theorem slash_notMem_of_mem_segments {segment s : String} (h : segment ∈ splitOn '/' s) :
    '/' ∉ segment.toList := by
  obtain ⟨piece, hpiece, rfl⟩ := List.mem_map.mp h
  rw [String.toList_ofList]
  exact Text.separator_notMem_of_mem_splitOn hpiece

/-- The segments of a word, joined, are the word. -/
theorem joinWith_splitOn (s : String) : joinWith "/" (splitOn '/' s) = s := by
  apply String.toList_injective
  have htexts : (splitOn '/' s).map String.toList = Text.splitOn '/' s.toList := by
    simp [splitOn, Function.comp_def]
  rw [toList_joinWith, htexts]
  exact Text.joinWith_splitOn '/' s.toList

/-- Segments that are joined are those of the first part, a slash, and those of the second. -/
theorem joinWith_append (hsegments : segments ≠ []) (hothers : others ≠ []) :
    joinWith "/" (segments ++ others) = joinWith "/" segments ++ "/" ++ joinWith "/" others := by
  induction segments with
  | nil => exact absurd rfl hsegments
  | cons first segments ih =>
    cases segments with
    | nil =>
      obtain ⟨second, others, rfl⟩ := List.exists_cons_of_ne_nil hothers
      rfl
    | cons second segments =>
      have hcons : ∀ words, joinWith "/" (first :: second :: words) =
          first ++ "/" ++ joinWith "/" (second :: words) := fun _ => rfl
      rw [List.cons_append, List.cons_append, hcons, hcons, ← List.cons_append,
        ih (List.cons_ne_nil _ _)]
      simp only [String.append_assoc]

/-- A segment in front of a word is the first segment of the whole. -/
theorem splitOn_append_slash {segment : String} (h : '/' ∉ segment.toList) (rest : String) :
    splitOn '/' (segment ++ "/" ++ rest) = segment :: splitOn '/' rest := by
  have htext : (segment ++ "/" ++ rest).toList = segment.toList ++ '/' :: rest.toList := by
    simp [String.toList_append]
  rw [splitOn, htext, Text.splitOn_append_separator h]
  simp [splitOn]

/-- Segments in front of a word are the first segments of the whole. -/
theorem splitOn_joinWith (hne : segments ≠ []) (h : ∀ segment ∈ segments, '/' ∉ segment.toList)
    (rest : String) :
    splitOn '/' (joinWith "/" segments ++ "/" ++ rest) = segments ++ splitOn '/' rest := by
  -- The last segment has no separator of its own, which is why one and several are told apart.
  induction segments with
  | nil => exact absurd rfl hne
  | cons segment segments ih =>
    have hsegment := h segment List.mem_cons_self
    cases segments with
    | nil => exact splitOn_append_slash hsegment rest
    | cons second segments =>
      have hrest := ih (List.cons_ne_nil _ _) fun other hother =>
        h other (List.mem_cons_of_mem segment hother)
      calc splitOn '/' (joinWith "/" (segment :: second :: segments) ++ "/" ++ rest)
          = splitOn '/' (segment ++ "/" ++ (joinWith "/" (second :: segments) ++ "/" ++ rest)) := by
            simp only [joinWith, String.append_assoc]
        _ = segment :: splitOn '/' (joinWith "/" (second :: segments) ++ "/" ++ rest) :=
            splitOn_append_slash hsegment _
        _ = segment :: (second :: segments ++ splitOn '/' rest) := by rw [hrest]

/-- Segments that are joined are the segments of the whole. -/
theorem segments_joinWith (hne : segments ≠ []) (h : ∀ segment ∈ segments, '/' ∉ segment.toList) :
    splitOn '/' (joinWith "/" segments) = segments := by
  obtain ⟨front, last, rfl⟩ := (List.eq_nil_or_concat' segments).resolve_left hne
  have hlast : splitOn '/' last = [last] := by
    have hpiece : '/' ∉ last.toList := h last (by simp)
    rw [splitOn, Text.splitOn_of_notMem hpiece, List.map_singleton, String.ofList_toList]
  rcases eq_or_ne front [] with rfl | hfront
  · exact hlast
  · have hplain : ∀ segment ∈ front, '/' ∉ segment.toList := fun segment hsegment =>
      h segment (List.mem_append_left _ hsegment)
    rw [joinWith_append hfront (List.cons_ne_nil _ _), joinWith, splitOn_joinWith hfront hplain, hlast]

end Word

end Graft
