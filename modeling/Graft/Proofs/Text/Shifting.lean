import Graft.Proofs.Text.Lines
import Graft.Proofs.Text.Pieces
import Graft.Proofs.Text.Segments

/-!
# Shifted text

A text is shifted by writing two spaces in front of each of its lines, blank ones included. What is
shifted is read back by taking the spaces away, and from nothing else (`shiftLeft?_eq_some_iff`). Lines are
here the pieces between line feeds. A text without carriage returns that does not end with a line feed has
the same lines when it is cut behind its line ends (`lines_eq_splitOn`).
-/

namespace Graft.Text

variable {c : Char} {t u : Text} {pieces : List Text}

/-! ## Lines between line feeds -/

/-- Pieces that are joined by line feeds are the lines of the whole, if there is no line break in any of
them and the last one is not empty. -/
theorem lines_joinWith (hpieces : ∀ piece ∈ pieces, ∀ c ∈ piece, c ≠ '\n' ∧ c ≠ '\r')
    (hlast : ∀ last ∈ pieces.getLast?, last ≠ []) : lines (joinWith ['\n'] pieces) = pieces := by
  induction pieces with
  | nil => rfl
  | cons first pieces ih =>
    obtain ⟨hfirst, hpieces⟩ := List.forall_mem_cons.mp hpieces
    cases pieces with
    | nil => exact lines_eq_singleton (hlast first rfl) hfirst
    | cons second pieces =>
      -- A piece in front of another one is a line with its line feed, which is cut off.
      have hended : Ended (first ++ ['\n']) := ⟨first, fun h => (hfirst _ h).1 rfl, rfl⟩
      have hcut := withoutLineEnd_lineFeed fun h => (hfirst _ h).2 rfl
      have hrest := ih hpieces (by rwa [List.getLast?_cons_cons] at hlast)
      unfold lines at hrest ⊢
      rw [joinWith_cons_cons, linesWithEnds_ended_append hended, List.map_cons, hcut, hrest]

/-- A text that has no carriage returns and does not end with a line feed is cut into the same lines between
its line feeds as behind its line ends. -/
theorem lines_eq_splitOn (hne : t ≠ []) (hreturn : '\r' ∉ t) (hlast : t.getLast? ≠ some '\n') :
    lines t = splitOn '\n' t := by
  have hpieces : ∀ piece ∈ splitOn '\n' t, ∀ c ∈ piece, c ≠ '\n' ∧ c ≠ '\r' := by
    intro piece hpiece c hc
    constructor
    · rintro rfl
      exact separator_notMem_of_mem_splitOn hpiece hc
    · rintro rfl
      exact hreturn (mem_of_mem_splitOn hpiece hc)
  have hfull : ∀ last ∈ (splitOn '\n' t).getLast?, last ≠ [] := by
    rintro _ hnil rfl
    rcases eq_nil_or_getLast?_of_splitOn hnil with hempty | hbreak
    · exact hne hempty
    · exact hlast hbreak
  calc lines t = lines (joinWith ['\n'] (splitOn '\n' t)) := by rw [joinWith_splitOn]
    _ = splitOn '\n' t := lines_joinWith hpieces hfull

/-! ## Two spaces in front of each line -/

/-- A line with two spaces in front of it. -/
def shiftLine (line : Text) : Text := ' ' :: ' ' :: line

/-- A text with two spaces in front of each line. -/
def shiftRight (t : Text) : Text := joinWith ['\n'] ((splitOn '\n' t).map shiftLine)

/-- A text without the two spaces in front of each line; all lines must have them. -/
def shiftLeft? (t : Text) : Option Text :=
  ((splitOn '\n' t).mapM (after? [' ', ' '])).map (joinWith ['\n'])

/-- The lines of a shifted text are the shifted lines. -/
theorem splitOn_shiftRight (t : Text) : splitOn '\n' (shiftRight t) = (splitOn '\n' t).map shiftLine := by
  apply splitOn_joinWith
  · obtain ⟨first, others, hsplit⟩ := exists_splitOn_eq_cons '\n' t
    simp [hsplit]
  · intro line hline
    obtain ⟨piece, hpiece, rfl⟩ := List.mem_map.mp hline
    have hpiece : '\n' ∉ piece := separator_notMem_of_mem_splitOn hpiece
    simpa [shiftLine] using hpiece

/-- Two spaces are taken off every line exactly of shifted lines. -/
theorem mapM_after?_eq_some_iff {rest : List Text} :
    pieces.mapM (after? [' ', ' ']) = some rest ↔ pieces = rest.map shiftLine := by
  have hline : ∀ first line, after? [' ', ' '] first = some line ↔ first = shiftLine line :=
    fun _ _ => after?_eq_some_iff
  induction pieces generalizing rest with
  | nil => cases rest <;> simp
  | cons first pieces ih =>
    simp only [List.mapM_cons, Option.bind_eq_bind, Option.bind_eq_some_iff, Option.pure_def,
      Option.some.injEq, hline, ih]
    cases rest <;> simp

/-- A text is what is left of another one exactly if that is the shifted text. -/
theorem shiftLeft?_eq_some_iff : shiftLeft? t = some u ↔ t = shiftRight u := by
  unfold shiftLeft?
  constructor
  · intro h
    obtain ⟨rest, hrest, rfl⟩ := Option.map_eq_some_iff.mp h
    have hsplit := mapM_after?_eq_some_iff.mp hrest
    -- Splitting gives at least one line, so there is one to shift back.
    have hne : rest ≠ [] := by
      rintro rfl
      obtain ⟨first, others, hcons⟩ := exists_splitOn_eq_cons '\n' t
      rw [hcons] at hsplit
      cases hsplit
    have hlines : ∀ line ∈ rest, '\n' ∉ line := by
      intro line hline hmem
      have hshifted : shiftLine line ∈ splitOn '\n' t := hsplit ▸ List.mem_map_of_mem hline
      exact separator_notMem_of_mem_splitOn hshifted (by simp [shiftLine, hmem])
    unfold shiftRight
    rw [splitOn_joinWith hne hlines, ← hsplit, joinWith_splitOn]
  · rintro rfl
    rw [splitOn_shiftRight, mapM_after?_eq_some_iff.mpr rfl, Option.map_some, joinWith_splitOn]

/-- What is put behind the last line is not shifted. -/
theorem shiftRight_append (hu : '\n' ∉ u) (t : Text) : shiftRight (t ++ u) = shiftRight t ++ u := by
  obtain ⟨earlier, last, hsplit⟩ := exists_splitOn_eq_concat '\n' t
  -- Only the last line gets longer.
  have hwhole : splitOn '\n' (t ++ u) = earlier ++ [last ++ u] :=
    splitOn_append hsplit (splitOn_of_notMem hu)
  unfold shiftRight
  rw [hsplit, hwhole, List.map_append, List.map_append, List.map_singleton, List.map_singleton]
  cases earlier with
  | nil => rfl
  | cons first earlier =>
    rw [joinWith_append (by simp) (by simp), joinWith_append (by simp) (by simp)]
    simp [joinWith, shiftLine]

/-- A shifted text ends as the text does, unless that ends with a line feed. -/
theorem getLast?_shiftRight (hlast : t.getLast? = some c) (hc : c ≠ '\n') :
    (shiftRight t).getLast? = some c := by
  obtain ⟨front, rfl⟩ := List.getLast?_eq_some_iff.mp hlast
  rw [shiftRight_append (by simpa using hc.symm), List.getLast?_concat]

/-- A first line that does not start with a line feed stands behind its two spaces. -/
theorem exists_shiftRight_cons (hc : c ≠ '\n') (t : Text) :
    ∃ more, shiftRight (c :: t) = ' ' :: ' ' :: c :: more := by
  obtain ⟨first, others, hsplit⟩ := exists_splitOn_eq_cons '\n' t
  obtain ⟨more, hmore, -⟩ := exists_joinWith_cons ['\n'] (shiftLine (c :: first)) (others.map shiftLine)
  unfold shiftRight
  rw [splitOn_cons_of_ne hc hsplit, List.map_cons, hmore]
  exact ⟨first ++ more, rfl⟩

end Graft.Text
