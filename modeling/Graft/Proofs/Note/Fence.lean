import Mathlib.Data.List.TakeWhile
import Graft.Note
import Graft.Proofs.Text.Lines

/-!
# Lines and fences

The lines of a note are lines outside its fences and rows of lines between fences, and both readers of a
note follow this: what they make of a row (`landmarksFrom_fenced`, `referenceIn?_fenced`), of a line
outside (`landmarksFrom_plain`, `referenceIn?_plain`) and of a fence that is never closed is all that
there is to know (`lines_induction`). A row is a `Fenced`, which knows its opening line and fence, the
lines of its body, none of which closes it, and its closing line.
-/

namespace Graft.Note

open Text (byteLength withoutLineEnd linesWithEnds)

variable {line marker marks : Text} {body : List Text}

/-! ## The fence of a line -/

/-- White space at the end of a line does not belong to its fence. -/
theorem fence?_append_spaces {cut : Text} (hcut : ∀ c ∈ cut, Alphabet.isSpace c = true)
    (line : Text) : fence? (line ++ cut) = fence? line := by
  unfold fence? Text.trimStart
  rw [List.dropWhile_append]
  cases hline : line.dropWhile Alphabet.isSpace with
  | nil =>
    have hblank : cut.dropWhile Alphabet.isSpace = [] := List.dropWhile_eq_nil_iff.mpr hcut
    simp [hblank]
  | cons c rest =>
    simp only [List.isEmpty_cons, Bool.false_eq_true, if_false, List.cons_append]
    by_cases hc : c = Char.ofNat 0x60 ∨ c = '~'
    · -- A mark is no white space, so the run of marks ends before the cut.
      have hmark : Alphabet.isSpace c = false := by rcases hc with rfl | rfl <;> decide
      have hnone : cut.takeWhile (· = c) = [] := by
        rw [List.takeWhile_eq_nil_iff]
        intro hpos heq
        have hspace := hcut _ (List.get_mem cut ⟨0, hpos⟩)
        rw [decide_eq_true_eq.mp heq, hmark] at hspace
        cases hspace
      have hmarks : (rest ++ cut).takeWhile (· = c) = rest.takeWhile (· = c) := by
        rw [List.takeWhile_append, hnone, List.append_nil]
        split
        · next hlength => exact ((List.takeWhile_prefix _).eq_of_length hlength).symm
        · rfl
      rw [hmarks]
    · simp [not_or.mp hc]

/-- The line end does not belong to the fence. -/
theorem fence?_withoutLineEnd (line : Text) : fence? (withoutLineEnd line) = fence? line := by
  obtain ⟨cut, hline, hcut⟩ := Text.withoutLineEnd_append line
  have hspaces : ∀ c ∈ cut, Alphabet.isSpace c = true := by
    have hfeed : Alphabet.isSpace '\n' = true := by decide
    have hreturn : Alphabet.isSpace '\r' = true := by decide
    rcases hcut with rfl | rfl | rfl
    · exact List.forall_mem_nil _
    · exact List.forall_mem_singleton.mpr hfeed
    · exact List.forall_mem_cons.mpr ⟨hreturn, List.forall_mem_singleton.mpr hfeed⟩
  conv_rhs => rw [hline]
  exact (fence?_append_spaces hspaces _).symm

/-- A line closes a fence if its own fence starts with it. -/
def Closes (marker line : Text) : Prop := ∃ marks, fence? line = some marks ∧ marker <+: marks

/-- A fence closes another one if it has at least its marks. -/
theorem closes_iff (h : fence? line = some marks) : Closes marker line ↔ marker <+: marks := by
  unfold Closes
  rw [h]
  simp

/-- A line that is no fence closes none. -/
theorem not_closes (h : fence? line = none) : ¬ Closes marker line := by
  rintro ⟨marks, hmarks, -⟩
  rw [h] at hmarks
  cases hmarks

/-- The marks of the line's own fence are compared with those of the open one. -/
instance (marker line : Text) : Decidable (Closes marker line) :=
  match h : fence? line with
  | none => isFalse (not_closes h)
  | some _ => decidable_of_iff _ (closes_iff h).symm

/-- A word is taken off the front exactly if the text starts with it. -/
theorem isSome_after?_iff : (Text.after? marker marks).isSome = true ↔ marker <+: marks := by
  rw [Option.isSome_iff_exists]
  exact exists_congr fun rest => Text.after?_eq_some_iff.trans eq_comm

/-! ## One line -/

/-- Inside a fence nothing counts but the line that closes it. -/
theorem landmarksFrom_inside (o : Opened) (position : Nat) (line : Text) (lines : List Text) :
    landmarksFrom (some o) position (line :: lines) =
      if Closes o.marks line then
        .block ⟨o.start, position, o.language⟩ :: landmarksFrom none (position + byteLength line) lines
      else landmarksFrom (some o) (position + byteLength line) lines := by
  rw [landmarksFrom]
  cases hfence : fence? line with
  | none => rw [if_neg (not_closes hfence)]
  | some marks => simp only [closes_iff hfence, isSome_after?_iff]

/-- So it is for references. -/
theorem referenceIn?_inside (marker line : Text) (lines : List Text) :
    referenceIn? (some marker) (line :: lines) =
      referenceIn? (if Closes marker line then none else some marker) lines := by
  rw [referenceIn?]
  cases hfence : fence? line with
  | none => rw [if_neg (not_closes hfence), Option.isSome_some, if_pos rfl]
  | some marks => simp only [fenceAfter, closes_iff hfence, isSome_after?_iff]

/-- The heading that a line outside fences is, if it is one. -/
def heading? (line : Text) : Option Landmark :=
  if Text.startsWith "#" (Text.trimStart line) then some (.heading (title line)) else none

/-- A line outside fences is a heading or nothing. -/
theorem landmarksFrom_plain (h : fence? line = none) (position : Nat) (lines : List Text) :
    landmarksFrom none position (line :: lines) =
      (heading? line).toList ++ landmarksFrom none (position + byteLength line) lines := by
  simp only [landmarksFrom, h, heading?]
  split <;> rfl

/-- A line outside fences names a reference, or a later one does. -/
theorem referenceIn?_plain (h : fence? line = none) (lines : List Text) :
    referenceIn? none (line :: lines) =
      ((repoLine? line).or (entryLine? line)).or (referenceIn? none lines) := by
  rw [referenceIn?, h]
  cases hrepo : repoLine? line <;> cases hentry : entryLine? line <;> rfl

/-- A fence outside fences opens a row. -/
theorem landmarksFrom_opening (h : fence? line = some marker) (position : Nat) (lines : List Text) :
    landmarksFrom none position (line :: lines) =
      landmarksFrom (some ⟨marker, language? line marker, position + byteLength line⟩)
        (position + byteLength line) lines := by
  rw [landmarksFrom, h]

/-- No reference is read in the line that opens a fence. -/
theorem referenceIn?_opening (h : fence? line = some marker) (lines : List Text) :
    referenceIn? none (line :: lines) = referenceIn? (some marker) lines := by
  rw [referenceIn?, h]
  rfl

/-! ## Rows of lines between fences -/

/-- A row of lines between fences. -/
structure Fenced where
  opening : Text
  /-- The fence of the opening line. -/
  marker : Text
  body : List Text
  closing : Text
  opens : fence? opening = some marker
  within : ∀ line ∈ body, ¬ Closes marker line
  closes : Closes marker closing

namespace Fenced

/-- All lines of a row. -/
def lines (f : Fenced) : List Text := f.opening :: (f.body ++ [f.closing])

/-- The row with another body, and the line that closes this one. -/
def cut (f : Fenced) {body : List Text} {closing : Text}
    (hwithin : ∀ line ∈ body, ¬ Closes f.marker line) (hcloses : Closes f.marker closing) : Fenced :=
  ⟨f.opening, f.marker, body, closing, f.opens, hwithin, hcloses⟩

/-- The block that a row at a position is. -/
def blockAt (f : Fenced) (position : Nat) : Block :=
  let start := position + byteLength f.opening
  ⟨start, start + byteLength f.body.flatten, language? f.opening f.marker⟩

end Fenced

/-- Lines that do not close the fence have no landmarks. -/
theorem landmarksFrom_body (o : Opened) (h : ∀ line ∈ body, ¬ Closes o.marks line) (position : Nat)
    (lines : List Text) :
    landmarksFrom (some o) position (body ++ lines) =
      landmarksFrom (some o) (position + byteLength body.flatten) lines := by
  induction body generalizing position with
  | nil => rfl
  | cons line body ih =>
    have hline := h line List.mem_cons_self
    rw [List.cons_append, landmarksFrom_inside, if_neg hline,
      ih fun other hother => h other (List.mem_cons_of_mem line hother)]
    simp [Nat.add_assoc]

/-- Nor do they name a reference. -/
theorem referenceIn?_body (h : ∀ line ∈ body, ¬ Closes marker line) (lines : List Text) :
    referenceIn? (some marker) ((body ++ lines).map withoutLineEnd) =
      referenceIn? (some marker) (lines.map withoutLineEnd) := by
  induction body with
  | nil => rfl
  | cons line body ih =>
    have hline : ¬ Closes marker (withoutLineEnd line) := by
      unfold Closes
      rw [fence?_withoutLineEnd]
      exact h line List.mem_cons_self
    rw [List.cons_append, List.map_cons, referenceIn?_inside, if_neg hline]
    exact ih fun other hother => h other (List.mem_cons_of_mem line hother)

/-- A row is a block. -/
theorem landmarksFrom_fenced (f : Fenced) (position : Nat) (lines : List Text) :
    landmarksFrom none position (f.lines ++ lines) =
      .block (f.blockAt position) ::
        landmarksFrom none (position + byteLength f.lines.flatten) lines := by
  rw [Fenced.lines, List.cons_append, landmarksFrom_opening f.opens, List.append_assoc,
    landmarksFrom_body _ f.within, List.singleton_append, landmarksFrom_inside, if_pos f.closes]
  simp [Fenced.blockAt, Nat.add_assoc]

/-- A row names no reference. -/
theorem referenceIn?_fenced (f : Fenced) (lines : List Text) :
    referenceIn? none ((f.lines ++ lines).map withoutLineEnd) =
      referenceIn? none (lines.map withoutLineEnd) := by
  have hopens : fence? (withoutLineEnd f.opening) = some f.marker := by
    rw [fence?_withoutLineEnd, f.opens]
  have hcloses : Closes f.marker (withoutLineEnd f.closing) := by
    unfold Closes
    rw [fence?_withoutLineEnd]
    exact f.closes
  rw [Fenced.lines, List.cons_append, List.map_cons, referenceIn?_opening hopens, List.append_assoc,
    referenceIn?_body f.within, List.singleton_append, List.map_cons, referenceIn?_inside,
    if_pos hcloses]

/-- A fence that is never closed hides what follows it. -/
theorem landmarksFrom_unclosed (h : fence? line = some marker)
    (hbody : ∀ other ∈ body, ¬ Closes marker other) (position : Nat) :
    landmarksFrom none position (line :: body) = [] := by
  have hend := landmarksFrom_body ⟨marker, language? line marker, position + byteLength line⟩ hbody
    (position + byteLength line) []
  rw [List.append_nil] at hend
  rw [landmarksFrom_opening h, hend]
  rfl

/-- No line closes a fence, or there is a first one that does. -/
theorem forall_not_closes_or_exists_first (marker : Text) (lines : List Text) :
    (∀ line ∈ lines, ¬ Closes marker line) ∨
      ∃ body closing after, lines = body ++ closing :: after ∧
        (∀ line ∈ body, ¬ Closes marker line) ∧ Closes marker closing := by
  cases hfind : lines.find? fun line => decide (Closes marker line) with
  | none => exact Or.inl (by simpa using hfind)
  | some closing =>
    obtain ⟨hcloses, body, after, hlines, hbody⟩ := List.find?_eq_some_iff_append.mp hfind
    exact Or.inr ⟨body, closing, after, hlines, by simpa using hbody, by simpa using hcloses⟩

/-- Lines are none at all, or start with one outside fences, with a row, or with a fence that is never
closed. -/
theorem lines_induction {motive : List Text → Prop} (nil : motive [])
    (plain : ∀ line lines, fence? line = none → motive lines → motive (line :: lines))
    (fenced : ∀ (f : Fenced) lines, motive lines → motive (f.lines ++ lines))
    (unclosed : ∀ line marker body, fence? line = some marker →
      (∀ other ∈ body, ¬ Closes marker other) → motive (line :: body))
    (lines : List Text) : motive lines := by
  -- The induction is on the number of lines, since a row is taken off as a whole.
  induction hlength : lines.length using Nat.strongRecOn generalizing lines with
  | _ length ih =>
    cases lines with
    | nil => exact nil
    | cons line lines =>
      cases hfence : fence? line with
      | none => exact plain line lines hfence (ih _ (by simp [← hlength]) lines rfl)
      | some marker =>
        rcases forall_not_closes_or_exists_first marker lines with
          hnone | ⟨body, closing, after, rfl, hwithin, hcloses⟩
        · exact unclosed line marker lines hfence hnone
        · have hrest := ih _ (by simp [← hlength]; omega) after rfl
          have hrow := fenced ⟨line, marker, body, closing, hfence, hwithin, hcloses⟩ after hrest
          simpa [Fenced.lines] using hrow

end Graft.Note
