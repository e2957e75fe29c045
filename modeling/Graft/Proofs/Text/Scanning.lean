import Mathlib.Data.List.Basic
import Graft.Proofs.Text.Pieces

/-!
# Scanning stretch by stretch

A scan goes over a text character by character. Here it is said what it does with a whole stretch: one in
which nothing is found stays as it is (`go_plain`), and one that is found is one piece (`go_found`). Each
text starts with a stretch of the first kind, up to the first match (`exists_stretch`). From one stretch to
the next all that goes over is whether a line starts there (`lineStartAfter`).
-/

namespace Graft.Scan

/-- Whether a line starts behind a text; `lineStart` tells whether one starts before it. -/
def lineStartAfter (lineStart : Bool) (text : Text) : Bool := text.foldl (fun _ c => c = '\n') lineStart

/-- The value that a piece gives. -/
def Piece.value? {α : Type} : Piece α → Option α
  | .found value _ => some value
  | .plain _ => none

/-- The character that is left of a piece when what was found is removed. -/
def Piece.kept? {α : Type} : Piece α → Option Char
  | .plain c => some c
  | .found _ _ => none

variable {α : Type} {find : Recogniser α} {lineStart : Bool} {text span rest : Text} {value : α}

/-! ## Where lines start -/

/-- Behind nothing a line starts if one starts before it. -/
@[simp]
theorem lineStartAfter_nil (lineStart : Bool) : lineStartAfter lineStart [] = lineStart := rfl

/-- The first character is a line's last one if it is a line feed. -/
@[simp]
theorem lineStartAfter_cons (lineStart : Bool) (c : Char) (text : Text) :
    lineStartAfter lineStart (c :: text) = lineStartAfter (c = '\n') text := rfl

/-- The second of two texts in a row decides from what the first one leaves. -/
@[simp]
theorem lineStartAfter_append (lineStart : Bool) (text rest : Text) :
    lineStartAfter lineStart (text ++ rest) = lineStartAfter (lineStartAfter lineStart text) rest :=
  List.foldl_append

/-- A line starts only behind a line feed. -/
theorem exists_concat_lineFeed (hne : text ≠ []) (h : lineStartAfter lineStart text = true) :
    ∃ front, text = front ++ ['\n'] := by
  obtain rfl | ⟨front, c, rfl⟩ := List.eq_nil_or_concat text
  · exact absurd rfl hne
  · rw [List.concat_eq_append, lineStartAfter_append] at h
    exact ⟨front, by simpa using h⟩

/-! ## Stretches -/

/-- Plain characters give no values. -/
@[simp]
theorem filterMap_value?_plain (text : Text) :
    (text.map (Piece.plain : Char → Piece α)).filterMap Piece.value? = [] := by
  rw [List.filterMap_map, List.filterMap_eq_nil_iff]
  exact fun _ _ => rfl

/-- Plain characters are kept. -/
@[simp]
theorem filterMap_kept?_plain (text : Text) :
    (text.map (Piece.plain : Char → Piece α)).filterMap Piece.kept? = text := by
  rw [List.filterMap_map]
  exact List.filterMap_some

/-- A reader finds what it takes off the front. -/
theorem ofReader_append {read : Text → Option (α × Text)} (h : read (span ++ rest) = some (value, rest)) :
    ofReader read (span ++ rest) = some (value, span.length) := by
  rw [ofReader, h, Option.map_some, List.length_append]
  simp only [Nat.add_sub_cancel]

/-- What a scan finds are the values of its pieces. -/
theorem all_eq (find : Recogniser α) (text : Text) :
    all find text = (go find 0 true text).filterMap Piece.value? := rfl

/-- What is covered by a match is passed over. -/
theorem go_covered (find : Recogniser α) (lineStart : Bool) (span rest : Text) :
    go find span.length lineStart (span ++ rest) = go find 0 (lineStartAfter lineStart span) rest := by
  induction span generalizing lineStart with
  | nil => rfl
  | cons c span ih => exact ih (c = '\n')

/-- A stretch that is found is one piece. -/
theorem go_found (hne : span ≠ []) (h : find lineStart (span ++ rest) = some (value, span.length)) :
    go find 0 lineStart (span ++ rest) =
      .found value span :: go find 0 (lineStartAfter lineStart span) rest := by
  obtain ⟨c, span, rfl⟩ := List.exists_cons_of_ne_nil hne
  rw [List.cons_append] at h ⊢
  rw [go, h]
  simp only [List.length_cons, Nat.add_sub_cancel, lineStartAfter_cons]
  rw [go_covered, ← List.cons_append, ← List.length_cons (a := c), List.take_left]

/-- A character at which nothing is found stays. -/
theorem go_plain_cons {c : Char} (h : find lineStart (c :: rest) = none) :
    go find 0 lineStart (c :: rest) = .plain c :: go find 0 (c = '\n') rest := by
  rw [go, h]

/-- A stretch in which nothing is found stays. -/
theorem go_plain (h : ∀ front behind, text = front ++ behind → behind ≠ [] →
      find (lineStartAfter lineStart front) (behind ++ rest) = none) :
    go find 0 lineStart (text ++ rest) =
      text.map .plain ++ go find 0 (lineStartAfter lineStart text) rest := by
  induction text generalizing lineStart with
  | nil => rfl
  | cons c text ih =>
    have hfirst : find lineStart (c :: (text ++ rest)) = none :=
      h [] (c :: text) rfl (List.cons_ne_nil c text)
    rw [List.cons_append, go_plain_cons hfirst, ih]
    · rfl
    · intro front behind htext hbehind
      exact h (c :: front) behind (by rw [htext, List.cons_append]) hbehind

/-- What is left of some pieces when what was found is removed. -/
def kept (pieces : List (Piece α)) : Text := pieces.filterMap Piece.kept?

/-- What a removal leaves are the pieces that are kept. -/
theorem remove_eq (find : Recogniser α) (text : Text) : remove find text = kept (go find 0 true text) := rfl

/-- What is left of two rows of pieces. -/
@[simp]
theorem kept_append (pieces others : List (Piece α)) : kept (pieces ++ others) = kept pieces ++ kept others :=
  List.filterMap_append

/-- A plain character is left. -/
@[simp]
theorem kept_plain_cons (c : Char) (pieces : List (Piece α)) : kept (.plain c :: pieces) = c :: kept pieces :=
  rfl

/-- What was found is not left. -/
@[simp]
theorem kept_found_cons (value : α) (span : Text) (pieces : List (Piece α)) :
    kept (.found value span :: pieces) = kept pieces := rfl

/-- What is left of a text is no longer than it. -/
theorem length_kept_go_le (find : Recogniser α) (covered : Nat) (lineStart : Bool) (text : Text) :
    (kept (go find covered lineStart text)).length ≤ text.length :=
  Nat.le_trans (List.length_filterMap_le _ _) (length_go_le find covered lineStart text)

/-- All of a text is left exactly if nothing is found anywhere in it. -/
theorem kept_go_eq_self_iff :
    kept (go find 0 lineStart text) = text ↔
      ∀ front behind, text = front ++ behind → behind ≠ [] →
        find (lineStartAfter lineStart front) behind = none := by
  constructor
  · intro h
    induction text generalizing lineStart with
    | nil =>
      intro front behind htext hbehind
      exact absurd (List.append_eq_nil_iff.mp htext.symm).2 hbehind
    | cons c text ih =>
      cases hfind : find lineStart (c :: text) with
      | some found =>
        -- At least the first character of what is found is not left.
        have hle := length_kept_go_le find (found.2 - 1) (c = '\n') text
        have hgo : kept (go find 0 lineStart (c :: text)) = kept (go find (found.2 - 1) (c = '\n') text) := by
          rw [go, hfind]
          rfl
        rw [← hgo, h, List.length_cons] at hle
        omega
      | none =>
        rw [go_plain_cons hfind, kept_plain_cons] at h
        intro front behind htext hbehind
        cases front with
        | nil =>
          rw [List.nil_append] at htext
          rwa [lineStartAfter_nil, ← htext]
        | cons d front =>
          obtain ⟨rfl, htail⟩ := List.cons.inj htext
          exact ih (List.cons.inj h).2 front behind htail hbehind
  · intro h
    have hgo : go find 0 lineStart (text ++ []) =
        text.map .plain ++ go find 0 (lineStartAfter lineStart text) [] :=
      go_plain fun front behind htext hbehind => by
        rw [List.append_nil]
        exact h front behind htext hbehind
    rw [List.append_nil] at hgo
    rw [hgo, kept_append]
    exact (List.append_nil _).trans (filterMap_kept?_plain text)

/-- A text begins with a stretch in which nothing is found, up to the first match or the end. -/
theorem exists_stretch (find : Recogniser α) (lineStart : Bool) (text : Text) :
    ∃ plain rest, text = plain ++ rest ∧
      go find 0 lineStart text = plain.map .plain ++ go find 0 (lineStartAfter lineStart plain) rest ∧
      (rest = [] ∨ ∃ found, find (lineStartAfter lineStart plain) rest = some found) := by
  induction text generalizing lineStart with
  | nil => exact ⟨[], [], rfl, rfl, Or.inl rfl⟩
  | cons c text ih =>
    cases hfind : find lineStart (c :: text) with
    | some found => exact ⟨[], c :: text, rfl, rfl, Or.inr ⟨found, hfind⟩⟩
    | none =>
      obtain ⟨plain, rest, htext, hgo, hrest⟩ := ih (c = '\n')
      refine ⟨c :: plain, rest, by rw [htext, List.cons_append], ?_, hrest⟩
      rw [go_plain_cons hfind, hgo]
      rfl

end Graft.Scan
