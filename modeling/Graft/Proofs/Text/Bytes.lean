import Mathlib.Data.List.Basic
import Graft.Proofs.Text.Cut
import Graft.Text.Bytes

/-!
# Cutting a text at byte positions

Behind a part of a text the check of a position passes (`cutAt?_append`), and so does the one of a stretch
between two parts (`slice?_append`). The position that a search gives is the length of what stands before
the character that it finds.
-/

namespace Graft.Text

variable {t front back : Text} {c : Char} {position : Nat}

/-- A position is a place of a text exactly if it is the length of what stands before it. -/
theorem cutAt?_eq_some_iff :
    cutAt? position t = some (front, back) ↔ t = front ++ back ∧ position = byteLength front := by
  -- The induction is on the text. A character that is longer than what is left of the position spans it, and
  -- then the position is no place.
  induction t generalizing position front with
  | nil =>
    cases position with
    | zero =>
      cases front with
      | nil => simp [cutAt?, eq_comm]
      | cons c front => simp [cutAt?]
    | succ position =>
      constructor
      · intro h
        cases h
      · rintro ⟨hfront, hposition⟩
        rw [(List.append_eq_nil_iff.mp hfront.symm).1] at hposition
        cases hposition
  | cons c t ih =>
    have hc := c.utf8Size_pos
    cases position with
    | zero =>
      cases front with
      | nil => simp [cutAt?, eq_comm]
      | cons d front =>
        have := d.utf8Size_pos
        simp only [cutAt?, Option.some.injEq, Prod.mk.injEq, List.nil_eq, reduceCtorEq, false_and,
          byteLength_cons, false_iff, not_and]
        omega
    | succ position =>
      rw [cutAt?]
      split
      · next hle =>
        rw [Option.map_eq_some_iff]
        constructor
        · rintro ⟨⟨front', back'⟩, hcut, hpair⟩
          obtain ⟨rfl, rfl⟩ := Prod.mk.inj hpair
          obtain ⟨rfl, hposition⟩ := ih.mp hcut
          rw [byteLength_cons]
          exact ⟨rfl, by omega⟩
        · rintro ⟨htext, hposition⟩
          cases front with
          | nil => cases hposition
          | cons d front =>
            obtain ⟨rfl, rfl⟩ := List.cons.inj htext
            rw [byteLength_cons] at hposition
            exact ⟨(front, back), ih.mpr ⟨rfl, by omega⟩, rfl⟩
      · next hlt =>
        constructor
        · intro h
          cases h
        · rintro ⟨htext, hposition⟩
          cases front with
          | nil => cases hposition
          | cons d front =>
            obtain ⟨rfl, -⟩ := List.cons.inj htext
            rw [byteLength_cons] at hposition
            omega

/-- A text is cut behind its front at the byte length of the front. -/
theorem cutAt?_append (front back : Text) :
    cutAt? (byteLength front) (front ++ back) = some (front, back) :=
  cutAt?_eq_some_iff.mpr ⟨rfl, rfl⟩

/-- A place in a text is told by its position. -/
theorem append_inj_of_byteLength {front' back' : Text} (h : front ++ back = front' ++ back')
    (hposition : byteLength front = byteLength front') : front = front' ∧ back = back' := by
  have hcut := cutAt?_append front back
  rw [h, hposition, cutAt?_append] at hcut
  obtain ⟨hfront, hback⟩ := Prod.mk.inj (Option.some.inj hcut)
  exact ⟨hfront.symm, hback.symm⟩

/-- The slice between two places is the text between them. -/
theorem slice?_append (before inside after : Text) :
    slice? (byteLength before) (byteLength (before ++ inside)) (before ++ (inside ++ after)) =
      some inside := by
  unfold slice?
  rw [byteLength_append, if_pos (Nat.le_add_right _ _), cutAt?_append, Nat.add_sub_cancel_left]
  show (cutAt? (byteLength inside) (inside ++ after)).bind _ = _
  rw [cutAt?_append]
  rfl

/-- The first occurrence stands behind the run of other characters. -/
theorem position?_eq (c : Char) (t : Text) :
    position? c t =
      if t.dropWhile (· ≠ c) = [] then none else some (byteLength (t.takeWhile (· ≠ c))) := by
  induction t with
  | nil => rfl
  | cons d t ih =>
    rw [position?]
    by_cases hd : d = c
    · simp [hd]
    · rw [if_neg hd, List.dropWhile_cons_of_pos (by simp [hd]), List.takeWhile_cons_of_pos (by simp [hd]),
        ih]
      split
      · rfl
      · rw [Option.map_some, byteLength_cons, Nat.add_comm]

/-- The last occurrence stands where the text splits. -/
theorem lastPosition?_eq (c : Char) (t : Text) :
    lastPosition? c t = (splitAtLast c t).map fun parts => byteLength parts.1 := by
  induction t with
  | nil => rfl
  | cons d t ih =>
    rw [lastPosition?, splitAtLast, ih]
    cases splitAtLast c t with
    | some parts => simp [Nat.add_comm]
    | none =>
      by_cases hd : d = c
      · simp [hd]
      · simp [hd]

end Graft.Text
