import Graft.Proofs.Buffer.Located
import Graft.Proofs.Buffer.Ready

/-!
# Where spans begin and end

A seam is a position at which a text may be cut: no identifier goes on across it, and no property stands
behind it whose object stands before it. The spans of a buffer begin and end at seams (`Seamed`), however
often members go in (`Seamed.insert`) and names are redirected, whatever they are replaced by. Members may
be empty or become empty, so this holds of more buffers than those that are composed of pieces.
-/

namespace Graft

open Lexeme (IsLetter StartsApart EndsApart Apart resolveFrom)

namespace Buffer

/-- A position at which a text may be cut. -/
def IsSeam (t : Text) (position : Nat) : Prop :=
  ∃ before after, t = before ++ after ∧ Text.byteLength before = position ∧ Apart id before after

/-- A buffer whose spans begin and end at seams. -/
def Seamed (b : Buffer) : Prop := ∀ s ∈ b.members, IsSeam b.text s.start ∧ IsSeam b.text s.stop

variable {b : Buffer} {before added after member : Text} {source : String} {position : Nat}

/-- A buffer without members has no seam to keep. -/
theorem seamed_ofText (text : Text) (origin : String) : Seamed (ofText text origin) :=
  fun _ hs => absurd hs List.not_mem_nil

/-! ## More text -/

/-- A seam stays where text goes in behind it, or at it if the text before is apart from the new one. -/
theorem IsSeam.stays (h : IsSeam (before ++ after) position) (hle : position ≤ Text.byteLength before)
    (hcut : Apart id before (added ++ after)) : IsSeam (before ++ (added ++ after)) position := by
  obtain ⟨x, y, hxy, rfl, happart⟩ := h
  rcases List.append_eq_append_iff.mp hxy with ⟨m, rfl, rfl⟩ | ⟨m, rfl, rfl⟩
  · -- The seam is at the end of the text before, or behind it; then there is nothing in between.
    have hm : m = [] := by
      by_contra hne
      have := Text.byteLength_pos hne
      rw [Text.byteLength_append] at hle
      omega
    subst hm
    rw [List.append_nil]
    exact ⟨before, added ++ y, rfl, rfl, hcut⟩
  · refine ⟨x, m ++ (added ++ after), by simp, rfl, ?_⟩
    by_cases hm : m = []
    · subst hm
      rwa [List.append_nil] at hcut
    · refine happart.imp_right fun hstart => ?_
      rw [StartsApart, List.head?_append_of_ne_nil _ hm] at hstart
      rwa [StartsApart, List.head?_append_of_ne_nil _ hm]

/-- A seam moves when text goes in before it, or at it if the new text is apart from the text behind. -/
theorem IsSeam.moves (h : IsSeam (before ++ after) position) (hle : Text.byteLength before ≤ position)
    (hcut : Apart id (before ++ added) after) :
    IsSeam (before ++ (added ++ after)) (position + Text.byteLength added) := by
  obtain ⟨x, y, hxy, rfl, happart⟩ := h
  -- The seam is behind the place or at it; in front of it there is none to move.
  rcases List.append_eq_append_iff.mp hxy with ⟨m, rfl, rfl⟩ | ⟨m, rfl, rfl⟩
  · refine ⟨before ++ (added ++ m), y, by simp, ?_, ?_⟩
    · simp only [Text.byteLength_append]
      omega
    · by_cases hm : m = []
      · subst hm
        rwa [List.append_nil]
      · refine happart.imp_left fun hend => ?_
        rw [EndsApart, List.getLast?_append_of_ne_nil _ hm] at hend
        rwa [EndsApart, ← List.append_assoc, List.getLast?_append_of_ne_nil _ hm]
  · have hm : m = [] := by
      by_contra hne
      have := Text.byteLength_pos hne
      rw [Text.byteLength_append] at hle
      omega
    subst hm
    rw [List.append_nil] at hcut
    exact ⟨x ++ added, after, by simp, Text.byteLength_append _ _, hcut⟩

/-- Text that goes in keeps the spans at seams, if it is apart from what stands on both sides. -/
theorem Seamed.spliced (h : Seamed b) (htext : b.text = before ++ after)
    (hbefore : Apart id before (added ++ after)) (hafter : Apart id (before ++ added) after) :
    Seamed (b.spliced before added after) := by
  intro s hs
  obtain ⟨s, hmem, rfl⟩ := List.mem_map.mp hs
  obtain ⟨hstart, hstop⟩ := h s hmem
  rw [htext] at hstart hstop
  constructor
  · show IsSeam _ (if _ then _ else _)
    split
    · next hle => exact hstart.moves hle hafter
    · exact hstart.stays (by omega) hbefore
  · show IsSeam _ (if _ then _ else _)
    split
    · exact hstop.moves (by omega) hafter
    · exact hstop.stays (by omega) hbefore

/-- The separator keeps the spans at seams. -/
theorem Seamed.separator {kept blank rest : Text} (h : Seamed b) (hseat : Seat b.text kept blank rest) :
    Seamed (b.spliced kept (Buffer.separator kept) (blank ++ '}' :: rest)) := by
  have hended : EndsOpen (kept ++ Buffer.separator kept) :=
    ⟨_, [], (List.append_nil _).symm, isOpen_append_separator kept, by simp⟩
  refine h.spliced hseat.eq ?_ (Or.inl hended.endsApart)
  -- A text that needs no separator is open itself, and a comma starts apart.
  by_cases hopen : isOpen kept = true
  · exact Or.inl (EndsOpen.endsApart ⟨kept, [], (List.append_nil _).symm, hopen, by simp⟩)
  · rw [Buffer.separator, if_neg hopen]
    refine Or.inr ?_
    rw [List.singleton_append, Lexeme.startsApart_cons]
    decide

/-- A member in front of a closing brace, behind a text that ends apart, has seams at its ends. -/
theorem Seamed.withMember {rest : Text} (h : Seamed b) (htext : b.text = before ++ '}' :: rest)
    (hbefore : EndsApart id before) (member : Text) (source : String) :
    Seamed (b.withMember before member ('}' :: rest) source) := by
  have hbrace : StartsApart id ('}' :: rest) := by
    rw [Lexeme.startsApart_cons]
    decide
  have hspliced : Seamed (b.spliced before member ('}' :: rest)) :=
    h.spliced htext (Or.inl hbefore) (Or.inr hbrace)
  have heq : (b.withMember before member ('}' :: rest) source).text =
      before ++ (member ++ '}' :: rest) := List.append_assoc _ _ _
  intro s hs
  rw [heq]
  rcases List.mem_append.mp hs with hs | hs
  · exact hspliced s hs
  · rw [List.mem_singleton.mp hs]
    exact ⟨⟨before, member ++ '}' :: rest, rfl, rfl, Or.inl hbefore⟩,
      ⟨before ++ member, '}' :: rest, by simp, Text.byteLength_append _ _, Or.inr hbrace⟩⟩

/-! ## Changes -/

/-- Making a buffer ready keeps its spans at seams. -/
theorem Seamed.separate (h : Seamed b) : Seamed (b.change .separate) := by
  by_cases hbrace : '}' ∈ b.text
  · obtain ⟨kept, blank, rest, hseat⟩ := Seat.exists_of_mem hbrace
    rw [change, hseat.separate?_eq]
    exact h.separator hseat
  · rw [change, separate?_eq_none hbrace]
    exact h

/-- Putting in a member keeps the spans at seams. -/
theorem Seamed.insert (h : Seamed b) (member : Text) (source : String) :
    Seamed (b.change (.insert member source)) := by
  by_cases hbrace : '}' ∈ b.text
  · obtain ⟨kept, blank, rest, hseat⟩ := Seat.exists_of_mem hbrace
    have hopen : EndsOpen (kept ++ (Buffer.separator kept ++ blank)) :=
      ⟨_, blank, (List.append_assoc _ _ _).symm, isOpen_append_separator kept, hseat.blank⟩
    rw [change, hseat.insert?_eq]
    exact (h.separator hseat).withMember (by simp [Buffer.spliced]) hopen.endsApart member source
  · rw [change, insert?_eq_none hbrace]
    exact h

end Buffer

end Graft
