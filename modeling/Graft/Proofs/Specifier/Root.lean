import Graft.Proofs.Text.Segments
import Graft.Specifier

/-!
# Specifiers and the root of the repository

The first segments of a URL name the root of its repository, and a URL lies below a root if it starts
with it and a slash. A specifier in a file below a root names a URL below the same root
(`Below.resolve`): steps up stop there, and what is not relative starts there, even a URL of another
place.
-/

namespace Graft.Specifier

/-- The root of the repository that a URL lies in. -/
def root (url : String) : String := Word.joinWith "/" ((Word.splitOn '/' url).take rootSegments)

/-- A URL lies below a root if it starts with it and a slash. -/
def Below (root url : String) : Prop := ∃ rest, url = root ++ "/" ++ rest

/-- The segments of a root. -/
structure IsRoot (segments : List String) : Prop where
  length : segments.length = rootSegments
  /-- A segment has no slash in it. -/
  plain : ∀ segment ∈ segments, '/' ∉ segment.toList

variable {segments : List String} {containing url : String}

/-- A root has segments. -/
theorem IsRoot.ne_nil (h : IsRoot segments) : segments ≠ [] := by
  rintro rfl
  cases h.length

/-- What lies below a root, and what may follow that, starts with the root and a slash. -/
theorem Below.append {root : String} (h : Below root url) (ending : String) :
    Below root (url ++ ending) := by
  obtain ⟨rest, rfl⟩ := h
  exact ⟨rest ++ ending, String.append_assoc ..⟩

/-- A URL with more segments than a root has lies below the root of its repository. -/
theorem isRoot_of_lt (h : rootSegments < (Word.splitOn '/' url).length) :
    IsRoot ((Word.splitOn '/' url).take rootSegments) ∧ Below (root url) url := by
  have hsplit := List.take_append_drop rootSegments (Word.splitOn '/' url)
  have hlength : ((Word.splitOn '/' url).take rootSegments).length = rootSegments := by
    rw [List.length_take]
    omega
  have hroot : IsRoot ((Word.splitOn '/' url).take rootSegments) :=
    ⟨hlength, fun segment hsegment =>
      Word.slash_notMem_of_mem_segments (List.mem_of_mem_take hsegment)⟩
  have hdrop : (Word.splitOn '/' url).drop rootSegments ≠ [] := by
    rw [← List.length_pos_iff, List.length_drop]
    omega
  refine ⟨hroot, Word.joinWith "/" ((Word.splitOn '/' url).drop rootSegments), ?_⟩
  calc url = Word.joinWith "/" (Word.splitOn '/' url) := (Word.joinWith_splitOn url).symm
    _ = Word.joinWith "/" ((Word.splitOn '/' url).take rootSegments ++
          (Word.splitOn '/' url).drop rootSegments) := by rw [hsplit]
    _ = root url ++ "/" ++ Word.joinWith "/" ((Word.splitOn '/' url).drop rootSegments) :=
        Word.joinWith_append hroot.ne_nil hdrop

/-- A step up from a directory at a root or below it leads to one at the root or below it. -/
theorem IsRoot.parent (h : IsRoot segments) (inner : List String) :
    ∃ inner', parent (segments ++ inner) = segments ++ inner' := by
  unfold Specifier.parent
  split
  · next hlength =>
    have hinner : inner ≠ [] := by
      rintro rfl
      rw [List.append_nil, h.length] at hlength
      exact Nat.lt_irrefl _ hlength
    exact ⟨inner.dropLast, List.dropLast_append_of_ne_nil hinner⟩
  · exact ⟨inner, rfl⟩

/-- So do any number of steps, up or in place. -/
theorem IsRoot.descend (h : IsRoot segments) (inner : List String) (specifier : Text) :
    ∃ inner', (descend (segments ++ inner) specifier).1 = segments ++ inner' := by
  generalize hdirectory : segments ++ inner = directory
  fun_induction Specifier.descend directory specifier generalizing inner with
  | case1 directory rest ih => exact ih inner hdirectory
  | case2 directory rest ih =>
    obtain ⟨inner', hparent⟩ := h.parent inner
    rw [hdirectory] at hparent
    exact ih inner' hparent.symm
  | case3 directory rest _ _ => exact ⟨inner, hdirectory.symm⟩

/-- A specifier in a file below a root names a place below it. -/
theorem Below.place (hroot : IsRoot segments) (h : Below (Word.joinWith "/" segments) containing)
    (specifier : String) :
    Below (Word.joinWith "/" segments) (place specifier containing) := by
  obtain ⟨rest, rfl⟩ := h
  have hsegments := Word.splitOn_joinWith hroot.ne_nil hroot.plain rest
  have hrest : Word.splitOn '/' rest ≠ [] := Word.splitOn_ne_nil '/' rest
  unfold Specifier.place
  simp only [hsegments]
  split
  · -- The directory of the file is the root or lies below it, and so is what the steps lead to.
    rw [List.dropLast_append_of_ne_nil hrest]
    obtain ⟨inner, hdirectory⟩ := hroot.descend (Word.splitOn '/' rest).dropLast specifier.toList
    rw [hdirectory]
    rcases eq_or_ne inner [] with rfl | hinner
    · rw [List.append_nil]
      exact ⟨_, rfl⟩
    · rw [Word.joinWith_append hroot.ne_nil hinner]
      exact (Below.append ⟨_, rfl⟩ "/").append _
  · rw [← hroot.length, List.take_left]
    exact ⟨specifier, rfl⟩

/-- A specifier in a file below a root names a URL below it. -/
theorem Below.resolve (hroot : IsRoot segments) (h : Below (Word.joinWith "/" segments) containing)
    (specifier : String) :
    Below (Word.joinWith "/" segments) (resolve specifier containing) := by
  have hplace := h.place hroot specifier
  unfold Specifier.resolve
  simp only
  split
  · exact hplace
  · split
    · exact (hplace.append ".").append _
    · exact hplace

end Graft.Specifier
