import Mathlib.Data.List.Basic
import Graft.Proofs.Note.Place

/-!
# The choice of a block

Which block of a note is written is read off its landmarks alone (`choose?`). The choice does not look
at what the blocks are: when each of them has another one in its place, the other one is chosen
(`choose?_onBlock`). A note with a block always has one to write (`exists_choose?`).
-/

namespace Graft.Note

variable {wanted : Text} {heading : Option String} {found : List Landmark} {b : Block} {note : Text}

/-- The block to write among some landmarks: the one under the heading if there is one, else the first
of them. -/
def choose? (heading : Option String) (found : List Landmark) : Option Block :=
  (heading.bind fun h => blockUnder? (title h.toList) found).or (firstBlock? found)

/-- The block to write is chosen among the landmarks of the note. -/
theorem insertBlock_eq_ok_iff :
    insertBlock note heading = .ok b ↔ choose? heading (landmarks note) = some b := by
  have hchoice : ((heading.bind fun h => blockUnder? (title h.toList) (landmarks note)) <|>
      firstBlock? (landmarks note)) = choose? heading (landmarks note) := by
    unfold choose?
    cases heading.bind fun h => blockUnder? (title h.toList) (landmarks note) <;> rfl
  unfold insertBlock
  simp only [hchoice]
  cases choose? heading (landmarks note) <;> simp

/-! ## What is chosen is there -/

/-- A block at the front of landmarks is one of them. -/
theorem mem_of_leadingBlock? (h : leadingBlock? found = some b) : .block b ∈ found := by
  cases found with
  | nil => cases h
  | cons landmark rest =>
    cases landmark with
    | heading t => cases h
    | block b' =>
      cases h
      exact List.mem_cons_self

/-- A block found under a heading is one of the landmarks. -/
theorem mem_of_blockUnder? (h : blockUnder? wanted found = some b) : .block b ∈ found := by
  induction found with
  | nil => cases h
  | cons landmark rest ih =>
    cases landmark with
    | heading t =>
      rw [blockUnder?] at h
      split at h
      · exact List.mem_cons_of_mem _ (mem_of_leadingBlock? h)
      · exact List.mem_cons_of_mem _ (ih h)
    | block b' => exact List.mem_cons_of_mem _ (ih h)

/-- The first block among landmarks is one of them. -/
theorem mem_of_firstBlock? (h : firstBlock? found = some b) : .block b ∈ found := by
  induction found with
  | nil => cases h
  | cons landmark rest ih =>
    cases landmark with
    | heading t => exact List.mem_cons_of_mem _ (ih h)
    | block b' =>
      cases h
      exact List.mem_cons_self

/-- The chosen block is one of the landmarks. -/
theorem mem_of_choose? (h : choose? heading found = some b) : .block b ∈ found := by
  rcases Option.or_eq_some_iff.mp h with hunder | ⟨-, hfirst⟩
  · obtain ⟨wanted, -, hunder⟩ := Option.bind_eq_some_iff.mp hunder
    exact mem_of_blockUnder? hunder
  · exact mem_of_firstBlock? hfirst

/-- The block to write is a block of the note. -/
theorem mem_of_insertBlock (h : insertBlock note heading = .ok b) : .block b ∈ landmarks note :=
  mem_of_choose? (insertBlock_eq_ok_iff.mp h)

/-- Among landmarks with a block there is one to choose. -/
theorem exists_choose? (h : .block b ∈ found) (heading : Option String) :
    ∃ b', choose? heading found = some b' := by
  have hfirst : ∃ b', firstBlock? found = some b' := by
    induction found with
    | nil => cases h
    | cons landmark rest ih =>
      cases landmark with
      | heading t => exact ih ((List.mem_cons.mp h).resolve_left (by simp))
      | block b' => exact ⟨b', rfl⟩
  obtain ⟨b', hb'⟩ := hfirst
  unfold choose?
  rw [hb']
  cases heading.bind fun h => blockUnder? (title h.toList) found with
  | none => exact ⟨b', rfl⟩
  | some under => exact ⟨under, rfl⟩

/-! ## Other blocks in their places -/

/-- Moving all blocks keeps which one is at the front. -/
theorem leadingBlock?_onBlock (f : Block → Block) (found : List Landmark) :
    leadingBlock? (found.map (Landmark.onBlock f)) = (leadingBlock? found).map f := by
  cases found with
  | nil => rfl
  | cons landmark rest => cases landmark <;> rfl

/-- Moving all blocks keeps which one stands under a heading. -/
theorem blockUnder?_onBlock (f : Block → Block) (wanted : Text) (found : List Landmark) :
    blockUnder? wanted (found.map (Landmark.onBlock f)) = (blockUnder? wanted found).map f := by
  induction found with
  | nil => rfl
  | cons landmark rest ih =>
    cases landmark with
    | heading t =>
      rw [List.map_cons, Landmark.onBlock, blockUnder?, blockUnder?, leadingBlock?_onBlock, ih]
      split <;> rfl
    | block b => exact ih

/-- Moving all blocks keeps which one is the first. -/
theorem firstBlock?_onBlock (f : Block → Block) (found : List Landmark) :
    firstBlock? (found.map (Landmark.onBlock f)) = (firstBlock? found).map f := by
  induction found with
  | nil => rfl
  | cons landmark rest ih =>
    cases landmark with
    | heading t => exact ih
    | block b => rfl

/-- The choice does not look at what the blocks are. -/
theorem choose?_onBlock (f : Block → Block) (heading : Option String) (found : List Landmark) :
    choose? heading (found.map (Landmark.onBlock f)) = (choose? heading found).map f := by
  unfold choose?
  rw [firstBlock?_onBlock, Option.map_or]
  cases heading with
  | none => rfl
  | some h => rw [Option.bind_some, Option.bind_some, blockUnder?_onBlock]

end Graft.Note
