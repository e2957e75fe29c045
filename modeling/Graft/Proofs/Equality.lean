import Graft.Fetch.Viewer
import Graft.Tree

/-!
# Comparing trees and values of JSON

Both types hold lists of their own values, so that no equality is derived for them. Here each has a Boolean
test that the kernel can evaluate, and the test decides equality (`Tree.same_iff`, `Viewer.Json.same_iff`).
What a text is read as can then be checked by evaluating the reader.
-/

namespace Graft.Tree

mutual

/-- Whether two trees are the same. -/
def same : Tree → Tree → Bool
  | .empty, .empty => true
  | .flag b, .flag c => b = c
  | .integer m, .integer n => m = n
  | .decimal, .decimal => true
  | .text s, .text t => s = t
  | .list items, .list others => sameItems items others
  | .table entries, .table others => sameEntries entries others
  | _, _ => false

/-- Whether two lists have the same items in the same order. -/
def sameItems : List Tree → List Tree → Bool
  | [], [] => true
  | item :: items, other :: others => same item other && sameItems items others
  | _, _ => false

/-- Whether two tables have the same entries in the same order. -/
def sameEntries : Entries → Entries → Bool
  | [], [] => true
  | (key, value) :: entries, (other, found) :: others =>
    key = other && same value found && sameEntries entries others
  | _, _ => false

end

-- The inductions are those of the tests: on the first tree, its items and its entries at once.
mutual

/-- The test decides whether two trees are equal. -/
theorem same_iff : ∀ s t : Tree, same s t = true ↔ s = t
  | .empty, t => by cases t <;> simp [same]
  | .flag _, t => by cases t <;> simp [same]
  | .integer _, t => by cases t <;> simp [same]
  | .decimal, t => by cases t <;> simp [same]
  | .text _, t => by cases t <;> simp [same]
  | .list items, t => by cases t <;> simp [same, sameItems_iff items]
  | .table entries, t => by cases t <;> simp [same, sameEntries_iff entries]

/-- So it does for lists of trees. -/
theorem sameItems_iff : ∀ items others : List Tree, sameItems items others = true ↔ items = others
  | [], others => by cases others <;> simp [sameItems]
  | item :: items, others => by cases others <;> simp [sameItems, same_iff item, sameItems_iff items]

/-- So it does for tables. -/
theorem sameEntries_iff : ∀ entries others : Entries, sameEntries entries others = true ↔ entries = others
  | [], others => by cases others <;> simp [sameEntries]
  | (key, value) :: entries, others => by
    cases others <;> simp [sameEntries, same_iff value, sameEntries_iff entries, Prod.ext_iff, and_assoc]

end

/-- Equality of trees is decided by the test. -/
instance : DecidableEq Tree := fun s t => decidable_of_iff _ (same_iff s t)

end Graft.Tree

namespace Graft.Viewer.Json

mutual

/-- Whether two values of JSON are the same. -/
def same : Json → Json → Bool
  | .scalar, .scalar => true
  | .string s, .string t => s = t
  | .array items, .array others => sameItems items others
  | .object members, .object others => sameMembers members others
  | _, _ => false

/-- Whether two arrays have the same items in the same order. -/
def sameItems : List Json → List Json → Bool
  | [], [] => true
  | item :: items, other :: others => same item other && sameItems items others
  | _, _ => false

/-- Whether two objects have the same members in the same order. -/
def sameMembers : List (Option Text × Json) → List (Option Text × Json) → Bool
  | [], [] => true
  | (key, value) :: members, (other, found) :: others =>
    key = other && same value found && sameMembers members others
  | _, _ => false

end

mutual

/-- The test decides whether two values are equal. -/
theorem same_iff : ∀ i j : Json, same i j = true ↔ i = j
  | .scalar, j => by cases j <;> simp [same]
  | .string _, j => by cases j <;> simp [same]
  | .array items, j => by cases j <;> simp [same, sameItems_iff items]
  | .object members, j => by cases j <;> simp [same, sameMembers_iff members]

/-- So it does for arrays. -/
theorem sameItems_iff : ∀ items others : List Json, sameItems items others = true ↔ items = others
  | [], others => by cases others <;> simp [sameItems]
  | item :: items, others => by cases others <;> simp [sameItems, same_iff item, sameItems_iff items]

/-- So it does for objects. -/
theorem sameMembers_iff : ∀ members others : List (Option Text × Json),
    sameMembers members others = true ↔ members = others
  | [], others => by cases others <;> simp [sameMembers]
  | (key, value) :: members, others => by
    cases others <;> simp [sameMembers, same_iff value, sameMembers_iff members, Prod.ext_iff, and_assoc]

end

/-- Equality of values is decided by the test. -/
instance : DecidableEq Json := fun i j => decidable_of_iff _ (same_iff i j)

end Graft.Viewer.Json
