import Mathlib.Data.List.Basic

/-!
# Looking up keys

Lists of keys with values are changed in one way throughout: the value of a key is set in its place if
the key is there, else at the end. `lookup_set` says what is found afterwards.
-/

namespace Graft.Lookup

variable {α β : Type}

/-- Replacing the value of a key that is not there changes nothing. -/
theorem replaced_of_not_mem [DecidableEq α] {key : α} {entries : List (α × β)}
    (h : key ∉ entries.map Prod.fst) (value : β) :
    (entries.map fun e => if e.1 = key then (key, value) else e) = entries := by
  conv_rhs => rw [← List.map_id entries]
  apply List.map_congr_left
  intro e he
  have hne : e.1 ≠ key := by
    rintro rfl
    exact h (List.mem_map_of_mem he)
  exact if_neg hne

variable [BEq α]

/-- The first entry answers for its key, and the others for all other keys. -/
theorem lookup_cons [LawfulBEq α] [DecidableEq α] (key other : α) (value : β)
    (entries : List (α × β)) :
    ((key, value) :: entries).lookup other =
      if other = key then some value else entries.lookup other := by
  rw [List.lookup_cons]
  by_cases h : other = key
  · simp [h]
  · simp [h, beq_false_of_ne h]

/-- An entry whose value is replaced keeps its place; all others are found as before. -/
theorem lookup_replaced [LawfulBEq α] [DecidableEq α] (key other : α) (value : β)
    (entries : List (α × β)) :
    (entries.map fun e => if e.1 = key then (key, value) else e).lookup other =
      if other = key then (entries.lookup key).map fun _ => value else entries.lookup other := by
  induction entries with
  | nil => exact (ite_self _).symm
  | cons e entries ih =>
    obtain ⟨first, old⟩ := e
    rw [List.map_cons]
    by_cases hkey : first = key
    · subst hkey
      rw [if_pos rfl, lookup_cons, lookup_cons, lookup_cons, if_pos rfl, ih]
      split <;> rfl
    · rw [if_neg hkey, lookup_cons, lookup_cons, lookup_cons, if_neg (Ne.symm hkey), ih]
      split
      · next hother => rw [if_neg (hother ▸ hkey)]
      · rfl

/-- What is found after the value of a key was set. -/
theorem lookup_set [LawfulBEq α] [DecidableEq α] (key other : α) (value : β)
    (entries : List (α × β)) :
    (if (entries.lookup key).isSome then entries.map fun e => if e.1 = key then (key, value) else e
      else entries ++ [(key, value)]).lookup other =
      if other = key then some value else entries.lookup other := by
  split
  · next hsome =>
    obtain ⟨old, hold⟩ := Option.isSome_iff_exists.mp hsome
    rw [lookup_replaced, hold]
    rfl
  · next hnone =>
    rw [Option.not_isSome_iff_eq_none] at hnone
    rw [List.lookup_append, lookup_cons, List.lookup_nil]
    split
    · next hother =>
      rw [hother, hnone]
      rfl
    · rw [Option.or_none]

/-- The keys after the value of a key was set. -/
theorem keys_set [DecidableEq α] (key : α) (value : β) (entries : List (α × β)) :
    (if (entries.lookup key).isSome then entries.map fun e => if e.1 = key then (key, value) else e
      else entries ++ [(key, value)]).map Prod.fst =
      if (entries.lookup key).isSome then entries.map Prod.fst else entries.map Prod.fst ++ [key] := by
  split
  · rw [List.map_map]
    apply List.map_congr_left
    intro e _
    simp only [Function.comp_apply]
    split
    · next he => exact he.symm
    · rfl
  · simp

/-- A key is not found exactly if it is not there. -/
theorem lookup_eq_none_iff [LawfulBEq α] {key : α} {entries : List (α × β)} :
    entries.lookup key = none ↔ key ∉ entries.map Prod.fst := by
  rw [List.lookup_eq_none_iff]
  constructor
  · intro h hmem
    obtain ⟨e, he, rfl⟩ := List.mem_map.mp hmem
    simpa using h e he
  · intro h e he
    have hne : key ≠ e.1 := by
      rintro rfl
      exact h (List.mem_map_of_mem he)
    simpa using hne

/-- What is found is there. -/
theorem mem_of_lookup [LawfulBEq α] {key : α} {value : β} {entries : List (α × β)}
    (h : entries.lookup key = some value) : (key, value) ∈ entries := by
  obtain ⟨before, behind, rfl, -⟩ := List.lookup_eq_some_iff.mp h
  exact List.mem_append_right before List.mem_cons_self

/-- If the keys are different, what is there is found. -/
theorem lookup_of_mem [LawfulBEq α] [DecidableEq α] {key : α} {value : β} {entries : List (α × β)}
    (hkeys : (entries.map Prod.fst).Nodup) (h : (key, value) ∈ entries) :
    entries.lookup key = some value := by
  induction entries with
  | nil => cases h
  | cons e entries ih =>
    obtain ⟨first, old⟩ := e
    obtain ⟨hfirst, hothers⟩ := List.nodup_cons.mp hkeys
    rw [lookup_cons]
    rcases List.mem_cons.mp h with heq | hmem
    · cases heq
      exact if_pos rfl
    · have hne : key ≠ first := by
        rintro rfl
        exact hfirst (List.mem_map.mpr ⟨_, hmem, rfl⟩)
      rw [if_neg hne, ih hothers hmem]

end Graft.Lookup
