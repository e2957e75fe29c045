import Mathlib.Data.List.Basic
import Mathlib.Data.List.Induction
import Graft.Declaration

/-!
# The latest declaration of each name

The declarations of a file by name are built by inserting one after the other. Said without that, they
are the names in the order in which they first occur, each with the last declaration of that name
(`byName_eq_latest`).
-/

namespace Graft.Declaration

/-- The last declaration of a name. -/
def last? (ds : List Declaration) (name : String) : Option Declaration :=
  ds.reverse.find? fun d => d.name = name

/-- Each name at the place where it first occurs, with the last declaration of that name. -/
def latest (ds : List Declaration) : List Declaration :=
  (ds.map name).eraseDups.filterMap (last? ds)

variable {d : Declaration} {ds : List Declaration} {n : String}

/-- One more name is new at the end, or has occurred before. -/
theorem eraseDups_concat (names : List String) (n : String) :
    (names ++ [n]).eraseDups = if n ∈ names then names.eraseDups else names.eraseDups ++ [n] := by
  rw [List.eraseDups_append]
  by_cases h : n ∈ names
  · simp [List.removeAll, h]
  · simp [List.removeAll, h, List.eraseDups_cons]

/-- One declaration more is the last one of its name. -/
theorem last?_concat (ds : List Declaration) (d : Declaration) (n : String) :
    last? (ds ++ [d]) n = if d.name = n then some d else last? ds n := by
  unfold last?
  rw [List.reverse_append, List.reverse_singleton, List.singleton_append, List.find?_cons]
  by_cases h : d.name = n
  · simp [h]
  · simp [h]

/-- A name that occurs has a last declaration, which has that name. -/
theorem exists_last? (h : n ∈ ds.map name) : ∃ e, last? ds n = some e ∧ e.name = n := by
  obtain ⟨d, hd, hname⟩ := List.mem_map.mp h
  have hsome : (last? ds n).isSome = true := by
    rw [last?, List.find?_isSome]
    exact ⟨d, List.mem_reverse.mpr hd, by simp [hname]⟩
  obtain ⟨e, he⟩ := Option.isSome_iff_exists.mp hsome
  exact ⟨e, he, by simpa using List.find?_some he⟩

/-- All names are kept. -/
theorem mem_map_name_latest : n ∈ (latest ds).map name ↔ n ∈ ds.map name := by
  constructor
  · intro h
    obtain ⟨e, he, rfl⟩ := List.mem_map.mp h
    obtain ⟨n, hn, hlast⟩ := List.mem_filterMap.mp he
    have hmem := List.mem_eraseDups.mp hn
    obtain ⟨e', he', rfl⟩ := exists_last? hmem
    obtain rfl : e = e' := Option.some.inj (hlast.symm.trans he')
    exact hmem
  · intro h
    obtain ⟨e, he, hname⟩ := exists_last? h
    exact List.mem_map.mpr ⟨e, List.mem_filterMap.mpr ⟨n, List.mem_eraseDups.mpr h, he⟩, hname⟩

/-- One more declaration takes the place of those of its name, or goes to the end. -/
theorem insert_latest (ds : List Declaration) (d : Declaration) :
    insert d (latest ds) = latest (ds ++ [d]) := by
  have hany : ((latest ds).any fun e => e.name = d.name) = true ↔ d.name ∈ ds.map name := by
    rw [← mem_map_name_latest]
    simp
  have hkeys : ((ds ++ [d]).map name).eraseDups =
      if d.name ∈ ds.map name then (ds.map name).eraseDups else (ds.map name).eraseDups ++ [d.name] := by
    rw [List.map_append]
    exact eraseDups_concat _ _
  unfold insert
  -- A known name keeps its place, and only the entry under it changes; a new name goes behind the others,
  -- whose last declarations stay.
  by_cases hmem : d.name ∈ ds.map name
  · rw [if_pos (hany.mpr hmem)]
    unfold latest
    rw [hkeys, if_pos hmem, List.map_filterMap]
    apply List.filterMap_congr
    intro n hn
    obtain ⟨e, he, hname⟩ := exists_last? (List.mem_eraseDups.mp hn)
    rw [last?_concat, he, Option.map_some, hname]
    by_cases h : d.name = n
    · rw [if_pos h.symm, if_pos h]
    · rw [if_neg (Ne.symm h), if_neg h]
  · rw [if_neg fun h => hmem (hany.mp h)]
    have hold : ∀ n ∈ (ds.map name).eraseDups, last? (ds ++ [d]) n = last? ds n := by
      intro n hn
      rw [last?_concat, if_neg]
      rintro rfl
      exact hmem (List.mem_eraseDups.mp hn)
    unfold latest
    rw [hkeys, if_neg hmem, List.filterMap_append, List.filterMap_congr hold]
    simp [last?_concat]

/-- The declarations of a file by name are the latest of each name. -/
theorem byName_eq_latest (ds : List Declaration) : byName ds = latest ds := by
  -- The last declaration is the last one to be inserted.
  induction ds using List.reverseRecOn with
  | nil => rfl
  | append_singleton ds d ih =>
    rw [← insert_latest, ← ih]
    unfold byName
    rw [List.foldl_append]
    rfl

end Graft.Declaration
