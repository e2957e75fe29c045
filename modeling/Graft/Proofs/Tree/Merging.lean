import Mathlib.Data.List.Basic
import Graft.Proofs.Lookup
import Graft.Tree

/-!
# What is found in trees that are laid over each other

A value is found under a path of keys (`find?`). In a tree laid over another one the upper value is found
if there is one, else the lower one, as long as no value stands where the other tree has a table on the
way (`find?_cover`); and whatever is found comes from one of them or is made of tables of both
(`find?_cover_cases`). Both need that the keys of each table are different (`Distinct`).
-/

namespace Graft.Tree

variable {t upper lower found : Tree} {entries uppers lowers : Entries} {key name : String}
  {path other : List String}

/-! ## Tables with different keys -/

/-- Whether a tree is a table. -/
def isTable : Tree → Bool
  | .table _ => true
  | _ => false

/-- A table has entries. -/
theorem exists_table (h : t.isTable = true) : ∃ entries, t = .table entries := by
  cases t with
  | table entries => exact ⟨entries, rfl⟩
  | _ => cases h

/-- The keys of a table and of the tables in it are different. -/
inductive Distinct : Tree → Prop
  | value {t : Tree} (h : t.isTable = false) : Distinct t
  | table {entries : Entries} (keys : (entries.map Prod.fst).Nodup)
      (values : ∀ e ∈ entries, Distinct e.2) : Distinct (.table entries)

/-- The keys of a table are different. -/
theorem Distinct.keys (h : Distinct (.table entries)) : (entries.map Prod.fst).Nodup := by
  cases h with
  | value h => cases h
  | table keys values => exact keys

/-- The keys below each entry of a table are different. -/
theorem Distinct.values (h : Distinct (.table entries)) : ∀ e ∈ entries, Distinct e.2 := by
  cases h with
  | value h => cases h
  | table keys values => exact values

/-- The keys below an entry that is found are different. -/
theorem Distinct.of_lookup (h : Distinct (.table entries)) (hlookup : entries.lookup key = some t) :
    Distinct t :=
  h.values _ (Lookup.mem_of_lookup hlookup)

/-- Setting a value keeps the keys different. -/
theorem Distinct.put (h : Distinct (.table entries)) (ht : Distinct t) (key : String) :
    Distinct (.table (put key t entries)) := by
  refine .table ?_ ?_
  · unfold Tree.put
    -- The key is there, and its value is replaced, or it goes to the end.
    rw [Lookup.keys_set]
    split
    · exact h.keys
    · next hnone =>
      rw [Option.not_isSome_iff_eq_none, Lookup.lookup_eq_none_iff] at hnone
      have hnew : [key].Nodup := List.nodup_cons.mpr ⟨List.not_mem_nil, List.nodup_nil⟩
      exact List.nodup_append.mpr ⟨h.keys, hnew, fun _ hname _ hkey heq =>
        hnone (List.mem_singleton.mp hkey ▸ heq ▸ hname)⟩
  · intro e he
    unfold Tree.put at he
    split at he
    · obtain ⟨old, hold, rfl⟩ := List.mem_map.mp he
      split
      · exact ht
      · exact h.values old hold
    · rcases List.mem_append.mp he with he | he
      · exact h.values e he
      · rw [List.mem_singleton.mp he]
        exact ht

/-! ## Laying a tree over another one -/

/-- After an entry is put under a key, it is found there, and any other key finds what it found before. -/
theorem lookup_put (key name : String) (t : Tree) (entries : Entries) :
    (put key t entries).lookup name = if name = key then some t else entries.lookup name :=
  Lookup.lookup_set key name t entries

/-- A value that is laid over one that may be missing. -/
def coverOr (upper : Tree) : Option Tree → Tree
  | some lower => cover upper lower
  | none => upper

/-- The first entry of the upper table is laid over what the lower one has under its key, and then come the
others. -/
theorem coverEntries_cons (key : String) (t : Tree) (uppers lowers : Entries) :
    coverEntries ((key, t) :: uppers) lowers =
      coverEntries uppers (put key (coverOr t (lowers.lookup key)) lowers) := by
  rw [coverEntries]
  cases lowers.lookup key <;> rfl

/-- A table over a table is a table with the entries of both. -/
theorem cover_tables (uppers lowers : Entries) :
    cover (.table uppers) (.table lowers) = .table (coverEntries uppers lowers) := by
  rw [cover]

/-- Where one of two trees is no table, the upper one is what counts. -/
theorem cover_value (h : upper.isTable = false ∨ lower.isTable = false) : cover upper lower = upper := by
  cases upper <;> cases lower <;> simp_all [cover, isTable]

/-- Two trees are both tables, or the upper one is what counts. -/
theorem cover_cases (upper lower : Tree) : cover upper lower = upper ∨
    ∃ uppers lowers, upper = .table uppers ∧ lower = .table lowers := by
  cases hupper : upper.isTable with
  | false => exact .inl (cover_value (.inl hupper))
  | true =>
    cases hlower : lower.isTable with
    | false => exact .inl (cover_value (.inr hlower))
    | true =>
      obtain ⟨uppers, rfl⟩ := exists_table hupper
      obtain ⟨lowers, rfl⟩ := exists_table hlower
      exact .inr ⟨uppers, lowers, rfl, rfl⟩

/-- A key of a table that is laid over another one. -/
theorem lookup_coverEntries (h : (uppers.map Prod.fst).Nodup) (name : String) :
    (coverEntries uppers lowers).lookup name =
      match uppers.lookup name with
      | some upper => some (coverOr upper (lowers.lookup name))
      | none => lowers.lookup name := by
  induction uppers generalizing lowers with
  | nil => rw [coverEntries]; rfl
  | cons e uppers ih =>
    obtain ⟨key, t⟩ := e
    obtain ⟨hkey, hothers⟩ := List.nodup_cons.mp h
    rw [coverEntries_cons, ih hothers, lookup_put, Lookup.lookup_cons]
    by_cases hname : name = key
    · subst hname
      rw [if_pos rfl, if_pos rfl, Lookup.lookup_eq_none_iff.mpr hkey]
    · rw [if_neg hname, if_neg hname]

/-- Laying over keeps the keys different. -/
theorem Distinct.cover (hupper : Distinct upper) (hlower : Distinct lower) :
    Distinct (cover upper lower) := by
  induction hupper generalizing lower with
  | value h =>
    rw [cover_value (.inl h)]
    exact .value h
  | @table uppers keys values ih =>
    cases hlower with
    | value h =>
      rw [cover_value (.inr h)]
      exact .table keys values
    | @table lowers keys' values' =>
      rw [cover_tables]
      have hlowers : Distinct (.table lowers) := .table keys' values'
      -- The upper entries are set one by one, so what is below them changes with each; that the upper
      -- keys are different does not matter here.
      clear keys' values' keys
      induction uppers generalizing lowers with
      | nil =>
        rw [coverEntries]
        exact hlowers
      | cons e uppers ihlist =>
        obtain ⟨key, t⟩ := e
        rw [coverEntries_cons]
        have ht : Distinct t := values _ List.mem_cons_self
        have hvalue : Distinct (coverOr t (lowers.lookup key)) := by
          cases hlookup : lowers.lookup key with
          | none => exact ht
          | some below => exact ih _ List.mem_cons_self (hlowers.of_lookup hlookup)
        exact ihlist (fun e he => values e (List.mem_cons_of_mem _ he))
          (fun e he => ih e (List.mem_cons_of_mem _ he)) (hlowers.put hvalue key)

/-! ## Finding values -/

/-- The value under a path of keys. -/
def find? : (path : List String) → Tree → Option Tree
  | [], t => some t
  | key :: path, .table entries => (entries.lookup key).bind (find? path)
  | _ :: _, _ => none

/-- Nothing is found below a value. -/
theorem find?_value (h : t.isTable = false) (hpath : path ≠ []) : find? path t = none := by
  cases path with
  | nil => exact absurd rfl hpath
  | cons key path => cases t <;> first | rfl | cases h

/-- Under a key of two tables that are laid over each other, what both have is laid over each other, and
what one of them has is as it is. -/
theorem find?_cover_tables (hkeys : (uppers.map Prod.fst).Nodup) (key : String) (path : List String) :
    find? (key :: path) (cover (.table uppers) (.table lowers)) =
      match uppers.lookup key, lowers.lookup key with
      | some upper, some lower => find? path (cover upper lower)
      | some upper, none => find? path upper
      | none, lower => lower.bind (find? path) := by
  rw [cover_tables, find?, lookup_coverEntries hkeys]
  cases uppers.lookup key with
  | none => rfl
  | some upper => cases lowers.lookup key <;> rfl

/-- What is found in a tree laid over another one comes from one of them, or is made of tables of both. -/
theorem find?_cover_cases (hdistinct : Distinct upper) (h : find? path (cover upper lower) = some found) :
    find? path upper = some found ∨ find? path lower = some found ∨
      (∃ entries, find? path upper = some (.table entries)) ∧ found.isTable = true := by
  -- The induction is on the path. Only two tables are merged, and there the key is in one of them or in both.
  induction path generalizing upper lower with
  | nil =>
    rcases cover_cases upper lower with hsame | ⟨uppers, lowers, rfl, rfl⟩
    · rw [hsame] at h
      exact .inl h
    · rw [cover_tables] at h
      cases h
      exact .inr (.inr ⟨⟨uppers, rfl⟩, rfl⟩)
  | cons key path ih =>
    rcases cover_cases upper lower with hsame | ⟨uppers, lowers, rfl, rfl⟩
    · rw [hsame] at h
      exact .inl h
    · rw [find?_cover_tables hdistinct.keys] at h
      rw [find?, find?]
      cases hupper : uppers.lookup key with
      | none =>
        rw [hupper] at h
        exact .inr (.inl h)
      | some u =>
        cases hlower : lowers.lookup key with
        | none =>
          rw [hupper, hlower] at h
          exact .inl h
        | some l =>
          rw [hupper, hlower] at h
          exact ih (hdistinct.of_lookup hupper) h

/-- A tree has nothing but tables on the way to a path. -/
def Open (path : List String) (t : Tree) : Prop :=
  ∀ way, way <+: path → way ≠ path → ∀ found, find? way t = some found → found.isTable = true

/-- What is open at a path is a table. -/
theorem Open.isTable (h : Open (key :: path) t) : t.isTable = true :=
  h [] (List.nil_prefix) (List.cons_ne_nil key path).symm t rfl

/-- An entry on the way is open at the rest of the path. -/
theorem Open.of_lookup (h : Open (key :: path) (.table entries)) (hlookup : entries.lookup key = some t) :
    Open path t := by
  intro way hway hne found hfound
  apply h (key :: way) (List.cons_prefix_cons.mpr ⟨rfl, hway⟩) fun heq => hne (List.cons.inj heq).2
  rw [find?, hlookup]
  exact hfound

/-- On a path to which both trees are open, the upper value is found if there is one, else the lower one,
unless both are tables. -/
theorem find?_cover (hdistinct : Distinct upper) (hupper : Open path upper) (hlower : Open path lower)
    (hend : ∀ found, find? path upper = some found → found.isTable = false) :
    find? path (cover upper lower) = (find? path upper).or (find? path lower) := by
  induction path generalizing upper lower with
  | nil =>
    rw [cover_value (.inl (hend upper rfl))]
    rfl
  | cons key path ih =>
    -- Both trees are open, so both are tables here: a value could hide the table of the other.
    obtain ⟨uppers, rfl⟩ := exists_table hupper.isTable
    obtain ⟨lowers, rfl⟩ := exists_table hlower.isTable
    rw [find?_cover_tables hdistinct.keys, find?, find?]
    cases hu : uppers.lookup key with
    | none => rfl
    | some u =>
      cases hl : lowers.lookup key with
      | none => exact (Option.or_none).symm
      | some l =>
        refine ih (hdistinct.of_lookup hu) (hupper.of_lookup hu) (hlower.of_lookup hl) fun found hfound => ?_
        apply hend found
        rw [find?, hu]
        exact hfound

/-! ## Values under a path -/

/-- A tree under a path has different keys if it has. -/
theorem distinct_nest (path : List String) (h : Distinct t) : Distinct (nest path t) := by
  induction path with
  | nil => exact h
  | cons key path ih =>
    refine .table (by simp) fun e he => ?_
    rw [List.mem_singleton.mp he]
    exact ih

/-- A tree under a path is found there. -/
theorem find?_nest (path : List String) (t : Tree) : find? path (nest path t) = some t := by
  induction path with
  | nil => rfl
  | cons key path ih =>
    show ([(key, nest path t)].lookup key).bind (find? path) = some t
    rw [Lookup.lookup_cons, if_pos rfl]
    exact ih

/-- What is found beside the value under a path: the tables on the way to it. -/
theorem find?_nest_cases (h : find? other (nest path t) = some found) (ht : t.isTable = false) :
    other = path ∧ found = t ∨ other <+: path ∧ other ≠ path ∧ found.isTable = true := by
  -- The induction is on the path to the value; the other path leaves it, ends on it, or goes all the way.
  induction path generalizing other with
  | nil =>
    cases other with
    | nil =>
      cases h
      exact .inl ⟨rfl, rfl⟩
    | cons name other =>
      have hnone := find?_value ht (List.cons_ne_nil name other)
      rw [show nest [] t = t from rfl, hnone] at h
      cases h
  | cons key path ih =>
    cases other with
    | nil =>
      cases h
      exact .inr ⟨List.nil_prefix, (List.cons_ne_nil key path).symm, rfl⟩
    | cons name other =>
      have hlookup : find? (name :: other) (nest (key :: path) t) =
          if name = key then find? other (nest path t) else none := by
        show ([(key, nest path t)].lookup name).bind (find? other) = _
        rw [Lookup.lookup_cons]
        split <;> rfl
      rw [hlookup] at h
      split at h
      · next hname =>
        subst hname
        rcases ih h with ⟨rfl, hfound⟩ | ⟨habove, hne, hfound⟩
        · exact .inl ⟨rfl, hfound⟩
        · exact .inr ⟨List.cons_prefix_cons.mpr ⟨rfl, habove⟩, fun heq => hne (List.cons.inj heq).2,
            hfound⟩
      · cases h

end Graft.Tree
