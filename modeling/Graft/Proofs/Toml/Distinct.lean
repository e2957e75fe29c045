import Mathlib.Data.List.Basic
import Graft.Proofs.Toml.Document
import Graft.Proofs.Tree.Merging

/-!
# Tables of settings files have different keys

Whatever a settings file says and however it makes its tables, by headers, by dotted keys or inline, the
keys of each table that is read are different (`distinct_of_tree?`): a part is only ever set under a key
that is new, or in place of the part under this key (`trees_put`).
-/

namespace Graft.Toml

open Tree (Distinct)

variable {nodes nodes' : Nodes} {key name : String} {path : List String} {t : Tree} {text rest : Text}

/-! ## Parts of tables -/

/-- The keys of the tables that parts stand for are different. -/
def Sound (nodes : Nodes) : Prop := Distinct (.table (Node.trees nodes))

/-- Without nodes there are no keys that could be the same. -/
theorem sound_nil : Sound [] := .table List.nodup_nil (fun _ he => absurd he List.not_mem_nil)

/-- The tree of a node is found under the key of the node. -/
theorem lookup_trees (nodes : Nodes) (key : String) :
    (Node.trees nodes).lookup key = (nodes.lookup key).map Node.tree := by
  rw [trees_eq_map]
  induction nodes with
  | nil => rfl
  | cons e nodes ih =>
    obtain ⟨name, node⟩ := e
    rw [List.map_cons, Lookup.lookup_cons, Lookup.lookup_cons, ih]
    split <;> rfl

/-- Setting a part sets its value. -/
theorem trees_put (key : String) (node : Node) (nodes : Nodes) :
    Node.trees (Node.put key node nodes) = Tree.put key node.tree (Node.trees nodes) := by
  unfold Node.put Tree.put
  rw [lookup_trees, Option.isSome_map, trees_eq_map, trees_eq_map]
  split
  · rw [List.map_map, List.map_map]
    apply List.map_congr_left
    intro e _
    simp only [Function.comp_apply]
    split <;> rfl
  · rw [List.map_append]
    rfl

/-- A node with different keys in it goes in at its key. -/
theorem Sound.put {node : Node} (h : Sound nodes) (hnode : Distinct node.tree) (key : String) :
    Sound (Node.put key node nodes) := by
  unfold Sound
  rw [trees_put]
  exact Distinct.put h hnode key

/-- The nodes of a table that is found have different keys. -/
theorem Sound.of_lookup {making : Making} {inner : Nodes} (h : Sound nodes)
    (hlookup : nodes.lookup key = some (.table making inner)) : Sound inner := by
  have hfound : (Node.trees nodes).lookup key = some (.table (Node.trees inner)) := by
    rw [lookup_trees, hlookup, Option.map_some, Node.tree]
  exact Distinct.of_lookup h hfound

/-- A table of nodes with different keys has different keys. -/
theorem distinct_table {inner : Nodes} (making : Making) (h : Sound inner) :
    Distinct (Node.table making inner).tree := by
  rw [Node.tree]
  exact h

/-- A list of tables is no table, so it has no keys that could be the same. -/
theorem distinct_rows (tables : List Nodes) : Distinct (Node.rows tables).tree := by
  rw [Node.tree]
  exact .value rfl

/-- A change inside a table. -/
theorem Sound.within? {change : Nodes → Option Nodes}
    (hchange : ∀ nodes nodes', change nodes = some nodes' → Sound nodes → Sound nodes')
    (hfound : Node.within? change path nodes = some nodes') (h : Sound nodes) : Sound nodes' := by
  induction path generalizing nodes nodes' with
  | nil => exact hchange nodes nodes' hfound h
  | cons key path ih =>
    rw [Node.within?] at hfound
    split at hfound
    · obtain ⟨inner, hinner, rfl⟩ := Option.map_eq_some_iff.mp hfound
      exact h.put (distinct_table _ (ih hinner sound_nil)) key
    · next making inner hlookup =>
      obtain ⟨inner', hinner, rfl⟩ := Option.map_eq_some_iff.mp hfound
      exact h.put (distinct_table _ (ih hinner (h.of_lookup hlookup))) key
    · obtain ⟨tables, -, rfl⟩ := Option.map_eq_some_iff.mp hfound
      exact h.put (distinct_rows tables) key
    · cases hfound

/-- A header of a table. -/
theorem Sound.openTable? (hfound : Node.openTable? key nodes = some nodes') (h : Sound nodes) :
    Sound nodes' := by
  unfold Node.openTable? at hfound
  split at hfound
  · cases hfound
    exact h.put (distinct_table _ sound_nil) key
  · next inner hlookup =>
    cases hfound
    exact h.put (distinct_table _ (h.of_lookup hlookup)) key
  · cases hfound

/-- A header of one more table. -/
theorem Sound.openRow? (hfound : Node.openRow? key nodes = some nodes') (h : Sound nodes) :
    Sound nodes' := by
  unfold Node.openRow? at hfound
  split at hfound
  · cases hfound
    exact h.put (distinct_rows _) key
  · cases hfound
    exact h.put (distinct_rows _) key
  · cases hfound

/-- The value of a dotted key. -/
theorem Sound.assign? (ht : Distinct t) (hfound : Node.assign? name t path nodes = some nodes')
    (h : Sound nodes) : Sound nodes' := by
  -- On the way to the value each table is entered or made; a table of a header and the rows of an array may
  -- stand there already.
  induction path generalizing nodes nodes' with
  | nil =>
    rw [Node.assign?] at hfound
    split at hfound
    · cases hfound
      refine h.put ?_ name
      rw [Node.tree]
      exact ht
    · cases hfound
  | cons key path ih =>
    rw [Node.assign?] at hfound
    split at hfound
    · obtain ⟨inner, hinner, rfl⟩ := Option.map_eq_some_iff.mp hfound
      exact h.put (distinct_table _ (ih hinner sound_nil)) key
    · next making inner hlookup =>
      split at hfound
      · obtain ⟨inner', hinner, rfl⟩ := Option.map_eq_some_iff.mp hfound
        exact h.put (distinct_table _ (ih hinner (h.of_lookup hlookup))) key
      · cases hfound
    · split at hfound
      · cases hfound
      · obtain ⟨tables, -, rfl⟩ := Option.map_eq_some_iff.mp hfound
        exact h.put (distinct_rows tables) key
    · cases hfound

/-- A value that is assigned at a path leaves the keys different. -/
theorem Sound.assignPath? (ht : Distinct t) (hfound : Node.assignPath? path t nodes = some nodes')
    (h : Sound nodes) : Sound nodes' := by
  unfold Node.assignPath? at hfound
  split at hfound
  · exact h.assign? ht hfound
  · cases hfound

/-! ## Values -/

/-- A number is no table. -/
theorem isTable_integer? {n : Int} (h : Number.integer? n = some t) : t.isTable = false := by
  unfold Number.integer? at h
  split at h
  · cases h
    rfl
  · cases h

/-- A number is no table. -/
theorem isTable_number (h : Number.read? text = some (t, rest)) : t.isTable = false := by
  have hbase : ∀ base text, Number.ofBase? base text = some (t, rest) → t.isTable = false := by
    intro base text h
    simp only [Number.ofBase?, Option.bind_eq_bind, Option.bind_eq_some_iff, Option.pure_def,
      Option.some.injEq, Prod.mk.injEq] at h
    obtain ⟨_, -, _, hinteger, rfl, -⟩ := h
    exact isTable_integer? hinteger
  unfold Number.read? at h
  split at h
  · exact hbase _ _ h
  · exact hbase _ _ h
  · exact hbase _ _ h
  · unfold Number.decimal? at h
    simp only [Option.bind_eq_bind, Option.pure_def] at h
    split at h
    · cases h
      rfl
    · obtain ⟨_, -, h⟩ := Option.bind_eq_some_iff.mp h
      split at h
      · cases h
        rfl
      · cases h
        rfl
      · obtain ⟨_, hinteger, h⟩ := Option.bind_eq_some_iff.mp h
        cases h
        exact isTable_integer? hinteger

/-- A value that is no array and no inline table is no table either, or it is a moment. -/
theorem distinct_scalar? (h : scalar? text = some (t, rest)) : Distinct t := by
  unfold scalar? at h
  split at h
  · cases h
    exact .value rfl
  · simp only [Option.orElse_eq_orElse, Option.orElse_eq_or, Option.or_eq_some_iff] at h
    rcases h with hflag | ⟨-, hmoment | ⟨-, hnumber⟩⟩
    · unfold flag? at hflag
      split at hflag
      · cases hflag
        exact .value rfl
      · obtain ⟨_, -, heq⟩ := Option.map_eq_some_iff.mp hflag
        cases heq
        exact .value rfl
    -- The one scalar that is read as a table is a moment, and its table has one key.
    · have htree : t = Moment.tree := by
        unfold Moment.read? at hmoment
        split at hmoment
        · cases hmoment
          rfl
        · obtain ⟨_, -, heq⟩ := Option.map_eq_some_iff.mp hmoment
          cases heq
          rfl
      subst htree
      exact .table (by decide) fun e he => by
        rw [List.mem_singleton.mp he]
        exact .value rfl
    · exact .value (isTable_number hnumber)

/-- Values are read with different keys, and so are the entries of inline tables. -/
theorem distinct_valueWithin? (fuel : Nat) :
    (∀ text t rest, valueWithin? fuel text = some (t, rest) → Distinct t) ∧
      ∀ nodes nodes' text rest, pairs? fuel nodes text = some (nodes', rest) → Sound nodes →
        Sound nodes' := by
  -- A value may be an inline table, whose entries have values: both go by the fuel that they share.
  induction fuel with
  | zero =>
    constructor
    · intro text t rest h
      rw [valueWithin?] at h
      cases h
    · intro nodes nodes' text rest h
      rw [pairs?] at h
      cases h
  | succ fuel ih =>
    obtain ⟨hvalue, hpairs⟩ := ih
    constructor
    · intro text t rest h
      rw [valueWithin?.eq_def] at h
      split at h
      · next heq => cases heq
      · split at h
        · cases h
          exact .value rfl
        · obtain ⟨_, -, heq⟩ := Option.map_eq_some_iff.mp h
          cases heq
          exact .value rfl
      · split at h
        · cases h
          exact sound_nil
        · next heq _ _ =>
          cases heq
          obtain ⟨found, hfound, heq⟩ := Option.map_eq_some_iff.mp h
          cases heq
          exact hpairs _ _ _ _ hfound sound_nil
      · exact distinct_scalar? h
    · intro nodes nodes' text rest h hsound
      rw [pairs?] at h
      simp only [Option.bind_eq_bind, Option.bind_eq_some_iff, Option.pure_def] at h
      obtain ⟨_, -, _, -, found, hfound, assigned, hassigned, h⟩ := h
      have hassign : Sound assigned := hsound.assignPath? (hvalue _ _ _ hfound) hassigned
      split at h
      · cases h
        exact hassign
      · exact hpairs _ _ _ _ h hassign
      · cases h

/-! ## Whole files -/

/-- The value of an assignment has different keys. -/
def Expression.Sound : Expression → Prop
  | .assignment _ value => Distinct value
  | .table _ => True
  | .row _ => True

/-- What one line says has different keys. -/
theorem sound_expression? {line : Text} {found : Expression}
    (h : expression? line = some (some found, rest)) : found.Sound := by
  unfold expression? at h
  split at h
  · cases h
  · simp only [Option.bind_eq_bind, Option.bind_eq_some_iff, Option.pure_def] at h
    obtain ⟨_, -, _, -, heq⟩ := h
    cases heq
    trivial
  · simp only [Option.bind_eq_bind, Option.bind_eq_some_iff, Option.pure_def] at h
    obtain ⟨_, -, _, -, heq⟩ := h
    cases heq
    trivial
  · split at h
    · cases h
    · simp only [Option.bind_eq_bind, Option.bind_eq_some_iff, Option.pure_def] at h
      obtain ⟨_, -, _, -, value, hvalue, heq⟩ := h
      cases heq
      exact (distinct_valueWithin? _).1 _ _ _ hvalue

/-- What the lines of a document say has different keys. -/
theorem sound_expressionsWithin? {fuel : Nat} {found : List Expression}
    (h : expressionsWithin? fuel text = some found) : ∀ e ∈ found, e.Sound := by
  induction fuel generalizing text found with
  | zero =>
    cases text with
    | nil =>
      cases h
      exact fun e he => absurd he List.not_mem_nil
    | cons c rest => cases h
  | succ fuel ih =>
    cases text with
    | nil =>
      cases h
      exact fun e he => absurd he List.not_mem_nil
    | cons c rest =>
      simp only [expressionsWithin?, Option.bind_eq_bind, Option.bind_eq_some_iff, Option.pure_def,
        Option.some.injEq] at h
      obtain ⟨⟨first, rest⟩, hfirst, _, -, more, hmore, rfl⟩ := h
      intro e he
      rcases List.mem_append.mp he with he | he
      · obtain rfl : first = some e := Option.mem_toList.mp he
        exact sound_expression? hfirst
      · exact ih hmore e he

/-- One more expression. -/
theorem Sound.add? {r r' : Reading} {e : Expression} (he : e.Sound) (hadd : r.add? e = some r')
    (h : Sound r.nodes) : Sound r'.nodes := by
  cases e with
  | assignment path value =>
    obtain ⟨nodes, hnodes, rfl⟩ := Option.map_eq_some_iff.mp hadd
    exact h.within? (fun _ _ hfound hsound => hsound.assignPath? he hfound) hnodes
  | table path =>
    simp only [Reading.add?, Reading.opened?, Option.bind_eq_bind, Option.bind_eq_some_iff,
      Option.pure_def, Option.some.injEq] at hadd
    obtain ⟨key, -, nodes, hnodes, rfl⟩ := hadd
    exact h.within? (fun _ _ hfound hsound => hsound.openTable? hfound) hnodes
  | row path =>
    simp only [Reading.add?, Reading.opened?, Option.bind_eq_bind, Option.bind_eq_some_iff,
      Option.pure_def, Option.some.injEq] at hadd
    obtain ⟨key, -, nodes, hnodes, rfl⟩ := hadd
    exact h.within? (fun _ _ hfound hsound => hsound.openRow? hfound) hnodes

/-- What expressions with different keys add keeps the keys different. -/
theorem sound_foldlM {found : List Expression} {r r' : Reading} (h : ∀ e ∈ found, e.Sound)
    (hr : found.foldlM Reading.add? r = some r') (hsound : Sound r.nodes) : Sound r'.nodes := by
  induction found generalizing r with
  | nil =>
    cases hr
    exact hsound
  | cons e found ih =>
    obtain ⟨next, hnext, hr⟩ := Option.bind_eq_some_iff.mp hr
    exact ih (fun e' he' => h e' (List.mem_cons_of_mem e he')) hr
      (hsound.add? (h e List.mem_cons_self) hnext)

/-- The tables of a settings file have different keys. -/
theorem distinct_of_tree? (h : tree? text = some t) : Distinct t := by
  simp only [tree?, Option.bind_eq_bind, Option.bind_eq_some_iff, Option.pure_def,
    Option.some.injEq] at h
  obtain ⟨found, hfound, r, hr, rfl⟩ := h
  exact sound_foldlM (sound_expressionsWithin? hfound) hr sound_nil

end Graft.Toml
