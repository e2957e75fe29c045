import Mathlib.Data.List.Basic
import Graft.Proofs.Lookup
import Graft.Proofs.Toml.Values
import Graft.Toml.Document

/-!
# Settings files are read as they were written

Each line that is written is read as one expression (`Reads`), whatever lines follow. The expressions
then put the tables together again: reading a file that was written gives its table, with the plain
entries before the tables as in the file (`tree?_write?`). Keys have to be different and are written
without quotation marks (`Bare`).
-/

namespace Graft.Toml

variable {c d : Char} {key : String} {t : Tree} {e text rest : Text} {fuel : Nat}
  {entries : Tree.Entries}

/-! ## Keys and lines -/

/-- A key that needs no quotation marks. -/
def Bare (key : String) : Prop := key.toList ≠ [] ∧ ∀ c ∈ key.toList, isKeyChar c = true

/-- Whether a key can be written without marks is decided character by character. -/
instance (key : String) : Decidable (Bare key) :=
  decidable_of_iff (key.toList ≠ [] ∧ key.toList.all isKeyChar = true) (by rw [List.all_eq_true]; rfl)

/-- A character of a key is none that no key has. -/
theorem ne_of_isKeyChar (hc : isKeyChar c = true) (hd : isKeyChar d = false) : c ≠ d := by
  rintro rfl
  rw [hc] at hd
  cases hd

/-- A character of a key is no blank. -/
theorem not_isBlank_of_isKeyChar (hc : isKeyChar c = true) : Alphabet.isBlank c = false := by
  have hspace := ne_of_isKeyChar hc (by decide : isKeyChar ' ' = false)
  have htab := ne_of_isKeyChar hc (by decide : isKeyChar '\t' = false)
  simp [Alphabet.isBlank, hspace, htab]

/-- A key without marks starts with a character of a key. -/
theorem Bare.exists_cons (h : Bare key) : ∃ c tail, key.toList = c :: tail ∧ isKeyChar c = true := by
  obtain ⟨c, tail, htail⟩ := List.exists_cons_of_ne_nil h.1
  exact ⟨c, tail, htail, h.2 c (htail ▸ List.mem_cons_self)⟩

/-- No blanks are skipped where there are none. -/
theorem skipBlanks_cons (hc : Alphabet.isBlank c = false) (rest : Text) :
    skipBlanks (c :: rest) = c :: rest :=
  List.dropWhile_cons_of_neg (by simp [hc])

/-- No blanks are skipped in front of a key. -/
theorem skipBlanks_bare (h : Bare key) (rest : Text) :
    skipBlanks (key.toList ++ rest) = key.toList ++ rest := by
  obtain ⟨c, tail, htail, hc⟩ := h.exists_cons
  rw [htail]
  exact skipBlanks_cons (not_isBlank_of_isKeyChar hc) _

/-- A key is read up to the first character that no key has. -/
theorem key?_bare (h : Bare key) (hd : isKeyChar d = false) (rest : Text) :
    key? (key.toList ++ d :: rest) = some (key, d :: rest) := by
  have hneg : ¬isKeyChar d = true := by simp [hd]
  have htake : (key.toList ++ d :: rest).takeWhile isKeyChar = key.toList := by
    rw [List.takeWhile_append_of_pos h.2, List.takeWhile_cons_of_neg hneg, List.append_nil]
  have hdrop : (key.toList ++ d :: rest).dropWhile isKeyChar = d :: rest := by
    rw [List.dropWhile_append_of_pos h.2, List.dropWhile_cons_of_neg hneg]
  obtain ⟨c, tail, htail, hc⟩ := h.exists_cons
  unfold key?
  -- The first character is one of a key, and so it opens no quoted key.
  split
  · next heq =>
    rw [htail] at heq
    exact absurd (List.cons.inj heq).1 (ne_of_isKeyChar hc (by decide))
  · next heq =>
    rw [htail] at heq
    exact absurd (List.cons.inj heq).1 (ne_of_isKeyChar hc (by decide))
  · rw [htake, hdrop]
    split
    · next hnil => exact absurd hnil h.1
    · simp only [String.ofList_toList]

/-- A single key is a path of its own, unless a dot follows it. -/
theorem path?_bare (h : Bare key) (hd : isKeyChar d = false)
    (hdot : ∀ tail, skipBlanks (d :: rest) ≠ '.' :: tail) :
    path? (key.toList ++ d :: rest) = some ([key], skipBlanks (d :: rest)) := by
  unfold path?
  rw [pathWithin?, skipBlanks_bare h, key?_bare h hd]
  simp only [Option.bind_eq_bind, Option.bind_some]
  rfl

/-- A value does not start with a blank. -/
theorem skipBlanks_plain (h : plain? t = some e) (rest : Text) :
    skipBlanks (e ++ rest) = e ++ rest := by
  unfold plain? at h
  split at h
  · obtain ⟨spelled, -, rfl⟩ := Option.map_eq_some_iff.mp h
    match spelled with
    | [] => rfl
    | [item] => rfl
    | item :: next :: spelled => rfl
  · obtain ⟨c, tail, rfl, hc⟩ := spell?_cases h
    exact skipBlanks_cons hc.blank _

/-- Only a line that starts like a key is an assignment. -/
theorem expression?_bare (hkey : Bare key) (rest : Text) :
    expression? (key.toList ++ rest) = (do
      let (path, rest) ← path? (key.toList ++ rest)
      let rest ← Text.follow? "=" rest
      let (value, rest) ← value? (skipBlanks rest)
      return (some (.assignment path value), rest)) := by
  obtain ⟨c, tail, htail, hc⟩ := hkey.exists_cons
  have hskip := skipBlanks_bare hkey rest
  have hbracket : c ≠ '[' := ne_of_isKeyChar hc (by decide)
  have hhash : c ≠ '#' := ne_of_isKeyChar hc (by decide)
  have hbreak : Alphabet.isLineBreak c = false := by
    have hfeed := ne_of_isKeyChar hc (by decide : isKeyChar '\n' = false)
    have hreturn := ne_of_isKeyChar hc (by decide : isKeyChar '\r' = false)
    simp [Alphabet.isLineBreak, hfeed, hreturn]
  unfold expression?
  rw [hskip, htail, List.cons_append]
  split
  · next heq => cases heq
  · next heq => exact absurd (List.cons.inj heq).1 hbracket
  · next heq => exact absurd (List.cons.inj heq).1 hbracket
  · next heq =>
    cases heq
    exact if_neg (by simp [hhash, hbreak])

/-- The line of an entry is read as its assignment. -/
theorem expression?_line (hkey : Bare key) (h : plain? t = some e) (rest : Text) :
    expression? (key.toList ++ ' ' :: '=' :: ' ' :: (e ++ '\n' :: rest)) =
      some (some (.assignment [key] t), '\n' :: rest) := by
  have hpath : path? (key.toList ++ ' ' :: '=' :: ' ' :: (e ++ '\n' :: rest)) =
      some ([key], '=' :: ' ' :: (e ++ '\n' :: rest)) :=
    path?_bare hkey (by decide) fun tail heq => absurd (List.cons.inj heq).1 (by decide)
  have hequals : Text.follow? "=" ('=' :: ' ' :: (e ++ '\n' :: rest)) =
      some (' ' :: (e ++ '\n' :: rest)) := rfl
  have hskip : skipBlanks (' ' :: (e ++ '\n' :: rest)) = e ++ '\n' :: rest :=
    skipBlanks_plain h ('\n' :: rest)
  have hvalue : value? (e ++ '\n' :: rest) = some (t, '\n' :: rest) :=
    value?_plain h ⟨'\n', rfl, .inl rfl⟩
  rw [expression?_bare hkey, hpath]
  simp only [Option.bind_eq_bind, Option.bind_some, hequals, hskip, hvalue, Option.pure_def]

/-- The header of a table. -/
theorem expression?_header (hkey : Bare key) (rest : Text) :
    expression? ('[' :: (key.toList ++ ']' :: '\n' :: rest)) =
      some (some (.table [key]), '\n' :: rest) := by
  have hpath : path? (key.toList ++ ']' :: '\n' :: rest) = some ([key], ']' :: '\n' :: rest) :=
    path?_bare hkey (by decide) fun tail heq => absurd (List.cons.inj heq).1 (by decide)
  have hbracket : Text.follow? "]" (']' :: '\n' :: rest) = some ('\n' :: rest) := rfl
  obtain ⟨c, tail, htail, hc⟩ := hkey.exists_cons
  have hne : c ≠ '[' := ne_of_isKeyChar hc (by decide)
  unfold expression?
  rw [skipBlanks_cons (by decide)]
  -- The character behind the bracket is one of a key, and so the header is not that of a row.
  split
  · next heq => cases heq
  · next heq =>
    rw [htail] at heq
    exact absurd (List.cons.inj (List.cons.inj heq).2).1 hne
  · next heq =>
    obtain rfl := (List.cons.inj heq).2
    rw [hpath]
    simp only [Option.bind_eq_bind, Option.bind_some, hbracket, Option.pure_def]
  · next hno heq => exact (hno (List.cons.inj heq).1.symm).elim

/-! ## Lines, one after another -/

/-- A text of whole lines is read as expressions, whatever lines follow it. -/
def Reads (text : Text) (found : List Expression) : Prop :=
  ∃ lines ≤ text.length, ∀ fuel rest, expressionsWithin? (lines + fuel) (text ++ rest) =
    (expressionsWithin? fuel rest).map (found ++ ·)

/-- An empty text says nothing. -/
theorem Reads.nil : Reads [] [] := by
  refine ⟨0, Nat.le_refl 0, fun fuel rest => ?_⟩
  rw [Nat.zero_add, List.nil_append]
  exact Option.map_id_apply.symm

/-- Two texts of whole lines say what each of them says. -/
theorem Reads.append {other : Text} {found more : List Expression} (h : Reads text found)
    (hother : Reads other more) : Reads (text ++ other) (found ++ more) := by
  obtain ⟨m, hm, hread⟩ := h
  obtain ⟨n, hn, hmore⟩ := hother
  refine ⟨m + n, by rw [List.length_append]; omega, fun fuel rest => ?_⟩
  rw [Nat.add_assoc, List.append_assoc, hread, hmore, Option.map_map]
  simp only [Function.comp_def, List.append_assoc]

/-- One line. -/
theorem Reads.line {found : Option Expression} (hne : text ≠ [])
    (h : ∀ rest, expression? (text ++ rest) = some (found, '\n' :: rest)) :
    Reads text found.toList := by
  have hlength : 1 ≤ text.length := List.length_pos_iff.mpr hne
  refine ⟨1, hlength, fun fuel rest => ?_⟩
  have hend : afterLine? ('\n' :: rest) = some rest := rfl
  obtain ⟨c, tail, rfl⟩ := List.exists_cons_of_ne_nil hne
  have hread := h rest
  rw [List.cons_append] at hread ⊢
  rw [Nat.add_comm]
  simp only [expressionsWithin?, hread, Option.bind_eq_bind, Option.bind_some, hend]
  cases expressionsWithin? fuel rest <;> rfl

/-- What is read of a whole file. -/
theorem Reads.expressions? {found : List Expression} (h : Reads text found)
    (hmark : withoutMark text = text) : expressions? text = some found := by
  obtain ⟨lines, hlines, hread⟩ := h
  have hall := hread (text.length - lines) []
  rw [List.append_nil, Nat.add_sub_cancel' hlines] at hall
  unfold Toml.expressions?
  rw [hmark, hall]
  cases text.length - lines <;> simp [expressionsWithin?]

/-- The assignments of entries. -/
def assignments (entries : Tree.Entries) : List Expression :=
  entries.map fun e => .assignment [e.1] e.2

/-- The expressions of tables, each after its header. -/
def sections (tables : List (String × Tree.Entries)) : List Expression :=
  tables.flatMap fun table => .table [table.1] :: assignments table.2

/-- The lines of entries are their assignments. -/
theorem reads_lines (h : lines? entries = some text) (hkeys : ∀ e ∈ entries, Bare e.1) :
    Reads text (assignments entries) := by
  simp only [lines?, Option.bind_eq_bind, Option.bind_eq_some_iff, Option.pure_def,
    Option.some.injEq] at h
  obtain ⟨lines, hlines, rfl⟩ := h
  -- The induction is on the entries, each of which is one line.
  induction entries generalizing lines with
  | nil =>
    obtain rfl := mapM_nil_cases hlines
    exact Reads.nil
  | cons entry entries ih =>
    obtain ⟨line, others, hline, hothers, rfl⟩ := mapM_cons_cases hlines
    simp only [line?, Option.bind_eq_bind, Option.bind_eq_some_iff, Option.pure_def,
      Option.some.injEq] at hline
    obtain ⟨e, he, rfl⟩ := hline
    have hspell : ∀ rest, entry.1.toList ++ " = ".toList ++ e ++ ['\n'] ++ rest =
        entry.1.toList ++ ' ' :: '=' :: ' ' :: (e ++ '\n' :: rest) := by
      intro rest
      simp only [List.append_assoc]
      rfl
    have hread : ∀ rest, expression? (entry.1.toList ++ " = ".toList ++ e ++ ['\n'] ++ rest) =
        some (some (.assignment [entry.1] entry.2), '\n' :: rest) := by
      intro rest
      rw [hspell]
      exact expression?_line (hkeys entry List.mem_cons_self) he rest
    have hfirst := Reads.line (by simp) hread
    exact hfirst.append (ih (fun e he => hkeys e (List.mem_cons_of_mem _ he)) others hothers)

/-- The section of a table is its header and its assignments. -/
theorem reads_section (h : section? key entries = some text) (hkey : Bare key)
    (hkeys : ∀ e ∈ entries, Bare e.1) : Reads text (.table [key] :: assignments entries) := by
  simp only [section?, Option.bind_eq_bind, Option.bind_eq_some_iff, Option.pure_def,
    Option.some.injEq] at h
  obtain ⟨lines, hlines, rfl⟩ := h
  have hnewline : ∀ rest, expression? (['\n'] ++ rest) = some (none, '\n' :: rest) := fun rest => rfl
  have hread : ∀ rest, expression? ('[' :: key.toList ++ [']', '\n'] ++ rest) =
      some (some (.table [key]), '\n' :: rest) := by
    intro rest
    rw [List.cons_append, List.cons_append, List.append_assoc]
    exact expression?_header hkey rest
  have hblank := Reads.line (List.cons_ne_nil _ _) hnewline
  have hheader := Reads.line (List.cons_ne_nil _ _) hread
  have hall := (hblank.append hheader).append (reads_lines hlines hkeys)
  simpa using hall

/-- The sections of tables, one after another. -/
theorem reads_sections {tables : List (String × Tree.Entries)} {texts : List Text}
    (h : tables.mapM (fun (key, inner) => section? key inner) = some texts)
    (hkeys : ∀ table ∈ tables, Bare table.1 ∧ ∀ e ∈ table.2, Bare e.1) :
    Reads texts.flatten (sections tables) := by
  induction tables generalizing texts with
  | nil =>
    obtain rfl := mapM_nil_cases h
    exact Reads.nil
  | cons table tables ih =>
    obtain ⟨first, others, hfirst, hothers, rfl⟩ := mapM_cons_cases h
    have htable := hkeys table List.mem_cons_self
    have hmore := ih hothers fun table htable => hkeys table (List.mem_cons_of_mem _ htable)
    exact (reads_section hfirst htable.1 htable.2).append hmore

/-! ## Putting the tables together -/

/-- The parts that plain entries are read as. -/
def valueNodes (entries : Tree.Entries) : Nodes := entries.map fun e => (e.1, .value e.2)

/-- The parts that tables under headers are read as. -/
def headerNodes (tables : List (String × Tree.Entries)) : Nodes :=
  tables.map fun table => (table.1, .table .header (valueNodes table.2))

/-- The trees of nodes are under the keys of the nodes. -/
theorem trees_eq_map (nodes : Nodes) : Node.trees nodes = nodes.map fun e => (e.1, e.2.tree) := by
  induction nodes with
  | nil => rfl
  | cons e nodes ih =>
    obtain ⟨key, node⟩ := e
    rw [Node.trees, ih]
    rfl

/-- The nodes of values have these values as their trees. -/
theorem trees_valueNodes (entries : Tree.Entries) : Node.trees (valueNodes entries) = entries := by
  rw [trees_eq_map, valueNodes, List.map_map]
  exact List.map_id' entries

/-- The nodes of tables have these tables as their trees. -/
theorem trees_headerNodes (tables : List (String × Tree.Entries)) :
    Node.trees (headerNodes tables) = tables.map fun table => (table.1, .table table.2) := by
  rw [trees_eq_map, headerNodes, List.map_map]
  apply List.map_congr_left
  intro table _
  rw [Function.comp_apply, Node.tree, trees_valueNodes]

/-- A part under a new key comes last. -/
theorem put_of_not_mem {nodes : Nodes} (h : key ∉ nodes.map Prod.fst) (node : Node) :
    Node.put key node nodes = nodes ++ [(key, node)] := by
  unfold Node.put
  rw [Lookup.lookup_eq_none_iff.mpr h]
  rfl

/-- A part under the last key is replaced. -/
theorem put_last {nodes : Nodes} (h : key ∉ nodes.map Prod.fst) (old node : Node) :
    Node.put key node (nodes ++ [(key, old)]) = nodes ++ [(key, node)] := by
  have hlookup : (nodes ++ [(key, old)]).lookup key = some old := by
    rw [List.lookup_append, Lookup.lookup_eq_none_iff.mpr h, Lookup.lookup_cons, if_pos rfl]
    rfl
  unfold Node.put
  rw [hlookup, List.map_append, Lookup.replaced_of_not_mem h]
  simp

/-- A new key is assigned at the end of its table. -/
theorem assignPath?_new {nodes : Nodes} (h : key ∉ nodes.map Prod.fst) (value : Tree) :
    Node.assignPath? [key] value nodes = some (nodes ++ [(key, .value value)]) := by
  show Node.assign? key value [] nodes = _
  rw [Node.assign?, Lookup.lookup_eq_none_iff.mpr h, put_of_not_mem h]

/-- A change in the table that comes last. -/
theorem within?_last {nodes inner : Nodes} {making : Making} (h : key ∉ nodes.map Prod.fst)
    (change : Nodes → Option Nodes) :
    Node.within? change [key] (nodes ++ [(key, .table making inner)]) =
      (change inner).map fun inner => nodes ++ [(key, .table making inner)] := by
  have hlookup : (nodes ++ [(key, Node.table making inner)]).lookup key = some (.table making inner) := by
    rw [List.lookup_append, Lookup.lookup_eq_none_iff.mpr h, Lookup.lookup_cons, if_pos rfl]
    rfl
  rw [Node.within?, hlookup]
  simp only [Node.within?, put_last h]

/-- Assignments go to the end of the table that they are for, where `place` puts that table into what was
read before. -/
theorem foldlM_assignments (place : Nodes → Reading)
    (hplace : ∀ key value inner, (place inner).add? (.assignment [key] value) =
      (Node.assignPath? [key] value inner).map place) {inner : Nodes}
    (h : (inner.map Prod.fst ++ entries.map Prod.fst).Nodup) :
    (assignments entries).foldlM Reading.add? (place inner) =
      some (place (inner ++ valueNodes entries)) := by
  -- The induction is on the entries. What is already in the table grows with each, and no key of it comes
  -- again.
  induction entries generalizing inner with
  | nil =>
    show some (place inner) = some (place (inner ++ []))
    rw [List.append_nil]
  | cons entry entries ih =>
    have hnew : entry.1 ∉ inner.map Prod.fst := fun hmem =>
      (List.nodup_append.mp h).2.2 _ hmem _ List.mem_cons_self rfl
    have hadd : (place inner).add? (.assignment [entry.1] entry.2) =
        some (place (inner ++ [(entry.1, .value entry.2)])) := by
      rw [hplace, assignPath?_new hnew]
      rfl
    have hnodup : ((inner ++ [(entry.1, Node.value entry.2)]).map Prod.fst ++
        entries.map Prod.fst).Nodup := by
      simpa using h
    calc (assignments (entry :: entries)).foldlM Reading.add? (place inner)
      _ = ((place inner).add? (.assignment [entry.1] entry.2)).bind
          fun r => (assignments entries).foldlM Reading.add? r := rfl
      _ = some (place (inner ++ [(entry.1, .value entry.2)] ++ valueNodes entries)) := by
          rw [hadd, Option.bind_some, ih hnodup]
      _ = some (place (inner ++ valueNodes (entry :: entries))) := by
          rw [List.append_assoc]
          rfl

/-- A table under a header of its own, with its entries. -/
theorem foldlM_section (header : List String) {nodes : Nodes} (hkey : key ∉ nodes.map Prod.fst)
    (h : (entries.map Prod.fst).Nodup) :
    (Expression.table [key] :: assignments entries).foldlM Reading.add? ⟨header, nodes⟩ =
      some ⟨[key], nodes ++ [(key, .table .header (valueNodes entries))]⟩ := by
  have hopen : Reading.add? ⟨header, nodes⟩ (.table [key]) =
      some ⟨[key], nodes ++ [(key, .table .header [])]⟩ := by
    show (Node.openTable? key nodes).bind _ = _
    rw [Node.openTable?, Lookup.lookup_eq_none_iff.mpr hkey, put_of_not_mem hkey]
    rfl
  -- As long as this header is the last, assignments go into its table and nowhere else.
  have hplace : ∀ name value (inner : Nodes),
      Reading.add? ⟨[key], nodes ++ [(key, .table .header inner)]⟩ (.assignment [name] value) =
        (Node.assignPath? [name] value inner).map fun inner =>
          ⟨[key], nodes ++ [(key, .table .header inner)]⟩ := by
    intro name value inner
    simp only [Reading.add?, within?_last hkey, Option.map_map]
    rfl
  have hempty : (([] : Nodes).map Prod.fst ++ entries.map Prod.fst).Nodup := h
  have hentries := foldlM_assignments _ hplace hempty
  calc (Expression.table [key] :: assignments entries).foldlM Reading.add? ⟨header, nodes⟩
    _ = (Reading.add? ⟨header, nodes⟩ (.table [key])).bind
        fun r => (assignments entries).foldlM Reading.add? r := rfl
    _ = some ⟨[key], nodes ++ [(key, .table .header (valueNodes entries))]⟩ := by
        rw [hopen, Option.bind_some, hentries]
        rfl

/-- Tables under headers, one after another. -/
theorem foldlM_sections (header : List String) {nodes : Nodes}
    {tables : List (String × Tree.Entries)}
    (h : (nodes.map Prod.fst ++ tables.map Prod.fst).Nodup)
    (hinner : ∀ table ∈ tables, (table.2.map Prod.fst).Nodup) :
    ∃ last, (sections tables).foldlM Reading.add? ⟨header, nodes⟩ =
      some ⟨last, nodes ++ headerNodes tables⟩ := by
  -- The induction is on the tables. The header of the last one is what the reading ends with.
  induction tables generalizing nodes header with
  | nil => exact ⟨header, by rw [headerNodes, List.map_nil, List.append_nil]; rfl⟩
  | cons table tables ih =>
    have hnew : table.1 ∉ nodes.map Prod.fst := fun hmem =>
      (List.nodup_append.mp h).2.2 _ hmem _ List.mem_cons_self rfl
    have hnodup : ((nodes ++ [(table.1, Node.table .header (valueNodes table.2))]).map Prod.fst ++
        tables.map Prod.fst).Nodup := by
      simpa using h
    obtain ⟨last, hlast⟩ := ih [table.1] hnodup fun table htable =>
      hinner table (List.mem_cons_of_mem _ htable)
    refine ⟨last, ?_⟩
    have hfirst := foldlM_section header hnew (hinner table List.mem_cons_self)
    calc (sections (table :: tables)).foldlM Reading.add? ⟨header, nodes⟩
      _ = ((Expression.table [table.1] :: assignments table.2) ++ sections tables).foldlM
          Reading.add? ⟨header, nodes⟩ := rfl
      _ = some ⟨last, nodes ++ headerNodes (table :: tables)⟩ := by
          rw [List.foldlM_append, hfirst]
          show (sections tables).foldlM Reading.add? _ = _
          rw [hlast, List.append_assoc]
          rfl

/-! ## Whole files -/

/-- The tables of entries. -/
def tablesOf (entries : Tree.Entries) : List (String × Tree.Entries) := entries.filterMap table?

/-- The entries that are no tables. -/
def plainOf (entries : Tree.Entries) : Tree.Entries := entries.filter fun e => (table? e).isNone

/-- Entries that a settings file can hold: keys are different and need no quotation marks, also within
tables. -/
structure Orderly (entries : Tree.Entries) : Prop where
  bare : ∀ e ∈ entries, Bare e.1
  nodup : (entries.map Prod.fst).Nodup
  bareInner : ∀ table ∈ tablesOf entries, ∀ e ∈ table.2, Bare e.1
  nodupInner : ∀ table ∈ tablesOf entries, (table.2.map Prod.fst).Nodup

/-- An entry that is taken for a table is one. -/
theorem table?_eq_some {e : String × Tree} {table : String × Tree.Entries} (h : table? e = some table) :
    e = (table.1, .table table.2) := by
  unfold table? at h
  split at h
  · cases h
    rfl
  · cases h

/-- The keys of plain entries and of tables are all different. -/
theorem nodup_parts (h : (entries.map Prod.fst).Nodup) :
    ((plainOf entries).map Prod.fst ++ (tablesOf entries).map Prod.fst).Nodup := by
  have hkeys : (tablesOf entries).map Prod.fst =
      (entries.filter fun e => !(table? e).isNone).map Prod.fst := by
    unfold tablesOf
    clear h
    induction entries with
    | nil => rfl
    | cons e entries ih =>
      cases htable : table? e with
      | none => simpa [htable] using ih
      | some table =>
        have hkey : table.1 = e.1 := by rw [table?_eq_some htable]
        simpa [htable, hkey] using ih
  have hperm := (List.filter_append_perm (fun e => (table? e).isNone) entries).map Prod.fst
  rw [hkeys, plainOf, ← List.map_append]
  exact hperm.nodup_iff.mpr h

/-- The plain entries and the tables are all entries. -/
theorem mem_parts (entries : Tree.Entries) (e : String × Tree) :
    e ∈ plainOf entries ++ (tablesOf entries).map (fun table => (table.1, .table table.2)) ↔
      e ∈ entries := by
  rw [List.mem_append, plainOf, tablesOf, List.mem_filter, List.mem_map]
  constructor
  · rintro (⟨he, -⟩ | ⟨table, htable, rfl⟩)
    · exact he
    · obtain ⟨e, he, hfound⟩ := List.mem_filterMap.mp htable
      exact table?_eq_some hfound ▸ he
  · intro he
    cases htable : table? e with
    | none => exact .inl ⟨he, rfl⟩
    | some table =>
      exact .inr ⟨table, List.mem_filterMap.mpr ⟨e, he, htable⟩, (table?_eq_some htable).symm⟩

/-- What starts a line that was written. -/
theorem head?_lines (h : lines? entries = some text) (hkeys : ∀ e ∈ entries, Bare e.1) :
    ∀ c ∈ text.head?, isKeyChar c = true := by
  simp only [lines?, Option.bind_eq_bind, Option.bind_eq_some_iff, Option.pure_def,
    Option.some.injEq] at h
  obtain ⟨lines, hlines, rfl⟩ := h
  cases entries with
  | nil =>
    obtain rfl := mapM_nil_cases hlines
    simp
  | cons entry entries =>
    obtain ⟨line, others, hline, -, rfl⟩ := mapM_cons_cases hlines
    simp only [line?, Option.bind_eq_bind, Option.bind_eq_some_iff, Option.pure_def,
      Option.some.injEq] at hline
    obtain ⟨e, -, rfl⟩ := hline
    obtain ⟨c, tail, htail, hc⟩ := (hkeys entry List.mem_cons_self).exists_cons
    simp [htail, hc]

/-- What starts a section that was written. -/
theorem head?_sections {tables : List (String × Tree.Entries)} {texts : List Text}
    (h : tables.mapM (fun (key, inner) => section? key inner) = some texts) :
    ∀ c ∈ texts.flatten.head?, c = '\n' := by
  cases tables with
  | nil =>
    obtain rfl := mapM_nil_cases h
    simp
  | cons table tables =>
    obtain ⟨first, others, hfirst, -, rfl⟩ := mapM_cons_cases h
    simp only [section?, Option.bind_eq_bind, Option.bind_eq_some_iff, Option.pure_def,
      Option.some.injEq] at hfirst
    obtain ⟨lines, -, rfl⟩ := hfirst
    simp

/-- A file that was written has no byte order mark. -/
theorem withoutMark_of_head? (h : ∀ c ∈ text.head?, c = '\n' ∨ isKeyChar c = true) :
    withoutMark text = text := by
  cases text with
  | nil => rfl
  | cons c rest =>
    have hmark : c.toNat ≠ 0xFEFF := by
      intro hcode
      have hc : c = Char.ofNat 0xFEFF := by rw [← hcode, Char.ofNat_toNat]
      subst hc
      exact absurd (h _ rfl) (by decide)
    exact if_neg hmark

/-- Where each member of a list gives something, all of them do. -/
theorem exists_mapM {α β : Type} {f : α → Option β} {l : List α} (h : ∀ a ∈ l, ∃ b, f a = some b) :
    ∃ l', l.mapM f = some l' := by
  induction l with
  | nil => exact ⟨[], rfl⟩
  | cons a l ih =>
    obtain ⟨b, hb⟩ := h a List.mem_cons_self
    obtain ⟨bs, hbs⟩ := ih fun a ha => h a (List.mem_cons_of_mem _ ha)
    exact ⟨b :: bs, by rw [List.mapM_cons, hb, hbs]; rfl⟩

/-- Entries that can be written each have their lines. -/
theorem exists_lines (h : ∀ e ∈ entries, ∃ text, plain? e.2 = some text) :
    ∃ text, lines? entries = some text := by
  obtain ⟨lines, hlines⟩ := exists_mapM (f := line?) (l := entries) fun e he => by
    obtain ⟨text, htext⟩ := h e he
    exact ⟨_, by rw [line?, htext]; rfl⟩
  exact ⟨lines.flatten, by rw [lines?, hlines]; rfl⟩

/-- A table can be written if its plain entries can, and those of the tables in it. -/
theorem exists_write? (hplain : ∀ e ∈ plainOf entries, ∃ text, plain? e.2 = some text)
    (htables : ∀ table ∈ tablesOf entries, ∀ e ∈ table.2, ∃ text, plain? e.2 = some text) :
    ∃ text, write? entries = some text := by
  obtain ⟨lines, hlines⟩ := exists_lines hplain
  have hsections : ∀ table ∈ tablesOf entries, ∃ text, section? table.1 table.2 = some text := by
    intro table htable
    obtain ⟨inner, hinner⟩ := exists_lines (htables table htable)
    exact ⟨_, by rw [section?, hinner]; rfl⟩
  obtain ⟨texts, htexts⟩ := exists_mapM hsections
  refine ⟨lines ++ texts.flatten, ?_⟩
  rw [plainOf] at hlines
  rw [tablesOf] at htexts
  simp only [write?, hlines, htexts]
  rfl

/-- A settings file that was written is read as its table, with the plain entries first. -/
theorem tree?_write? (h : write? entries = some text) (horderly : Orderly entries) :
    tree? text = some (.table (plainOf entries ++
      (tablesOf entries).map fun table => (table.1, .table table.2))) := by
  simp only [write?, Option.bind_eq_bind, Option.bind_eq_some_iff, Option.pure_def,
    Option.some.injEq] at h
  obtain ⟨lines, hlines, texts, htexts, rfl⟩ := h
  have hplain : ∀ e ∈ plainOf entries, Bare e.1 := fun e he =>
    horderly.bare e (List.mem_of_mem_filter he)
  have htables : ∀ table ∈ tablesOf entries, Bare table.1 ∧ ∀ e ∈ table.2, Bare e.1 := by
    intro table htable
    obtain ⟨e, he, hfound⟩ := List.mem_filterMap.mp htable
    have hkey := horderly.bare e he
    rw [table?_eq_some hfound] at hkey
    exact ⟨hkey, horderly.bareInner table htable⟩
  -- The text starts with a key or a bracket, and so with no byte order mark.
  have hmark : withoutMark (lines ++ texts.flatten) = lines ++ texts.flatten := by
    apply withoutMark_of_head?
    intro c hc
    cases lines with
    | nil => exact .inl (head?_sections htexts c hc)
    | cons first lines => exact .inr (head?_lines hlines hplain c hc)
  have hreads : Reads (lines ++ texts.flatten)
      (assignments (plainOf entries) ++ sections (tablesOf entries)) :=
    (reads_lines hlines hplain).append (reads_sections htexts htables)
  -- The lines are read to their expressions, which build the plain entries first and then the tables.
  have hnodup := nodup_parts horderly.nodup
  have hempty : (([] : Nodes).map Prod.fst ++ (plainOf entries).map Prod.fst).Nodup :=
    (List.nodup_append.mp hnodup).1
  have hassign : (assignments (plainOf entries)).foldlM Reading.add? ⟨[], []⟩ =
      some ⟨[], valueNodes (plainOf entries)⟩ :=
    foldlM_assignments (fun nodes => ⟨[], nodes⟩) (fun _ _ _ => rfl) hempty
  have hkeys : (valueNodes (plainOf entries)).map Prod.fst = (plainOf entries).map Prod.fst := by
    rw [valueNodes, List.map_map]
    rfl
  obtain ⟨last, hsections⟩ := foldlM_sections [] (hkeys ▸ hnodup) horderly.nodupInner
  have hfound : (assignments (plainOf entries) ++ sections (tablesOf entries)).foldlM Reading.add?
      ⟨[], []⟩ = some ⟨last, valueNodes (plainOf entries) ++ headerNodes (tablesOf entries)⟩ := by
    rw [List.foldlM_append, hassign]
    exact hsections
  unfold tree?
  rw [hreads.expressions? hmark]
  have htrees : Node.trees (valueNodes (plainOf entries) ++ headerNodes (tablesOf entries)) =
      plainOf entries ++ (tablesOf entries).map fun table => (table.1, .table table.2) := by
    rw [trees_eq_map, List.map_append, ← trees_eq_map, ← trees_eq_map, trees_valueNodes, trees_headerNodes]
  simp only [Option.bind_eq_bind, Option.bind_some, hfound, htrees, Option.pure_def]

end Graft.Toml
