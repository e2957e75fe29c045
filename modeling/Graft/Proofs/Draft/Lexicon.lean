import Mathlib.Data.List.Find
import Graft.Import.Statement
import Graft.Proofs.Draft.Inlining

/-!
# What the names in a file's text stand for

A `Lexicon` is what a file says about the names in its text: which of them it declares, and what its
imports bind. With it a name is looked up once, in the table of all renamings (`Lexicon.member?`).
Drafts look it up again whenever a renaming is made, in the table as it is then; the two agree, since
a look-up in the longer table finds what was found before, or else what was missing before may be the
new renaming (`Lexicon.member?_concat`), and a text that is just put in finds at once whatever the
table already has (`Lexicon.member?_fresh`).
-/

namespace Graft

/-! ## Scopes -/

namespace Scopes

variable {scopes : Scopes} {importer name : String} {b : Binding} {imports : List Import}

/-- A binding counts where nothing is bound yet. -/
theorem find?_bind (scopes : Scopes) (b : Binding) (importer name : String) :
    find? (bind scopes b) importer name =
      (find? scopes importer name).or (find? [b] importer name) := by
  unfold bind
  -- What is looked for may be the name that is bound already.
  split
  · next hbound =>
    by_cases hb : b.importer = importer ∧ b.name = name
    · obtain ⟨rfl, rfl⟩ := hb
      obtain ⟨first, hfirst⟩ := Option.isSome_iff_exists.mp hbound
      rw [hfirst, Option.some_or]
    · have hnone : find? [b] importer name = none := by
        unfold find?
        rw [List.find?_eq_none]
        intro c hc
        rw [List.mem_singleton.mp hc]
        simpa using hb
      rw [hnone, Option.or_none]
  · exact List.find?_append

/-- After the imports of a file are read, a name is bound as before, or else by the first of them that
binds it. -/
theorem find?_record (scopes : Scopes) (file : String) (imports : List Import)
    (importer name : String) :
    find? (record scopes file imports) importer name =
      (find? scopes importer name).or (find? (bindingsOf file imports) importer name) := by
  unfold record
  induction bindingsOf file imports generalizing scopes with
  | nil => rw [List.foldl_nil, find?, find?, List.find?_nil, Option.or_none]
  | cons b bindings ih =>
    rw [List.foldl_cons, ih, find?_bind, Option.or_assoc]
    congr 1
    exact List.find?_append.symm

/-- The imports of a file bind names in that file. -/
theorem importer_of_mem (h : b ∈ bindingsOf importer imports) : b.importer = importer := by
  unfold bindingsOf at h
  obtain ⟨i, -, hi⟩ := List.mem_flatMap.mp h
  obtain ⟨names, -, hnames⟩ := List.mem_filterMap.mp hi
  obtain ⟨pair, -, rfl⟩ := Option.map_eq_some_iff.mp hnames
  rfl

/-- Looking for a name among the bindings of a file. -/
theorem find?_bindingsOf (importer name : String) (imports : List Import) :
    find? (bindingsOf importer imports) importer name =
      (bindingsOf importer imports).find? fun b => b.name = name := by
  unfold find?
  apply List.find?_congr
  intro b hb
  simp [importer_of_mem hb]

/-- The imports of a file bind nothing in another one. -/
theorem find?_bindingsOf_other {file : String} (h : file ≠ importer) (name : String)
    (imports : List Import) : find? (bindingsOf file imports) importer name = none := by
  unfold find?
  rw [List.find?_eq_none]
  intro b hb
  rw [importer_of_mem hb]
  simp [h]

/-- The scopes hold what was in them and what the imports bind. -/
theorem mem_record (h : b ∈ record scopes importer imports) :
    b ∈ scopes ∨ b ∈ bindingsOf importer imports := by
  unfold record at h
  generalize bindingsOf importer imports = bindings at h
  induction bindings generalizing scopes with
  | nil => exact Or.inl h
  | cons c bindings ih =>
    rw [List.foldl_cons] at h
    rcases ih h with h | h
    · unfold bind at h
      split at h
      · exact Or.inl h
      · exact (List.mem_append.mp h).imp_right fun h => by simp [List.mem_singleton.mp h]
    · exact Or.inr (by simp [h])

end Scopes

/-! ## Names from elsewhere -/

namespace Renaming

/-- What a text of the file `source` sees of a name of other files, where `earlier` renamings of the
table were made before the text was put in: the newest one of these, or else the first one made later. -/
def seenElsewhere? (table : List Renaming) (earlier : Nat) (source name : String) :
    Option Renaming :=
  (newestElsewhere? (table.take earlier) source name).or
    ((table.drop earlier).find? fun r => r.name = name && r.source ≠ source)

variable {table : List Renaming} {r : Renaming} {source name : String} {earlier : Nat}

/-- The newest renaming from elsewhere is the last one made, or else what was the newest before. -/
theorem newestElsewhere?_concat (table : List Renaming) (r : Renaming) (source name : String) :
    newestElsewhere? (table ++ [r]) source name =
      if r.name = name ∧ r.source ≠ source then some r else newestElsewhere? table source name := by
  unfold newestElsewhere?
  rw [List.reverse_append, List.reverse_singleton, List.singleton_append, List.find?_cons]
  by_cases hr : r.name = name ∧ r.source ≠ source
  · simp [hr]
  · have hno : (decide (r.name = name) && decide (r.source ≠ source)) = false := by simpa using hr
    rw [if_neg hr, hno]

/-- Nothing is seen exactly if there is no renaming of the name from another file. -/
theorem seenElsewhere?_eq_none_iff :
    seenElsewhere? table earlier source name = none ↔
      newestElsewhere? table source name = none := by
  have hsplit : ∀ r, r ∈ table ↔ r ∈ table.take earlier ∨ r ∈ table.drop earlier := by
    intro r
    rw [← List.mem_append, List.take_append_drop]
  unfold seenElsewhere? newestElsewhere?
  rw [Option.or_eq_none_iff, List.find?_eq_none, List.find?_eq_none, List.find?_eq_none]
  simp only [List.mem_reverse, hsplit]
  constructor
  · exact fun ⟨htake, hdrop⟩ r hr => hr.elim (htake r) (hdrop r)
  · exact fun h => ⟨fun r hr => h r (Or.inl hr), fun r hr => h r (Or.inr hr)⟩

/-- What is seen is in the table. -/
theorem mem_of_seenElsewhere? (h : seenElsewhere? table earlier source name = some r) :
    r ∈ table := by
  rcases Option.or_eq_some_iff.mp h with hfind | ⟨-, hfind⟩
  · exact List.mem_of_mem_take (List.mem_reverse.mp (List.mem_of_find?_eq_some hfind))
  · exact List.mem_of_mem_drop (List.mem_of_find?_eq_some hfind)

/-- What was seen is still seen when a renaming is made, and what was not may be the new one. -/
theorem seenElsewhere?_concat (hearlier : earlier ≤ table.length) (r : Renaming)
    (source name : String) :
    seenElsewhere? (table ++ [r]) earlier source name =
      (seenElsewhere? table earlier source name).or
        (newestElsewhere? (table ++ [r]) source name) := by
  -- The renaming comes last among the later ones.
  have hlater : seenElsewhere? (table ++ [r]) earlier source name =
      (seenElsewhere? table earlier source name).or
        ([r].find? fun r => r.name = name && r.source ≠ source) := by
    unfold seenElsewhere?
    rw [List.take_append_of_le_length hearlier, List.drop_append_of_le_length hearlier,
      List.find?_append, Option.or_assoc]
  rw [hlater]
  cases hseen : seenElsewhere? table earlier source name with
  | some s => rfl
  | none =>
    rw [Option.none_or, Option.none_or, newestElsewhere?_concat,
      seenElsewhere?_eq_none_iff.mp hseen, List.find?_singleton]
    simp

/-- A text that is put in with a renaming of its own file sees the newest renamings. -/
theorem seenElsewhere?_fresh (hsource : r.source = source) (table : List Renaming) (name : String) :
    seenElsewhere? (table ++ [r]) table.length source name =
      newestElsewhere? (table ++ [r]) source name := by
  have hown : ¬ (r.name = name ∧ r.source ≠ source) := fun h => h.2 hsource
  have hnone : ([r].find? fun r => r.name = name && r.source ≠ source) = none := by
    simpa [List.find?_singleton] using fun _ => hsource
  unfold seenElsewhere?
  rw [List.take_left, List.drop_left, hnone, Option.or_none, newestElsewhere?_concat, if_neg hown]

end Renaming

/-! ## Lexicons -/

/-- What a draft writes for a name in the text of a file. -/
def Draft.written (renamings : List Renaming) (scopes : Scopes) (planned : List Renaming)
    (source : String) (run : Text) : Option Text :=
  (Draft.target? renamings scopes planned (String.ofList run) source).map String.toList

/-- What a file says about the names in its text. -/
structure Lexicon where
  url : String
  /-- The names that the file declares as members; the entry declares none. -/
  declared : List String
  /-- What its imports bind, in order. -/
  bindings : List Binding

namespace Lexicon

/-- The lexicon of the entry. -/
def ofEntry (content : Text) (entry : String) : Lexicon :=
  ⟨entry, [], Scopes.bindingsOf entry (Import.all content entry)⟩

/-- The lexicon of an imported file. -/
def ofFile (url : String) (text : Text) : Lexicon :=
  ⟨url, (Declaration.extract text).map Declaration.name,
    Scopes.bindingsOf url (Import.all text url)⟩

/-- The member that a name stands for in a text of the file, where `table` are all renamings and
`earlier` of them were made before the text was put in. A declared name is the file's own member. A
name that an import binds is the member for that declaration, if there is one; the first binding
counts. Any other name is what the text has seen of it elsewhere. -/
def member? (l : Lexicon) (table : List Renaming) (earlier : Nat) (name : String) : Option String :=
  if name ∈ l.declared then some (Member.inlinedName l.url name)
  else
    match l.bindings.find? fun b => b.name = name with
    | some b =>
      if (Renaming.find? table b.source b.declared).isSome then
        some (Member.inlinedName b.source b.declared)
      else none
    | none => (Renaming.seenElsewhere? table earlier l.url name).map Renaming.member

/-- What is written for a name in place of it: its member, reached through `this`. -/
def reading (l : Lexicon) (table : List Renaming) (earlier : Nat) (run : Text) : Option Text :=
  (l.member? table earlier (String.ofList run)).map fun member => ("this." ++ member).toList

/-- Whether scopes hold what the imports of the file bind. -/
def InScope (scopes : Scopes) (l : Lexicon) : Prop :=
  ∀ name, scopes.sourceOf? l.url name =
    (l.bindings.find? fun b => b.name = name).map fun b => (b.source, b.declared)

/-- What a draft knows about a file: the own names are planned or recorded, under their generated
names, and the scopes hold what the imports bind. -/
structure Known (scopes : Scopes) (planned table : List Renaming) (l : Lexicon) : Prop where
  own : ∀ name, (Renaming.find? planned l.url name <|> Renaming.find? table l.url name) =
    if name ∈ l.declared then some (Renaming.of l.url name) else none
  bindings : l.InScope scopes

variable {l : Lexicon} {scopes : Scopes} {planned table : List Renaming} {r : Renaming}
  {earlier : Nat} {name : String}

/-- The imports of another file change nothing. -/
theorem InScope.record (h : l.InScope scopes) {file : String} (hfile : file ≠ l.url)
    (imports : List Import) : l.InScope (scopes.record file imports) := by
  intro name
  rw [← h name]
  unfold Scopes.sourceOf?
  rw [Scopes.find?_record, Scopes.find?_bindingsOf_other hfile, Option.or_none]

/-- The imports of a file that has bound nothing before are held by the scopes. -/
theorem inScope_record (hnew : ∀ b ∈ scopes, b.importer ≠ l.url) {imports : List Import}
    (hbindings : l.bindings = Scopes.bindingsOf l.url imports) :
    l.InScope (scopes.record l.url imports) := by
  intro name
  have hnone : Scopes.find? scopes l.url name = none := by
    unfold Scopes.find?
    rw [List.find?_eq_none]
    intro b hb hfound
    have himporter : b.importer = l.url ∧ b.name = name := by simpa using hfound
    exact hnew b hb himporter.1
  unfold Scopes.sourceOf?
  rw [Scopes.find?_record, hnone, Option.none_or, Scopes.find?_bindingsOf, hbindings]

/-- A draft that knows a file resolves its names by the file's lexicon. -/
theorem Known.resolve? (h : Known scopes planned table l) (name : String) :
    Draft.resolve? table scopes planned l.url name =
      if name ∈ l.declared then some (Renaming.of l.url name)
      else
        match l.bindings.find? fun b => b.name = name with
        | some b => Renaming.find? table b.source b.declared
        | none => Renaming.newestElsewhere? table l.url name := by
  unfold Draft.resolve?
  rw [h.own, h.bindings]
  by_cases hdeclared : name ∈ l.declared
  · rw [if_pos hdeclared, if_pos hdeclared]
  · rw [if_neg hdeclared, if_neg hdeclared]
    cases l.bindings.find? fun b => b.name = name with
    | some b => rfl
    | none => rfl

/-- Renamings that have the generated names. -/
def Generated (table : List Renaming) : Prop := ∀ r ∈ table, r = Renaming.of r.source r.name

/-- The member of a renaming that is found is the generated one. -/
theorem map_member_find? (hgenerated : Generated table) (source name : String) :
    (Renaming.find? table source name).map Renaming.member =
      if (Renaming.find? table source name).isSome then some (Member.inlinedName source name)
      else none := by
  cases hfind : Renaming.find? table source name with
  | none => rfl
  | some r =>
    obtain ⟨hmem, hsource, hname⟩ := Renaming.find?_eq_some hfind
    have hmember : r.member = Member.inlinedName r.source r.name := by
      conv_lhs => rw [hgenerated r hmem]
      rfl
    rw [Option.map_some, hmember, hsource, hname]
    rfl

/-- One renaming more in the table: what a name stood for it still stands for, and a name that stood
for nothing stands for what a draft with the longer table resolves it to. -/
theorem member?_concat (h : Known scopes planned (table ++ [r]) l)
    (hgenerated : Generated (table ++ [r])) (hearlier : earlier ≤ table.length) (name : String) :
    (l.member? table earlier name).or
        ((Draft.resolve? (table ++ [r]) scopes planned l.url name).map Renaming.member) =
      l.member? (table ++ [r]) earlier name := by
  rw [h.resolve?]
  unfold member?
  -- The three ways in which a name is looked up do not mix, so each is compared by itself.
  by_cases hdeclared : name ∈ l.declared
  · simp [hdeclared]
  · simp only [if_neg hdeclared]
    cases l.bindings.find? fun b => b.name = name with
    | some b =>
      simp only [map_member_find? hgenerated]
      cases hfind : Renaming.find? table b.source b.declared with
      | none => simp
      | some s => simp [Renaming.find?_concat, hfind]
    | none =>
      simp only
      rw [Renaming.seenElsewhere?_concat hearlier, Option.map_or]

/-- A text that is put in with a renaming of its own file: a name stands for what a draft with the new
renaming resolves it to. -/
theorem member?_fresh (h : Known scopes planned (table ++ [r]) l)
    (hgenerated : Generated (table ++ [r])) (hsource : r.source = l.url) (name : String) :
    (Draft.resolve? (table ++ [r]) scopes planned l.url name).map Renaming.member =
      l.member? (table ++ [r]) table.length name := by
  rw [h.resolve?]
  unfold member?
  by_cases hdeclared : name ∈ l.declared
  · simp only [if_pos hdeclared]
    rfl
  · simp only [if_neg hdeclared]
    cases l.bindings.find? fun b => b.name = name with
    | some b => exact map_member_find? hgenerated b.source b.declared
    | none => exact congrArg _ (Renaming.seenElsewhere?_fresh hsource table name).symm

/-! ## In place of a name -/

/-- A draft writes the member that a name stands for. -/
theorem written_eq (source : String) (run : Text) :
    Draft.written table scopes planned source run =
      ((Draft.resolve? table scopes planned source (String.ofList run)).map
        Renaming.member).map fun member => ("this." ++ member).toList := by
  unfold Draft.written Draft.target?
  rw [Option.map_map, Option.map_map]
  rfl

/-- What is written for names with one renaming more. -/
theorem reading_concat (h : Known scopes planned (table ++ [r]) l)
    (hgenerated : Generated (table ++ [r])) (hearlier : earlier ≤ table.length) (run : Text) :
    (l.reading table earlier run).or (Draft.written (table ++ [r]) scopes planned l.url run) =
      l.reading (table ++ [r]) earlier run := by
  rw [written_eq, reading, reading, ← member?_concat h hgenerated hearlier, Option.map_or]

/-- What is written for names in a text that is just put in. -/
theorem reading_fresh (h : Known scopes planned (table ++ [r]) l)
    (hgenerated : Generated (table ++ [r])) (hsource : r.source = l.url) (run : Text) :
    Draft.written (table ++ [r]) scopes planned l.url run =
      l.reading (table ++ [r]) table.length run := by
  rw [written_eq, reading, member?_fresh h hgenerated hsource]

end Lexicon

end Graft
