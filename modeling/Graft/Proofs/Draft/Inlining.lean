import Mathlib.Data.List.Basic
import Mathlib.Data.List.Nodup
import Graft.Draft

/-!
# What putting a file in does to a draft

Each declaration that is put in adds one span to the buffer and one renaming to the table, in that
order and with the same file (`Synced.inlineEach`). The declarations of a file that is put in for the
first time make one renaming each, in their order (`inlineFile_renamings`): no two of them have one
name (`Declaration.nodup_byName`), so none of them finds its renaming recorded already.
-/

namespace Graft

/-! ## The declarations of a file by name -/

namespace Declaration

/-- A declaration of a new name goes to the end, and any other one takes the place of the old one. -/
theorem map_name_insert (d : Declaration) (ds : List Declaration) :
    (insert d ds).map name =
      if d.name ∈ ds.map name then ds.map name else ds.map name ++ [d.name] := by
  have hany : (ds.any fun e => e.name = d.name) = true ↔ d.name ∈ ds.map name := by
    simp
  -- A declaration of the same name takes the place of the old one.
  have hreplaced : (ds.map fun e => if e.name = d.name then d else e).map name = ds.map name := by
    rw [List.map_map]
    apply List.map_congr_left
    intro e _
    by_cases he : e.name = d.name
    · simp [he]
    · simp [he]
  unfold insert
  by_cases hmem : d.name ∈ ds.map name
  · rw [if_pos (hany.mpr hmem), if_pos hmem, hreplaced]
  · rw [if_neg (fun h => hmem (hany.mp h)), if_neg hmem, List.map_append]
    rfl

/-- Inserting keeps the names different. -/
theorem nodup_insert {d : Declaration} {ds : List Declaration} (h : (ds.map name).Nodup) :
    ((insert d ds).map name).Nodup := by
  rw [map_name_insert]
  split
  · exact h
  · next hnew =>
    rw [List.nodup_append]
    refine ⟨h, List.nodup_singleton _, fun a ha b hb hab => hnew ?_⟩
    rw [← List.mem_singleton.mp hb, ← hab]
    exact ha

/-- No two declarations of a file by name have the same name. -/
theorem nodup_byName (ds : List Declaration) : ((byName ds).map name).Nodup := by
  -- The induction is on the declarations, for any list that they are inserted into.
  have hfold : ∀ acc : List Declaration, (acc.map name).Nodup →
      ((ds.foldl (fun acc d => insert d acc) acc).map name).Nodup := by
    induction ds with
    | nil => exact fun acc hacc => hacc
    | cons d ds ih => exact fun acc hacc => ih _ (nodup_insert hacc)
  exact hfold [] List.nodup_nil

end Declaration

/-! ## Generated names -/

namespace Member

/-- What the name of a member keeps of the URL of its file. -/
def fileName (url : String) : Text := (Specifier.lastSegment url).toList.map nameChar

/-- The name of a member ends with the declared name, after an underscore. -/
theorem toList_inlinedName (url name : String) :
    (inlinedName url name).toList = nameStart.toList ++ (fileName url ++ '_' :: name.toList) := by
  simp [inlinedName, fileName]

end Member

/-! ## Looking up renamings -/

namespace Renaming

variable {table : List Renaming} {source name : String}

/-- A renaming that is found is the one that was looked for. -/
theorem find?_eq_some {r : Renaming} (h : find? table source name = some r) :
    r ∈ table ∧ r.source = source ∧ r.name = name := by
  have hr := List.find?_some h
  have hfields : r.source = source ∧ r.name = name := by simpa using hr
  exact ⟨List.mem_of_find?_eq_some h, hfields⟩

/-- There is no renaming exactly if no entry of the table has both the file and the name. -/
theorem find?_eq_none_iff :
    find? table source name = none ↔ ∀ r ∈ table, r.source = source → r.name ≠ name := by
  unfold find?
  rw [List.find?_eq_none]
  constructor
  · intro h r hr hsource hname
    exact h r hr (by simp [hsource, hname])
  · intro h r hr hfound
    have hfields : r.source = source ∧ r.name = name := by simpa using hfound
    exact h r hr hfields.1 hfields.2

/-- A longer table has what the shorter one has, or else the new renaming. -/
theorem find?_concat (table : List Renaming) (r : Renaming) (source name : String) :
    find? (table ++ [r]) source name = (find? table source name).or (find? [r] source name) :=
  List.find?_append

/-- A renaming of another name does not matter. -/
theorem find?_concat_eq_none {r : Renaming} (h : find? table source name = none)
    (hname : r.name ≠ name) : find? (table ++ [r]) source name = none := by
  rw [find?_concat, h, Option.none_or, find?_eq_none_iff]
  intro s hs _
  rw [List.mem_singleton.mp hs]
  exact hname

end Renaming

/-! ## The spans of the members -/

namespace Buffer

/-- A comma does not change which files the spans name. -/
theorem separate?_sources {b b' : Buffer} {isNew : Bool} (h : b.separate? = some (b', isNew)) :
    b'.members.map Span.source = b.members.map Span.source := by
  unfold separate? at h
  obtain ⟨⟨before, fromBrace⟩, hbrace, h⟩ := Option.bind_eq_some_iff.mp h
  simp only at h
  split at h
  · cases h
    rfl
  · cases h
    simp [shift, Function.comp_def]

/-- A member adds a span with its file behind all others. -/
theorem insert?_sources {b b' : Buffer} {member : Text} {source : String}
    (h : b.insert? member source = some b') :
    b'.members.map Span.source = b.members.map Span.source ++ [source] := by
  unfold insert? at h
  obtain ⟨⟨c, isNew⟩, hseparate, h⟩ := Option.bind_eq_some_iff.mp h
  obtain ⟨⟨before, fromBrace⟩, hbrace, h⟩ := Option.bind_eq_some_iff.mp h
  cases h
  rw [List.map_append, List.map_map, ← separate?_sources hseparate]
  rfl

/-- Redirecting a name does not change which files the spans name. -/
theorem redirect_sources (b : Buffer) (name : String) (answer : String → Option String) :
    (b.redirect name answer).1.members.map Span.source = b.members.map Span.source := by
  unfold redirect
  split
  · rfl
  · simp only
    split
    · rfl
    · simp [Function.comp_def]

end Buffer

namespace Draft

variable {draft : Draft} {scopes : Scopes} {planned : List Renaming} {source : String}
  {d : Declaration} {ds : List Declaration}

/-- Redirecting all names does not change which files the spans name. -/
theorem redirectAll_sources (buffer : Buffer) (renamings : List Renaming) (scopes : Scopes)
    (planned : List Renaming) :
    (redirectAll buffer renamings scopes planned).1.members.map Span.source =
      buffer.members.map Span.source := by
  have hfold : ∀ (names : List String) (done : Buffer × List Event),
      (names.foldl (redirectName renamings scopes planned) done).1.members.map Span.source =
        done.1.members.map Span.source := by
    intro names
    induction names with
    | nil => exact fun done => rfl
    | cons name names ih =>
      intro done
      rw [List.foldl_cons, ih]
      exact Buffer.redirect_sources done.1 name _
  exact hfold _ (buffer, [])

/-! ## One declaration -/

/-- Putting in one declaration finds its renaming recorded, finds no place for the member, or adds the
member and its renaming and redirects the uses of all names. -/
theorem inlinePlanned_cases (draft : Draft) (scopes : Scopes) (planned : List Renaming)
    (source : String) (d : Declaration) :
    ((Renaming.find? draft.renamings source d.name).isSome ∧
      (draft.inlinePlanned scopes planned source d).draft = draft ∧
      (draft.inlinePlanned scopes planned source d).result? = some false) ∨
    (Renaming.find? draft.renamings source d.name = none ∧
      draft.buffer.insert? (Member.render d (Renaming.of source d.name).member) source = none ∧
      (draft.inlinePlanned scopes planned source d).draft = draft ∧
      (draft.inlinePlanned scopes planned source d).result? = none) ∨
    (Renaming.find? draft.renamings source d.name = none ∧
      ∃ buffer,
        draft.buffer.insert? (Member.render d (Renaming.of source d.name).member) source =
          some buffer ∧
        (draft.inlinePlanned scopes planned source d).draft =
          ⟨(redirectAll buffer (draft.renamings ++ [Renaming.of source d.name]) scopes planned).1,
            draft.renamings ++ [Renaming.of source d.name]⟩ ∧
        (draft.inlinePlanned scopes planned source d).result? = some true) := by
  unfold inlinePlanned
  cases hfind : Renaming.find? draft.renamings source d.name with
  | some r => simp
  | none =>
    cases hinsert : draft.buffer.insert? (Member.render d (Renaming.of source d.name).member) source with
    | none => simp [hinsert]
    | some buffer => simp [hinsert]

/-- The spans of the members and the renamings belong together one by one: they name the same files
in the same order. -/
def Synced (draft : Draft) : Prop :=
  draft.buffer.members.map Span.source = draft.renamings.map Renaming.source

/-- A declaration keeps the spans and the renamings together. -/
theorem Synced.inlinePlanned (h : Synced draft) :
    Synced (draft.inlinePlanned scopes planned source d).draft := by
  rcases inlinePlanned_cases draft scopes planned source d with
    ⟨-, hdraft, -⟩ | ⟨-, -, hdraft, -⟩ | ⟨-, buffer, hinsert, hdraft, -⟩
  · rwa [hdraft]
  · rwa [hdraft]
  · rw [hdraft]
    show (redirectAll buffer _ scopes planned).1.members.map Span.source =
      (draft.renamings ++ [Renaming.of source d.name]).map Renaming.source
    rw [redirectAll_sources, Buffer.insert?_sources hinsert, h, List.map_append]
    rfl

/-! ## The declarations of a file -/

/-- The first declaration that finds no place for its member is the last one. -/
theorem inlineEach_cons_none (h : (draft.inlinePlanned scopes planned source d).result? = none)
    (ds : List Declaration) :
    (draft.inlineEach scopes planned source (d :: ds)).draft =
        (draft.inlinePlanned scopes planned source d).draft ∧
      (draft.inlineEach scopes planned source (d :: ds)).result? = none := by
  unfold inlineEach
  simp only [h, and_self]

/-- After a declaration that found its place come the others. -/
theorem inlineEach_cons_some {isNew : Bool}
    (h : (draft.inlinePlanned scopes planned source d).result? = some isNew)
    (ds : List Declaration) :
    (draft.inlineEach scopes planned source (d :: ds)).draft =
        ((draft.inlinePlanned scopes planned source d).draft.inlineEach scopes planned source
          ds).draft ∧
      ((draft.inlineEach scopes planned source (d :: ds)).result? = none ↔
        ((draft.inlinePlanned scopes planned source d).draft.inlineEach scopes planned source
          ds).result? = none) := by
  rw [inlineEach]
  simp only [h, Option.map_eq_none_iff, and_self]

/-- A declaration that was put in counts one more. -/
theorem inlineEach_cons_result {isNew : Bool}
    (h : (draft.inlinePlanned scopes planned source d).result? = some isNew)
    (ds : List Declaration) :
    (draft.inlineEach scopes planned source (d :: ds)).result? =
      ((draft.inlinePlanned scopes planned source d).draft.inlineEach scopes planned source
        ds).result?.map fun n => if isNew then n + 1 else n := by
  rw [inlineEach]
  simp only [h]

/-- Any number of declarations keep the spans and the renamings together. -/
theorem Synced.inlineEach (h : Synced draft) :
    Synced (draft.inlineEach scopes planned source ds).draft := by
  induction ds generalizing draft with
  | nil => exact h
  | cons d ds ih =>
    cases hresult : (draft.inlinePlanned scopes planned source d).result? with
    | none =>
      rw [(inlineEach_cons_none hresult ds).1]
      exact h.inlinePlanned
    | some isNew =>
      rw [(inlineEach_cons_some hresult ds).1]
      exact ih h.inlinePlanned

/-- When one of several declarations of different names is recorded, the others are still not. -/
theorem unrecorded_concat {table : List Renaming}
    (hnew : ∀ e ∈ d :: ds, Renaming.find? table source e.name = none)
    (hnames : ((d :: ds).map Declaration.name).Nodup) :
    ∀ e ∈ ds, Renaming.find? (table ++ [Renaming.of source d.name]) source e.name = none := by
  intro e he
  rw [List.map_cons, List.nodup_cons] at hnames
  have hdiffer : d.name ≠ e.name := fun hsame => hnames.1 (hsame ▸ List.mem_map_of_mem he)
  exact Renaming.find?_concat_eq_none (hnew e (List.mem_cons_of_mem d he)) hdiffer

/-- Declarations of different names that are not recorded yet make one renaming each, in order. -/
theorem inlineEach_renamings
    (hnew : ∀ d ∈ ds, Renaming.find? draft.renamings source d.name = none)
    (hnames : (ds.map Declaration.name).Nodup)
    (hresult : (draft.inlineEach scopes planned source ds).result? ≠ none) :
    (draft.inlineEach scopes planned source ds).draft.renamings =
      draft.renamings ++ ds.map fun d => Renaming.of source d.name := by
  induction ds generalizing draft with
  | nil => simp [inlineEach]
  | cons d ds ih =>
    -- The first declaration is new and has found its place, since all of them did.
    rcases inlinePlanned_cases draft scopes planned source d with
      ⟨hrecorded, -, -⟩ | ⟨-, -, -, hnone⟩ | ⟨-, buffer, -, hdraft, hsome⟩
    · rw [hnew d (by simp)] at hrecorded
      simp at hrecorded
    · exact absurd (inlineEach_cons_none hnone ds).2 hresult
    · obtain ⟨hothers, hiff⟩ := inlineEach_cons_some hsome ds
      have hstill : ∀ e ∈ ds, Renaming.find?
          (draft.inlinePlanned scopes planned source d).draft.renamings source e.name = none := by
        rw [hdraft]
        exact unrecorded_concat hnew hnames
      calc (draft.inlineEach scopes planned source (d :: ds)).draft.renamings
          = ((draft.inlinePlanned scopes planned source d).draft.inlineEach scopes planned source
              ds).draft.renamings := by rw [hothers]
        _ = (draft.inlinePlanned scopes planned source d).draft.renamings ++
              ds.map fun e => Renaming.of source e.name :=
            ih hstill (List.nodup_cons.mp hnames).2 fun h => hresult (hiff.mpr h)
        _ = draft.renamings ++ (d :: ds).map fun e => Renaming.of source e.name := by
            rw [hdraft, List.append_assoc, List.map_cons, List.singleton_append]

/-- A file that is put in for the first time makes one renaming for each of its declarations. -/
theorem inlineFile_renamings (text : Text)
    (hnew : ∀ r ∈ draft.renamings, r.source ≠ source)
    (hresult : (draft.inlineFile scopes source (Declaration.extract text)).result? ≠ none) :
    (draft.inlineFile scopes source (Declaration.extract text)).draft.renamings =
      draft.renamings ++ (Declaration.extract text).map fun d => Renaming.of source d.name := by
  apply inlineEach_renamings _ (Declaration.nodup_byName _) hresult
  intro d _
  rw [Renaming.find?_eq_none_iff]
  exact fun r hr hsource => absurd hsource (hnew r hr)

/-- A file keeps the spans and the renamings together. -/
theorem Synced.inlineFile (h : Synced draft) (ds : List Declaration) :
    Synced (draft.inlineFile scopes source ds).draft :=
  h.inlineEach

end Draft

end Graft
