import Graft.Fetch.Archive
import Graft.Proofs.Draft.Linking
import Graft.Proofs.Walk.Once

/-!
# Names mean what their files say

While a walk goes on, the uses of every known name are redirected after each member that is put in,
with the table, the scopes and the plans of that moment. What comes out is what one look at the end
gives: `linkedCode` takes the texts that the entry and the files contributed, each as it was put in,
and reads each free use in them once, by the lexicon of its file and the table of all renamings. The
code of a walk is this (`code_eq_linkedCode`), whatever the import graph is and in whatever order the
files come in.

The invariant of a walk is that its draft is linked as it stands, or has no member yet (`Lexical`).
-/

namespace Graft.Walk

open Buffer (Composed EndsOpen)

variable {σ : Type}

/-! ## One look at the end -/

/-- The lexicons of the entry and of files. -/
def lexicons (content : Text) (entry : String) (files : List (String × Text)) : List Lexicon :=
  .ofEntry content entry :: files.map fun file => .ofFile file.1 file.2

/-- The declarations of files, each with the lexicon of its file, in order. -/
def declarationsOf (files : List (String × Text)) : List (Lexicon × Declaration) :=
  files.flatMap fun file =>
    (Declaration.extract file.2).map fun d => (Lexicon.ofFile file.1 file.2, d)

/-- The entry's object before and from the place where members go, with a comma put in if needed. -/
def seat? (content : Text) (entry : String) : Option (Text × Text) :=
  (Buffer.ofText (Import.objectBody content) entry).separate?.bind fun done => done.1.atLastBrace?

/-- A text of the entry, which is there before any renaming. -/
def entryPart (content : Text) (entry : String) (text : Text) : Part :=
  ⟨.ofEntry content entry, 0, false, text⟩

/-- The text of the entry before the members, and the members of files. -/
def partsOf (content : Text) (entry : String) (files : List (String × Text)) (before : Text) :
    List Part :=
  entryPart content entry before :: Part.members 0 (declarationsOf files)

/-- The texts that the entry and files contribute, in the order in which they stand in the code: the
entry's object up to its last closing brace, the members, and the rest of the object. Without any
declaration the object stays as it is. -/
def contributed (content : Text) (entry : String) (files : List (String × Text)) : List Part :=
  match seat? content entry with
  | none => [entryPart content entry (Import.objectBody content)]
  | some (before, fromBrace) =>
    if (renamingsOf files).isEmpty then [entryPart content entry (Import.objectBody content)]
    else partsOf content entry files before ++ [entryPart content entry fromBrace]

/-- The code for an entry and the files that it imports: each text that they contribute, with its
free uses read once in the table of all renamings. -/
def linkedCode (content : Text) (entry : String) (files : List (String × Text)) : Text :=
  (contributed content entry files).flatMap (Part.linked (renamingsOf files))

/-- Whether all names that files declare and bind can be told from others. -/
def PlainNames (lexicons : List Lexicon) : Prop :=
  ∀ l ∈ lexicons, (∀ name ∈ l.declared, Plain name) ∧ ∀ b ∈ l.bindings, Plain b.name

variable {content : Text} {entry : String} {files : List (String × Text)} {file : String × Text}
  {l : Lexicon} {table planned : List Renaming} {scopes : Scopes} {s : Shared σ}

/-- One file more has its lexicon behind the others. -/
theorem lexicons_concat (content : Text) (entry : String) (files : List (String × Text))
    (file : String × Text) :
    lexicons content entry (files ++ [file]) =
      lexicons content entry files ++ [.ofFile file.1 file.2] := by
  unfold lexicons
  rw [List.map_append, List.map_singleton, List.cons_append]

/-- One file more adds its members behind all others. -/
theorem partsOf_concat (content : Text) (entry : String) (files : List (String × Text))
    (file : String × Text) (before : Text) :
    partsOf content entry (files ++ [file]) before =
      partsOf content entry files before ++
        Part.members (declarationsOf files).length
          ((Declaration.extract file.2).map fun d => (Lexicon.ofFile file.1 file.2, d)) := by
  unfold partsOf declarationsOf
  rw [List.flatMap_append, Part.members_append, Nat.zero_add]
  simp

/-- Each renaming has a declaration. -/
theorem length_declarationsOf (files : List (String × Text)) :
    (declarationsOf files).length = (renamingsOf files).length := by
  unfold declarationsOf renamingsOf
  simp [List.length_flatMap]

/-- The parts come from the entry and the files. -/
theorem lexicon_mem {before fromBrace : Text} {p : Part}
    (hp : p ∈ partsOf content entry files before ++ [entryPart content entry fromBrace]) :
    p.lexicon ∈ lexicons content entry files := by
  have hentry : Lexicon.ofEntry content entry ∈ lexicons content entry files := List.mem_cons_self
  unfold partsOf at hp
  simp only [List.cons_append, List.mem_cons, List.mem_append, List.not_mem_nil, or_false] at hp
  rcases hp with rfl | hp | rfl
  · exact hentry
  · obtain ⟨c, hc, rfl⟩ := List.mem_map.mp hp
    have hdeclaration : c.1 ∈ declarationsOf files := List.fst_mem_of_mem_zipIdx hc
    obtain ⟨file, hfile, hd⟩ := List.mem_flatMap.mp hdeclaration
    obtain ⟨d, -, hc1⟩ := List.mem_map.mp hd
    show c.1.1 ∈ _
    rw [← hc1]
    exact List.mem_cons_of_mem _ (List.mem_map_of_mem hfile)
  · exact hentry

/-! ## What a walk knows about its files -/

/-- The members have the generated names. -/
theorem generated_renamingsOf (files : List (String × Text)) :
    Lexicon.Generated (renamingsOf files) := by
  intro r hr
  obtain ⟨file, -, d, -, rfl⟩ := mem_renamingsOf.mp hr
  rfl

/-- The names are declared in the files. -/
theorem exists_declared_of_mem (content : Text) (entry : String) {r : Renaming}
    (h : r ∈ renamingsOf files) : ∃ l ∈ lexicons content entry files, r.name ∈ l.declared := by
  obtain ⟨file, hfile, d, hd, rfl⟩ := mem_renamingsOf.mp h
  exact ⟨.ofFile file.1 file.2, List.mem_cons_of_mem _ (List.mem_map_of_mem hfile),
    List.mem_map_of_mem hd⟩

/-- If no file comes twice, a file declares just the names that it has renamings for. -/
theorem mem_declared_iff (hurls : (files.map Prod.fst ++ [entry]).Nodup)
    (hl : l ∈ lexicons content entry files) (name : String) :
    name ∈ l.declared ↔ ∃ r ∈ renamingsOf files, r.source = l.url ∧ r.name = name := by
  obtain ⟨hfiles, -, hentry⟩ := List.nodup_append.mp hurls
  rcases List.mem_cons.mp hl with rfl | hl
  · -- The entry declares nothing, and no file is the entry.
    constructor
    · intro hdeclared
      cases hdeclared
    · rintro ⟨r, hr, hsource, -⟩
      have hurl : r.source ∈ files.map Prod.fst := source_mem_of_mem hr
      exact absurd hsource (hentry r.source hurl entry (List.mem_singleton_self entry))
  · obtain ⟨file, hfile, rfl⟩ := List.mem_map.mp hl
    constructor
    · intro hdeclared
      obtain ⟨d, hd, rfl⟩ := List.mem_map.mp hdeclared
      exact ⟨_, mem_renamingsOf.mpr ⟨file, hfile, d, hd, rfl⟩, rfl, rfl⟩
    · rintro ⟨r, hr, hsource, rfl⟩
      obtain ⟨other, hother, d, hd, rfl⟩ := mem_renamingsOf.mp hr
      have hsame : other = file := List.inj_on_of_nodup_map hfiles hother hfile hsource
      subst hsame
      exact List.mem_map_of_mem hd

/-- A draft that has recorded or planned the renamings of all files knows these files, if its scopes
hold what they bind. -/
theorem known_of_renamingsOf (hrenamings : table ++ planned = renamingsOf files)
    (hurls : (files.map Prod.fst ++ [entry]).Nodup) (hl : l ∈ lexicons content entry files)
    (hscope : l.InScope scopes) : l.Known scopes planned table := by
  refine ⟨fun name => ?_, hscope⟩
  rw [Option.orElse_eq_orElse, Option.orElse_eq_or]
  -- It does not matter in which of the two tables a renaming is found, since its file and name fix
  -- it.
  cases hfind : (Renaming.find? planned l.url name).or (Renaming.find? table l.url name) with
  | none =>
    obtain ⟨hplanned, htable⟩ := Option.or_eq_none_iff.mp hfind
    rw [if_neg]
    intro hdeclared
    obtain ⟨r, hr, hsource, hname⟩ := (mem_declared_iff hurls hl name).mp hdeclared
    rw [← hrenamings] at hr
    rcases List.mem_append.mp hr with hr | hr
    · exact Renaming.find?_eq_none_iff.mp htable r hr hsource hname
    · exact Renaming.find?_eq_none_iff.mp hplanned r hr hsource hname
  | some r =>
    have hr : r ∈ renamingsOf files ∧ r.source = l.url ∧ r.name = name := by
      rw [← hrenamings]
      rcases Option.or_eq_some_iff.mp hfind with hfound | ⟨-, hfound⟩
      · obtain ⟨hmem, hfrom⟩ := Renaming.find?_eq_some hfound
        exact ⟨List.mem_append_right _ hmem, hfrom⟩
      · obtain ⟨hmem, hfrom⟩ := Renaming.find?_eq_some hfound
        exact ⟨List.mem_append_left _ hmem, hfrom⟩
    rw [if_pos ((mem_declared_iff hurls hl name).mpr ⟨r, hr⟩), generated_renamingsOf files r hr.1,
      hr.2.1, hr.2.2]

/-- Its names can be told from others, if those of the files can. -/
theorem wellNamed_of_renamingsOf (hrenamings : table ++ planned = renamingsOf files)
    (hplain : PlainNames (lexicons content entry files))
    (hbound : ∀ b ∈ scopes, ∃ l ∈ lexicons content entry files, b ∈ l.bindings) :
    Draft.WellNamed scopes planned table := by
  constructor
  · rw [hrenamings]
    exact generated_renamingsOf files
  · intro name hname
    rw [Draft.mem_candidateNames, hrenamings] at hname
    rcases hname with hname | hname
    · obtain ⟨r, hr, rfl⟩ := List.mem_map.mp hname
      obtain ⟨l, hl, hmem⟩ := exists_declared_of_mem content entry hr
      exact (hplain l hl).1 _ hmem
    · obtain ⟨b, hb, rfl⟩ := List.mem_map.mp hname
      obtain ⟨l, hl, hmem⟩ := hbound b hb
      exact (hplain l hl).2 b hmem

/-! ## The invariant -/

/-- What a walk from the entry keeps besides `Once`. -/
structure Lexical (content : Text) (entry : String) (s : Shared σ) : Prop where
  once : Once entry s
  /-- Only files that were visited bind names. -/
  importers : ∀ b ∈ s.scopes, b.importer ∈ s.visited
  /-- The scopes hold what the files bind, the first binding of a name before all others. -/
  inScope : ∀ l ∈ lexicons content entry (arrivals s.deeds), l.InScope s.scopes
  bound : ∀ b ∈ s.scopes, ∃ l ∈ lexicons content entry (arrivals s.deeds), b ∈ l.bindings
  /-- Without a place for members nothing is ever put in. -/
  unseated : seat? content entry = none →
    s.draft = ⟨Buffer.ofText (Import.objectBody content) entry, []⟩
  /-- Otherwise the draft is linked, or it becomes linked with the first member. -/
  seated : ∀ before fromBrace, seat? content entry = some (before, fromBrace) →
    PlainNames (lexicons content entry (arrivals s.deeds)) →
    Prepared entry (Buffer.ofText (Import.objectBody content) entry) s.scopes [] s.draft
      (partsOf content entry (arrivals s.deeds) before) (entryPart content entry fromBrace)

/-- A file of a lexicon was visited. -/
theorem Once.url_mem_visited (h : Once entry s)
    (hl : l ∈ lexicons content entry (arrivals s.deeds)) : l.url ∈ s.visited := by
  rw [h.visited, List.mem_append, List.mem_reverse]
  rcases List.mem_cons.mp hl with rfl | hl
  · exact Or.inr (List.mem_singleton_self entry)
  · obtain ⟨file, hfile, rfl⟩ := List.mem_map.mp hl
    exact Or.inl (List.mem_map_of_mem hfile)

/-- Before any renaming a text of the entry is as it is. -/
theorem linked_entryPart (content : Text) (entry : String) (text : Text) :
    (entryPart content entry text).linked [] = text := by
  have hnothing : (Lexicon.ofEntry content entry).reading [] 0 = fun _ => none := by
    funext run
    unfold Lexicon.reading Lexicon.member? Lexicon.ofEntry
    rw [if_neg (by simp)]
    cases (Scopes.bindingsOf entry (Import.all content entry)).find? fun b =>
        b.name = String.ofList run with
    | some b => rfl
    | none => rfl
  unfold entryPart Part.linked
  rw [hnothing]
  exact Lexeme.resolveFrom_none

/-- Without a closing brace there is no place for members, and with one there is. -/
theorem seat?_eq_none_iff : seat? content entry = none ↔ '}' ∉ Import.objectBody content := by
  constructor
  · intro h hbody
    obtain ⟨b, isNew, before, rest, hseparate, hbrace, -⟩ := Buffer.exists_seat entry hbody
    unfold seat? at h
    rw [hseparate, Option.bind_some, hbrace] at h
    cases h
  · intro h
    have hnone : (Buffer.ofText (Import.objectBody content) entry).separate? = none :=
      Buffer.separate?_eq_none h
    unfold seat?
    rw [hnone, Option.bind_none]

/-- The entry's object, made ready for a member, is linked before there is any. -/
theorem prepared_start (hscope : (Lexicon.ofEntry content entry).InScope scopes)
    (hnames : Draft.WellNamed scopes [] []) {before fromBrace : Text}
    (hseat : seat? content entry = some (before, fromBrace)) :
    Prepared entry (Buffer.ofText (Import.objectBody content) entry) scopes []
      ⟨Buffer.ofText (Import.objectBody content) entry, []⟩ [entryPart content entry before]
      (entryPart content entry fromBrace) := by
  -- There is a place for members, so the object has a closing brace.
  have hbody : '}' ∈ Import.objectBody content := by
    by_contra hbody
    rw [seat?_eq_none_iff.mpr hbody] at hseat
    cases hseat
  obtain ⟨b, isNew, before', rest, hseparate, hbrace, hrest, hopen, horigin, hcomposed⟩ :=
    Buffer.exists_seat entry hbody
  -- The two parts that are given are those around it.
  have hparts : some (before', '}' :: rest) = some (before, fromBrace) := by
    rw [← hseat, ← hbrace]
    unfold seat?
    rw [hseparate]
    rfl
  cases hparts
  have hknown : (Lexicon.ofEntry content entry).Known scopes [] [] :=
    ⟨fun _ => (if_neg List.not_mem_nil).symm, hscope⟩
  refine .untouched rfl hseparate ?_
  constructor
  · show Composed b [(entryPart content entry before).piece [],
      (entryPart content entry ('}' :: rest)).piece []]
    unfold Part.piece
    rw [linked_entryPart, linked_entryPart]
    exact hcomposed
  · exact horigin
  · intro p hp
    rcases List.mem_pair.mp hp with rfl | rfl <;> exact hknown
  · intro p hp _
    rcases List.mem_pair.mp hp with rfl | rfl <;> rfl
  · intro p hp
    rcases List.mem_pair.mp hp with rfl | rfl <;> exact le_refl 0
  · exact ⟨[], entryPart content entry before, rfl, hopen⟩
  · exact ⟨rfl, rest, rfl, hrest⟩
  · exact hnames

/-- A walk starts with the bindings of the entry and with its object as it is. -/
theorem lexical_start (content : Text) (entry : String) (source : σ) :
    Lexical content entry ((start content entry source).shared []) := by
  have hmem : ∀ b ∈ Scopes.record [] entry (Import.all content entry),
      b ∈ Scopes.bindingsOf entry (Import.all content entry) := fun b hb =>
    (Scopes.mem_record hb).resolve_left List.not_mem_nil
  have hscope : (Lexicon.ofEntry content entry).InScope
      (Scopes.record [] entry (Import.all content entry)) :=
    Lexicon.inScope_record (l := .ofEntry content entry) (fun b hb => by cases hb) rfl
  have hbound : ∀ b ∈ Scopes.record [] entry (Import.all content entry),
      ∃ l ∈ lexicons content entry [], b ∈ l.bindings :=
    fun b hb => ⟨.ofEntry content entry, List.mem_cons_self, hmem b hb⟩
  -- At the start there are no files but the entry, no members, and nothing is renamed.
  constructor
  · exact once_start content entry source
  · intro b hb
    rw [Scopes.importer_of_mem (hmem b hb)]
    exact List.mem_singleton_self entry
  · intro l hl
    rw [List.mem_singleton.mp hl]
    exact hscope
  · exact hbound
  · exact fun _ => rfl
  · intro before fromBrace hseat hplain
    exact prepared_start hscope (wellNamed_of_renamingsOf rfl hplain hbound) hseat

/-- A file that is put in has a lexicon besides those of the others. -/
theorem mem_lexicons_withFile {url : String} {text : Text} {source : σ} :
    l ∈ lexicons content entry (arrivals (s.withFile url text source).deeds) ↔
      l ∈ lexicons content entry (arrivals s.deeds) ∨ l = .ofFile url text := by
  rw [arrivals_withFile, lexicons_concat, List.mem_append, List.mem_singleton]

/-- Its renamings come after those that are recorded. -/
theorem Once.renamings_planned {url : String} {text : Text} {source : σ} (h : Once entry s) :
    s.draft.renamings ++ (Declaration.extract text).map (fun d => Renaming.of url d.name) =
      renamingsOf (arrivals (s.withFile url text source).deeds) := by
  rw [arrivals_withFile, h.renamings]
  unfold renamingsOf
  rw [List.flatMap_append, List.flatMap_singleton]

/-- Its members come after those of the others. -/
theorem Once.partsOf_withFile {url : String} {text : Text} {source : σ} (h : Once entry s)
    (before : Text) :
    partsOf content entry (arrivals (s.withFile url text source).deeds) before =
      partsOf content entry (arrivals s.deeds) before ++
        Part.members s.draft.renamings.length
          ((Declaration.extract text).map fun d => (Lexicon.ofFile url text, d)) := by
  rw [arrivals_withFile, partsOf_concat, length_declarationsOf, h.renamings]

/-- The scopes hold what the file binds, and what the others bind as before. -/
theorem Lexical.inScope_withFile {url : String} {text : Text} {source : σ}
    (h : Lexical content entry s) (hnew : url ∉ s.visited) :
    ∀ l ∈ lexicons content entry (arrivals (s.withFile url text source).deeds),
      l.InScope (s.withFile url text source).scopes := by
  intro l hl
  rcases mem_lexicons_withFile.mp hl with hl | rfl
  · have hother : url ≠ l.url := fun hurl => hnew (hurl ▸ h.once.url_mem_visited hl)
    exact (h.inScope l hl).record hother _
  · have hfresh : ∀ b ∈ s.scopes, b.importer ≠ url :=
      fun b hb himporter => hnew (himporter ▸ h.importers b hb)
    exact Lexicon.inScope_record (l := .ofFile url text) hfresh rfl

/-- All bindings in the scopes are bindings of files. -/
theorem Lexical.bound_withFile {url : String} {text : Text} {source : σ}
    (h : Lexical content entry s) :
    ∀ b ∈ (s.withFile url text source).scopes,
      ∃ l ∈ lexicons content entry (arrivals (s.withFile url text source).deeds),
        b ∈ l.bindings := by
  intro b hb
  rcases Scopes.mem_record hb with hb | hb
  · obtain ⟨l, hl, hmem⟩ := h.bound b hb
    exact ⟨l, mem_lexicons_withFile.mpr (Or.inl hl), hmem⟩
  · exact ⟨.ofFile url text, mem_lexicons_withFile.mpr (Or.inr rfl), hb⟩

/-- Without a place for members a file with declarations cannot be put in, and one without any changes
nothing. -/
theorem inlineFile_unseated {start : Buffer} {url : String} {ds : List Declaration}
    (hseparate : start.separate? = none)
    (hresult : ((⟨start, []⟩ : Draft).inlineFile scopes url ds).result? ≠ none) :
    ((⟨start, []⟩ : Draft).inlineFile scopes url ds).draft = ⟨start, []⟩ := by
  cases ds with
  | nil => rfl
  | cons d ds =>
    exfalso
    apply hresult
    generalize hplanned : (d :: ds).map (fun d => Renaming.of url d.name) = planned
    have hnone : ((⟨start, []⟩ : Draft).inlinePlanned scopes planned url d).result? = none := by
      -- The first declaration is not recorded, and there is no place to put its member.
      rcases Draft.inlinePlanned_cases ⟨start, []⟩ scopes planned url d with
        ⟨hrecorded, -⟩ | ⟨-, -, -, hnone⟩ | ⟨-, buffer, hinsert, -⟩
      · cases hrecorded
      · exact hnone
      · unfold Buffer.insert? at hinsert
        rw [hseparate] at hinsert
        cases hinsert
    unfold Draft.inlineFile
    rw [hplanned]
    exact (Draft.inlineEach_cons_none hnone ds).2

/-- A file that is put in adds its members to the parts. -/
theorem Lexical.prepared_withFile {url : String} {text : Text} {source : σ}
    (h : Lexical content entry s) (hnew : url ∉ s.visited)
    (honce : Once entry (s.withFile url text source)) {before fromBrace : Text}
    (hseat : seat? content entry = some (before, fromBrace))
    (hplain : PlainNames (lexicons content entry (arrivals (s.withFile url text source).deeds))) :
    Prepared entry (Buffer.ofText (Import.objectBody content) entry)
      (s.withFile url text source).scopes [] (s.withFile url text source).draft
      (partsOf content entry (arrivals (s.withFile url text source).deeds) before)
      (entryPart content entry fromBrace) := by
  have hscope : ∀ l ∈ lexicons content entry (arrivals (s.withFile url text source).deeds),
      l.InScope (s.withFile url text source).scopes := h.inScope_withFile hnew
  have hearlier : ∀ l ∈ lexicons content entry (arrivals s.deeds),
      l ∈ lexicons content entry (arrivals (s.withFile url text source).deeds) := fun l hl =>
    mem_lexicons_withFile.mpr (Or.inl hl)
  have hhere : Lexicon.ofFile url text ∈
      lexicons content entry (arrivals (s.withFile url text source).deeds) :=
    mem_lexicons_withFile.mpr (Or.inr rfl)
  have hplanned : s.draft.renamings ++ (Declaration.extract text).map
      (fun d => Renaming.of url d.name) =
        renamingsOf (arrivals (s.withFile url text source).deeds) := h.once.renamings_planned
  have hrecorded : (s.withFile url text source).draft.renamings ++ [] =
      renamingsOf (arrivals (s.withFile url text source).deeds) := by
    rw [List.append_nil]
    exact honce.renamings
  have hbefore := h.seated before fromBrace hseat fun l hl => hplain l (hearlier l hl)
  -- The file's declarations are planned, all of them are put in, and the plans are dropped.
  have hknown : ∀ l ∈ lexicons content entry (arrivals (s.withFile url text source).deeds),
      l.Known (s.withFile url text source).scopes
        ((Declaration.extract text).map fun d => Renaming.of url d.name) s.draft.renamings :=
    fun l hl => known_of_renamingsOf hplanned honce.nodup_urls hl (hscope l hl)
  have hready := hbefore.reread (fun p hp => hknown p.lexicon (hearlier _ (lexicon_mem hp)))
    (wellNamed_of_renamingsOf hplanned hplain h.bound_withFile)
  have hunrecorded : ∀ d ∈ Declaration.extract text,
      Renaming.find? s.draft.renamings (Lexicon.ofFile url text).url d.name = none := by
    intro d _
    rw [Renaming.find?_eq_none_iff]
    intro r hr hsource
    have hurl : r.source = url := hsource
    exact absurd (hurl ▸ h.once.source_mem_visited hr) hnew
  have hdone := hready.inlineEach (hknown _ hhere) (Declaration.extract text)
    (Declaration.nodup_byName _) hunrecorded fun d hd => List.mem_map_of_mem hd
  rw [← h.once.partsOf_withFile] at hdone
  exact hdone.reread
    (fun p hp => known_of_renamingsOf hrecorded honce.nodup_urls (lexicon_mem hp)
      (hscope p.lexicon (lexicon_mem hp)))
    (wellNamed_of_renamingsOf hrecorded hplain h.bound_withFile)

/-- A walk keeps it. -/
theorem lexical_kept (content : Text) (entry : String) :
    Kept (Lexical (σ := σ) content entry) where
  -- Passing over an import brings no file and leaves the draft and the scopes alone.
  pass s skipped h := by
    constructor
    · exact (once_kept entry).pass s skipped h.once
    · exact h.importers
    · rw [arrivals_pass]
      exact h.inScope
    · rw [arrivals_pass]
      exact h.bound
    · exact h.unseated
    · rw [arrivals_pass]
      exact h.seated
  -- So does a file that cannot be fetched.
  fail s url source h := by
    constructor
    · exact (once_kept entry).fail s url source h.once
    · exact h.importers
    · rw [arrivals_withFailure]
      exact h.inScope
    · rw [arrivals_withFailure]
      exact h.bound
    · exact h.unseated
    · rw [arrivals_withFailure]
      exact h.seated
  -- A file that arrives changes all of them; what it binds and declares is new to the scopes and
  -- table.
  enter s url text source h hnew hresult := by
    have honce := (once_kept entry).enter s url text source h.once hnew hresult
    constructor
    · exact honce
    · intro b hb
      show b.importer ∈ url :: s.visited
      rcases Scopes.mem_record hb with hb | hb
      · exact List.mem_cons_of_mem _ (h.importers b hb)
      · rw [Scopes.importer_of_mem hb]
        exact List.mem_cons_self
    · exact h.inScope_withFile hnew
    · exact h.bound_withFile
    · intro hseat
      have hseparate : (Buffer.ofText (Import.objectBody content) entry).separate? = none :=
        Buffer.separate?_eq_none (seat?_eq_none_iff.mp hseat)
      show (s.draft.inlineFile _ url _).draft = _
      rw [h.unseated hseat] at hresult ⊢
      exact inlineFile_unseated hseparate hresult
    · intro before fromBrace hseat hplain
      exact h.prepared_withFile hnew honce hseat hplain

/-! ## What comes out -/

/-- A draft without any renaming is the entry's object. -/
theorem linkedCode_of_isEmpty (content : Text) (entry : String) (h : renamingsOf files = []) :
    linkedCode content entry files = Import.objectBody content := by
  have hobject : contributed content entry files =
      [entryPart content entry (Import.objectBody content)] := by
    unfold contributed
    rw [h]
    cases seat? content entry with
    | none => rfl
    | some seat => rfl
  unfold linkedCode
  rw [hobject, h, List.flatMap_singleton, linked_entryPart]

/-- At each moment of a walk the text of the buffer is the code for the files so far. -/
theorem Lexical.text (h : Lexical content entry s)
    (hplain : PlainNames (lexicons content entry (arrivals s.deeds))) :
    s.draft.buffer.text = linkedCode content entry (arrivals s.deeds) := by
  -- As long as nothing was put in, the buffer is the object as it was.
  have hobject : s.draft = ⟨Buffer.ofText (Import.objectBody content) entry, []⟩ →
      s.draft.buffer.text = linkedCode content entry (arrivals s.deeds) := by
    intro hdraft
    have hnone : renamingsOf (arrivals s.deeds) = [] := by rw [← h.once.renamings, hdraft]
    rw [linkedCode_of_isEmpty content entry hnone, hdraft]
    rfl
  cases hseat : seat? content entry with
  | none => exact hobject (h.unseated hseat)
  | some seat =>
    obtain ⟨before, fromBrace⟩ := seat
    cases h.seated before fromBrace hseat hplain with
    | untouched hdraft _ _ => exact hobject hdraft
    | linked hne hlinked =>
      rw [h.once.renamings] at hne hlinked
      have hparts : contributed content entry (arrivals s.deeds) =
          partsOf content entry (arrivals s.deeds) before ++
            [entryPart content entry fromBrace] := by
        unfold contributed
        rw [hseat]
        exact if_neg (by simpa using hne)
      rw [hlinked.composed.text]
      unfold linkedCode Piece.flat
      rw [hparts, List.flatMap_map]
      rfl

/-- The code of a walk is that of one look at the end. At each free use of a name, in each text that the
entry or a fetched file contributed, stands what the lexicon of that file says of the name in the
table of all renamings, and the name itself if it says nothing. -/
theorem code_eq_linkedCode (fetcher : Fetcher σ) (options : InlineOptions) (steps : Nat)
    (content : Text) (entry : String) (source : σ) (result : Result σ) (output : Output)
    (h : inline? fetcher options steps (some content) entry source = some result)
    (hending : result.ending = .ok (some output)) (files : List (String × Text))
    (hfiles : files =
      arrivals (inlineHistory fetcher options steps (some content) entry source))
    (hplain : PlainNames (lexicons content entry files)) :
    output.renamings = renamingsOf files ∧
    output.code = linkedCode content entry files ∧
    ∀ front p back, contributed content entry files = front ++ p :: back →
      ∀ before name after, Lexeme.IsUse id before name after → p.text = before ++ name ++ after →
        let reading := p.lexicon.reading output.renamings p.earlier
        output.code = front.flatMap (Part.linked output.renamings) ++
          (Lexeme.resolve id reading before ++ (reading name).getD name ++
            Lexeme.resolve id reading after) ++
          back.flatMap (Part.linked output.renamings) := by
  obtain ⟨inside, deeds, t, hreaches, rfl, hhistory⟩ := exists_reaches_of_inline? h hending
  -- What holds at the start is kept up to the state in which the walk ends.
  have hlexical := (lexical_kept content entry).reaches hreaches (lexical_start content entry source)
  rw [List.nil_append] at hlexical
  have harrivals : files = arrivals deeds := by rw [hfiles, hhistory]
  subst harrivals
  have hrenamings : t.output.renamings = renamingsOf (arrivals deeds) := hlexical.once.renamings
  have hcode : t.output.code = linkedCode content entry (arrivals deeds) := hlexical.text hplain
  refine ⟨hrenamings, hcode, ?_⟩
  intro front p back hparts before name after huse htext reading
  -- The part around the use is resolved on both sides of it.
  have hlinked : p.linked t.output.renamings =
      Lexeme.resolve id reading before ++ (reading name).getD name ++
        Lexeme.resolve id reading after := by
    unfold Part.linked
    rw [htext]
    exact huse.resolve
  rw [← hlinked, hcode, hrenamings]
  unfold linkedCode
  rw [hparts, List.flatMap_append, List.flatMap_cons, List.append_assoc]

/-- Two files declare a helper of the same name, one for itself and one for the entry. -/
theorem code_eq_linkedCode_helpers :
    ∃ output : Output, ∃ files,
      files.map Prod.fst = ["/b", "/c"] ∧
      output.renamings.map Renaming.member = ["_inlined_b_a", "_inlined_b_h", "_inlined_c_h"] ∧
      output.code =
        linkedCode "import {a} from './b'\nimport {h} from './c'\n{x(){a(h)}}".toList "/p" files := by
  have hcode := code_eq_linkedCode Archive.fetch {} 9
    "import {a} from './b'\nimport {h} from './c'\n{x(){a(h)}}".toList "/p"
    ⟨[("/b", "function a(){h()}\nfunction h(){}".toList), ("/c", "function h(){}".toList)], [], [], []⟩
    _ _ rfl rfl _ rfl
  have ha : Plain "a" := by
    refine ⟨fun c hc => ?_, by decide⟩
    have hletter : c = 'a' := by simpa using hc
    rw [hletter]
    decide
  have hh : Plain "h" := by
    refine ⟨fun c hc => ?_, by decide⟩
    have hletter : c = 'h' := by simpa using hc
    rw [hletter]
    decide
  have hplain : PlainNames [⟨"/p", [], [⟨"/p", "a", "/b", "a"⟩, ⟨"/p", "h", "/c", "h"⟩]⟩,
      ⟨"/b", ["a", "h"], []⟩, ⟨"/c", ["h"], []⟩] := by
    unfold PlainNames
    simp [ha, hh]
  exact ⟨_, _, rfl, rfl, (hcode hplain).2.1⟩

end Graft.Walk
