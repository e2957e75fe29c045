import Graft.Proofs.Buffer.Ready
import Graft.Proofs.Draft.Redirection

/-!
# Drafts that are linked

The text of a draft is put together from parts, each as it was when it was put in, with the names in
it read once by the lexicon of its file and the table of all renamings made so far (`Linked`). A
declaration that is put in adds a part at the end (`Linked.insert`); redirecting all names after
that turns every older part into the same part read with the longer table, and reads the new part for
the first time. So a whole file adds one part for each of its declarations (`Prepared.inlineEach`).
-/

namespace Graft

open Lexeme (IsLetter StartsApart EndsApart Apart resolve)
open Buffer (Composed Ready EndsOpen)
open Piece (flat)

/-- A text as it is put into the object, by a file that says what the names in it stand for. -/
structure Part where
  lexicon : Lexicon
  /-- How many renamings were made before the text was put in. -/
  earlier : Nat
  /-- Whether the text is a member; if not, it is text of the entry. -/
  isMember : Bool
  text : Text

namespace Part

/-- The text with its names read in a table of renamings. -/
def linked (table : List Renaming) (p : Part) : Text :=
  resolve id (p.lexicon.reading table p.earlier) p.text

/-- The part of a buffer that the text is. -/
def piece (table : List Renaming) (p : Part) : Piece :=
  ⟨if p.isMember then some p.lexicon.url else none, p.linked table⟩

/-- The member that a declaration of a file becomes. -/
def ofDeclaration (l : Lexicon) (d : Declaration) (earlier : Nat) : Part :=
  ⟨l, earlier, true, Member.render d (Member.inlinedName l.url d.name)⟩

/-- The members that declarations become, one after the other, where `earlier` renamings were made
before the first of them. -/
def members (earlier : Nat) (declarations : List (Lexicon × Declaration)) : List Part :=
  (declarations.zipIdx earlier).map fun c => ofDeclaration c.1.1 c.1.2 c.2

/-- The members of more declarations come behind, and each one counts all before it. -/
@[simp]
theorem members_append (earlier : Nat) (front back : List (Lexicon × Declaration)) :
    members earlier (front ++ back) = members earlier front ++ members (earlier + front.length) back := by
  unfold members
  rw [List.zipIdx_append, List.map_append]

end Part

/-- A rendered member is followed by a comma and the end of a line. -/
theorem Member.endsOpen_render (d : Declaration) (name : String) : EndsOpen (Member.render d name) := by
  unfold Member.render
  dsimp only
  generalize Text.trim _ = member
  have hspace : ∀ c ∈ ['\n'], Alphabet.isSpace c = true := by
    intro c hc
    rw [List.mem_singleton.mp hc]
    decide
  -- A comma is put behind the member unless it ends with one.
  by_cases hcomma : Text.endsWith ',' member = true
  · refine ⟨['\n', ' ', ' '] ++ member, ['\n'], by simp [hcomma], ?_, hspace⟩
    have hlast : member.getLast? = some ',' := by simpa [Text.endsWith] using hcomma
    have hne : member ≠ [] := by
      rintro rfl
      simp at hlast
    unfold Buffer.isOpen Text.endsWith
    rw [List.getLast?_append_of_ne_nil _ hne, hlast]
    rfl
  · refine ⟨['\n', ' ', ' '] ++ member ++ [','], ['\n'], by simp [hcomma], ?_, hspace⟩
    exact Buffer.isOpen_iff.mpr ⟨_, ',', rfl, Or.inl rfl⟩

/-- A rendered member is not empty. -/
theorem Member.render_ne_nil (d : Declaration) (name : String) : Member.render d name ≠ [] := by
  unfold Member.render
  simp

/-- A buffer whose text is that of parts, each read once in the table as it is, with the last part from
the last closing brace on. -/
structure Linked (entry : String) (scopes : Scopes) (planned table : List Renaming) (b : Buffer)
    (parts : List Part) (last : Part) : Prop where
  composed : Composed b ((parts ++ [last]).map (Part.piece table))
  origin : b.origin = entry
  /-- The draft knows the files of all parts. -/
  known : ∀ p ∈ parts ++ [last], p.lexicon.Known scopes planned table
  /-- Text outside of members comes from the entry. -/
  ofEntry : ∀ p ∈ parts ++ [last], p.isMember = false → p.lexicon.url = entry
  earlier : ∀ p ∈ parts ++ [last], p.earlier ≤ table.length
  /-- A member may follow the parts before the brace. -/
  isOpen : ∃ front p, parts = front ++ [p] ∧ EndsOpen p.text
  brace : last.isMember = false ∧ ∃ rest, last.text = '}' :: rest ∧ '}' ∉ rest
  names : Draft.WellNamed scopes planned table

variable {entry : String} {scopes : Scopes} {planned table : List Renaming} {b : Buffer}
  {parts : List Part} {last : Part} {l : Lexicon} {made : Renaming} {p : Part}

namespace Lexicon

/-- A name in a file that the draft knows stands for a renaming made or planned. -/
theorem Known.exists_of_member? (h : l.Known scopes planned table)
    (hgenerated : Generated (table ++ planned)) {earlier : Nat} {name member : String}
    (hmember : l.member? table earlier name = some member) :
    ∃ r ∈ table ++ planned, r.member = member := by
  unfold member? at hmember
  split at hmember
  · next hdeclared =>
    -- A declared name is planned or recorded.
    cases hmember
    have hown := h.own name
    rw [if_pos hdeclared, Option.orElse_eq_orElse, Option.orElse_eq_or, Option.or_eq_some_iff] at hown
    refine ⟨Renaming.of l.url name, ?_, rfl⟩
    rcases hown with hfind | ⟨-, hfind⟩
    · exact List.mem_append_right _ (Renaming.find?_eq_some hfind).1
    · exact List.mem_append_left _ (Renaming.find?_eq_some hfind).1
  · split at hmember
    · next binding _ =>
      have htable : Generated table := fun r hr => hgenerated r (List.mem_append_left _ hr)
      rw [← map_member_find? htable] at hmember
      obtain ⟨r, hr, hrmember⟩ := Option.map_eq_some_iff.mp hmember
      exact ⟨r, List.mem_append_left _ (Renaming.find?_eq_some hr).1, hrmember⟩
    · obtain ⟨r, hr, hrmember⟩ := Option.map_eq_some_iff.mp hmember
      exact ⟨r, List.mem_append_left _ (Renaming.mem_of_seenElsewhere? hr), hrmember⟩

/-- What is written for it is sealed. -/
theorem Known.sealed (h : l.Known scopes planned table)
    (hnames : Draft.WellNamed scopes planned table) {earlier : Nat} {run target : Text}
    (htarget : l.reading table earlier run = some target) : Sealed target := by
  obtain ⟨member, hmember, rfl⟩ := Option.map_eq_some_iff.mp htarget
  obtain ⟨r, hr, rfl⟩ := h.exists_of_member? hnames.generated hmember
  exact hnames.sealed hr

/-- A renaming that was planned may be recorded: the draft still knows the same files. -/
theorem Known.concat (h : l.Known scopes planned table) (hmade : made ∈ planned) :
    l.Known scopes planned (table ++ [made]) where
  own name := by
    rw [Renaming.find?_concat, ← h.own]
    cases hplanned : Renaming.find? planned l.url name with
    | some s => rfl
    | none =>
      -- Were it the new renaming, it would have been found among the planned ones.
      have hnew : Renaming.find? [made] l.url name = none := by
        rw [Renaming.find?_eq_none_iff] at hplanned ⊢
        intro s hs
        rw [List.mem_singleton.mp hs]
        exact hplanned made hmade
      rw [hnew, Option.or_none]
  bindings := h.bindings

end Lexicon

/-! ## One declaration -/

namespace Part

/-- A part that is read in a table is read in a longer one by resolving it again. -/
theorem resolveAs_piece (h : p.lexicon.Known scopes planned table)
    (hnames : Draft.WellNamed scopes planned table) (hmade : made ∈ planned)
    (hearlier : p.earlier ≤ table.length) (hentry : p.isMember = false → p.lexicon.url = entry) :
    (p.piece table).resolveAs (Draft.written (table ++ [made]) scopes planned) entry =
      p.piece (table ++ [made]) := by
  have hsource : (p.piece table).source entry = p.lexicon.url := by
    unfold piece Piece.source
    cases hmember : p.isMember with
    | true => rfl
    | false => exact (hentry hmember).symm
  -- What was written for a name stays, since nothing is written for `this`.
  have hkept : ∀ run r, p.lexicon.reading table p.earlier run = some r →
      resolve id (Draft.written (table ++ [made]) scopes planned p.lexicon.url) r = r :=
    fun run r hr => (h.sealed hnames hr).resolve ((hnames.concat hmade).written_this p.lexicon.url)
  have hgenerated : Lexicon.Generated (table ++ [made]) := fun r hr =>
    (hnames.concat hmade).generated r (List.mem_append_left _ hr)
  have htwice : (fun run => (p.lexicon.reading table p.earlier run).or
      (Draft.written (table ++ [made]) scopes planned p.lexicon.url run)) =
      p.lexicon.reading (table ++ [made]) p.earlier :=
    funext fun run => Lexicon.reading_concat (h.concat hmade) hgenerated hearlier run
  unfold Piece.resolveAs
  rw [hsource]
  unfold piece linked
  rw [Lexeme.resolve_resolve hkept, htwice]

/-- A declaration that is put in is read for the first time. -/
theorem resolveAs_fresh {d : Declaration} (h : l.Known scopes planned table)
    (hnames : Draft.WellNamed scopes planned table) (hmade : Renaming.of l.url d.name ∈ planned) :
    (Piece.mk (some l.url) (Member.render d (Member.inlinedName l.url d.name))).resolveAs
        (Draft.written (table ++ [Renaming.of l.url d.name]) scopes planned) entry =
      (ofDeclaration l d table.length).piece (table ++ [Renaming.of l.url d.name]) := by
  have hgenerated : Lexicon.Generated (table ++ [Renaming.of l.url d.name]) := fun r hr =>
    (hnames.concat hmade).generated r (List.mem_append_left _ hr)
  have hfresh : Draft.written (table ++ [Renaming.of l.url d.name]) scopes planned l.url =
      l.reading (table ++ [Renaming.of l.url d.name]) table.length :=
    funext fun run => Lexicon.reading_fresh (h.concat hmade) hgenerated rfl run
  exact congrArg (fun read => Piece.mk (some l.url)
    (resolve id read (Member.render d (Member.inlinedName l.url d.name)))) hfresh

end Part

namespace Linked

/-- A linked buffer is ready for a member. -/
theorem ready (h : Linked entry scopes planned table b parts last) :
    ∃ rest, Ready b (parts.map (Part.piece table)) rest ∧
      last.piece table = ⟨none, '}' :: rest⟩ := by
  obtain ⟨hmember, rest, htext, hrest⟩ := h.brace
  have hbrace : ¬ IsLetter id '}' := by decide
  have hlast : last.piece table = ⟨none, '}' ::
      Lexeme.resolveFrom id (last.lexicon.reading table last.earlier) (id '}' = '.') rest⟩ := by
    unfold Part.piece Part.linked
    rw [hmember, htext]
    exact congrArg (Piece.mk none) (Lexeme.resolveFrom_mark hbrace)
  -- The last part still starts with the brace, since that belongs to no name.
  refine ⟨_, ⟨?_, ?_, ?_⟩, hlast⟩
  · have := h.composed
    rwa [List.map_append, List.map_singleton, hlast] at this
  · -- What is written for names has no brace.
    intro hmem
    rcases Lexeme.mem_resolveFrom hmem with hmem | ⟨run, r, hr, hmem⟩
    · exact hrest hmem
    · exact ((h.known last (by simp)).sealed h.names hr).brace_notMem hmem
  · obtain ⟨front, p, rfl, hopen⟩ := h.isOpen
    rw [List.map_append, Piece.flat_append, List.map_singleton, Piece.flat_cons, Piece.flat_nil,
      List.append_nil]
    exact (hopen.resolve _).append _

/-- After a declaration is put in, redirecting all names reads the parts on in the longer table, and the
new one for the first time. -/
theorem composed_redirectAll {c : Buffer} (h : Linked entry scopes planned table b parts last)
    (hl : l.Known scopes planned table) {d : Declaration}
    (hplanned : Renaming.of l.url d.name ∈ planned) (horigin : c.origin = entry)
    (hcomposed : Composed c (parts.map (Part.piece table) ++
      [⟨some l.url, Member.render d (Member.inlinedName l.url d.name)⟩] ++ [last.piece table])) :
    Composed (Draft.redirectAll c (table ++ [Renaming.of l.url d.name]) scopes planned).1
      ((parts ++ [Part.ofDeclaration l d table.length] ++ [last]).map
        (Part.piece (table ++ [Renaming.of l.url d.name]))) := by
  have hold : ∀ q ∈ parts ++ [last], (q.piece table).resolveAs
      (Draft.written (table ++ [Renaming.of l.url d.name]) scopes planned) entry =
        q.piece (table ++ [Renaming.of l.url d.name]) :=
    fun q hq => Part.resolveAs_piece (h.known q hq) h.names hplanned (h.earlier q hq) (h.ofEntry q hq)
  have hparts : parts.map (Piece.resolveAs
      (Draft.written (table ++ [Renaming.of l.url d.name]) scopes planned) entry ∘
        Part.piece table) = parts.map (Part.piece (table ++ [Renaming.of l.url d.name])) :=
    List.map_congr_left fun q hq => hold q (List.mem_append_left _ hq)
  -- All pieces are resolved; what that makes of the old parts and of the new one is known.
  have hredirected := hcomposed.redirectAll (h.names.concat hplanned)
  rw [horigin, List.map_append, List.map_append, List.map_map, hparts, List.map_singleton,
    List.map_singleton, hold last (by simp), Part.resolveAs_fresh hl h.names hplanned] at hredirected
  rwa [List.map_append, List.map_append, List.map_singleton, List.map_singleton]

/-- A declaration whose renaming is planned adds a part: its member goes in, its renaming is recorded,
and all names are redirected. -/
theorem insert {b₀ : Buffer} {isNew : Bool} (h : Linked entry scopes planned table b parts last)
    (hseparate : b₀.separate? = some (b, isNew)) (hl : l.Known scopes planned table) (d : Declaration)
    (hplanned : Renaming.of l.url d.name ∈ planned) :
    ∃ c, b₀.insert? (Member.render d (Member.inlinedName l.url d.name)) l.url = some c ∧
      Linked entry scopes planned (table ++ [Renaming.of l.url d.name])
        (Draft.redirectAll c (table ++ [Renaming.of l.url d.name]) scopes planned).1
        (parts ++ [Part.ofDeclaration l d table.length]) last := by
  obtain ⟨rest, hready, hlast⟩ := h.ready
  obtain ⟨c, hinsert, hcomposed, horigin, -⟩ :=
    hready.insert? hseparate (Member.render_ne_nil d (Member.inlinedName l.url d.name)) l.url
  have hentry : c.origin = entry := horigin.trans h.origin
  -- What holds of the old parts and of the new one holds of all of them.
  have hmem : ∀ {P : Part → Prop}, (∀ q ∈ parts ++ [last], P q) →
      P (Part.ofDeclaration l d table.length) →
      ∀ q ∈ parts ++ [Part.ofDeclaration l d table.length] ++ [last], P q := by
    intro P hP hnew q hq
    simp only [List.mem_append, List.mem_singleton] at hq
    rcases hq with (hq | rfl) | rfl
    · exact hP q (by simp [hq])
    · exact hnew
    · exact hP q (by simp)
  rw [← hlast] at hcomposed
  refine ⟨c, hinsert, ?_⟩
  constructor
  · exact h.composed_redirectAll hl hplanned hentry hcomposed
  · rw [Draft.redirectAll_origin]
    exact hentry
  · exact hmem (fun q hq => (h.known q hq).concat hplanned) (hl.concat hplanned)
  · exact hmem h.ofEntry fun hmember => by cases hmember
  · rw [List.length_append]
    refine hmem (fun q hq => ?_) ?_
    · have hearlier := h.earlier q hq
      omega
    · show table.length ≤ table.length + 1
      omega
  · exact ⟨parts, _, rfl, Member.endsOpen_render d _⟩
  · exact h.brace
  · exact h.names.concat hplanned

end Linked

/-! ## The declarations of a file -/

/-- A draft that is linked, or that still has the buffer it started with, which becomes linked when it
is made ready for a member. -/
inductive Prepared (entry : String) (start : Buffer) (scopes : Scopes) (planned : List Renaming)
    (draft : Draft) (parts : List Part) (last : Part) : Prop
  | untouched {b : Buffer} {isNew : Bool} (hdraft : draft = ⟨start, []⟩)
      (hseparate : start.separate? = some (b, isNew))
      (h : Linked entry scopes planned [] b parts last)
  | linked (hne : draft.renamings ≠ [])
      (h : Linked entry scopes planned draft.renamings draft.buffer parts last)

variable {start : Buffer} {draft : Draft} {d : Declaration}

/-- Made ready for a member, the buffer of a prepared draft is linked. -/
theorem Prepared.exists_separate (h : Prepared entry start scopes planned draft parts last) :
    ∃ b isNew, draft.buffer.separate? = some (b, isNew) ∧
      Linked entry scopes planned draft.renamings b parts last := by
  cases h with
  | untouched hdraft hseparate h =>
    subst hdraft
    exact ⟨_, _, hseparate, h⟩
  | linked _ h =>
    obtain ⟨rest, hready, -⟩ := h.ready
    exact ⟨draft.buffer, false, hready.separate?, h⟩

/-- A planned declaration that is not recorded yet is put in and leaves the draft linked. -/
theorem Prepared.inlinePlanned (h : Prepared entry start scopes planned draft parts last)
    (hl : l.Known scopes planned draft.renamings)
    (hnew : Renaming.find? draft.renamings l.url d.name = none)
    (hplanned : Renaming.of l.url d.name ∈ planned) :
    (draft.inlinePlanned scopes planned l.url d).result? = some true ∧
      (draft.inlinePlanned scopes planned l.url d).draft.renamings =
        draft.renamings ++ [Renaming.of l.url d.name] ∧
      Linked entry scopes planned (draft.inlinePlanned scopes planned l.url d).draft.renamings
        (draft.inlinePlanned scopes planned l.url d).draft.buffer
        (parts ++ [Part.ofDeclaration l d draft.renamings.length]) last := by
  obtain ⟨b, isNew, hseparate, hlinked⟩ := h.exists_separate
  obtain ⟨c, hinsert, hafter⟩ := hlinked.insert hseparate hl d hplanned
  -- Of the three outcomes, two are excluded: it is not recorded, and there is a place.
  rcases Draft.inlinePlanned_cases draft scopes planned l.url d with
    ⟨hrecorded, -, -⟩ | ⟨-, hnone, -, -⟩ | ⟨-, buffer, hsome, hdraft, hresult⟩
  · rw [hnew] at hrecorded
    cases hrecorded
  · have hclash : some c = none := hinsert.symm.trans hnone
    cases hclash
  · have hbuffer : buffer = c := Option.some.inj (hsome.symm.trans hinsert)
    subst hbuffer
    rw [hdraft]
    exact ⟨hresult, rfl, hafter⟩

/-- The declarations of a file add one part each. -/
theorem Prepared.inlineEach (h : Prepared entry start scopes planned draft parts last)
    (hl : l.Known scopes planned draft.renamings) (ds : List Declaration)
    (hnames : (ds.map Declaration.name).Nodup)
    (hnew : ∀ d ∈ ds, Renaming.find? draft.renamings l.url d.name = none)
    (hplanned : ∀ d ∈ ds, Renaming.of l.url d.name ∈ planned) :
    Prepared entry start scopes planned (draft.inlineEach scopes planned l.url ds).draft
      (parts ++ Part.members draft.renamings.length (ds.map fun d => (l, d))) last := by
  induction ds generalizing draft parts with
  | nil =>
    show Prepared entry start scopes planned draft (parts ++ []) last
    rwa [List.append_nil]
  | cons d ds ih =>
    obtain ⟨hresult, hrenamings, hlinked⟩ :=
      h.inlinePlanned hl (hnew d (by simp)) (hplanned d (by simp))
    -- The others are still to be put in, of the same file and under other names.
    have hstill : ∀ e ∈ ds, Renaming.find?
        (draft.inlinePlanned scopes planned l.url d).draft.renamings l.url e.name = none := by
      rw [hrenamings]
      exact Draft.unrecorded_concat hnew hnames
    have hknown : l.Known scopes planned
        (draft.inlinePlanned scopes planned l.url d).draft.renamings := by
      rw [hrenamings]
      exact hl.concat (hplanned d (by simp))
    have hrecorded : (draft.inlinePlanned scopes planned l.url d).draft.renamings ≠ [] := by
      rw [hrenamings]
      simp
    have hothers := ih (.linked hrecorded hlinked) hknown (List.nodup_cons.mp hnames).2 hstill fun e he =>
      hplanned e (by simp [he])
    have hparts : parts ++ [Part.ofDeclaration l d draft.renamings.length] ++
        Part.members (draft.inlinePlanned scopes planned l.url d).draft.renamings.length
          (ds.map fun d => (l, d)) =
        parts ++ Part.members draft.renamings.length ((d :: ds).map fun d => (l, d)) := by
      rw [hrenamings, List.append_assoc]
      simp [Part.members]
    rw [(Draft.inlineEach_cons_some hresult ds).1, ← hparts]
    exact hothers

/-! ## Between files -/

/-- What the parts are read by may change, as long as the draft knows the files of all parts. -/
theorem Linked.reread {scopes' : Scopes} {planned' : List Renaming}
    (h : Linked entry scopes planned table b parts last)
    (hknown : ∀ p ∈ parts ++ [last], p.lexicon.Known scopes' planned' table)
    (hnames : Draft.WellNamed scopes' planned' table) :
    Linked entry scopes' planned' table b parts last where
  composed := h.composed
  origin := h.origin
  known := hknown
  ofEntry := h.ofEntry
  earlier := h.earlier
  isOpen := h.isOpen
  brace := h.brace
  names := hnames

/-- A prepared draft stays prepared when it goes on to another file. -/
theorem Prepared.reread {scopes' : Scopes} {planned' : List Renaming}
    (h : Prepared entry start scopes planned draft parts last)
    (hknown : ∀ p ∈ parts ++ [last], p.lexicon.Known scopes' planned' draft.renamings)
    (hnames : Draft.WellNamed scopes' planned' draft.renamings) :
    Prepared entry start scopes' planned' draft parts last := by
  cases h with
  | untouched hdraft hseparate h =>
    rw [hdraft] at hknown hnames
    exact .untouched hdraft hseparate (h.reread hknown hnames)
  | linked hne h => exact .linked hne (h.reread hknown hnames)

end Graft
