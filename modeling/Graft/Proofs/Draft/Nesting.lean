import Graft.Proofs.Buffer.Seat
import Graft.Proofs.Draft.Calls
import Graft.Proofs.Text.Nesting

/-!
# The object stays well nested

Nothing that is done to a well nested text changes its braces, but for a well nested member that goes
in as a whole: a comma is none, and redirecting names that have none takes none away and puts none in
(`Buffer.braces_redirect`). So one turn keeps a draft well nested (`Nested.turn`), and so does any
number of them. The closing brace at the end closes an outermost block all the while, which is the block
that the members are in.
-/

namespace Graft

open Text (Braceless WellNested braces isBrace)

namespace Buffer

variable {b b' : Buffer} {name : String} {answer : String → Option String} {kept blank rest : Text}

/-- Redirecting a name keeps the braces, if neither the name nor what replaces it has any. -/
theorem braces_redirect (hname : Braceless name.toList)
    (hanswer : ∀ source r, answer source = some r → Braceless r.toList) :
    braces (b.redirect name answer).1.text = braces b.text := by
  obtain ⟨found, htext, hfilled⟩ := b.exists_stretches name answer
  -- Each stretch keeps its braces: an occurrence has none, and neither has what replaces it.
  have hstretch : ∀ s : Stretch, braces (s.filled name.toList (b.answerAt answer)) =
      braces (s.text name.toList) := by
    intro s
    rcases s.edit?_cases name.toList (b.answerAt answer) with ⟨-, hfilled⟩ | ⟨start, r, rfl, -, hsome⟩
    · rw [hfilled]
    · unfold Stretch.edit? at hsome
      obtain ⟨r', hr', -⟩ := Option.map_eq_some_iff.mp hsome
      obtain ⟨answered, hsource, rfl⟩ := Option.map_eq_some_iff.mp hr'
      rw [Stretch.filled, hr', Option.getD_some, Text.braces_eq_nil.mpr (hanswer _ _ hsource)]
      exact (Text.braces_eq_nil.mpr hname).symm
  rw [hfilled, htext]
  unfold braces at hstretch ⊢
  rw [List.filter_flatMap, List.filter_flatMap]
  exact List.flatMap_congr fun s _ => hstretch s

/-- A member that goes in adds its braces before the last closing brace, and nothing else does. -/
theorem Seat.braces_insert? (h : Seat b.text kept blank rest) {member : Text} {source : String}
    (hinsert : b.insert? member source = some b') :
    braces b'.text = braces ((kept ++ blank) ++ (member ++ '}' :: rest)) := by
  obtain ⟨c, spans, hc, htext, -⟩ := h.insert? member source
  have hseparator : braces (separator kept) = [] := by
    rw [Text.braces_eq_nil]
    unfold separator
    split
    · decide
    · decide
  have hsame : b' = c := Option.some.inj (hinsert.symm.trans hc)
  rw [hsame, htext]
  simp [hseparator]

end Buffer

/-- An identifier has no braces in it. -/
theorem Text.braceless_of_letters {t : Text} (h : ∀ c ∈ t, Lexeme.IsLetter id c) :
    Text.Braceless t := by
  intro c hc
  have hopening : c ≠ '{' := by
    rintro rfl
    exact absurd (h _ hc) (by decide)
  have hclosing : c ≠ '}' := by
    rintro rfl
    exact absurd (h _ hc) (by decide)
  simp [isBrace, hopening, hclosing]

/-- A renaming without braces in its names. -/
def Renaming.Braceless (r : Renaming) : Prop :=
  Text.Braceless r.name.toList ∧ Text.Braceless r.member.toList

/-- A generated name has no braces but those of the declared name. -/
theorem Renaming.braceless_of {name : String} (h : Text.Braceless name.toList) (source : String) :
    (Renaming.of source name).Braceless := by
  have hgenerated : Text.Braceless (Member.inlinedName source "").toList :=
    Text.braceless_of_letters (Member.letters_inlinedName (by simp))
  refine ⟨h, fun c hc => ?_⟩
  have hc : c ∈ (Member.inlinedName source name).toList := hc
  -- The name is made of what is generated for the empty name, and of the declared name.
  have hparts : c ∈ (Member.inlinedName source "").toList ∨ c ∈ name.toList := by
    rw [Member.toList_inlinedName] at hc ⊢
    rw [← List.append_assoc, List.mem_append, List.mem_cons] at hc
    rw [← List.append_assoc, List.mem_append, List.mem_cons]
    rcases hc with hc | hc | hc
    · exact Or.inl (Or.inl hc)
    · exact Or.inl (Or.inr (Or.inl hc))
    · exact Or.inr hc
  exact hparts.elim (hgenerated c) (h c)

namespace Draft

variable {draft : Draft} {t : Turn} {turns : List Turn} {b : Buffer} {renamings planned : List Renaming} {scopes : Scopes}

/-- Redirecting all names keeps the braces, if no name that is known has any. -/
theorem braces_redirectAll (hrenamings : ∀ r ∈ renamings ++ planned, r.Braceless)
    (hlocals : ∀ binding ∈ scopes, Braceless binding.name.toList) :
    braces (redirectAll b renamings scopes planned).1.text = braces b.text := by
  have hnames : ∀ name ∈ candidateNames renamings scopes planned, Braceless name.toList := by
    intro name hname
    rcases mem_candidateNames.mp hname with hname | hname
    · obtain ⟨r, hr, rfl⟩ := List.mem_map.mp hname
      exact (hrenamings r hr).1
    · obtain ⟨binding, hbinding, rfl⟩ := List.mem_map.mp hname
      exact hlocals binding hbinding
  have htargets : ∀ name source r, target? renamings scopes planned name source = some r →
      Braceless r.toList := by
    intro name source r hr
    obtain ⟨made, hmade, rfl⟩ := Option.map_eq_some_iff.mp hr
    have hthis : Braceless "this.".toList := by decide
    rw [String.toList_append]
    exact List.forall_mem_append.mpr ⟨hthis, (hrenamings made (resolve?_cases hmade).1).2⟩
  rw [redirectAll_fst]
  -- From here on the names can be any, which the induction needs since each pass leaves fewer of them.
  generalize candidateNames renamings scopes planned = names at hnames
  induction names generalizing b with
  | nil => rfl
  | cons name names ih =>
    rw [List.foldl_cons, ih fun n hn => hnames n (List.mem_cons_of_mem _ hn)]
    exact Buffer.braces_redirect (hnames name List.mem_cons_self) (htargets name)

/-- A draft with a well nested text and a closing brace in it, which knows no names with braces. -/
structure Nested (draft : Draft) : Prop where
  text : WellNested draft.buffer.text
  brace : '}' ∈ draft.buffer.text
  names : ∀ r ∈ draft.renamings, r.Braceless

/-- A brace is in a text exactly if it is among its braces. -/
theorem brace_mem_iff {text : Text} : '}' ∈ text ↔ '}' ∈ braces text := by
  unfold braces
  rw [List.mem_filter]
  simp [isBrace]

/-- A turn with a well nested member keeps a draft well nested. -/
theorem Nested.turn (h : Nested draft) (hnames : ∀ name ∈ t.allNames, Braceless name.toList)
    (hmember : WellNested t.member) : Nested (draft.turn t) := by
  rcases turn_cases draft t with ⟨-, hdraft, -⟩ | ⟨-, -, b, hinsert, hdraft⟩
  · rwa [hdraft]
  · obtain ⟨kept, blank, rest, hseat⟩ := Buffer.Seat.exists_of_mem h.brace
    have hmade : ∀ r ∈ draft.renamings ++ [t.made], r.Braceless := by
      intro r hr
      rcases List.mem_append.mp hr with hr | hr
      · exact h.names r hr
      · rw [List.mem_singleton.mp hr]
        exact Renaming.braceless_of (hnames _ List.mem_cons_self) t.source
    have hplanned : ∀ r ∈ t.planned, r.Braceless := by
      intro r hr
      obtain ⟨name, hname, rfl⟩ := List.mem_map.mp hr
      exact Renaming.braceless_of
        (hnames name (List.mem_cons_of_mem _ (List.mem_append_left _ hname))) t.source
    have hlocals : ∀ binding ∈ t.scopes, Braceless binding.name.toList := fun binding hbinding =>
      hnames _ (List.mem_cons_of_mem _ (List.mem_append_right _ (List.mem_map_of_mem hbinding)))
    -- The braces are those of the old text with those of the member put in.
    have hbraces : braces (draft.turn t).buffer.text =
        braces ((kept ++ blank) ++ (t.member ++ '}' :: rest)) := by
      rw [hdraft, ← hseat.braces_insert? hinsert]
      exact braces_redirectAll
        (fun r hr => (List.mem_append.mp hr).elim (hmade r) (hplanned r)) hlocals
    have hwhole : WellNested ((kept ++ blank) ++ '}' :: rest) := by
      rw [List.append_assoc, ← hseat.eq]
      exact h.text
    refine ⟨(hwhole.insert hmember).congr hbraces, ?_, ?_⟩
    · rw [brace_mem_iff, hbraces, ← brace_mem_iff]
      simp
    · rw [hdraft]
      exact hmade

/-- So do any number of turns. -/
theorem Nested.foldl_turn (h : Nested draft)
    (hnames : ∀ t ∈ turns, ∀ name ∈ t.allNames, Braceless name.toList)
    (hmembers : ∀ t ∈ turns, WellNested t.member) : Nested (turns.foldl Draft.turn draft) := by
  induction turns generalizing draft with
  | nil => exact h
  | cons t turns ih =>
    rw [List.foldl_cons]
    exact ih (h.turn (hnames t List.mem_cons_self) (hmembers t List.mem_cons_self))
      (fun u hu => hnames u (List.mem_cons_of_mem _ hu))
      fun u hu => hmembers u (List.mem_cons_of_mem _ hu)

/-- A draft with a well nested text that has a brace stays well nested, turn by turn through any calls
whose members are well nested and whose names have no braces. At any point of that its last closing
brace closes an outermost block, and no brace follows it. -/
theorem wellNested_calls (draft : Draft) (calls : List Call) (htext : WellNested draft.buffer.text)
    (hbrace : '{' ∈ draft.buffer.text ∨ '}' ∈ draft.buffer.text)
    (htable : ∀ r ∈ draft.renamings, r.Braceless)
    (hnames : ∀ c ∈ calls, ∀ name ∈ c.names, Braceless name.toList)
    (hmembers : ∀ c ∈ calls, ∀ t ∈ c.turns, WellNested t.member) :
    calls.foldl call draft = (calls.flatMap Call.turns).foldl Draft.turn draft ∧
      ∀ turns, turns <+: calls.flatMap Call.turns →
        WellNested (turns.foldl Draft.turn draft).buffer.text ∧
          ∃ outer inner rest, (turns.foldl Draft.turn draft).buffer.text =
              outer ++ '{' :: (inner ++ '}' :: rest) ∧
            WellNested outer ∧ WellNested inner ∧ Braceless rest := by
  refine ⟨foldl_call draft calls, fun turns hturns => ?_⟩
  -- A text with as many braces of both kinds has a closing one if it has any.
  have hclosing : '}' ∈ draft.buffer.text := by
    have htotal := htext.total
    rw [← List.count_pos_iff]
    rcases hbrace with hbrace | hbrace
    · have := List.count_pos_iff.mpr hbrace
      omega
    · exact List.count_pos_iff.mpr hbrace
  have hnested : Nested (turns.foldl Draft.turn draft) := by
    refine Nested.foldl_turn ⟨htext, hclosing, htable⟩
      (fun t ht => Call.forall_names hnames t (hturns.subset ht)) fun t ht => ?_
    obtain ⟨c, hc, htc⟩ := List.mem_flatMap.mp (hturns.subset ht)
    exact hmembers c hc t htc
  obtain ⟨before, rest, hrest, htext'⟩ := Text.exists_last_occurrence hnested.brace
  have hwhole := hnested.text
  rw [htext'] at hwhole
  obtain ⟨outer, inner, rfl, houter, hinner, hbraceless⟩ := hwhole.exists_last_block hrest
  exact ⟨hnested.text, outer, inner, rest, by rw [htext']; simp, houter, hinner, hbraceless⟩

/-- An object with a block and a comment behind it, which takes a file with two helpers. -/
theorem wellNested_calls_helpers :
    WellNested ([Call.file [⟨"/p", "pad", "/a", "pad"⟩] "/a" (Declaration.extract
        "function pad() \x7bif (x) \x7bfill()\x7d\x7d\nconst fill = () => 1".toList)].foldl call
      ⟨Buffer.ofText "\x7brun() \x7bpad()\x7d\x7d // end".toList "/p", []⟩).buffer.text := by
  obtain ⟨hturns, hnested⟩ := wellNested_calls
    ⟨Buffer.ofText "\x7brun() \x7bpad()\x7d\x7d // end".toList "/p", []⟩
    [Call.file [⟨"/p", "pad", "/a", "pad"⟩] "/a" (Declaration.extract
      "function pad() \x7bif (x) \x7bfill()\x7d\x7d\nconst fill = () => 1".toList)]
    (by decide +kernel) (by decide +kernel) (fun r hr => absurd hr List.not_mem_nil)
    (by decide +kernel) (by decide +kernel)
  rw [hturns]
  exact (hnested _ (List.prefix_refl _)).1

end Draft

end Graft
