import Graft.Proofs.Buffer.Ready
import Graft.Proofs.Draft.Brace

/-!
# Calls on a draft

A draft is changed by calls, each of which puts in one declaration or all declarations of a file. A
call is a row of turns, one for each declaration (`foldl_call`). A turn leaves the draft as it is, or
puts in a member, records its renaming and redirects all names (`turn_cases`). So what a draft has
become is told by its history, the turns that put something in (`renamings_foldl_turn`).
-/

namespace Graft.Draft

/-- A declaration whose turn it is to be put in: the file that it comes from, the names that the file
is about to declare, and what imports have bound by then. -/
structure Turn where
  scopes : Scopes
  names : List String
  source : String
  declaration : Declaration

/-- A call that puts in a declaration by itself, or all declarations of a file. -/
inductive Call where
  | declaration (scopes : Scopes) (source : String) (d : Declaration)
  | file (scopes : Scopes) (source : String) (ds : List Declaration)

namespace Turn

/-- The renamings that the file is about to make. -/
def planned (t : Turn) : List Renaming := t.names.map (Renaming.of t.source)

/-- The renaming that the declaration makes. -/
def made (t : Turn) : Renaming := Renaming.of t.source t.declaration.name

/-- The member that the declaration becomes. -/
def member (t : Turn) : Text := Member.render t.declaration t.made.member

/-- The names that the turn brings: the declared ones, and the local ones of imports. -/
def allNames (t : Turn) : List String :=
  t.declaration.name :: (t.names ++ t.scopes.map Binding.name)

end Turn

namespace Call

/-- The turns of a call, in order. -/
def turns : Call → List Turn
  | .declaration scopes source d => [⟨scopes, [], source, d⟩]
  | .file scopes source ds => ds.map fun d => ⟨scopes, ds.map Declaration.name, source, d⟩

/-- What imports have bound when the call is made. -/
def scopes : Call → Scopes
  | .declaration scopes _ _ => scopes
  | .file scopes _ _ => scopes

/-- The names that a call brings: the declared ones, and the local ones of imports. -/
def names : Call → List String
  | .declaration scopes _ d => d.name :: scopes.map Binding.name
  | .file scopes _ ds => ds.map Declaration.name ++ scopes.map Binding.name

variable {c : Call} {t : Turn}

/-- A turn brings no other names than its call. -/
theorem mem_names_of_turn (ht : t ∈ c.turns) {name : String} (hname : name ∈ t.allNames) :
    name ∈ c.names := by
  cases c with
  | declaration scopes source d =>
    rw [turns, List.mem_singleton] at ht
    subst ht
    exact hname
  | file scopes source ds =>
    obtain ⟨d, hd, rfl⟩ := List.mem_map.mp ht
    rcases List.mem_cons.mp hname with rfl | hname
    · exact List.mem_append_left _ (List.mem_map_of_mem hd)
    · exact hname

/-- What holds of all names of calls holds of all names of their turns. -/
theorem forall_names {calls : List Call} {P : String → Prop}
    (h : ∀ c ∈ calls, ∀ name ∈ c.names, P name) :
    ∀ t ∈ calls.flatMap turns, ∀ name ∈ t.allNames, P name := by
  intro t ht name hname
  obtain ⟨c, hc, htc⟩ := List.mem_flatMap.mp ht
  exact h c hc name (mem_names_of_turn htc hname)

/-- The renamings that a turn knows of in advance are made by turns of the same call. -/
theorem exists_of_mem_planned (ht : t ∈ c.turns) {r : Renaming} (hr : r ∈ t.planned) :
    ∃ t' ∈ c.turns, t'.made = r := by
  cases c with
  | declaration scopes source d =>
    rw [turns, List.mem_singleton] at ht
    subst ht
    cases hr
  | file scopes source ds =>
    obtain ⟨d, hd, rfl⟩ := List.mem_map.mp ht
    obtain ⟨name, hname, rfl⟩ := List.mem_map.mp hr
    obtain ⟨e, he, rfl⟩ := List.mem_map.mp hname
    exact ⟨_, List.mem_map_of_mem he, rfl⟩

/-- The turns of a call have its scopes. -/
theorem scopes_of_mem_turns (ht : t ∈ c.turns) : t.scopes = c.scopes := by
  cases c with
  | declaration scopes source d =>
    rw [turns, List.mem_singleton] at ht
    rw [ht]
    rfl
  | file scopes source ds =>
    obtain ⟨d, -, rfl⟩ := List.mem_map.mp ht
    rfl

end Call

/-! ## Turns -/

/-- The draft after a turn. -/
def turn (draft : Draft) (t : Turn) : Draft :=
  (draft.inlinePlanned t.scopes t.planned t.source t.declaration).draft

/-- Whether a turn puts something in. -/
def putsIn (draft : Draft) (t : Turn) : Bool :=
  (draft.inlinePlanned t.scopes t.planned t.source t.declaration).result? = some true

/-- The draft after a call. -/
def call (draft : Draft) : Call → Draft
  | .declaration scopes source d => (draft.inlineDeclaration scopes source d).draft
  | .file scopes source ds => (draft.inlineFile scopes source ds).draft

variable {draft : Draft} {scopes : Scopes} {planned : List Renaming} {source : String}
  {d : Declaration} {ds : List Declaration} {t : Turn} {turns : List Turn} {calls : List Call}

/-- A turn leaves the draft as it is, since the declaration is recorded or has no place, or puts in its
member, records its renaming and redirects all names. -/
theorem turn_cases (draft : Draft) (t : Turn) :
    (draft.putsIn t = false ∧ draft.turn t = draft ∧
      ((Renaming.find? draft.renamings t.source t.declaration.name).isSome ∨
        draft.buffer.insert? t.member t.source = none)) ∨
    (draft.putsIn t = true ∧
      Renaming.find? draft.renamings t.source t.declaration.name = none ∧
      ∃ buffer, draft.buffer.insert? t.member t.source = some buffer ∧
        draft.turn t =
          ⟨(redirectAll buffer (draft.renamings ++ [t.made]) t.scopes t.planned).1,
            draft.renamings ++ [t.made]⟩) := by
  unfold putsIn turn
  rcases inlinePlanned_cases draft t.scopes t.planned t.source t.declaration with
    ⟨hrecorded, hdraft, hresult⟩ | ⟨-, hinsert, hdraft, hresult⟩ |
    ⟨hfind, buffer, hinsert, hdraft, hresult⟩
  · exact Or.inl ⟨by rw [hresult]; rfl, hdraft, Or.inl hrecorded⟩
  · exact Or.inl ⟨by rw [hresult]; rfl, hdraft, Or.inr hinsert⟩
  · exact Or.inr ⟨by rw [hresult]; rfl, hfind, buffer, hinsert, hdraft⟩

/-- Without a closing brace nothing is put in. -/
theorem inlinePlanned_of_no_brace (h : '}' ∉ draft.buffer.text) (scopes : Scopes)
    (planned : List Renaming) (source : String) (d : Declaration) :
    (draft.inlinePlanned scopes planned source d).draft = draft := by
  rcases inlinePlanned_cases draft scopes planned source d with
    ⟨-, hdraft, -⟩ | ⟨-, -, hdraft, -⟩ | ⟨-, buffer, hinsert, -⟩
  · exact hdraft
  · exact hdraft
  · rw [Buffer.insert?_eq_none h] at hinsert
    cases hinsert

/-- The declarations of a file are put in one after the other. Where one finds no place, none does,
since the draft has no closing brace. -/
theorem inlineEach_draft :
    (draft.inlineEach scopes planned source ds).draft =
      ds.foldl (fun draft d => (draft.inlinePlanned scopes planned source d).draft) draft := by
  induction ds generalizing draft with
  | nil => rfl
  | cons d ds ih =>
    rw [List.foldl_cons]
    cases hresult : (draft.inlinePlanned scopes planned source d).result? with
    | some isNew => rw [(inlineEach_cons_some hresult ds).1, ih]
    | none =>
      have hbrace : '}' ∉ draft.buffer.text := by
        intro hmem
        rcases inlinePlanned_cases draft scopes planned source d with
          ⟨-, -, hfalse⟩ | ⟨-, hinsert, -, -⟩ | ⟨-, buffer, -, -, htrue⟩
        · rw [hfalse] at hresult
          cases hresult
        · obtain ⟨b', hb', -⟩ := Buffer.exists_insert? _ source hmem
          rw [hb'] at hinsert
          cases hinsert
        · rw [htrue] at hresult
          cases hresult
      have hstays : ∀ others : List Declaration,
          others.foldl (fun draft d => (draft.inlinePlanned scopes planned source d).draft) draft =
            draft := by
        intro others
        induction others with
        | nil => rfl
        | cons e others ihothers =>
          rw [List.foldl_cons, inlinePlanned_of_no_brace hbrace, ihothers]
      rw [(inlineEach_cons_none hresult ds).1, inlinePlanned_of_no_brace hbrace, hstays]

/-- A call is its turns, one after the other. -/
theorem call_eq (draft : Draft) (c : Call) : draft.call c = c.turns.foldl turn draft := by
  cases c with
  | declaration scopes source d => rfl
  | file scopes source ds =>
    have hplanned : (ds.map fun d => Renaming.of source d.name) =
        (ds.map Declaration.name).map (Renaming.of source) := by
      rw [List.map_map]
      rfl
    show (draft.inlineEach scopes _ source ds).draft = _
    unfold Call.turns
    rw [inlineEach_draft, List.foldl_map, hplanned]
    rfl

/-- Calls are their turns, one after the other. -/
theorem foldl_call (draft : Draft) (calls : List Call) :
    calls.foldl call draft = (calls.flatMap Call.turns).foldl turn draft := by
  induction calls generalizing draft with
  | nil => rfl
  | cons c calls ih => rw [List.foldl_cons, ih, call_eq, List.flatMap_cons, List.foldl_append]

/-! ## History -/

/-- A turn that has put something in, and the renamings made up to then, its own included. -/
structure Moment where
  turn : Turn
  renamings : List Renaming

/-- What is written for names when the moment has come. -/
def Moment.written (m : Moment) (source : String) (run : Text) : Option Text :=
  Draft.written m.renamings m.turn.scopes m.turn.planned source run

/-- The turns that put something in, each with the renamings made up to then. -/
def history (draft : Draft) : List Turn → List Moment
  | [] => []
  | t :: turns =>
    if draft.putsIn t then ⟨t, (draft.turn t).renamings⟩ :: history (draft.turn t) turns
    else history (draft.turn t) turns

/-- What comes later has a history that starts where the earlier turns end. -/
theorem history_append (draft : Draft) (turns later : List Turn) :
    draft.history (turns ++ later) =
      draft.history turns ++ (turns.foldl turn draft).history later := by
  induction turns generalizing draft with
  | nil => rfl
  | cons t turns ih =>
    rw [List.cons_append, history, history, ih, List.foldl_cons]
    split
    · rfl
    · rfl

/-- Only turns that are taken get into the history, in their order. -/
theorem history_sublist (draft : Draft) (turns : List Turn) :
    ((draft.history turns).map Moment.turn).Sublist turns := by
  induction turns generalizing draft with
  | nil => exact List.Sublist.slnil
  | cons t turns ih =>
    rw [history]
    split
    · exact (ih (draft.turn t)).cons_cons t
    · exact (ih (draft.turn t)).cons t

/-- Without a closing brace there is no history, and nothing changes. -/
theorem history_of_no_brace (h : '}' ∉ draft.buffer.text) (turns : List Turn) :
    draft.history turns = [] ∧ turns.foldl turn draft = draft := by
  have hputs : ∀ t, draft.putsIn t = false := by
    intro t
    rcases turn_cases draft t with ⟨hputs, -⟩ | ⟨-, -, buffer, hinsert, -⟩
    · exact hputs
    · rw [Buffer.insert?_eq_none h] at hinsert
      cases hinsert
  have hstays : ∀ t, draft.turn t = draft := fun t => inlinePlanned_of_no_brace h _ _ _ _
  induction turns with
  | nil => exact ⟨rfl, rfl⟩
  | cons t turns ih =>
    rw [history, hputs, hstays, List.foldl_cons, hstays]
    exact ih

/-- The renamings after turns are those before them and one for each moment of their history. -/
theorem renamings_foldl_turn (draft : Draft) (turns : List Turn) :
    (turns.foldl turn draft).renamings =
      draft.renamings ++ (draft.history turns).map fun m => m.turn.made := by
  induction turns generalizing draft with
  | nil => rw [history, List.map_nil, List.append_nil, List.foldl_nil]
  | cons t turns ih =>
    rw [List.foldl_cons, ih, history]
    rcases turn_cases draft t with ⟨hputs, hdraft, -⟩ | ⟨hputs, -, buffer, -, hdraft⟩
    · rw [hputs, hdraft]
      rfl
    · rw [hputs, if_pos rfl, hdraft, List.map_cons, List.append_assoc]
      rfl

/-- The renamings of a moment are among those at the end. -/
theorem prefix_of_mem_history {m : Moment} (hm : m ∈ draft.history turns) :
    m.renamings <+: (turns.foldl turn draft).renamings := by
  induction turns generalizing draft with
  | nil => cases hm
  | cons t turns ih =>
    rw [List.foldl_cons]
    rw [history] at hm
    split at hm
    · rcases List.mem_cons.mp hm with rfl | hm
      · rw [renamings_foldl_turn]
        exact List.prefix_append _ _
      · exact ih hm
    · exact ih hm

/-! ## Names -/

/-- All renamings have the generated names, for declared names of one class. -/
def Recorded (P : String → Prop) (renamings : List Renaming) : Prop :=
  ∀ r ∈ renamings, r = Renaming.of r.source r.name ∧ P r.name

variable {P : String → Prop}

/-- A turn that brings names of the class keeps the renamings in it. -/
theorem Recorded.turn (h : Recorded P draft.renamings) (ht : ∀ name ∈ t.allNames, P name) :
    Recorded P (draft.turn t).renamings := by
  rcases turn_cases draft t with ⟨-, hdraft, -⟩ | ⟨-, -, buffer, -, hdraft⟩
  · rwa [hdraft]
  · rw [hdraft]
    intro r hr
    rcases List.mem_append.mp hr with hr | hr
    · exact h r hr
    · rw [List.mem_singleton.mp hr]
      exact ⟨rfl, ht _ List.mem_cons_self⟩

/-- What a turn knows of in advance has the generated names, for names of the class. -/
theorem recorded_planned (ht : ∀ name ∈ t.allNames, P name) : Recorded P t.planned := by
  intro r hr
  obtain ⟨name, hname, rfl⟩ := List.mem_map.mp hr
  exact ⟨rfl, ht name (List.mem_cons_of_mem _ (List.mem_append_left _ hname))⟩

/-- The names that a turn redirects are of the class. -/
theorem Recorded.candidateNames {renamings : List Renaming} (h : Recorded P renamings)
    (ht : ∀ name ∈ t.allNames, P name) :
    ∀ name ∈ candidateNames renamings t.scopes t.planned, P name := by
  intro name hname
  rcases mem_candidateNames.mp hname with hname | hname
  · obtain ⟨r, hr, rfl⟩ := List.mem_map.mp hname
    rcases List.mem_append.mp hr with hr | hr
    · exact (h r hr).2
    · exact (recorded_planned ht r hr).2
  · exact ht name (List.mem_cons_of_mem _ (List.mem_append_right _ hname))

/-- What holds of the names of a draft while plain names are brought. -/
theorem Recorded.wellNamed {renamings : List Renaming} (h : Recorded Plain renamings)
    (ht : ∀ name ∈ t.allNames, Plain name) : WellNamed t.scopes t.planned renamings where
  generated r hr := by
    rcases List.mem_append.mp hr with hr | hr
    · exact (h r hr).1
    · exact (recorded_planned ht r hr).1
  plain := h.candidateNames ht

end Graft.Draft
