import Mathlib.Data.List.Forall2
import Graft.Proofs.Draft.Fragments

/-!
# The shape of the object

Whatever is put into a text of the entry, the object is that text with its free uses replaced, one comma
at most where the members start, and the members in the order of their renamings, right before the
closing brace that was there from the start (`shape_of_calls`). What replaces a use is always the member
of a renaming that the draft ends up with: what a file only plans is made before its call is over
(`Underway.made_mem`).
-/

namespace Graft.Draft

open Lexeme (resolve)
open Buffer (Seat separator isOpen)

/-- A text with free uses replaced and nothing else changed: each by a renaming that its name may stand
for, as the member reached through `this`. -/
def Routed (renamings : List Renaming) (scopes : Scopes) (t t' : Text) : Prop :=
  ∃ ρ : Text → Option Text, t' = resolve id ρ t ∧
    ∀ run r, ρ run = some r → ∃ made ∈ renamings,
      StandsFor scopes (String.ofList run) made ∧ r = ("this." ++ made.member).toList

variable {draft : Draft} {renamings table : List Renaming} {scopes : Scopes} {origin : String}
  {moments : List Moment} {text kept blank rest : Text} {turns : List Turn} {t : Turn}

/-- A fragment is shown with free uses replaced, by renamings that its moments know of. -/
theorem routed_shown (f : Fragment)
    (hrenamings : ∀ m ∈ moments, ∀ r ∈ m.renamings ++ m.turn.planned, r ∈ renamings)
    (hscopes : ∀ m ∈ moments, ∀ b ∈ m.turn.scopes, b ∈ scopes) :
    Routed renamings scopes f.text (f.shown origin moments) := by
  refine ⟨f.reading origin moments, rfl, fun run r hr => ?_⟩
  obtain ⟨m, hm, hwritten⟩ := exists_of_said hr
  have hm := List.mem_of_mem_drop hm
  obtain ⟨made, hmade, hstands, -, rfl⟩ := exists_of_written hwritten
  refine ⟨made, hrenamings m hm made hmade, hstands.imp_right ?_, rfl⟩
  rintro ⟨b, hb, hbinding⟩
  exact ⟨b, hscopes m hm b hb, hbinding⟩

/-! ## What is planned is made -/

/-- A draft on its way has a closing brace. -/
theorem Underway.brace_mem (hseat : Seat text kept blank rest)
    (h : Underway text origin table kept blank rest moments draft) : '}' ∈ draft.buffer.text := by
  cases h with
  | untouched =>
    have htext : (Buffer.ofText text origin).text = kept ++ (blank ++ '}' :: rest) := hseat.eq
    rw [htext]
    simp
  | shaped _ h =>
    rw [(h.ready hseat).composed.text]
    simp

/-- After its turn, the renaming of a declaration is recorded. -/
theorem made_mem_turn (h : Recorded Plain draft.renamings) (hbrace : '}' ∈ draft.buffer.text)
    (t : Turn) : t.made ∈ (draft.turn t).renamings := by
  rcases turn_cases draft t with ⟨-, hdraft, hfind | hnone⟩ | ⟨-, -, b, -, hdraft⟩
  · -- It was recorded before, under the same file and name.
    obtain ⟨r, hr⟩ := Option.isSome_iff_exists.mp hfind
    obtain ⟨hmem, hsource, hname⟩ := Renaming.find?_eq_some hr
    have hmade : r = t.made := by
      rw [(h r hmem).1, hsource, hname]
      rfl
    rw [hdraft, ← hmade]
    exact hmem
  · obtain ⟨b, hb, -⟩ := Buffer.exists_insert? t.member t.source hbrace
    rw [hb] at hnone
    cases hnone
  · rw [hdraft]
    simp

/-- After any turns, the renamings of all their declarations are recorded. -/
theorem Underway.made_mem (hseat : Seat text kept blank rest)
    (h : Underway text origin table kept blank rest moments draft)
    (hrecorded : Recorded Plain draft.renamings)
    (hnames : ∀ t ∈ turns, ∀ name ∈ t.allNames, Plain name) :
    ∀ t ∈ turns, t.made ∈ (turns.foldl Draft.turn draft).renamings := by
  induction turns generalizing draft moments with
  | nil => exact fun t ht => absurd ht List.not_mem_nil
  | cons t turns ih =>
    have hfirst : ∀ name ∈ t.allNames, Plain name := hnames t List.mem_cons_self
    have hturn : Underway text origin table kept blank rest _ (draft.turn t) :=
      h.turn hseat (named_history hrecorded (by simpa using hfirst))
    rw [List.foldl_cons]
    refine List.forall_mem_cons.mpr ⟨?_, ih hturn (hrecorded.turn hfirst) fun u hu =>
      hnames u (List.mem_cons_of_mem _ hu)⟩
    -- What is recorded stays recorded.
    rw [renamings_foldl_turn]
    exact List.mem_append_left _ (made_mem_turn hrecorded (h.brace_mem hseat) t)

/-- What a moment of a history of calls knows of is made by the end of them. What it redirects by is
bound in their scopes. -/
theorem known_of_mem_history {calls : List Call} {m : Moment} (hseat : Seat text kept blank rest)
    (htable : Recorded Plain table) (hnames : ∀ c ∈ calls, ∀ name ∈ c.names, Plain name)
    (hm : m ∈ history ⟨Buffer.ofText text origin, table⟩ (calls.flatMap Call.turns)) :
    (∀ r ∈ m.renamings ++ m.turn.planned,
      r ∈ (calls.foldl call ⟨Buffer.ofText text origin, table⟩).renamings) ∧
      ∀ b ∈ m.turn.scopes, b ∈ calls.flatMap Call.scopes := by
  have htaken := history_sublist ⟨Buffer.ofText text origin, table⟩ (calls.flatMap Call.turns)
  obtain ⟨c, hc, htc⟩ := List.mem_flatMap.mp (htaken.subset (List.mem_map_of_mem hm))
  refine ⟨fun r hr => ?_, fun b hb => List.mem_flatMap.mpr ⟨c, hc, ?_⟩⟩
  · rw [foldl_call]
    rcases List.mem_append.mp hr with hr | hr
    · exact (prefix_of_mem_history hm).subset hr
    · -- What is planned is made by a turn of the same call.
      obtain ⟨t, ht, rfl⟩ := Call.exists_of_mem_planned htc hr
      exact Underway.untouched.made_mem hseat htable (Call.forall_names hnames) t
        (List.mem_flatMap.mpr ⟨c, hc, ht⟩)
  · rwa [← Call.scopes_of_mem_turns htc]

/-! ## The shape -/

/-- The members of a history as they were put in. -/
theorem map_text_members (moments : List Moment) :
    (Fragment.members moments).map Fragment.text = (moments.map Moment.turn).map Turn.member := by
  calc (Fragment.members moments).map Fragment.text
    _ = (moments.zipIdx.map Prod.fst).map fun m => m.turn.member := by
        unfold Fragment.members
        rw [List.map_map, List.map_map]
        rfl
    _ = (moments.map Moment.turn).map Turn.member := by
        rw [List.zipIdx_map_fst, List.map_map]
        rfl

/-- The fragments with their names read: the comma and the white space have no names in them, and the
closing brace belongs to none. -/
theorem flatMap_shown (hseat : Seat text kept blank rest) (origin : String) (moments : List Moment) :
    (fragments text moments).flatMap (Fragment.shown origin moments) =
      Fragment.shown origin moments ⟨none, 0, kept⟩ ++
        ((if moments = [] ∨ isOpen kept then [] else [',']) ++
          (blank ++ (((Fragment.members moments).map (Fragment.shown origin moments)).flatten ++
            '}' :: Fragment.shown origin moments ⟨none, 0, rest⟩))) := by
  have hblank : Fragment.shown origin moments ⟨none, 0, blank⟩ = blank :=
    Fragment.shown_of_marks fun c hc => (Buffer.apart_of_isSpace (hseat.blank c hc)).1
  have hcomma : Fragment.shown origin moments ⟨none, 0, [',']⟩ = [','] :=
    Fragment.shown_of_marks (by simp; decide)
  have hnothing : Fragment.shown origin moments ⟨none, 0, []⟩ = [] := rfl
  have hbrace : (fromBrace rest).shown origin moments =
      '}' :: Fragment.shown origin moments ⟨none, 0, rest⟩ := shown_fromBrace origin moments rest
  rw [fragments_eq hseat]
  -- The separator is a comma, unless there are no members or the text in front is open.
  unfold separator
  by_cases hnone : moments = []
  · subst hnone
    simp [hblank, hbrace, List.flatMap_def]
  · by_cases hopen : isOpen kept = true
    · simp [hnone, hopen, hblank, hbrace, hnothing, List.flatMap_def]
    · simp [hnone, hopen, hblank, hbrace, hcomma, List.flatMap_def]

/-- The object after any calls on a text of the entry: what was kept before the place for members, one
comma if there are members and none may follow it as it is, the white space, the members in the order
of the renamings they made, and the text from the closing brace on. All of it is as it was, but for free
uses. -/
theorem shape_of_calls (hseat : Seat text kept blank rest) (origin : String) (table : List Renaming)
    (calls : List Call) (htable : Recorded Plain table) (hnames : ∀ c ∈ calls, ∀ name ∈ c.names, Plain name) :
    let done := calls.foldl call ⟨Buffer.ofText text origin, table⟩
    let scopes := calls.flatMap Call.scopes
    ∃ (made : List Turn) (kept' rest' : Text) (members : List Text),
      made.Sublist (calls.flatMap Call.turns) ∧
      done.renamings = table ++ made.map Turn.made ∧
      done.buffer.text = kept' ++ ((if made = [] ∨ isOpen kept then [] else [',']) ++
        (blank ++ (members.flatten ++ '}' :: rest'))) ∧
      Routed done.renamings scopes kept kept' ∧ Routed done.renamings scopes rest rest' ∧
      List.Forall₂ (Routed done.renamings scopes) (made.map Turn.member) members := by
  intro done scopes
  -- The calls are one run of turns, whose history is what the invariant speaks of.
  have hdone : done = (calls.flatMap Call.turns).foldl turn ⟨Buffer.ofText text origin, table⟩ :=
    foldl_call _ calls
  have hnamed : ∀ m ∈ history ⟨Buffer.ofText text origin, table⟩ (calls.flatMap Call.turns),
      m.Named Plain := named_history htable (Call.forall_names hnames)
  have htext := text_foldl_turn table hnamed
  have hrenamings := renamings_foldl_turn ⟨Buffer.ofText text origin, table⟩ (calls.flatMap Call.turns)
  have htaken := history_sublist ⟨Buffer.ofText text origin, table⟩ (calls.flatMap Call.turns)
  have hknown : ∀ m ∈ history ⟨Buffer.ofText text origin, table⟩ (calls.flatMap Call.turns),
      (∀ r ∈ m.renamings ++ m.turn.planned, r ∈ done.renamings) ∧ ∀ b ∈ m.turn.scopes, b ∈ scopes :=
    fun m hm => known_of_mem_history hseat htable hnames hm
  -- Only these facts of the history matter from here on.
  generalize history ⟨Buffer.ofText text origin, table⟩ (calls.flatMap Call.turns) = moments at *
  have hrouted : ∀ f : Fragment, Routed done.renamings scopes f.text (f.shown origin moments) :=
    fun f => routed_shown f (fun m hm => (hknown m hm).1) fun m hm => (hknown m hm).2
  refine ⟨moments.map Moment.turn, Fragment.shown origin moments ⟨none, 0, kept⟩,
    Fragment.shown origin moments ⟨none, 0, rest⟩,
    (Fragment.members moments).map (Fragment.shown origin moments), htaken, ?_, ?_, hrouted _,
    hrouted _, ?_⟩
  · rw [hdone, hrenamings, List.map_map]
    rfl
  · rw [hdone, htext, flatMap_shown hseat]
    simp
  · rw [← map_text_members, List.forall₂_map_left_iff, List.forall₂_map_right_iff, List.forall₂_same]
    exact fun f _ => hrouted f

/-- An object with a member and a comment behind it, which takes a file with two helpers after one
comma. -/
theorem shape_of_calls_helpers :
    ∃ (made : List Turn) (kept' rest' : Text) (members : List Text),
      [Renaming.of "/a" "pad", Renaming.of "/a" "fill"] = made.map Turn.made ∧
        ("\x7brun() \x7bthis._inlined_a_pad()\x7d, \n  _inlined_a_pad() \x7bthis._inlined_a_fill()\x7d,\n" ++
          "\n  _inlined_a_fill: () => 1,\n\x7d // end").toList =
          kept' ++ ((if made = [] ∨ isOpen "\x7brun() \x7bpad()\x7d".toList then [] else [',']) ++
            ([' '] ++ (members.flatten ++ '}' :: rest'))) := by
  have hseat : Seat "\x7brun() \x7bpad()\x7d \x7d // end".toList "\x7brun() \x7bpad()\x7d".toList [' ']
      " // end".toList := by decide +kernel
  obtain ⟨made, kept', rest', members, -, hrenamings, htext, -⟩ := shape_of_calls hseat "/p"
    [] [Call.file [⟨"/p", "pad", "/a", "pad"⟩] "/a"
      (Declaration.extract "function pad() \x7bfill()\x7d\nconst fill = () => 1".toList)]
    (fun r hr => absurd hr List.not_mem_nil) (by decide +kernel)
  refine ⟨made, kept', rest', members, Eq.trans ?_ hrenamings, Eq.trans ?_ htext⟩
  · decide +kernel
  · decide +kernel

end Graft.Draft
