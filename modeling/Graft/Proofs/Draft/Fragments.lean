import Graft.Proofs.Buffer.Seat
import Graft.Proofs.Draft.Calls
import Graft.Proofs.Draft.Linking

/-!
# What the object is made of

The text of a draft that started with a text of the entry is made of fragments: what stands before the
place for members, a comma if one is needed, the white space there, the members in the order in which
they were put in, and the text from the closing brace on. A fragment is as it was put in, but for the
names in it, which are read by the history from then on: what the first moment says that says anything
(`said`). `Shaped` is the invariant, `Shaped.turn` its step, and `text_foldl_turn` what becomes of it.
-/

namespace Graft.Draft

open Lexeme (IsLetter StartsApart EndsApart Apart resolve)
open Buffer (Composed Ready EndsOpen Seat separator isOpen)
open Piece (flat Parted Full)

/-! ## What a history says of names -/

/-- A moment whose turn brings names of a class, like all turns before it. -/
structure Moment.Named (P : String → Prop) (m : Moment) : Prop where
  recorded : Recorded P m.renamings
  names : ∀ name ∈ m.turn.allNames, P name

variable {P Q : String → Prop} {m : Moment} {moments later : List Moment} {origin source : String}
  {run r : Text} {draft : Draft} {turns : List Turn} {t : Turn}

/-- A history of turns that bring names of a class. -/
theorem named_history (h : Recorded P draft.renamings)
    (hnames : ∀ t ∈ turns, ∀ name ∈ t.allNames, P name) : ∀ m ∈ draft.history turns, m.Named P := by
  induction turns generalizing draft with
  | nil => exact fun m hm => absurd hm List.not_mem_nil
  | cons t turns ih =>
    have hturn := h.turn (hnames t List.mem_cons_self)
    have hlater := ih hturn fun u hu => hnames u (List.mem_cons_of_mem _ hu)
    rw [history]
    split
    · exact List.forall_mem_cons.mpr ⟨⟨hturn, hnames t List.mem_cons_self⟩, hlater⟩
    · exact hlater

/-- The names of a moment are of every larger class. -/
theorem Moment.Named.imp (h : m.Named P) (hPQ : ∀ name, P name → Q name) : m.Named Q where
  recorded r hr := ⟨(h.recorded r hr).1, hPQ _ (h.recorded r hr).2⟩
  names name hname := hPQ name (h.names name hname)

/-- The names of a moment are such that redirecting them can be told by pieces. -/
theorem Moment.Named.wellNamed (h : m.Named Plain) :
    WellNamed m.turn.scopes m.turn.planned m.renamings :=
  h.recorded.wellNamed h.names

/-- What a history says of a name in a file: the first moment that says anything decides. -/
def said (moments : List Moment) (source : String) (run : Text) : Option Text :=
  moments.findSome? fun m => m.written source run

/-- What comes later is asked where nothing was said before. -/
theorem said_append (moments later : List Moment) (source : String) (run : Text) :
    said (moments ++ later) source run = (said moments source run).or (said later source run) :=
  List.findSome?_append

/-- What is said of a name is said at some moment. -/
theorem exists_of_said (h : said moments source run = some r) :
    ∃ m ∈ moments, m.written source run = some r :=
  List.exists_of_findSome?_eq_some h

/-- What is said of a name is sealed. -/
theorem sealed_of_said (hnamed : ∀ m ∈ moments, m.Named Plain) (h : said moments source run = some r) :
    Sealed r := by
  obtain ⟨m, hm, hwritten⟩ := exists_of_said h
  obtain ⟨made, hmade, -, -, rfl⟩ := exists_of_written hwritten
  exact (hnamed m hm).wellNamed.sealed hmade

/-! ## Fragments -/

/-- A text that the object is made of, as it was put in. -/
structure Fragment where
  /-- The file of a member; none for text outside of all members. -/
  source? : Option String
  /-- How many moments had come before. -/
  since : Nat
  text : Text

namespace Fragment

variable {f : Fragment}

/-- What is written for the names in a fragment. -/
def reading (origin : String) (moments : List Moment) (f : Fragment) : Text → Option Text :=
  said (moments.drop f.since) (f.source?.getD origin)

/-- A fragment with its names read. -/
def shown (origin : String) (moments : List Moment) (f : Fragment) : Text :=
  resolve id (f.reading origin moments) f.text

/-- The piece of a buffer that a fragment is. -/
def piece (origin : String) (moments : List Moment) (f : Fragment) : Piece :=
  ⟨f.source?, f.shown origin moments⟩

/-- The members of a history. -/
def members (moments : List Moment) : List Fragment :=
  moments.zipIdx.map fun c => ⟨some c.1.turn.source, c.2, c.1.turn.member⟩

/-- One moment more brings one member more, and it comes last. -/
theorem members_concat (moments : List Moment) (m : Moment) :
    members (moments ++ [m]) = members moments ++ [⟨some m.turn.source, moments.length, m.turn.member⟩] := by
  unfold members
  rw [List.zipIdx_append, List.map_append]
  simp

/-- A fragment that has just been put in is as it was put in. -/
theorem shown_of_length_le (h : moments.length ≤ f.since) : f.shown origin moments = f.text := by
  unfold shown reading
  rw [List.drop_eq_nil_of_le h]
  exact Lexeme.resolveFrom_none

/-- White space, commas and the like stay as they were put in. -/
theorem shown_of_marks (h : ∀ c ∈ f.text, ¬ IsLetter id c) : f.shown origin moments = f.text :=
  Lexeme.resolveFrom_marks h

/-- At one moment more, what it says of names is read in the fragment as it was shown before. -/
theorem resolveAs_piece (hnamed : ∀ m ∈ moments, m.Named Plain) (hm : m.Named Plain)
    (hsince : f.since ≤ moments.length) :
    (f.piece origin moments).resolveAs m.written origin = f.piece origin (moments ++ [m]) := by
  have hdrop : (moments ++ [m]).drop f.since = moments.drop f.since ++ [m] :=
    List.drop_append_of_le_length hsince
  have hread : (fun run => (f.reading origin moments run).or
      (m.written (f.source?.getD origin) run)) = f.reading origin (moments ++ [m]) := by
    funext run
    unfold reading
    rw [hdrop, said_append]
    simp [said]
  -- What was written before is sealed, and nothing is written for `this`.
  have hkept : ∀ run r, f.reading origin moments run = some r →
      resolve id (m.written (f.source?.getD origin)) r = r := fun run r hr =>
    (sealed_of_said (fun m hm => hnamed m (List.mem_of_mem_drop hm)) hr).resolve
      (hm.wellNamed.written_this _)
  have htext := Lexeme.resolve_resolve hkept (t := f.text)
  rw [hread] at htext
  exact congrArg (Piece.mk f.source?) htext

end Fragment

/-- The fragments up to the closing brace, once a member was put in. -/
def before (kept blank : Text) (moments : List Moment) : List Fragment :=
  [⟨none, 0, kept⟩, ⟨none, 0, separator kept⟩, ⟨none, 0, blank⟩] ++ Fragment.members moments

/-- The text from the closing brace on. -/
def fromBrace (rest : Text) : Fragment := ⟨none, 0, '}' :: rest⟩

/-- One member more goes right in front of the closing brace. -/
theorem before_concat (kept blank : Text) (moments : List Moment) (m : Moment) :
    before kept blank (moments ++ [m]) =
      before kept blank moments ++ [⟨some m.turn.source, moments.length, m.turn.member⟩] := by
  unfold before
  rw [Fragment.members_concat, List.append_assoc]

/-- Each fragment was put in at some moment. -/
theorem since_le {kept blank : Text} {f : Fragment} (hf : f ∈ before kept blank moments) :
    f.since ≤ moments.length := by
  rcases List.mem_append.mp hf with hf | hf
  · have hzero : f.since = 0 := by
      simp only [List.mem_cons, List.not_mem_nil, or_false] at hf
      rcases hf with rfl | rfl | rfl <;> rfl
    omega
  · obtain ⟨c, hc, rfl⟩ := List.mem_map.mp hf
    exact (List.snd_lt_of_mem_zipIdx hc).le

/-! ## The invariant -/

/-- A buffer that is made of fragments, each with its names read. -/
structure Shaped (origin : String) (kept blank rest : Text) (moments : List Moment) (b : Buffer) :
    Prop where
  composed : Composed b ((before kept blank moments ++ [fromBrace rest]).map
    (Fragment.piece origin moments))
  origin : b.origin = origin
  named : ∀ m ∈ moments, m.Named Plain

variable {kept blank rest text : Text} {b : Buffer} {table : List Renaming}

/-- The text from the closing brace on still starts with it. -/
theorem shown_fromBrace (origin : String) (moments : List Moment) (rest : Text) :
    (fromBrace rest).shown origin moments = '}' :: resolve id (said moments origin) rest :=
  Lexeme.resolveFrom_mark (by decide)

/-- What is shown of a text has no brace that the text has not. -/
theorem brace_notMem_resolve (hnamed : ∀ m ∈ moments, m.Named Plain) (h : '}' ∉ rest) :
    '}' ∉ resolve id (said moments source) rest := by
  intro hmem
  rcases Lexeme.mem_resolveFrom hmem with hmem | ⟨run, r, hr, hmem⟩
  · exact h hmem
  · exact (sealed_of_said hnamed hr).brace_notMem hmem

/-- A member may follow the fragments up to the brace. -/
theorem endsOpen_before (hseat : Seat text kept blank rest) (origin : String) (moments : List Moment) :
    EndsOpen (flat ((before kept blank moments).map (Fragment.piece origin moments))) := by
  -- Either there is a member, which ends with a comma, or nothing was read yet.
  rcases List.eq_nil_or_concat moments with rfl | ⟨front, m, rfl⟩
  · have hflat : flat ((before kept blank []).map (Fragment.piece origin [])) =
        (kept ++ separator kept) ++ blank := by
      have hshown : ∀ f : Fragment, (f.piece origin []).text = f.text := fun f =>
        Fragment.shown_of_length_le (Nat.zero_le _)
      simp [before, Fragment.members, hshown]
    rw [hflat]
    exact ⟨kept ++ separator kept, blank, rfl, Buffer.isOpen_append_separator kept, hseat.blank⟩
  · rw [List.concat_eq_append, before_concat, List.map_append, Piece.flat_append, List.map_singleton,
      Piece.flat_cons, Piece.flat_nil, List.append_nil]
    exact ((Member.endsOpen_render _ _).resolve _).append _

/-- A shaped buffer is ready for a member. -/
theorem Shaped.ready (hseat : Seat text kept blank rest) (h : Shaped origin kept blank rest moments b) :
    Ready b ((before kept blank moments).map (Fragment.piece origin moments))
      (resolve id (said moments origin) rest) where
  composed := by
    have := h.composed
    rw [List.map_append, List.map_singleton] at this
    rwa [← shown_fromBrace]
  brace := brace_notMem_resolve h.named hseat.rest
  isOpen := endsOpen_before hseat origin moments

/-- Redirecting all names reads what a moment says in all fragments, its own member included. -/
theorem Shaped.read {c : Buffer} (h : Shaped origin kept blank rest moments b) (hm : m.Named Plain)
    (horigin : c.origin = origin)
    (hcomposed : Composed c ((before kept blank (moments ++ [m]) ++ [fromBrace rest]).map
      (Fragment.piece origin moments))) :
    Shaped origin kept blank rest (moments ++ [m])
      (redirectAll c m.renamings m.turn.scopes m.turn.planned).1 where
  composed := by
    -- No fragment is younger than the moment that is read, so each of them hears it.
    have hsince : ∀ f ∈ before kept blank (moments ++ [m]) ++ [fromBrace rest],
        f.since ≤ moments.length := by
      rw [before_concat, List.append_assoc]
      refine List.forall_mem_append.mpr ⟨fun f hf => since_le hf, ?_⟩
      simp [fromBrace]
    have hread : ∀ f ∈ before kept blank (moments ++ [m]) ++ [fromBrace rest],
        (f.piece origin moments).resolveAs m.written origin = f.piece origin (moments ++ [m]) :=
      fun f hf => Fragment.resolveAs_piece h.named hm (hsince f hf)
    have hredirected := hcomposed.redirectAll hm.wellNamed
    rw [horigin, List.map_map] at hredirected
    rwa [← List.map_congr_left hread]
  origin := by rw [redirectAll_origin, horigin]
  named := List.forall_mem_append.mpr ⟨h.named, by simpa using hm⟩

/-- A turn that puts something in keeps the shape: its member is the last fragment before the brace, and
what it says of names is read in all of them. -/
theorem Shaped.turn {isNew : Bool} (hseat : Seat text kept blank rest)
    (h : Shaped origin kept blank rest moments b)
    (hseparate : draft.buffer.separate? = some (b, isNew)) (hputs : draft.putsIn t = true)
    (hm : Moment.Named Plain ⟨t, (draft.turn t).renamings⟩) :
    Shaped origin kept blank rest (moments ++ [⟨t, (draft.turn t).renamings⟩])
      (draft.turn t).buffer := by
  rcases turn_cases draft t with ⟨hstays, -⟩ | ⟨-, -, buffer, hinsert, hdraft⟩
  · rw [hputs] at hstays
    cases hstays
  have hne : t.member ≠ [] := Member.render_ne_nil _ _
  obtain ⟨c, hc, hcomposed, horigin, -⟩ := (h.ready hseat).insert? hseparate hne t.source
  obtain rfl : c = buffer := Option.some.inj (hc.symm.trans hinsert)
  -- The new member is a fragment in which nothing was read yet.
  have hshown : Fragment.shown origin moments ⟨some t.source, moments.length, t.member⟩ = t.member :=
    Fragment.shown_of_length_le le_rfl
  have hfresh : Piece.mk (some t.source) t.member =
      Fragment.piece origin moments ⟨some t.source, moments.length, t.member⟩ :=
    congrArg (Piece.mk (some t.source)) hshown.symm
  have hlast : Piece.mk none ('}' :: resolve id (said moments origin) rest) =
      (fromBrace rest).piece origin moments :=
    congrArg (Piece.mk none) (shown_fromBrace origin moments rest).symm
  have hfragments : Composed c
      ((before kept blank (moments ++ [⟨t, (draft.turn t).renamings⟩]) ++ [fromBrace rest]).map
        (Fragment.piece origin moments)) := by
    rw [hfresh, hlast] at hcomposed
    rw [before_concat, List.map_append, List.map_append]
    exact hcomposed
  have hread := h.read hm (horigin.trans h.origin) hfragments
  rw [hdraft] at hread ⊢
  exact hread

/-! ## From the start -/

/-- The parts of a text with a separator at the place for members are parted. -/
theorem parted_start (kept blank rest : Text) :
    Parted [⟨none, kept⟩, ⟨none, separator kept⟩, ⟨none, blank⟩, ⟨none, '}' :: rest⟩] := by
  have hbrace : StartsApart id ('}' :: rest) := by
    rw [Lexeme.startsApart_cons]
    decide
  have hseparator : EndsApart id (separator kept) := by
    unfold separator
    split
    · exact Lexeme.endsApart_nil
    · rw [← List.nil_append [','], Lexeme.endsApart_append_cons]
      decide
  -- Either what is kept ends with a mark, or the comma parts it from the rest.
  have hkept : Apart id kept (separator kept ++ (blank ++ '}' :: rest)) := by
    unfold separator
    split
    · next hopen =>
      have hends : EndsOpen kept := ⟨kept, [], by simp, hopen, by simp⟩
      exact Or.inl hends.endsApart
    · refine Or.inr ?_
      rw [List.singleton_append, Lexeme.startsApart_cons]
      decide
  refine (((Piece.parted_nil.cons ?_).cons ?_).cons ?_).cons ?_
  · exact Or.inr Lexeme.startsApart_nil
  · exact Or.inr (by simpa using hbrace)
  · exact Or.inl hseparator
  · simpa using hkept

/-- Made ready for a member, a text of the entry is shaped. -/
theorem shaped_start (hseat : Seat text kept blank rest) (origin : String) :
    ∃ b isNew, (Buffer.ofText text origin).separate? = some (b, isNew) ∧
      Shaped origin kept blank rest [] b := by
  have hstart : Seat (Buffer.ofText text origin).text kept blank rest := hseat
  obtain ⟨b, isNew, hseparate, htext, horigin⟩ := hstart.separate?
  have hmembers : b.members = [] := List.map_eq_nil_iff.mp (Buffer.separate?_sources hseparate)
  have hpieces : (before kept blank [] ++ [fromBrace rest]).map (Fragment.piece origin []) =
      [⟨none, kept⟩, ⟨none, separator kept⟩, ⟨none, blank⟩, ⟨none, '}' :: rest⟩] := by
    have hpiece : ∀ f : Fragment, f.piece origin [] = ⟨f.source?, f.text⟩ := fun f =>
      congrArg (Piece.mk f.source?) (Fragment.shown_of_length_le (Nat.zero_le _))
    simp [before, Fragment.members, fromBrace, hpiece]
  refine ⟨b, isNew, hseparate, ⟨?_, ?_, ?_, ?_⟩, horigin, fun m hm => absurd hm List.not_mem_nil⟩
  · rw [hpieces, htext]
    simp
  · rw [hpieces, hmembers]
    rfl
  · rw [hpieces]
    simp [Full]
  · rw [hpieces]
    exact parted_start kept blank rest

/-- A draft on its way from a text of the entry: nothing is put in yet, or it is shaped. -/
inductive Underway (text : Text) (origin : String) (table : List Renaming) (kept blank rest : Text) :
    List Moment → Draft → Prop
  | untouched : Underway text origin table kept blank rest [] ⟨Buffer.ofText text origin, table⟩
  | shaped {moments : List Moment} {draft : Draft} (hne : moments ≠ [])
      (h : Shaped origin kept blank rest moments draft.buffer) :
      Underway text origin table kept blank rest moments draft

/-- Made ready for a member, a draft on its way is shaped. -/
theorem Underway.exists_separate (hseat : Seat text kept blank rest)
    (h : Underway text origin table kept blank rest moments draft) :
    ∃ b isNew, draft.buffer.separate? = some (b, isNew) ∧
      Shaped origin kept blank rest moments b := by
  cases h with
  | untouched => exact shaped_start hseat origin
  | shaped _ h => exact ⟨draft.buffer, false, (h.ready hseat).separate?, h⟩

/-- A turn leads on, by one moment if it puts something in. -/
theorem Underway.turn (hseat : Seat text kept blank rest)
    (h : Underway text origin table kept blank rest moments draft)
    (hnamed : ∀ m ∈ draft.history [t], m.Named Plain) :
    Underway text origin table kept blank rest (moments ++ draft.history [t]) (draft.turn t) := by
  rcases turn_cases draft t with ⟨hputs, hdraft, -⟩ | ⟨hputs, -⟩
  · rw [hdraft]
    simpa [history, hputs] using h
  · have hhistory : draft.history [t] = [⟨t, (draft.turn t).renamings⟩] := by
      simp [history, hputs]
    rw [hhistory] at hnamed ⊢
    obtain ⟨b, isNew, hseparate, hshaped⟩ := h.exists_separate hseat
    exact .shaped (by simp) (hshaped.turn hseat hseparate hputs (hnamed _ List.mem_cons_self))

/-- So do any number of turns. -/
theorem Underway.foldl_turn (hseat : Seat text kept blank rest)
    (h : Underway text origin table kept blank rest moments draft)
    (hnamed : ∀ m ∈ draft.history turns, m.Named Plain) :
    Underway text origin table kept blank rest (moments ++ draft.history turns)
      (turns.foldl Draft.turn draft) := by
  induction turns generalizing draft moments with
  | nil =>
    rw [history, List.append_nil]
    exact h
  | cons t turns ih =>
    have hcut : draft.history (t :: turns) = draft.history [t] ++ (draft.turn t).history turns :=
      history_append draft [t] turns
    rw [hcut] at hnamed ⊢
    obtain ⟨hfirst, hlater⟩ := List.forall_mem_append.mp hnamed
    rw [← List.append_assoc, List.foldl_cons]
    exact ih (h.turn hseat hfirst) hlater

/-- The fragments of the object, when its text was `text` before the first moment. -/
def fragments (text : Text) (moments : List Moment) : List Fragment :=
  match Text.splitAtLast '}' text with
  | none => [⟨none, 0, text⟩]
  | some (front, back) =>
    let kept := Text.trimEnd front
    ⟨none, 0, kept⟩ :: ((if moments.isEmpty then [] else [⟨none, 0, separator kept⟩]) ++
      (⟨none, 0, front.drop kept.length⟩ :: (Fragment.members moments ++ [⟨none, 0, back⟩])))

/-- The fragments of an object with a place for members. -/
theorem fragments_eq (hseat : Seat text kept blank rest) (moments : List Moment) :
    fragments text moments =
      ⟨none, 0, kept⟩ :: ((if moments.isEmpty then [] else [⟨none, 0, separator kept⟩]) ++
        (⟨none, 0, blank⟩ :: (Fragment.members moments ++ [fromBrace rest]))) := by
  have hsplit : Text.splitAtLast '}' text = some (kept ++ blank, '}' :: rest) := by
    rw [hseat.eq, ← List.append_assoc]
    exact Text.splitAtLast_append hseat.rest _
  have htrim : Text.trimEnd (kept ++ blank) = kept := Text.trimEndBy_eq hseat.kept hseat.blank
  unfold fragments
  simp [hsplit, htrim, fromBrace]

/-- The text of a draft on its way is that of the fragments, with their names read. -/
theorem Underway.text_eq (hseat : Seat text kept blank rest)
    (h : Underway text origin table kept blank rest moments draft) :
    draft.buffer.text = (fragments text moments).flatMap (Fragment.shown origin moments) := by
  rw [fragments_eq hseat]
  cases h with
  | untouched =>
    have hshown : ∀ f : Fragment, f.shown origin [] = f.text := fun f =>
      Fragment.shown_of_length_le (Nat.zero_le _)
    simp [Fragment.members, hshown, fromBrace, Buffer.ofText, hseat.eq]
  | shaped hne h =>
    have hsome : moments.isEmpty = false := by simpa using hne
    have hpiece : ∀ f : Fragment, (f.piece origin moments).text = f.shown origin moments :=
      fun f => rfl
    rw [h.composed.text, hsome]
    simp [before, Piece.flat, List.flatMap_map, hpiece]

/-- The text after any turns is that of the fragments, with their names read by the history. -/
theorem text_foldl_turn (table : List Renaming)
    (hnamed : ∀ m ∈ history ⟨Buffer.ofText text origin, table⟩ turns, m.Named Plain) :
    (turns.foldl turn ⟨Buffer.ofText text origin, table⟩).buffer.text =
      (fragments text (history ⟨Buffer.ofText text origin, table⟩ turns)).flatMap
        (Fragment.shown origin (history ⟨Buffer.ofText text origin, table⟩ turns)) := by
  -- Without a brace no turn adds a member, and the text stays the one fragment that it is.
  by_cases hbrace : '}' ∈ text
  · obtain ⟨kept, blank, rest, hseat⟩ := Seat.exists_of_mem hbrace
    have hstart : Underway text origin table kept blank rest [] ⟨Buffer.ofText text origin, table⟩ :=
      .untouched
    have hunderway := hstart.foldl_turn hseat hnamed
    rw [List.nil_append] at hunderway
    exact hunderway.text_eq hseat
  · have hnone : '}' ∉ (⟨Buffer.ofText text origin, table⟩ : Draft).buffer.text := hbrace
    obtain ⟨hhistory, hdraft⟩ := history_of_no_brace hnone turns
    rw [hhistory, hdraft]
    unfold fragments
    have hshown : Fragment.shown origin [] ⟨none, 0, text⟩ = text :=
      Fragment.shown_of_length_le (Nat.zero_le _)
    rw [Text.splitAtLast_eq_none_iff.mpr hbrace, List.flatMap_singleton, hshown]
    rfl

end Graft.Draft
