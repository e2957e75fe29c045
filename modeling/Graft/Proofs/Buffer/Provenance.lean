import Graft.Proofs.Buffer.Ready

/-!
# Where each part of a buffer comes from

A buffer that is changed in any way any number of times is a tagged text: at each character's
position it names the file in the character's tag, and its spans are its members, one behind the
other in the order in which they were put in (`changes_refine`). One change does to the tagged text
what `Tagged.Step` says (`Sound.change`); what all changes keep is that the buffer is composed of
pieces of which the last one has the brace that closes the object.
-/

namespace Graft

open Piece (flat spans cells)

/-- The tagged text behind a buffer, and the files of its members in the order in which they were put
in. -/
structure Buffer.Refines (b : Buffer) (t : Tagged) (sources : List String) : Prop where
  /-- The buffer's text is the tagged text without its tags. -/
  text : Tagged.plain t = b.text
  /-- At the position of each character the buffer names the file in its tag. -/
  sourceAt : ∀ before a after, t = before ++ a :: after →
    b.sourceAt (Text.byteLength (Tagged.plain before)) = a.2
  /-- The spans are those of the members, in order. -/
  members : b.members.map Span.source = sources
  /-- Each span covers a part of the text that is not empty, from character to character. -/
  inside : ∀ s ∈ b.members, ∃ before member after, b.text = before ++ (member ++ after) ∧
    member ≠ [] ∧ s.start = Text.byteLength before ∧ s.stop = s.start + Text.byteLength member
  /-- Each span ends before the next one starts. -/
  ordered : b.members.Pairwise fun s s' => s.stop ≤ s'.start
  /-- No redirection moves the end of a span off the text, on either side. -/
  stays : ∀ name answer, (Change.redirect name answer).Admissible → ∀ s ∈ b.members,
    ∀ position ∈ [s.start, s.stop],
      0 ≤ (position : Int) + Buffer.growthBefore position (b.edits name answer) ∧
      (position : Int) + Buffer.growthBefore position (b.edits name answer) ≤
        Text.byteLength (b.redirect name answer).1.text

namespace Piece

variable {pieces : List Piece} {start : Nat}

/-- The spans of pieces come one behind the other. -/
theorem pairwise_spans : (spans start pieces).Pairwise fun s s' => s.stop ≤ s'.start := by
  induction pieces generalizing start with
  | nil => exact List.Pairwise.nil
  | cons p pieces ih =>
    obtain ⟨source?, text⟩ := p
    cases source? with
    | none =>
      rw [spans]
      exact ih
    | some source =>
      rw [spans, List.pairwise_cons]
      exact ⟨fun s hs => (mem_spans_bounds hs).1, ih⟩

end Piece

namespace Buffer

variable {b : Buffer} {pieces front : List Piece} {tail : Text}

/-- The tag of a character is what the buffer says of its position. -/
theorem sourceAt_of_tagsFrom {position : Nat} {t : Text} {before after : Tagged} {a : Char × String}
    (h : b.tagsFrom position t = before ++ a :: after) :
    b.sourceAt (position + Text.byteLength (Tagged.plain before)) = a.2 := by
  -- The induction is on what stands before the character, whose bytes the position counts.
  induction before generalizing position t with
  | nil =>
    cases t with
    | nil => simp [tagsFrom] at h
    | cons c t =>
      rw [tagsFrom, List.nil_append, List.cons.injEq] at h
      rw [← h.1]
      rfl
  | cons x before ih =>
    cases t with
    | nil => simp [tagsFrom] at h
    | cons c t =>
      rw [tagsFrom, List.cons_append, List.cons.injEq] at h
      rw [← ih h.2, ← h.1]
      congr 1
      rw [Tagged.plain, List.map_cons, Text.byteLength_cons, ← Tagged.plain, Nat.add_assoc]

/-- A composed buffer refines the text of its pieces with their tags. -/
theorem Composed.refines (h : Composed b pieces) :
    b.Refines b.tagged (b.members.map Span.source) where
  text := plain_tagsFrom 0 b.text
  sourceAt before a after ht := by simpa using sourceAt_of_tagsFrom ht
  members := rfl
  inside s hs := by
    rw [h.members] at hs
    obtain ⟨front, p, back, rfl, hsource, hstart, hstop⟩ := Piece.exists_of_mem_spans hs
    refine ⟨flat front, p.text, flat back, ?_, ?_, ?_, hstop⟩
    · rw [h.text, Piece.flat_append, Piece.flat_cons]
    · exact h.full p (by simp) (by rw [hsource]; rfl)
    · rw [hstart, Nat.zero_add]
  ordered := by
    rw [h.members]
    exact Piece.pairwise_spans
  stays name answer hadmissible := by
    obtain ⟨hname, hanswer⟩ := hadmissible
    -- Both ends of a span are cuts between pieces, and a cut moves to a cut.
    have hcut : ∀ front back, pieces = front ++ back →
        0 ≤ (Text.byteLength (flat front) : Int) +
            growthBefore (Text.byteLength (flat front)) (b.edits name answer) ∧
        (Text.byteLength (flat front) : Int) +
            growthBefore (Text.byteLength (flat front)) (b.edits name answer) ≤
          Text.byteLength (b.redirect name answer).1.text := by
      rintro front back rfl
      rw [h.moved_cut hname, (h.redirect hname hanswer).text, List.map_append, Piece.flat_append,
        Text.byteLength_append]
      omega
    intro s hs position hposition
    rw [h.members] at hs
    obtain ⟨front, p, back, rfl, -, hstart, hstop⟩ := Piece.exists_of_mem_spans hs
    rw [Nat.zero_add] at hstart
    rcases List.mem_pair.mp hposition with rfl | rfl
    · rw [hstart]
      exact hcut front (p :: back) rfl
    · have := hcut (front ++ [p]) back (by simp)
      rwa [Piece.flat_append, Text.byteLength_append, ← hstart, Piece.flat_cons, Piece.flat_nil,
        List.append_nil, ← hstop] at this

/-! ## One change -/

/-- What every change keeps: the buffer is composed of pieces, and the last one is outside of members
and has a closing brace, unless it is the only one. -/
def Sound (b : Buffer) : Prop :=
  ∃ front tail, Composed b (front ++ [⟨none, tail⟩]) ∧ (front = [] ∨ '}' ∈ tail)

/-- A buffer is sound at the start. -/
theorem sound_ofText (text : Text) (origin : String) : Sound (ofText text origin) :=
  ⟨[], text, composed_ofText text origin, Or.inl rfl⟩

/-- A buffer that is ready for a member is sound. -/
theorem Ready.sound {rest : Text} (h : Ready b pieces rest) : Sound b :=
  ⟨pieces, '}' :: rest, h.composed, Or.inr (by simp)⟩

/-- A sound buffer has a closing brace in its last piece or none at all. -/
theorem Sound.exists_brace_or (h : Sound b) :
    (∃ front tail, Composed b (front ++ [⟨none, tail⟩]) ∧ '}' ∈ tail) ∨ '}' ∉ b.text := by
  obtain ⟨front, tail, hcomposed, htail⟩ := h
  by_cases hbrace : '}' ∈ tail
  · exact Or.inl ⟨front, tail, hcomposed, hbrace⟩
  · right
    have hfront := htail.resolve_right hbrace
    rw [hcomposed.text, hfront]
    simpa using hbrace

/-- What one change does, to the tagged text and to the files of the members. -/
structure Changed (change : Change) (b b' : Buffer) : Prop where
  sound : Sound b'
  step : ∃ source?, Tagged.Step change b.tagged b'.tagged source? ∧
    b'.members.map Span.source = b.members.map Span.source ++ source?.toList

/-- A change that is refused changes nothing. -/
theorem Sound.refused (h : Sound b) (hbrace : '}' ∉ b.text) {change : Change}
    (hchange : ∀ name answer, change ≠ .redirect name answer) : Changed change b b :=
  ⟨h, none, .refused (by rwa [tagged, plain_tagsFrom]) hchange, by simp⟩

/-- Making a sound buffer ready for a member. -/
theorem Sound.separate (h : Sound b) : Changed .separate b (b.change .separate) := by
  rcases h.exists_brace_or with ⟨front, tail, hcomposed, hbrace⟩ | hbrace
  · obtain ⟨b', isNew, pieces, rest, hseparate, hready, -, hmembers, hstep⟩ :=
      hcomposed.separate? hbrace
    have hchange : b.change .separate = b' := by
      rw [change, hseparate]
      rfl
    rw [hchange]
    exact ⟨hready.sound, none, .separate hstep, by simp [hmembers]⟩
  · have hchange : b.change .separate = b := by
      rw [change, separate?_eq_none hbrace]
      rfl
    rw [hchange]
    exact h.refused hbrace (by simp)

/-- Putting a member into a sound buffer. -/
theorem Sound.insert (h : Sound b) {member : Text} {source : String} (hmember : member ≠ []) :
    Changed (.insert member source) b (b.change (.insert member source)) := by
  rcases h.exists_brace_or with ⟨front, tail, hcomposed, hbrace⟩ | hbrace
  · obtain ⟨b', isNew, pieces, rest, hseparate, hready, -, hmembers, hstep⟩ :=
      hcomposed.separate? hbrace
    obtain ⟨c, hinsert, hc, horigin, hsources⟩ := hready.insert? hseparate hmember source
    have hchange : b.change (.insert member source) = c := by
      rw [change, hinsert]
      rfl
    rw [hchange]
    refine ⟨⟨_, _, hc, Or.inr (by simp)⟩, some source, ?_, ?_⟩
    · -- The member goes behind the blank before the brace, in the text and in its tags.
      obtain ⟨kept, blank, hflat, hopen, hblank⟩ := hready.isOpen
      obtain ⟨u, v, huv, rfl, rfl⟩ := Tagged.exists_cut (Piece.plain_cells.trans hflat)
      have hfrom : Tagged.plain (cells b'.origin [⟨none, '}' :: rest⟩]) = '}' :: rest := by simp
      have hparts :=
        Tagged.lastBrace_of_plain (getLast?_of_isOpen hopen) hblank hfrom hready.brace
      have htagged : b'.tagged = u ++ (v ++ cells b'.origin [⟨none, '}' :: rest⟩]) := by
        rw [hready.composed.tagged, Piece.cells_append, huv, List.append_assoc]
      rw [← htagged] at hparts
      have hinserted : c.tagged = u ++ (v ++ (Tagged.ofText member source ++
          cells b'.origin [⟨none, '}' :: rest⟩])) := by
        rw [hc.tagged, horigin, Piece.cells_append, Piece.cells_append, huv]
        simp [Piece.source]
      rw [hinserted]
      exact .insert hstep hparts
    · rw [hsources, hmembers]
      rfl
  · have hchange : b.change (.insert member source) = b := by
      rw [change, insert?, separate?_eq_none hbrace]
      rfl
    rw [hchange]
    exact h.refused hbrace (by simp)

/-- Redirecting a name in a sound buffer. -/
theorem Sound.redirect (h : Sound b) {name : String} {answer : String → Option String}
    (hadmissible : (Change.redirect name answer).Admissible) :
    Changed (.redirect name answer) b (b.change (.redirect name answer)) := by
  obtain ⟨hname, hanswer⟩ := hadmissible
  obtain ⟨front, tail, hcomposed, htail⟩ := h
  have hredirect := hcomposed.redirect hname hanswer
  have htagged := hredirect.tagged
  rw [redirect_origin, cells_resolveAs hcomposed.parted, ← hcomposed.tagged] at htagged
  -- The last piece keeps its brace, since no name has one.
  refine ⟨?_, none, ?_, ?_⟩
  · rw [List.map_append, List.map_cons, List.map_nil] at hredirect
    refine ⟨_, _, hredirect, htail.imp (fun hfront => by rw [hfront]; rfl) fun hbrace => ?_⟩
    exact Lexeme.mem_resolveFrom_of_mark (by decide) hbrace
  · rw [change, htagged]
    exact .redirect name answer
  · rw [change, hredirect.members, hcomposed.members, Piece.map_source_spans, Piece.map_source_spans,
      List.filterMap_map, Option.toList_none, List.append_nil]
    rfl

/-- Every change that is admissible keeps a buffer sound and is a step of its tagged text. -/
theorem Sound.change (h : Sound b) {change : Change} (hadmissible : change.Admissible) :
    Changed change b (b.change change) := by
  cases change with
  | separate => exact h.separate
  | insert member source => exact h.insert hadmissible
  | redirect name answer => exact h.redirect hadmissible

/-! ## All changes -/

/-- Changes one after the other are steps of the tagged text. -/
theorem Sound.foldl_change {changes : List Change} (h : Sound b)
    (hadmissible : ∀ change ∈ changes, change.Admissible) :
    Sound (changes.foldl Buffer.change b) ∧ ∃ sources,
      Tagged.Steps changes b.tagged (changes.foldl Buffer.change b).tagged sources ∧
      (changes.foldl Buffer.change b).members.map Span.source =
        b.members.map Span.source ++ sources := by
  induction changes generalizing b with
  | nil => exact ⟨h, [], .nil _, by simp⟩
  | cons change changes ih =>
    obtain ⟨hsound, source?, hstep, hmembers⟩ := h.change (hadmissible change (by simp))
    obtain ⟨hsound', sources, hsteps, hmembers'⟩ :=
      ih hsound fun c hc => hadmissible c (by simp [hc])
    refine ⟨hsound', source?.toList ++ sources, .cons hstep hsteps, ?_⟩
    rw [List.foldl_cons, hmembers', hmembers, List.append_assoc]

/-- A buffer made from a text of one file and changed any number of times is a tagged text that went
through the same changes, and its spans are the members that they put in, in that order. -/
theorem changes_refine (text : Text) (origin : String) (changes : List Change)
    (hadmissible : ∀ change ∈ changes, change.Admissible) :
    ∃ t sources, Tagged.Steps changes (Tagged.ofText text origin) t sources ∧
      (changes.foldl Buffer.change (ofText text origin)).Refines t sources := by
  obtain ⟨hsound, sources, hsteps, hmembers⟩ :=
    (sound_ofText text origin).foldl_change hadmissible
  have hstart : (ofText text origin).tagged = Tagged.ofText text origin := by
    rw [(composed_ofText text origin).tagged]
    simp [Piece.source, ofText]
  obtain ⟨front, tail, hcomposed, -⟩ := hsound
  have hrefines := hcomposed.refines
  rw [hmembers] at hrefines
  rw [hstart] at hsteps
  exact ⟨_, sources, hsteps, hrefines⟩

/-- A member goes in, and then a name is redirected in the file of the member only. -/
theorem changes_refine_member :
    ∃ t sources,
      Tagged.Steps
        [.insert "f() { go }".toList "lib",
          .redirect "go" fun source => if source = "lib" then some "this.go" else none]
        (Tagged.ofText "{ go }".toList "entry") t sources ∧
      (List.foldl Buffer.change (ofText "{ go }".toList "entry")
        [.insert "f() { go }".toList "lib",
          .redirect "go" fun source => if source = "lib" then some "this.go" else none]).Refines
        t sources := by
  apply changes_refine
  intro change hchange
  rcases List.mem_pair.mp hchange with rfl | rfl
  · show "f() { go }".toList ≠ []
    decide
  · refine ⟨⟨by decide, fun c hc => ?_⟩, fun source r h => ?_⟩
    · have hletter : c = 'g' ∨ c = 'o' := by simpa using hc
      rcases hletter with rfl | rfl <;> decide
    simp only at h
    split at h
    · rw [← Option.some.inj h]
      decide
    · simp at h

end Buffer

end Graft
