import Graft.Proofs.Buffer.Search

/-!
# The pieces of a buffer

A buffer's text is put together from pieces, each of which comes from one file: the members, and what
stands between them. The members among the pieces say where the spans of the buffer are
(`Piece.spans`). That no member is empty (`Full`) and that no identifier reaches from one piece into
another (`Parted`) is what a change of the buffer has to keep.
-/

namespace Graft

open Lexeme (IsLetter StartsApart EndsApart Apart resolve)

/-- A part of a buffer's text that comes from one file. -/
structure Piece where
  /-- The file of a member; none for text outside of all members. -/
  source? : Option String
  text : Text
  deriving DecidableEq, Repr

namespace Piece

/-- The file that a piece comes from, in a buffer that started with text of `origin`. -/
def source (origin : String) (p : Piece) : String := p.source?.getD origin

/-- The text of pieces. -/
def flat (pieces : List Piece) : Text := pieces.flatMap Piece.text

/-- The spans of the members among pieces, where the first piece starts at `start`. -/
def spans : (start : Nat) → List Piece → List Span
  | _, [] => []
  | start, ⟨none, text⟩ :: pieces => spans (start + Text.byteLength text) pieces
  | start, ⟨some source, text⟩ :: pieces =>
    ⟨start, start + Text.byteLength text, source⟩ :: spans (start + Text.byteLength text) pieces

/-- No identifier reaches from one piece into another. -/
def Parted (pieces : List Piece) : Prop :=
  ∀ front back, pieces = front ++ back → Apart id (flat front) (flat back)

/-- No member among pieces is empty. -/
def Full (pieces : List Piece) : Prop := ∀ p ∈ pieces, p.source?.isSome → p.text ≠ []

/-- A piece with its free uses resolved. -/
def resolveAs (ρ : String → Text → Option Text) (origin : String) (p : Piece) : Piece :=
  { p with text := resolve id (ρ (p.source origin)) p.text }

variable {p : Piece} {pieces front back : List Piece} {start : Nat} {origin : String}

/-- No pieces have no text. -/
@[simp]
theorem flat_nil : flat [] = [] := rfl

/-- The text of the first piece comes first. -/
@[simp]
theorem flat_cons : flat (p :: pieces) = p.text ++ flat pieces := rfl

/-- The texts of pieces follow each other. -/
@[simp]
theorem flat_append : flat (front ++ back) = flat front ++ flat back := List.flatMap_append

/-- Pieces are full if the first one is, unless it is no member, and so are the others. -/
@[simp]
theorem full_cons : Full (p :: pieces) ↔ (p.source?.isSome → p.text ≠ []) ∧ Full pieces :=
  List.forall_mem_cons

/-- Pieces are full if their two parts are. -/
@[simp]
theorem full_append : Full (front ++ back) ↔ Full front ∧ Full back := List.forall_mem_append

/-- The spans of two rows of pieces, one after the other. -/
theorem spans_append :
    spans start (front ++ back) =
      spans start front ++ spans (start + Text.byteLength (flat front)) back := by
  induction front generalizing start with
  | nil => rfl
  | cons p front ih =>
    obtain ⟨source?, text⟩ := p
    cases source? with
    | none =>
      rw [List.cons_append, spans, spans, ih, flat_cons, Text.byteLength_append, Nat.add_assoc]
    | some source =>
      rw [List.cons_append, spans, spans, ih, flat_cons, Text.byteLength_append, List.cons_append,
        Nat.add_assoc]

/-- A span covers the bytes of a piece with its file. -/
theorem exists_of_mem_spans {s : Span} (h : s ∈ spans start pieces) :
    ∃ front p back, pieces = front ++ p :: back ∧ p.source? = some s.source ∧
      s.start = start + Text.byteLength (flat front) ∧
      s.stop = s.start + Text.byteLength p.text := by
  induction pieces generalizing start with
  | nil => simp [spans] at h
  | cons p pieces ih =>
    -- A span of a later piece is found among those.
    have hlater : s ∈ spans (start + Text.byteLength p.text) pieces →
        ∃ front q back, p :: pieces = front ++ q :: back ∧ q.source? = some s.source ∧
          s.start = start + Text.byteLength (flat front) ∧
          s.stop = s.start + Text.byteLength q.text := by
      intro h
      obtain ⟨front, q, back, rfl, hsource, hstart, hstop⟩ := ih h
      refine ⟨p :: front, q, back, rfl, hsource, ?_, hstop⟩
      rw [hstart, flat_cons, Text.byteLength_append, Nat.add_assoc]
    obtain ⟨source?, text⟩ := p
    cases source? with
    | none =>
      rw [spans] at h
      exact hlater h
    | some source =>
      rw [spans] at h
      rcases List.mem_cons.mp h with rfl | h
      · exact ⟨[], _, pieces, rfl, rfl, by simp, rfl⟩
      · exact hlater h

/-- The spans of pieces lie within their text. -/
theorem mem_spans_bounds {s : Span} (h : s ∈ spans start pieces) :
    start ≤ s.start ∧ s.start ≤ s.stop ∧ s.stop ≤ start + Text.byteLength (flat pieces) := by
  obtain ⟨front, p, back, rfl, -, hstart, hstop⟩ := exists_of_mem_spans h
  rw [flat_append, flat_cons, Text.byteLength_append, Text.byteLength_append]
  omega

/-- The row of files that the spans name is the row of the members' files. -/
theorem map_source_spans : (spans start pieces).map Span.source = pieces.filterMap Piece.source? := by
  induction pieces generalizing start with
  | nil => rfl
  | cons p pieces ih =>
    obtain ⟨source?, text⟩ := p
    cases source? with
    | none =>
      rw [spans, ih]
      rfl
    | some source =>
      rw [spans, List.map_cons, ih]
      rfl

/-! ## Pieces that are parted -/

/-- The pieces of a front part are parted. -/
theorem Parted.left (h : Parted (front ++ back)) : Parted front := by
  rintro f b rfl
  rcases h f (b ++ back) (by rw [List.append_assoc]) with hend | hstart
  · exact Or.inl hend
  · right
    intro a ha
    apply hstart a
    rw [flat_append, List.head?_append, Option.mem_def.mp ha]
    rfl

/-- Each piece is apart from what follows it. -/
theorem Parted.head (h : Parted (p :: pieces)) : Apart id p.text (flat pieces) := by
  have := h [p] pieces rfl
  rwa [flat_cons, flat_nil, List.append_nil] at this

/-- The pieces behind the first one are parted. -/
theorem Parted.tail (h : Parted (p :: pieces)) : Parted pieces := by
  rintro f b rfl
  by_cases hf : flat f = []
  · rw [hf]
    exact Or.inl (by simp)
  · rcases h (p :: f) b rfl with hend | hstart
    · left
      rw [EndsApart, flat_cons, List.getLast?_append_of_ne_nil _ hf] at hend
      exact hend
    · exact Or.inr hstart

/-- No pieces are parted. -/
theorem parted_nil : Parted [] := by
  intro front back h
  rw [(List.append_eq_nil_iff.mp h.symm).1]
  exact Or.inl (by simp)

/-- A piece that is apart from parted pieces may stand before them. -/
theorem Parted.cons (h : Parted pieces) (happart : Apart id p.text (flat pieces)) :
    Parted (p :: pieces) := by
  intro front back hcut
  cases front with
  | nil => exact Or.inl (by simp)
  | cons q front =>
    rw [List.cons_append] at hcut
    obtain ⟨rfl, rfl⟩ := List.cons.inj hcut
    -- The pieces before the cut end as they did without the first one, unless they are empty.
    by_cases hempty : flat front = []
    · rw [flat_append, hempty, List.nil_append] at happart
      rwa [flat_cons, hempty, List.append_nil]
    · refine (h front back rfl).imp_left fun hend => ?_
      rw [EndsApart, flat_cons, List.getLast?_append_of_ne_nil _ hempty]
      exact hend

/-- What a change of pieces must keep for them to stay parted. -/
structure Keeps (t u : Text) : Prop where
  eq_nil_iff : u = [] ↔ t = []
  startsApart : StartsApart id t → StartsApart id u
  endsApart : EndsApart id t → EndsApart id u

/-- Resolving keeps a text apart from others, if nothing becomes empty. -/
theorem keeps_resolve {ρ : Text → Option Text} (hρ : ∀ run r, ρ run = some r → r ≠ []) (t : Text) :
    Keeps t (resolve id ρ t) := by
  refine ⟨⟨fun h => ?_, ?_⟩, Lexeme.resolve_startsApart, Lexeme.resolve_endsApart⟩
  · by_contra hne
    exact Lexeme.resolveFrom_ne_nil hρ hne h
  · rintro rfl
    rfl

/-- Two changes next to each other keep what each of them keeps. -/
theorem Keeps.append {t t' u u' : Text} (ht : Keeps t t') (hu : Keeps u u') :
    Keeps (t ++ u) (t' ++ u') := by
  refine ⟨by simp [ht.eq_nil_iff, hu.eq_nil_iff], fun h => ?_, fun h => ?_⟩
  · -- The first text decides how the two start, unless it is empty.
    by_cases hempty : t = []
    · have hempty' := ht.eq_nil_iff.mpr hempty
      subst hempty hempty'
      exact hu.startsApart h
    · have hempty' : t' ≠ [] := fun h' => hempty (ht.eq_nil_iff.mp h')
      rw [StartsApart, List.head?_append_of_ne_nil _ hempty']
      rw [StartsApart, List.head?_append_of_ne_nil _ hempty] at h
      exact ht.startsApart h
  · -- The second one decides how they end.
    by_cases hempty : u = []
    · have hempty' := hu.eq_nil_iff.mpr hempty
      subst hempty hempty'
      rw [List.append_nil] at h ⊢
      exact ht.endsApart h
    · have hempty' : u' ≠ [] := fun h' => hempty (hu.eq_nil_iff.mp h')
      rw [EndsApart, List.getLast?_append_of_ne_nil _ hempty']
      rw [EndsApart, List.getLast?_append_of_ne_nil _ hempty] at h
      exact hu.endsApart h

end Piece

end Graft
