import Graft.Proofs.Buffer.Seat
import Graft.Proofs.Buffer.Tagged

/-!
# Putting commas and members into a composed buffer

A comma goes into the piece that it falls into, or between two pieces (`exists_takesComma`); the
spans move as `Buffer.shift` says, since a span that starts at the comma moves as a whole and one
that ends there does not grow. A member goes behind all others, before the brace that closes the
object, so it moves no span at all.
-/

namespace Graft

open Lexeme (IsLetter StartsApart EndsApart Apart)
open Buffer (shift)

namespace Piece

variable {pieces front back : List Piece} {p : Piece} {start position length : Nat} {s : Span}

/-- No span of members that are not empty is empty. -/
theorem Full.start_lt_stop (h : Full pieces) (hs : s ∈ spans start pieces) : s.start < s.stop := by
  obtain ⟨front, p, back, rfl, hsource, -, hstop⟩ := exists_of_mem_spans hs
  have := Text.byteLength_pos (h p (by simp) (by rw [hsource]; rfl))
  omega

/-- Spans before a position do not move. -/
theorem map_shift_before (hfull : Full pieces)
    (h : start + Text.byteLength (flat pieces) ≤ position) :
    (spans start pieces).map (shift position length) = spans start pieces := by
  have hsame : ∀ s ∈ spans start pieces, shift position length s = s := by
    intro s hs
    have hbounds := mem_spans_bounds hs
    have hlt := hfull.start_lt_stop hs
    rw [shift, if_neg (by omega), if_neg (by omega)]
  rw [List.map_congr_left hsame, List.map_id']

/-- Spans at a position and behind it move as a whole. -/
theorem map_shift_after (hfull : Full pieces) (h : position ≤ start) :
    (spans start pieces).map (shift position length) = spans (start + length) pieces := by
  induction pieces generalizing start with
  | nil => rfl
  | cons p pieces ih =>
    obtain ⟨hp, hpieces⟩ := full_cons.mp hfull
    have hrest : (spans (start + Text.byteLength p.text) pieces).map (shift position length) =
        spans (start + length + Text.byteLength p.text) pieces := by
      rw [ih hpieces (by omega), Nat.add_right_comm]
    obtain ⟨source?, text⟩ := p
    -- Only a member has a span, and a span that is not empty moves as a whole.
    cases source? with
    | none =>
      rw [spans, spans]
      exact hrest
    | some source =>
      have hpos := Text.byteLength_pos (hp rfl)
      simp only at hpos hrest
      rw [spans, spans, List.map_cons, hrest, shift, if_pos h, if_pos (by simp only; omega)]
      simp only [Nat.add_right_comm]

/-! ## A comma -/

/-- A comma on the right keeps texts apart. -/
theorem apart_comma_right {t u v : Text} (h : Apart id t (u ++ v)) :
    Apart id t (u ++ ',' :: v) := by
  refine h.imp_right fun hstart => ?_
  cases u with
  | nil =>
    rw [List.nil_append, Lexeme.startsApart_cons]
    decide
  | cons c u => simpa using hstart

/-- A comma on the left keeps texts apart. -/
theorem apart_comma_left {t u v : Text} (h : Apart id (t ++ u) v) :
    Apart id (t ++ ',' :: u) v := by
  refine h.imp_left fun hend => ?_
  by_cases hu : u = []
  · subst hu
    rw [Lexeme.endsApart_append_cons]
    decide
  · rw [EndsApart, List.getLast?_append_of_ne_nil _ (List.cons_ne_nil _ _),
      List.getLast?_cons_of_ne_nil hu]
    rwa [EndsApart, List.getLast?_append_of_ne_nil _ hu] at hend

/-- A cut of a row lies before or behind any one of its pieces. -/
theorem cut_around {f k : List Piece} (h : front ++ p :: back = f ++ k) :
    (∃ m, front = f ++ m ∧ k = m ++ p :: back) ∨ ∃ m, f = front ++ p :: m ∧ back = m ++ k := by
  rcases List.append_eq_append_iff.mp h with ⟨m, hf, hk⟩ | ⟨m, hf, hk⟩
  · cases m with
    | nil => exact Or.inl ⟨[], by simpa using hf.symm, by simpa using hk.symm⟩
    | cons q m =>
      rw [List.cons_append, List.cons.injEq] at hk
      exact Or.inr ⟨m, by rw [hf, hk.1], hk.2⟩
  · exact Or.inl ⟨m, hf, hk⟩

/-- Pieces stay parted when a comma is put into the text of one of them. -/
theorem Parted.comma_inside {source? : Option String} {x y : Text}
    (h : Parted (front ++ ⟨source?, x ++ y⟩ :: back)) :
    Parted (front ++ ⟨source?, x ++ ',' :: y⟩ :: back) := by
  intro f k hcut
  rcases cut_around hcut with ⟨m, rfl, rfl⟩ | ⟨m, rfl, rfl⟩
  · have := h f (m ++ ⟨source?, x ++ y⟩ :: back) (by rw [List.append_assoc])
    simp only [flat_append, flat_cons, List.append_assoc] at this ⊢
    rw [← List.append_assoc] at this ⊢
    exact apart_comma_right this
  · have := h (front ++ ⟨source?, x ++ y⟩ :: m) k (by simp)
    simp only [flat_append, flat_cons, List.append_assoc] at this ⊢
    rw [← List.append_assoc] at this ⊢
    exact apart_comma_left this

/-- Pieces stay parted when a comma is put between two of them. -/
theorem Parted.comma_between (h : Parted (front ++ back)) :
    Parted (front ++ ⟨none, [',']⟩ :: back) := by
  intro f k hcut
  rcases cut_around hcut with ⟨m, rfl, rfl⟩ | ⟨m, rfl, rfl⟩
  · have := h f (m ++ back) (by rw [List.append_assoc])
    rw [flat_append] at this
    rw [flat_append, flat_cons]
    exact apart_comma_right this
  · have := h (front ++ m) k (by rw [List.append_assoc])
    rw [flat_append] at this
    rw [flat_append, flat_cons]
    exact apart_comma_left this

/-- A cut of a text lies within one of its pieces, or between two of them. -/
theorem exists_cut {x y : Text} (h : flat pieces = x ++ y) :
    (∃ front p back x' y', pieces = front ++ p :: back ∧ p.text = x' ++ y' ∧ x' ≠ [] ∧ y' ≠ [] ∧
      x = flat front ++ x' ∧ y = y' ++ flat back) ∨
    ∃ front back, pieces = front ++ back ∧ x = flat front ∧ y = flat back := by
  induction pieces generalizing x with
  | nil =>
    rw [flat_nil, List.nil_eq_append_iff] at h
    exact Or.inr ⟨[], [], rfl, h.1, h.2⟩
  | cons p pieces ih =>
    rw [flat_cons, List.append_eq_append_iff] at h
    -- The cut lies behind the first piece, or within it or at one of its ends.
    rcases h with ⟨x', rfl, hrest⟩ | ⟨y', hp, rfl⟩
    · rcases ih hrest with ⟨f, q, k, x1, y1, rfl, hq, hx1, hy1, rfl, rfl⟩ | ⟨f, k, rfl, rfl, rfl⟩
      · exact Or.inl ⟨p :: f, q, k, x1, y1, rfl, hq, hx1, hy1, by simp, rfl⟩
      · exact Or.inr ⟨p :: f, k, rfl, by simp, rfl⟩
    · by_cases hx : x = []
      · subst hx
        exact Or.inr ⟨[], p :: pieces, rfl, rfl, by simp [hp]⟩
      · by_cases hy : y' = []
        · subst hy
          exact Or.inr ⟨[p], pieces, rfl, by simpa using hp.symm, by simp⟩
        · exact Or.inl ⟨[], p, pieces, x, y', rfl, hp, hx, hy, by simp, rfl⟩

/-- A row of pieces after a comma is put in between `x` and `y`, the parts of its text. -/
structure TakesComma (origin : String) (x y : Text) (pieces pieces' : List Piece) : Prop where
  flat : flat pieces' = x ++ ',' :: y
  full : Full pieces'
  spans : ∀ start, spans start pieces' =
    (Piece.spans start pieces).map (shift (start + Text.byteLength x) 1)
  cells : ∃ front back file, cells origin pieces = front ++ back ∧ Tagged.plain front = x ∧
    Piece.cells origin pieces' = front ++ (',', file) :: back
  parted : ∀ rest, Parted (pieces ++ rest) → Parted (pieces' ++ rest)

/-- When a comma is put into a piece, the spans before it stay, the one around it grows, and those behind
it move. -/
theorem spans_comma_inside {source? : Option String} {x y : Text}
    (hfull : Full (front ++ ⟨source?, x ++ y⟩ :: back)) (hx : x ≠ []) (hy : y ≠ []) (start : Nat) :
    spans start (front ++ ⟨source?, x ++ ',' :: y⟩ :: back) =
      (spans start (front ++ ⟨source?, x ++ y⟩ :: back)).map
        (shift (start + Text.byteLength (flat front ++ x)) 1) := by
  obtain ⟨hfront, -, hback⟩ : Full front ∧ (source?.isSome → x ++ y ≠ []) ∧ Full back := by
    simpa only [full_append, full_cons] using hfull
  have hxpos := Text.byteLength_pos hx
  have hypos := Text.byteLength_pos hy
  have hcomma : (',' : Char).utf8Size = 1 := by decide
  have hgrown : Text.byteLength (x ++ ',' :: y) = Text.byteLength (x ++ y) + 1 := by
    rw [Text.byteLength_append, Text.byteLength_append, Text.byteLength_cons, hcomma]
    omega
  have hbehind : (spans (start + Text.byteLength (flat front) + Text.byteLength (x ++ y)) back).map
      (shift (start + (Text.byteLength (flat front) + Text.byteLength x)) 1) =
        spans (start + Text.byteLength (flat front) + Text.byteLength (x ++ y) + 1) back := by
    apply map_shift_after hback
    rw [Text.byteLength_append]
    omega
  rw [spans_append, spans_append, List.map_append, Text.byteLength_append,
    map_shift_before hfront (by omega)]
  -- The spans before the comma are done; those around it and behind it are left.
  congr 1
  cases source? with
  | none => rw [spans, spans, hbehind, hgrown, ← Nat.add_assoc]
  | some source =>
    have hlt : start + (Text.byteLength (flat front) + Text.byteLength x) <
        start + Text.byteLength (flat front) + Text.byteLength (x ++ y) := by
      rw [Text.byteLength_append]
      omega
    rw [spans, spans, List.map_cons, hbehind, hgrown, shift, if_neg (by simp only; omega), if_pos hlt,
      ← Nat.add_assoc]

/-- A comma inside a piece becomes part of it. -/
theorem takesComma_inside {origin : String} {source? : Option String} {x y : Text}
    (hfull : Full (front ++ ⟨source?, x ++ y⟩ :: back)) (hx : x ≠ []) (hy : y ≠ []) :
    TakesComma origin (Piece.flat front ++ x) (y ++ Piece.flat back)
      (front ++ ⟨source?, x ++ y⟩ :: back) (front ++ ⟨source?, x ++ ',' :: y⟩ :: back) := by
  constructor
  · simp
  · rw [full_append, full_cons] at hfull ⊢
    exact ⟨hfull.1, fun _ => by simp, hfull.2.2⟩
  · exact spans_comma_inside hfull hx hy
  · refine ⟨Piece.cells origin front ++ Tagged.ofText x (Piece.source origin ⟨source?, x⟩),
      Tagged.ofText y (Piece.source origin ⟨source?, x⟩) ++ Piece.cells origin back,
      Piece.source origin ⟨source?, x⟩, ?_, ?_, ?_⟩
    · simp [Tagged.ofText, Piece.source]
    · rw [Tagged.plain, List.map_append, ← Tagged.plain, ← Tagged.plain, plain_cells,
        Tagged.plain_ofText]
    · simp [Tagged.ofText, Piece.source]
  · intro rest h
    rw [List.append_assoc, List.cons_append] at h ⊢
    exact h.comma_inside

/-- A comma between two pieces becomes one of its own. -/
theorem takesComma_between {origin : String} (hfull : Full (front ++ back)) :
    TakesComma origin (Piece.flat front) (Piece.flat back) (front ++ back)
      (front ++ ⟨none, [',']⟩ :: back) := by
  obtain ⟨hfront, hback⟩ := full_append.mp hfull
  have hcomma : Text.byteLength [','] = 1 := by decide
  constructor
  · simp
  · rw [full_append, full_cons]
    exact ⟨hfront, fun _ => by simp, hback⟩
  · intro start
    rw [spans_append, spans_append, List.map_append, map_shift_before hfront (le_refl _),
      map_shift_after hback (le_refl _), Piece.spans, hcomma]
  · exact ⟨Piece.cells origin front, Piece.cells origin back, origin, cells_append, plain_cells, by
      simp [Tagged.ofText, Piece.source]⟩
  · intro rest h
    rw [List.append_assoc] at h ⊢
    exact h.comma_between

/-- A comma can be put in anywhere. -/
theorem exists_takesComma (origin : String) {x y : Text} (h : Piece.flat pieces = x ++ y)
    (hfull : Full pieces) : ∃ pieces', TakesComma origin x y pieces pieces' := by
  rcases exists_cut h with ⟨front, p, back, x', y', rfl, hp, hx, hy, rfl, rfl⟩ |
    ⟨front, back, rfl, rfl, rfl⟩
  · obtain ⟨source?, text⟩ := p
    simp only at hp
    subst hp
    exact ⟨_, takesComma_inside hfull hx hy⟩
  · exact ⟨_, takesComma_between hfull⟩

/-! ## A member -/

/-- Pieces stay parted when one is put where the text before it ends apart and the text behind it
starts apart. -/
theorem Parted.insert (h : Parted (front ++ back)) (hend : EndsApart id (flat front))
    (hstart : StartsApart id (flat back)) : Parted (front ++ p :: back) := by
  intro f k hcut
  -- A cut before or behind the new piece is an old one, unless only empty pieces lie in between.
  rcases cut_around hcut with ⟨m, rfl, rfl⟩ | ⟨m, rfl, rfl⟩
  · by_cases hm : flat m = []
    · left
      rwa [flat_append, hm, List.append_nil] at hend
    · refine (h f (m ++ back) (by rw [List.append_assoc])).imp_right fun hapart => ?_
      rw [StartsApart, flat_append, List.head?_append_of_ne_nil _ hm] at hapart
      rwa [StartsApart, flat_append, List.head?_append_of_ne_nil _ hm]
  · by_cases hm : flat m = []
    · right
      rwa [flat_append, hm, List.nil_append] at hstart
    · refine (h (front ++ m) k (by rw [List.append_assoc])).imp_left fun hapart => ?_
      rw [EndsApart, flat_append, List.getLast?_append_of_ne_nil _ hm] at hapart
      rwa [EndsApart, flat_append, flat_cons, ← List.append_assoc,
        List.getLast?_append_of_ne_nil _ hm]

/-- Pieces outside of members have no spans. -/
theorem spans_eq_nil (h : ∀ p ∈ pieces, p.source? = none) : spans start pieces = [] := by
  induction pieces generalizing start with
  | nil => rfl
  | cons p pieces ih =>
    obtain ⟨source?, text⟩ := p
    have hnone : source? = none := h ⟨source?, text⟩ (by simp)
    subst hnone
    rw [spans]
    exact ih fun q hq => h q (by simp [hq])

end Piece

namespace Buffer

open Piece (flat spans)

variable {b : Buffer} {front back : List Piece} {member : Text}

/-- A member behind all others makes a piece of its own. -/
theorem Composed.insertMember (h : Composed b (front ++ back)) (hmember : member ≠ [])
    (source : String) (hback : ∀ p ∈ back, p.source? = none) (hend : EndsApart id (flat front))
    (hstart : StartsApart id (flat back)) :
    Composed (b.withMember (flat front) member (flat back) source)
      (front ++ ⟨some source, member⟩ :: back) where
  text := by simp [withMember]
  members := by
    have hfull : Piece.Full front := (Piece.full_append.mp h.full).1
    -- All spans stand before the new one, so it is the last, and none of them moves.
    have hspans : b.members = spans 0 front := by
      rw [h.members, Piece.spans_append, Piece.spans_eq_nil hback, List.append_nil]
    rw [withMember, Piece.spans_append, Piece.spans, Piece.spans_eq_nil hback, Nat.zero_add, hspans,
      Piece.map_shift_before hfull (by omega)]
  full := by
    obtain ⟨hfront, hback⟩ := Piece.full_append.mp h.full
    rw [Piece.full_append, Piece.full_cons]
    exact ⟨hfront, fun _ => hmember, hback⟩
  parted := h.parted.insert hend hstart

end Buffer

end Graft
