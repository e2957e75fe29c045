import Graft.Proofs.Buffer.Piece

/-!
# Buffers composed of pieces

`Composed` ties a buffer to a row of pieces. Two facts about it are used everywhere: the file at a
position is the file of the piece there (`Composed.sourceAt`), and redirecting a name changes each
piece as if it were alone (`Composed.redirect`). The second needs that no occurrence crosses from one
piece into another, which holds since pieces are parted, and that the spans move to where the pieces
go, which holds since the changes before a cut add up to the growth of what stands before it.
-/

namespace Graft.Buffer

open Alphabet (IsName)
open Lexeme (IsLetter StartsApart EndsApart Apart resolve)
open Piece (flat spans Parted Full)

/-- A buffer is composed of pieces: its text is theirs, its spans are the members among them, no
member is empty, and no identifier reaches from one piece into another. -/
structure Composed (b : Buffer) (pieces : List Piece) : Prop where
  text : b.text = flat pieces
  members : b.members = spans 0 pieces
  full : Full pieces
  parted : Parted pieces

/-- A buffer without members is one piece. -/
theorem composed_ofText (text : Text) (origin : String) :
    Composed (ofText text origin) [⟨none, text⟩] where
  text := by simp [ofText]
  members := rfl
  full := by simp [Full]
  parted := by
    intro front back h
    cases front with
    | nil => exact Or.inl (by simp)
    | cons p front =>
      have hback : back = [] := by simp_all
      subst hback
      exact Or.inr (by simp)

variable {b : Buffer} {pieces front back : List Piece} {p : Piece} {name : String}
  {answer : String → Option String}

/-- The file at a position is that of the piece there. -/
theorem Composed.sourceAt (h : Composed b (front ++ p :: back)) {position : Nat}
    (hle : Text.byteLength (flat front) ≤ position)
    (hlt : position < Text.byteLength (flat front) + Text.byteLength p.text) :
    b.sourceAt position = p.source b.origin := by
  -- No span before the piece reaches the position, and none after it starts that early.
  have hbefore : (spans 0 front).find? (fun s => s.start ≤ position && position < s.stop) = none := by
    rw [List.find?_eq_none]
    intro s hs
    have := Piece.mem_spans_bounds hs
    simp only [Bool.and_eq_true, decide_eq_true_eq]
    omega
  have hafter : (spans (Text.byteLength (flat front) + Text.byteLength p.text) back).find?
      (fun s => s.start ≤ position && position < s.stop) = none := by
    rw [List.find?_eq_none]
    intro s hs
    have := Piece.mem_spans_bounds hs
    simp only [Bool.and_eq_true, decide_eq_true_eq]
    omega
  rw [Buffer.sourceAt, h.members, Piece.spans_append, List.find?_append, hbefore, Nat.zero_add]
  obtain ⟨source?, text⟩ := p
  cases source? with
  | none =>
    rw [Piece.spans, hafter]
    rfl
  | some source =>
    have hin : (decide (Text.byteLength (flat front) ≤ position) &&
        decide (position < Text.byteLength (flat front) + Text.byteLength text)) = true := by
      simpa using ⟨hle, hlt⟩
    rw [Piece.spans, List.find?_cons, hin]
    rfl

/-! ## Redirecting a name -/

/-- Redirecting leaves the file that the buffer started with. -/
@[simp]
theorem redirect_origin : (b.redirect name answer).1.origin = b.origin := by
  rw [redirect]
  split
  · rfl
  · simp only
    split <;> rfl

/-- What the file `source` says of a name, for all names but one nothing. -/
def sole (name : String) (answer : String → Option String) (source : String) : Text → Option Text :=
  only name.toList ((answer source).map String.toList)

/-- What redirecting says at a position: what the file there says. -/
def answerAt (b : Buffer) (answer : String → Option String) (position : Nat) : Option Text :=
  (answer (b.sourceAt position)).map String.toList

/-- The changes of redirecting are those of the search. -/
theorem edits_eq (b : Buffer) (name : String) (answer : String → Option String) :
    b.edits name answer =
      (stretchesFrom name.toList 0 0 none b.text).filterMap
        (Stretch.edit? name.toList (b.answerAt answer)) := by
  rw [edits, stretches]
  congr 1
  funext s
  cases s with
  | plain c => rfl
  | occurrence start isFree =>
    cases isFree with
    | false => rfl
    | true =>
      rw [Stretch.edit?, answerAt, replacement?]
      cases answer (b.sourceAt start) <;> rfl

/-- The text of redirecting is what the search fills in. -/
theorem flatMap_redirected (b : Buffer) (name : String) (answer : String → Option String) :
    (stretches name.toList b.text).flatMap (b.redirected name answer) =
      (stretchesFrom name.toList 0 0 none b.text).flatMap
        (Stretch.filled name.toList (b.answerAt answer)) := by
  rw [stretches]
  congr 1
  funext s
  cases s with
  | plain c => rfl
  | occurrence start isFree =>
    cases isFree with
    | false => rfl
    | true =>
      rw [Stretch.filled, answerAt, redirected, replacement?]
      cases answer (b.sourceAt start) <;> rfl

/-- Redirecting changes the text and moves the spans, also where there is nothing to change. -/
theorem redirect_fst (hname : name.toList ≠ []) :
    (b.redirect name answer).1 =
      { b with
        text := (stretchesFrom name.toList 0 0 none b.text).flatMap
          (Stretch.filled name.toList (b.answerAt answer))
        members := b.members.map fun s =>
          { s with start := moved (b.edits name answer) s.start
                   stop := moved (b.edits name answer) s.stop } } := by
  have hne : name.isEmpty = false := by
    rw [Bool.eq_false_iff]
    intro h
    have hempty : name = "" := by simpa using h
    exact hname (by rw [hempty]; rfl)
  rw [redirect, hne]
  by_cases hchanges : b.edits name answer = []
  · -- Without a change every stretch stays, and every position.
    have hstays : ∀ s ∈ stretchesFrom name.toList 0 0 none b.text,
        s.filled name.toList (b.answerAt answer) = s.text name.toList := by
      intro s hs
      rw [edits_eq, List.filterMap_eq_nil_iff] at hchanges
      rcases s.edit?_cases name.toList (b.answerAt answer) with ⟨-, hfilled⟩ | ⟨start, r, rfl, -, hsome⟩
      · exact hfilled
      · rw [hchanges _ hs] at hsome
        cases hsome
    have htext : (stretchesFrom name.toList 0 0 none b.text).flatMap
        (Stretch.filled name.toList (b.answerAt answer)) = b.text := by
      rw [List.flatMap_congr hstays, text_stretchesFrom hname, List.drop_zero]
    rw [htext, hchanges]
    simp [moved, growthBefore]
  · have hsome : (b.edits name answer).isEmpty = false := by simpa using hchanges
    simp only [hsome, Bool.false_eq_true, if_false, flatMap_redirected]

/-- A name without characters is found nowhere. -/
theorem redirect_of_empty (hname : name.toList = []) (b : Buffer) (answer : String → Option String) :
    b.redirect name answer = (b, 0) := by
  have hempty : name.isEmpty = true := by simpa using hname
  rw [redirect, if_pos hempty]

/-- The text falls into stretches, and redirecting changes some of them. -/
theorem exists_stretches (b : Buffer) (name : String) (answer : String → Option String) :
    ∃ found : List Stretch, b.text = found.flatMap (Stretch.text name.toList) ∧
      (b.redirect name answer).1.text =
        found.flatMap (Stretch.filled name.toList (b.answerAt answer)) := by
  by_cases hname : name.toList = []
  · refine ⟨b.text.map Stretch.plain, ?_, ?_⟩
    · simp [List.flatMap_map, Stretch.text]
    · rw [redirect_of_empty hname]
      simp [List.flatMap_map, Stretch.filled]
  · refine ⟨stretchesFrom name.toList 0 0 none b.text, ?_, ?_⟩
    · rw [text_stretchesFrom hname, List.drop_zero]
    · rw [redirect_fst hname]

/-- A position where the text may be cut moves to the end of what the search makes of the text before
it. -/
theorem moved_cut {t u : Text} (hname : IsName name.toList)
    (htext : b.text = t ++ u) (hcut : Apart id t u) :
    moved (b.edits name answer) (Text.byteLength t) =
      Text.byteLength (fill name.toList (b.answerAt answer) 0 t) := by
  have hgrowth := growthBefore_cut (b.answerAt answer) 0 hname hcut
  rw [Nat.zero_add, ← htext, ← edits_eq] at hgrowth
  unfold moved fill
  rw [hgrowth]
  omega

/-- The search fills each piece with what its file says. -/
theorem filled_flat (hname : IsName name.toList) {φ : Nat → Option Text} {origin : String}
    {start : Nat} (hparted : Parted pieces)
    (hφ : ∀ front p back, pieces = front ++ p :: back → ∀ position,
      start + Text.byteLength (flat front) ≤ position →
      position < start + Text.byteLength (flat front) + Text.byteLength p.text →
      φ position = (answer (p.source origin)).map String.toList) :
    (stretchesFrom name.toList 0 start none (flat pieces)).flatMap
        (Stretch.filled name.toList φ) =
      flat (pieces.map (Piece.resolveAs (sole name answer) origin)) := by
  induction pieces generalizing start with
  | nil => rfl
  | cons p pieces ih =>
    -- The first piece is apart from the others, so the search falls into two.
    have hcut : StartsApart id (flat pieces) ∨
        EndsApart id p.text ∧ (p.text = [] → freeBefore none = true) :=
      hparted.head.symm.imp_right fun hend => ⟨hend, fun _ => rfl⟩
    have hpiece : ∀ position, start ≤ position → position < start + Text.byteLength p.text →
        φ position = (answer (p.source origin)).map String.toList := by
      intro position hle hlt
      exact hφ [] p pieces rfl position (by simpa using hle) (by simpa using hlt)
    rw [Piece.flat_cons, stretchesFrom_append hname (Nat.zero_le _) hcut, List.flatMap_append,
      filled_congr hpiece, filled_stretchesFrom hname _ (by simp), List.map_cons, Piece.flat_cons]
    congr 1
    apply ih hparted.tail
    rintro front q back rfl position hle hlt
    apply hφ (p :: front) q back rfl position
    · rw [Piece.flat_cons, Text.byteLength_append]
      omega
    · rw [Piece.flat_cons, Text.byteLength_append]
      omega

/-- A position between pieces moves to where those before it end. -/
theorem Composed.moved_cut (h : Composed b (front ++ back)) (hname : IsName name.toList) :
    (Text.byteLength (flat front) : Int) +
        growthBefore (Text.byteLength (flat front)) (b.edits name answer) =
      Text.byteLength (flat (front.map (Piece.resolveAs (sole name answer) b.origin))) := by
  have hfront : (stretchesFrom name.toList 0 0 none (flat front)).flatMap
        (Stretch.filled name.toList (b.answerAt answer)) =
      flat (front.map (Piece.resolveAs (sole name answer) b.origin)) := by
    apply filled_flat hname h.parted.left
    rintro f p k rfl position hle hlt
    have h : Composed b (f ++ p :: (k ++ back)) := by simpa using h
    rw [answerAt, h.sourceAt (by omega) (by omega)]
  -- The changes before the cut add up to the growth of the pieces before it.
  have hgrowth : growthBefore (0 + Text.byteLength (flat front))
        ((stretchesFrom name.toList 0 0 none (flat front ++ flat back)).filterMap
          (Stretch.edit? name.toList (b.answerAt answer))) =
      (Text.byteLength ((stretchesFrom name.toList 0 0 none (flat front)).flatMap
        (Stretch.filled name.toList (b.answerAt answer))) : Int) - Text.byteLength (flat front) :=
    growthBefore_cut _ _ hname (h.parted front back rfl)
  rw [hfront, Nat.zero_add] at hgrowth
  rw [edits_eq, h.text, Piece.flat_append, hgrowth]
  omega

/-- Each span moves to where its piece does, behind the pieces that stand before it. -/
theorem Composed.moved_spans (h : Composed b (front ++ back)) (hname : IsName name.toList) :
    (spans (Text.byteLength (flat front)) back).map (fun s =>
      { s with start := moved (b.edits name answer) s.start
               stop := moved (b.edits name answer) s.stop }) =
    spans (Text.byteLength (flat (front.map (Piece.resolveAs (sole name answer) b.origin))))
      (back.map (Piece.resolveAs (sole name answer) b.origin)) := by
  -- The induction is on the pieces that are still to come.
  induction back generalizing front with
  | nil => rfl
  | cons p back ih =>
    have hmoved : ∀ f k, Composed b (f ++ k) →
        moved (b.edits name answer) (Text.byteLength (flat f)) =
          Text.byteLength (flat (f.map (Piece.resolveAs (sole name answer) b.origin))) := by
      intro f k hcut
      rw [moved, hcut.moved_cut hname, Int.toNat_natCast]
    have hnext : Composed b ((front ++ [p]) ++ back) := by simpa using h
    have hrest := ih hnext
    have hhere := hmoved front (p :: back) h
    have hthere := hmoved (front ++ [p]) back hnext
    simp only [List.map_append, List.map_cons, List.map_nil, Piece.flat_append, Piece.flat_cons,
      Piece.flat_nil, List.append_nil, Text.byteLength_append] at hrest hthere
    obtain ⟨source?, text⟩ := p
    cases source? with
    | none =>
      rw [List.map_cons, spans, hrest]
      rfl
    | some source =>
      rw [List.map_cons, spans, List.map_cons, hrest, hhere, hthere]
      rfl

/-- Pieces that keep apart stay parted. -/
theorem parted_map {f : Piece → Piece} (hparted : Parted pieces)
    (hkeeps : ∀ p ∈ pieces, Piece.Keeps p.text (f p).text) : Parted (pieces.map f) := by
  -- What each piece keeps, any row of pieces keeps.
  have hflat : ∀ row : List Piece, (∀ p ∈ row, Piece.Keeps p.text (f p).text) →
      Piece.Keeps (flat row) (flat (row.map f)) := by
    intro row hrow
    induction row with
    | nil => exact ⟨by simp, id, id⟩
    | cons p row ih =>
      rw [List.map_cons, Piece.flat_cons, Piece.flat_cons]
      exact (hrow p (by simp)).append (ih fun q hq => hrow q (by simp [hq]))
  intro front back h
  obtain ⟨f', k', rfl, rfl, rfl⟩ := List.map_eq_append_iff.mp h
  have hf := hflat f' fun p hp => hkeeps p (by simp [hp])
  have hk := hflat k' fun p hp => hkeeps p (by simp [hp])
  exact (hparted f' k' rfl).imp hf.endsApart hk.startsApart

/-- What is put in for a name is not empty. -/
theorem sole_ne_nil (hanswer : ∀ source r, answer source = some r → r ≠ "") {source : String}
    {run r : Text} (h : sole name answer source run = some r) : r ≠ [] := by
  rw [sole, only] at h
  split at h
  · obtain ⟨s, hs, rfl⟩ := Option.map_eq_some_iff.mp h
    intro hnil
    exact hanswer source s hs (String.toList_eq_nil_iff.mp hnil)
  · simp at h

/-- Redirecting a name resolves it in each piece, as the piece's file says. -/
theorem Composed.redirect (h : Composed b pieces) (hname : IsName name.toList)
    (hanswer : ∀ source r, answer source = some r → r ≠ "") :
    Composed (b.redirect name answer).1
      (pieces.map (Piece.resolveAs (sole name answer) b.origin)) := by
  have hkeeps : ∀ p : Piece,
      Piece.Keeps p.text (p.resolveAs (sole name answer) b.origin).text :=
    fun p => Piece.keeps_resolve (fun run r hr => sole_ne_nil hanswer hr) p.text
  constructor
  · rw [redirect_fst hname.ne_nil, h.text]
    apply filled_flat hname h.parted
    -- All positions in a piece are of one file, so one answer holds for the piece.
    rintro front p back rfl position hle hlt
    rw [answerAt, h.sourceAt (by omega) (by omega)]
  · have hwhole : Composed b ([] ++ pieces) := h
    rw [redirect_fst hname.ne_nil, h.members]
    exact hwhole.moved_spans hname
  · intro p hp hsome
    obtain ⟨q, hq, rfl⟩ := List.mem_map.mp hp
    intro hnil
    exact h.full q hq hsome ((hkeeps q).eq_nil_iff.mp hnil)
  · exact parted_map h.parted fun p _ => hkeeps p

end Graft.Buffer
