import Mathlib.Data.List.Basic
import Graft.Proofs.Note.Fence

/-!
# Where a block stands in its note

Each block of a note is a row of lines between fences, with lines before it in which no fence is left
open (`exists_place`). A `Place` cuts the note there: what is in front of the body, the body, and what is
behind it. The body may be filled with other lines, and as long as none of them closes the fence, the
note is cut in the same place again (`Place.refilled`).
-/

namespace Graft

/-- The block with its positions moved up. -/
def Block.later (b : Block) (bytes : Nat) : Block := ⟨b.start + bytes, b.stop + bytes, b.language⟩

/-- The landmark with another block in place of its block. -/
def Landmark.onBlock (f : Block → Block) : Landmark → Landmark
  | .heading title => .heading title
  | .block b => .block (f b)

namespace Note

open Text (byteLength byteLength_append withoutLineEnd linesWithEnds Ended)

variable {note text line : Text} {lines before : List Text} {b : Block} {position : Nat}

/-! ## Lines with no fence left open -/

/-- Lines in which each fence that is opened is closed. -/
inductive Whole : List Text → Prop
  | nil : Whole []
  | plain {line : Text} {lines : List Text} (h : fence? line = none) (hlines : Whole lines) :
    Whole (line :: lines)
  | fenced {lines : List Text} (f : Fenced) (hlines : Whole lines) : Whole (f.lines ++ lines)

/-- What follows such lines is read as at the start of a note. -/
theorem Whole.landmarksFrom (h : Whole before) (position : Nat) (lines : List Text) :
    landmarksFrom none position (before ++ lines) =
      landmarksFrom none position before ++
        landmarksFrom none (position + byteLength before.flatten) lines := by
  induction h generalizing position with
  | nil => rfl
  | @plain line before hline _ ih =>
    rw [List.cons_append, landmarksFrom_plain hline, landmarksFrom_plain hline, ih]
    simp [Nat.add_assoc]
  | @fenced before f _ ih =>
    rw [List.append_assoc, landmarksFrom_fenced, landmarksFrom_fenced, ih]
    simp [Nat.add_assoc]

/-- So it is for references. -/
theorem Whole.referenceIn? (h : Whole before) (lines : List Text) :
    referenceIn? none ((before ++ lines).map withoutLineEnd) =
      (referenceIn? none (before.map withoutLineEnd)).or
        (referenceIn? none (lines.map withoutLineEnd)) := by
  induction h with
  | nil => rfl
  | @plain line before hline _ ih =>
    have hline' : fence? (withoutLineEnd line) = none := by rw [fence?_withoutLineEnd, hline]
    rw [List.cons_append, List.map_cons, List.map_cons, referenceIn?_plain hline',
      referenceIn?_plain hline', ih, Option.or_assoc, Option.or_assoc, Option.or_assoc]
  | @fenced before f _ ih =>
    rw [List.append_assoc, referenceIn?_fenced, referenceIn?_fenced, ih]

/-! ## Blocks among lines -/

/-- A line outside fences is no block. -/
theorem block_notMem_heading? (b : Block) (line : Text) :
    Landmark.block b ∉ (heading? line).toList := by
  unfold heading?
  split <;> simp

/-- A block among lines is a row of them. -/
theorem exists_fenced_of_mem (h : .block b ∈ landmarksFrom none position lines) :
    ∃ before f after, Whole before ∧ lines = before ++ (Fenced.lines f ++ after) ∧
      b = f.blockAt (position + byteLength before.flatten) := by
  induction lines using lines_induction generalizing position with
  | nil => cases h
  | plain line lines hline ih =>
    rw [landmarksFrom_plain hline, List.mem_append] at h
    obtain ⟨before, f, after, hbefore, rfl, rfl⟩ :=
      ih (h.resolve_left (block_notMem_heading? b line))
    refine ⟨line :: before, f, after, .plain hline hbefore, rfl, ?_⟩
    simp [Nat.add_assoc]
  | fenced f lines ih =>
    rw [landmarksFrom_fenced, List.mem_cons] at h
    rcases h with hfirst | h
    · exact ⟨[], f, lines, .nil, rfl, Landmark.block.inj hfirst⟩
    · obtain ⟨before, f', after, hbefore, rfl, rfl⟩ := ih h
      refine ⟨f.lines ++ before, f', after, .fenced f hbefore, by simp, ?_⟩
      simp [Nat.add_assoc]
  | unclosed line marker body hline hbody =>
    rw [landmarksFrom_unclosed hline hbody] at h
    cases h

/-- The lines of fences are not empty. -/
theorem byteLength_pos_of_fence? {marker : Text} (h : fence? line = some marker) :
    0 < byteLength line := by
  apply Text.byteLength_pos
  rintro rfl
  cases h

/-- A block lies inside its lines. -/
theorem bounds_of_mem (h : .block b ∈ landmarksFrom none position lines) :
    position < b.start ∧ b.start ≤ b.stop ∧ b.stop < position + byteLength lines.flatten := by
  obtain ⟨before, f, after, -, rfl, rfl⟩ := exists_fenced_of_mem h
  obtain ⟨marks, hmarks, -⟩ := f.closes
  have hopening := byteLength_pos_of_fence? f.opens
  have hclosing := byteLength_pos_of_fence? hmarks
  simp only [Fenced.blockAt, Fenced.lines, List.flatten_append, List.flatten_cons, List.flatten_nil,
    byteLength_append, List.append_nil]
  omega

/-- Lines further on have the same landmarks, further on. -/
theorem landmarksFrom_later (lines : List Text) (position bytes : Nat) :
    landmarksFrom none (position + bytes) lines =
      (landmarksFrom none position lines).map (Landmark.onBlock (Block.later · bytes)) := by
  have hmove : ∀ more, position + bytes + more = position + more + bytes := by omega
  induction lines using lines_induction generalizing position with
  | nil => rfl
  | plain line lines hline ih =>
    have hheading : (heading? line).toList.map (Landmark.onBlock (Block.later · bytes)) =
        (heading? line).toList := by
      unfold heading?
      split <;> rfl
    rw [landmarksFrom_plain hline, landmarksFrom_plain hline, List.map_append, hheading, hmove,
      ih _ (by omega)]
  | fenced f lines ih =>
    have hblock : f.blockAt (position + bytes) = (f.blockAt position).later bytes := by
      simp only [Fenced.blockAt, Block.later, Block.mk.injEq, and_true]
      omega
    rw [landmarksFrom_fenced, landmarksFrom_fenced, List.map_cons, hmove, ih _ (by omega), hblock]
    rfl
  | unclosed line marker body hline hbody =>
    rw [landmarksFrom_unclosed hline hbody, landmarksFrom_unclosed hline hbody]
    rfl

/-! ## Cuts at byte positions -/

/-- A cut behind a text's front keeps the front whole. -/
theorem splitAtByte_append (front rest : Text) (more : Nat) :
    splitAtByte (byteLength front + more) (front ++ rest) =
      (front ++ (splitAtByte more rest).1, (splitAtByte more rest).2) := by
  induction front with
  | nil => rw [Text.byteLength_nil, Nat.zero_add, List.nil_append, List.nil_append]
  | cons c front ih =>
    have hpos := c.utf8Size_pos
    have hrest : byteLength (c :: front) + more - c.utf8Size = byteLength front + more := by
      rw [Text.byteLength_cons]
      omega
    rw [List.cons_append, splitAtByte, if_neg (by rw [Text.byteLength_cons]; omega), hrest, ih]
    rfl

/-- A cut at the start leaves nothing before it. -/
theorem splitAtByte_zero (text : Text) : splitAtByte 0 text = ([], text) := by
  cases text <;> rfl

/-- A text is cut behind its front. -/
theorem splitAtByte_front (front rest : Text) :
    splitAtByte (byteLength front) (front ++ rest) = (front, rest) := by
  have hcut := splitAtByte_append front rest 0
  rwa [splitAtByte_zero, Nat.add_zero, List.append_nil] at hcut

/-- The body of a block is what stands between its positions. -/
theorem bodyText_eq (front body back : Text) (language : Option String) :
    bodyText (front ++ (body ++ back))
      ⟨byteLength front, byteLength front + byteLength body, language⟩ = body := by
  unfold bodyText
  rw [splitAtByte_front, Nat.add_sub_cancel_left, splitAtByte_front]

/-- The body of a block among lines does not depend on what is around the lines. -/
theorem exists_bodyText (h : .block b ∈ landmarksFrom none 0 lines) :
    ∃ body, ∀ front back, bodyText (front ++ (lines.flatten ++ back)) (b.later (byteLength front)) =
      body := by
  obtain ⟨before, f, after, -, rfl, rfl⟩ := exists_fenced_of_mem h
  refine ⟨f.body.flatten, fun front back => ?_⟩
  have hbody := bodyText_eq (front ++ (before.flatten ++ f.opening)) f.body.flatten
    (f.closing ++ (after.flatten ++ back)) (language? f.opening f.marker)
  have hblock : (f.blockAt (0 + byteLength before.flatten)).later (byteLength front) =
      ⟨byteLength (front ++ (before.flatten ++ f.opening)),
        byteLength (front ++ (before.flatten ++ f.opening)) + byteLength f.body.flatten,
        language? f.opening f.marker⟩ := by
    simp only [Fenced.blockAt, Block.later, byteLength_append, Block.mk.injEq, and_true]
    omega
  have htext : front ++ ((before ++ (f.lines ++ after)).flatten ++ back) =
      front ++ (before.flatten ++ f.opening) ++
        (f.body.flatten ++ (f.closing ++ (after.flatten ++ back))) := by
    simp [Fenced.lines]
  rw [hblock, htext, hbody]

/-! ## Places -/

/-- A row of lines of a note, behind lines with no fence left open. -/
structure Place (note : Text) where
  before : List Text
  row : Fenced
  after : List Text
  whole : Whole before
  lines : linesWithEnds note = before ++ (row.lines ++ after)

namespace Place

/-- The block that stands there. -/
def block (p : Place note) : Block := p.row.blockAt (byteLength p.before.flatten)

/-- What stands before the block's body: the lines before the row, and its opening line. -/
def front (p : Place note) : Text := (p.before ++ [p.row.opening]).flatten

/-- What stands behind the block's body: the closing line of the row, and the lines after it. -/
def back (p : Place note) : Text := (p.row.closing :: p.after).flatten

/-- The note with a text in place of the block's body. -/
def refill (p : Place note) (text : Text) : Text := p.front ++ (text ++ p.back)

/-- The block reaches from the end of its opening line to the end of its body. -/
theorem block_eq (p : Place note) :
    p.block = ⟨byteLength p.front, byteLength p.front + byteLength p.row.body.flatten,
      language? p.row.opening p.row.marker⟩ := by
  simp [block, front, Fenced.blockAt]

/-- The note as it is cut there. -/
theorem refill_body (p : Place note) : p.refill p.row.body.flatten = note := by
  have hnote := Text.flatten_linesWithEnds note
  rw [p.lines] at hnote
  refine Eq.trans ?_ hnote
  simp [refill, front, back, Fenced.lines]

/-- The lines in front of the body have their line feeds. -/
theorem ended (p : Place note) : ∀ line ∈ p.before ++ [p.row.opening], Ended line := by
  have hlines : linesWithEnds note =
      (p.before ++ [p.row.opening]) ++ (p.row.body ++ p.row.closing :: p.after) := by
    rw [p.lines, Fenced.lines]
    simp
  exact Text.ended_of_linesWithEnds hlines (by simp)

/-- What stands behind the body is split into the closing line and the lines after it. -/
theorem linesWithEnds_back (p : Place note) :
    linesWithEnds p.back = p.row.closing :: p.after := by
  have hlines : linesWithEnds note =
      (p.before ++ p.row.opening :: p.row.body) ++ (p.row.closing :: p.after) := by
    rw [p.lines, Fenced.lines]
    simp
  exact Text.linesWithEnds_flatten_of hlines

/-- A body that ends with a line feed is split into lines of its own. -/
theorem linesWithEnds_refill (p : Place note) (hends : ∃ init, text = init ++ ['\n']) :
    linesWithEnds (p.refill text) =
      p.before ++ p.row.opening :: (linesWithEnds text ++ p.row.closing :: p.after) := by
  obtain ⟨init, rfl⟩ := hends
  have hinit : init ++ ['\n'] ++ p.back = init ++ '\n' :: p.back := by simp
  rw [refill, front, Text.linesWithEnds_flatten_append p.ended, hinit, Text.linesWithEnds_append,
    p.linesWithEnds_back]
  simp

/-- The place after the body got other lines, none of which closes the fence. -/
def refilled (p : Place note) (hends : ∃ init, text = init ++ ['\n'])
    (hwithin : ∀ line ∈ linesWithEnds text, ¬ Closes p.row.marker line) : Place (p.refill text) where
  before := p.before
  row := { p.row with body := linesWithEnds text, within := hwithin }
  after := p.after
  whole := p.whole
  lines := by
    rw [p.linesWithEnds_refill hends]
    simp [Fenced.lines]

/-- The landmarks of a note are those before the block, the block, and those behind it. -/
theorem landmarks_eq (p : Place note) :
    landmarks note = landmarksFrom none 0 p.before ++
      .block p.block ::
        landmarksFrom none (byteLength p.before.flatten + byteLength p.row.lines.flatten) p.after := by
  rw [landmarks, p.lines, p.whole.landmarksFrom, landmarksFrom_fenced, Nat.zero_add]
  rfl

/-- The reference that a note names is outside the row. -/
theorem referenceIn?_eq (p : Place note) :
    referenceIn? none (Text.lines note) =
      (referenceIn? none (p.before.map withoutLineEnd)).or
        (referenceIn? none (p.after.map withoutLineEnd)) := by
  rw [Text.lines, p.lines, p.whole.referenceIn?, referenceIn?_fenced]

/-- The body of the block. -/
theorem bodyText_block (p : Place note) : bodyText note p.block = p.row.body.flatten := by
  have hbody := bodyText_eq p.front p.row.body.flatten p.back (language? p.row.opening p.row.marker)
  rw [p.block_eq]
  rwa [← refill, p.refill_body] at hbody

end Place

/-- Each block of a note has its place. -/
theorem exists_place (h : .block b ∈ landmarks note) : ∃ p : Place note, p.block = b := by
  obtain ⟨before, f, after, hwhole, hlines, rfl⟩ := exists_fenced_of_mem h
  exact ⟨⟨before, f, after, hwhole, hlines⟩, by rw [Place.block, Nat.zero_add]⟩

end Note

end Graft
