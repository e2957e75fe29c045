import Mathlib.Order.WellFounded
import Graft.Proofs.Note.Choice

/-!
# The block of a section

Where the block to write stands is said here in terms of the lines of a note. `Place` tells the closed
blocks and `HeadingLine` the heading lines, both behind lines with no fence left open. The block `Under` a
title is the first one behind the first heading line of this title, as long as no other heading line comes
before it. The reading of landmarks finds just that (`blockUnder?_of_under`, `exists_under`), and without it
the first block of the note (`firstBlock?_of_first`), so the block that is chosen is the one that is asked
for (`insertBlock_finds`).
-/

namespace Graft.Note

open Text (byteLength byteLength_append linesWithEnds Ended)

variable {note wanted line : Text} {lines more before between rest : List Text} {b : Block} {position : Nat}

/-! ## Headings and blocks by their lines -/

/-- A heading line of a note, behind lines with no fence left open. -/
structure HeadingLine (note : Text) where
  before : List Text
  line : Text
  after : List Text
  whole : Whole before
  plain : fence? line = none
  hash : Text.startsWith "#" (Text.trimStart line) = true
  lines : linesWithEnds note = before ++ line :: after

/-- How many lines are before a heading line. -/
def HeadingLine.index (x : HeadingLine note) : Nat := x.before.length

/-- How many lines are before the opening fence of a block. -/
def Place.index (p : Place note) : Nat := p.before.length

/-- A heading line is the first one with its title, and a block is the first one behind it, with no heading
line in between. -/
structure HeadingLine.Leads (x : HeadingLine note) (wanted : Text) (p : Place note) : Prop where
  titled : title x.line = wanted
  first : ∀ y : HeadingLine note, title y.line = wanted → x.index ≤ y.index
  behind : x.index < p.index
  nearest : ∀ q : Place note, x.index < q.index → p.index ≤ q.index
  undivided : ∀ y : HeadingLine note, x.index < y.index → p.index ≤ y.index

/-- The block of the section with a title: the first heading line with this title leads to it. -/
def Under (note wanted : Text) (p : Place note) : Prop := ∃ x : HeadingLine note, x.Leads wanted p

/-- The first block of a note. -/
def First (note : Text) (p : Place note) : Prop := ∀ q : Place note, p.index ≤ q.index

/-! ## Lines with no fence left open -/

/-- Two rows at the start of the same lines are the same. -/
theorem Fenced.lines_append_inj {f g : Fenced} (h : f.lines ++ rest = g.lines ++ more) :
    f = g ∧ rest = more := by
  -- The body of a row is all up to the first line that closes its fence.
  have hcut : ∀ {marker : Text} {body : List Text} {closing : Text} {after : List Text},
      (∀ line ∈ body, ¬ Closes marker line) → Closes marker closing →
      (body ++ closing :: after).takeWhile (fun line => decide (¬ Closes marker line)) = body := by
    intro marker body closing after hwithin hcloses
    rw [List.takeWhile_append_of_pos (by simpa using hwithin),
      List.takeWhile_cons_of_neg (by simpa using hcloses), List.append_nil]
  obtain ⟨opening, marker, body, closing, hopens, hwithin, hcloses⟩ := f
  obtain ⟨opening', marker', body', closing', hopens', hwithin', hcloses'⟩ := g
  simp only [lines, List.cons_append, List.append_assoc, List.nil_append, List.cons.injEq] at h
  obtain ⟨rfl, h⟩ := h
  obtain rfl : marker = marker' := Option.some.inj (hopens.symm.trans hopens')
  obtain rfl : body = body' := by rw [← hcut hwithin hcloses, h, hcut hwithin' hcloses']
  obtain ⟨rfl, rfl⟩ := List.cons.inj (List.append_cancel_left h)
  exact ⟨rfl, rfl⟩

/-- Lines with no fence left open may follow each other. -/
theorem Whole.append (h : Whole before) (hrest : Whole rest) : Whole (before ++ rest) := by
  induction h with
  | nil => exact hrest
  | plain hline _ ih => exact .plain hline ih
  | fenced f _ ih =>
    rw [List.append_assoc]
    exact .fenced f ih

/-- A line that is no fence may be taken off the front. -/
theorem Whole.of_plain (hline : fence? line = none) (h : Whole (line :: rest)) : Whole rest := by
  generalize hall : line :: rest = all at h
  cases h with
  | nil => cases hall
  | plain _ hrest =>
    cases hall
    exact hrest
  | fenced f _ =>
    -- A row starts with a fence, and the first line is none.
    obtain ⟨rfl, -⟩ := List.cons.inj hall
    rw [f.opens] at hline
    cases hline

/-- A row of lines between fences may be taken off the front. -/
theorem Whole.of_fenced {f : Fenced} (h : Whole (f.lines ++ rest)) : Whole rest := by
  generalize hall : f.lines ++ rest = all at h
  cases h with
  | nil => cases hall
  | plain hline _ =>
    obtain ⟨rfl, -⟩ := List.cons.inj hall
    rw [f.opens] at hline
    cases hline
  | fenced g hrest =>
    obtain ⟨-, rfl⟩ := Fenced.lines_append_inj hall
    exact hrest

/-- If no fence is open after some lines, then none is open in the rest when none is at its end. -/
theorem Whole.of_append (h : Whole before) (hall : Whole (before ++ rest)) : Whole rest := by
  induction h with
  | nil => exact hall
  | plain hline _ ih => exact ih (hall.of_plain hline)
  | fenced f _ ih =>
    rw [List.append_assoc] at hall
    exact ih hall.of_fenced

/-- Lines that are neither fences nor headings. -/
def Quiet (lines : List Text) : Prop := ∀ line ∈ lines, fence? line = none ∧ heading? line = none

/-- Lines without fences leave none open. -/
theorem Quiet.whole (h : Quiet lines) : Whole lines := by
  induction lines with
  | nil => exact .nil
  | cons line lines ih =>
    obtain ⟨hline, hlines⟩ := List.forall_mem_cons.mp h
    exact .plain hline.1 (ih hlines)

/-! ## From landmarks to lines -/

/-- A heading among lines is one of them. -/
theorem exists_heading_of_mem (h : .heading wanted ∈ landmarksFrom none position lines) :
    ∃ before line after, Whole before ∧ fence? line = none ∧
      Text.startsWith "#" (Text.trimStart line) = true ∧ title line = wanted ∧
      lines = before ++ line :: after := by
  -- A block hides what stands in it, so the lines go by one at a time or by whole blocks.
  induction lines using lines_induction generalizing position with
  | nil => cases h
  | plain line lines hline ih =>
    rw [landmarksFrom_plain hline, List.mem_append] at h
    rcases h with hfirst | h
    · unfold heading? at hfirst
      split at hfirst
      · next hhash =>
        have htitle := List.mem_singleton.mp hfirst
        exact ⟨[], line, lines, .nil, hline, hhash, (Landmark.heading.inj htitle).symm, rfl⟩
      · cases hfirst
    · obtain ⟨before, other, after, hwhole, hplain, hhash, htitle, rfl⟩ := ih h
      exact ⟨line :: before, other, after, .plain hline hwhole, hplain, hhash, htitle, rfl⟩
  | fenced f lines ih =>
    rw [landmarksFrom_fenced, List.mem_cons] at h
    rcases h with hfirst | h
    · cases hfirst
    · obtain ⟨before, other, after, hwhole, hplain, hhash, htitle, rfl⟩ := ih h
      exact ⟨f.lines ++ before, other, after, .fenced f hwhole, hplain, hhash, htitle, by simp⟩
  | unclosed line marker body hline hbody =>
    rw [landmarksFrom_unclosed hline hbody] at h
    cases h

/-- A block that comes before all other landmarks is behind lines that are quiet. -/
theorem exists_fenced_of_leading (h : leadingBlock? (landmarksFrom none position lines) = some b) :
    ∃ between f after, Quiet between ∧ lines = between ++ (Fenced.lines f ++ after) ∧
      b = f.blockAt (position + byteLength between.flatten) := by
  induction lines using lines_induction generalizing position with
  | nil => cases h
  | plain line lines hline ih =>
    rw [landmarksFrom_plain hline] at h
    cases hheading : heading? line with
    | some landmark =>
      -- A heading would come before the block.
      rw [hheading] at h
      unfold heading? at hheading
      split at hheading
      · cases hheading
        cases h
      · cases hheading
    | none =>
      rw [hheading] at h
      obtain ⟨between, f, after, hquiet, rfl, rfl⟩ := ih h
      refine ⟨line :: between, f, after, ?_, rfl, by simp [Nat.add_assoc]⟩
      exact List.forall_mem_cons.mpr ⟨⟨hline, hheading⟩, hquiet⟩
  | fenced f lines ih =>
    rw [landmarksFrom_fenced] at h
    cases h
    exact ⟨[], f, lines, List.forall_mem_nil _, rfl, rfl⟩
  | unclosed line marker body hline hbody =>
    rw [landmarksFrom_unclosed hline hbody] at h
    cases h

/-- A heading among some lines of a note is a heading line of the note there. -/
theorem exists_headingLine (hlines : linesWithEnds note = before ++ (between ++ rest))
    (hbefore : Whole before) (h : .heading wanted ∈ landmarksFrom none position between) :
    ∃ x : HeadingLine note, title x.line = wanted ∧ before.length ≤ x.index ∧
      x.index < before.length + between.length := by
  obtain ⟨front, line, after, hfront, hplain, hhash, htitle, rfl⟩ := exists_heading_of_mem h
  refine ⟨⟨before ++ front, line, after ++ rest, hbefore.append hfront, hplain, hhash, ?_⟩, htitle, ?_⟩
  · rw [hlines]
    simp
  · simp [HeadingLine.index]

/-- A block among some lines of a note has its place there. -/
theorem exists_place_among (hlines : linesWithEnds note = before ++ (between ++ rest))
    (hbefore : Whole before) (h : .block b ∈ landmarksFrom none position between) :
    ∃ p : Place note, before.length ≤ p.index ∧ p.index < before.length + between.length := by
  obtain ⟨front, f, after, hfront, rfl, -⟩ := exists_fenced_of_mem h
  refine ⟨⟨before ++ front, f, after ++ rest, hbefore.append hfront, ?_⟩, ?_⟩
  · rw [hlines]
    simp
  · simp [Place.index, Fenced.lines]

/-- A line whose number is that of one of some lines is one of them. -/
theorem mem_of_index {front after : List Text} (h : before ++ (between ++ rest) = front ++ line :: after)
    (hfrom : before.length ≤ front.length) (hto : front.length < before.length + between.length) :
    line ∈ between := by
  have hget : (before ++ (between ++ rest))[front.length]? = some line := by
    rw [h, List.getElem?_append_right (Nat.le_refl _), Nat.sub_self]
    rfl
  rw [List.getElem?_append_right hfrom, List.getElem?_append_left (by omega)] at hget
  exact List.mem_of_getElem? hget

/-! ## The section -/

/-- Landmarks without the wanted heading may be left out in front. -/
theorem blockUnder?_append {front found : List Landmark} (h : .heading wanted ∉ front) :
    blockUnder? wanted (front ++ found) = blockUnder? wanted found := by
  induction front with
  | nil => rfl
  | cons landmark front ih =>
    rw [List.mem_cons, not_or] at h
    obtain ⟨hne, hrest⟩ := h
    cases landmark with
    | heading t =>
      have htitle : t ≠ wanted := by
        rintro rfl
        exact hne rfl
      rw [List.cons_append, blockUnder?, if_neg htitle]
      exact ih hrest
    | block b => exact ih hrest

/-- A block is found under a heading only where that heading is. -/
theorem heading_mem_of_blockUnder? {found : List Landmark} (h : blockUnder? wanted found = some b) :
    .heading wanted ∈ found := by
  by_contra hnone
  have hend : blockUnder? wanted (found ++ []) = none := blockUnder?_append hnone
  rw [List.append_nil, h] at hend
  cases hend

/-- A heading line is the heading of its title. -/
theorem HeadingLine.heading?_line (x : HeadingLine note) :
    heading? x.line = some (.heading (title x.line)) :=
  if_pos x.hash

/-- The landmarks of a note are those before a heading line, the heading, and those behind it. -/
theorem HeadingLine.landmarks_eq (x : HeadingLine note) :
    ∃ position, landmarks note = landmarksFrom none 0 x.before ++
      .heading (title x.line) :: landmarksFrom none position x.after := by
  refine ⟨0 + byteLength x.before.flatten + byteLength x.line, ?_⟩
  rw [landmarks, x.lines, x.whole.landmarksFrom, landmarksFrom_plain x.plain, x.heading?_line]
  rfl

/-- Before the first heading line with a title there is no heading with this title. -/
theorem HeadingLine.notMem_before {x : HeadingLine note}
    (hfirst : ∀ y : HeadingLine note, title y.line = wanted → x.index ≤ y.index) :
    .heading wanted ∉ landmarksFrom none position x.before := by
  intro hmem
  have hlines : linesWithEnds note = [] ++ (x.before ++ x.line :: x.after) := x.lines
  obtain ⟨y, htitle, -, hbefore⟩ := exists_headingLine hlines .nil hmem
  have hle := hfirst y htitle
  unfold index at hle hbefore
  rw [List.length_nil] at hbefore
  omega

/-- No fence is open after a heading line. -/
theorem HeadingLine.whole_concat (x : HeadingLine note) : Whole (x.before ++ [x.line]) :=
  x.whole.append (.plain x.plain .nil)

/-- There are as many lines up to a heading line as its number and one. -/
theorem HeadingLine.length_concat (x : HeadingLine note) :
    (x.before ++ [x.line]).length = x.index + 1 :=
  List.length_append

/-- Between a heading line and the block that it leads to there is no landmark. -/
theorem HeadingLine.Leads.exists_between {x : HeadingLine note} {p : Place note}
    (hx : x.Leads wanted p) :
    ∃ between, x.before ++ [x.line] ++ between = p.before ∧
      ∀ position, landmarksFrom none position between = [] := by
  -- Heading and block are both cut out of the same lines, and the block is behind the heading.
  obtain ⟨between, hbetween⟩ : x.before ++ [x.line] <+: p.before := by
    have hall : x.before ++ [x.line] <+: linesWithEnds note :=
      ⟨x.after, by rw [x.lines, List.append_assoc, List.singleton_append]⟩
    refine List.prefix_of_prefix_length_le hall ⟨_, p.lines.symm⟩ ?_
    rw [x.length_concat]
    exact hx.behind
  have hlines : linesWithEnds note =
      (x.before ++ [x.line]) ++ (between ++ (p.row.lines ++ p.after)) := by
    rw [p.lines, ← hbetween, List.append_assoc]
  have hindex : p.index = x.index + 1 + between.length := by
    rw [Place.index, ← hbetween, List.length_append, x.length_concat]
  have hlength := x.length_concat
  refine ⟨between, hbetween, fun position => ?_⟩
  refine List.eq_nil_iff_forall_not_mem.mpr fun landmark hmem => ?_
  -- A heading between the two would divide them, and a block would be nearer.
  cases landmark with
  | heading t =>
    obtain ⟨y, -, hbehind, hahead⟩ := exists_headingLine hlines x.whole_concat hmem
    have hle := hx.undivided y (by omega)
    omega
  | block b =>
    obtain ⟨q, hbehind, hahead⟩ := exists_place_among hlines x.whole_concat hmem
    have hle := hx.nearest q (by omega)
    omega

/-- The first heading line with a title leads to a block with quiet lines before it. -/
theorem HeadingLine.leads_of_quiet {x : HeadingLine note} {p : Place note}
    (htitle : title x.line = wanted)
    (hfirst : ∀ y : HeadingLine note, title y.line = wanted → x.index ≤ y.index)
    (hquiet : Quiet between) (hbefore : p.before = x.before ++ [x.line] ++ between) :
    x.Leads wanted p := by
  have hlines : (x.before ++ [x.line]) ++ (between ++ (p.row.lines ++ p.after)) =
      linesWithEnds note := by
    rw [p.lines, hbefore, List.append_assoc _ between]
  have hindex : p.index = x.index + 1 + between.length := by
    rw [Place.index, hbefore, List.length_append, x.length_concat]
  have hlength := x.length_concat
  refine ⟨htitle, hfirst, by omega, fun q hbehind => ?_, fun y hbehind => ?_⟩
  · -- An opening fence before the block would be one of the quiet lines.
    by_contra hahead
    have hq : q.before.length = q.index := rfl
    have hmem : q.row.opening ∈ between :=
      mem_of_index (hlines.trans q.lines) (by omega) (by omega)
    have hfence := (hquiet _ hmem).1
    rw [q.row.opens] at hfence
    cases hfence
  · by_contra hahead
    have hy : y.before.length = y.index := rfl
    have hmem : y.line ∈ between := mem_of_index (hlines.trans y.lines) (by omega) (by omega)
    have hnoHeading := (hquiet _ hmem).2
    rw [y.heading?_line] at hnoHeading
    cases hnoHeading

/-- The block of the section is read off the landmarks. -/
theorem blockUnder?_of_under {p : Place note} (h : Under note wanted p) :
    blockUnder? wanted (landmarks note) = some p.block := by
  obtain ⟨x, hx⟩ := h
  have hnone : .heading wanted ∉ landmarksFrom none 0 x.before := HeadingLine.notMem_before hx.first
  obtain ⟨between, hbetween, hnothing⟩ := hx.exists_between
  have hwhole : Whole between := x.whole_concat.of_append (hbetween ▸ p.whole)
  have hfront : landmarksFrom none 0 p.before =
      landmarksFrom none 0 x.before ++ [.heading wanted] := by
    rw [← hbetween, List.append_assoc, x.whole.landmarksFrom, List.singleton_append,
      landmarksFrom_plain x.plain, x.heading?_line, hnothing, hx.titled]
    rfl
  rw [p.landmarks_eq, hfront, List.append_assoc, blockUnder?_append hnone]
  simp [blockUnder?, leadingBlock?]

/-- A title among the headings of a note has a first heading line. -/
theorem exists_first_titled (h : .heading wanted ∈ landmarks note) :
    ∃ x : HeadingLine note, title x.line = wanted ∧
      ∀ y : HeadingLine note, title y.line = wanted → x.index ≤ y.index := by
  have hlines : linesWithEnds note = [] ++ (linesWithEnds note ++ []) := (List.append_nil _).symm
  obtain ⟨titled, htitled, -⟩ := exists_headingLine hlines .nil h
  let all : Set (HeadingLine note) := {x | title x.line = wanted}
  have hall : all.Nonempty := ⟨titled, htitled⟩
  exact ⟨Function.argminOn HeadingLine.index all hall, Function.argminOn_mem _ all hall,
    fun y hy => Function.argminOn_le _ all hy⟩

/-- The block under a title on the landmarks is that of the section. -/
theorem exists_under (hread : blockUnder? wanted (landmarks note) = some b) :
    ∃ p : Place note, Under note wanted p ∧ p.block = b := by
  obtain ⟨x, htitle, hfirst⟩ := exists_first_titled (heading_mem_of_blockUnder? hread)
  -- Behind the first heading line with this title, the block comes before all other landmarks.
  obtain ⟨position, hlandmarks⟩ := x.landmarks_eq
  have hleading := hread
  rw [hlandmarks, blockUnder?_append (HeadingLine.notMem_before hfirst), blockUnder?,
    if_pos htitle] at hleading
  obtain ⟨between, f, after, hquiet, hafter, -⟩ := exists_fenced_of_leading hleading
  let p : Place note :=
    { before := x.before ++ [x.line] ++ between
      row := f
      after
      whole := x.whole_concat.append hquiet.whole
      lines := by
        rw [x.lines, hafter]
        simp }
  have hunder : Under note wanted p := ⟨x, HeadingLine.leads_of_quiet htitle hfirst hquiet rfl⟩
  exact ⟨p, hunder, Option.some.inj ((blockUnder?_of_under hunder).symm.trans hread)⟩

/-! ## The first block -/

/-- Landmarks that are no blocks may be left out in front. -/
theorem firstBlock?_append {front found : List Landmark} (h : ∀ b, .block b ∉ front) :
    firstBlock? (front ++ found) = firstBlock? found := by
  induction front with
  | nil => rfl
  | cons landmark front ih =>
    cases landmark with
    | heading t => exact ih fun b hb => h b (List.mem_cons_of_mem _ hb)
    | block b => exact absurd List.mem_cons_self (h b)

/-- The first block of a note is the first one among its landmarks. -/
theorem firstBlock?_of_first {p : Place note} (h : First note p) :
    firstBlock? (landmarks note) = some p.block := by
  have hnone : ∀ b, .block b ∉ landmarksFrom none 0 p.before := by
    intro b hmem
    have hlines : linesWithEnds note = [] ++ (p.before ++ (p.row.lines ++ p.after)) := p.lines
    obtain ⟨q, -, hbefore⟩ := exists_place_among hlines .nil hmem
    have hle := h q
    have hp : p.before.length = p.index := rfl
    rw [List.length_nil] at hbefore
    omega
  rw [p.landmarks_eq, firstBlock?_append hnone]
  rfl

/-- A note with a block has a first one. -/
theorem exists_first (p : Place note) : ∃ first : Place note, First note first := by
  have : Nonempty (Place note) := ⟨p⟩
  exact ⟨Function.argmin Place.index, fun q => Function.argmin_le Place.index q⟩

/-! ## The block to write -/

/-- Without a block there is nothing to write, and with one there is. -/
theorem insertBlock_eq_error_iff {heading : Option String} :
    insertBlock note heading = .error .noInsertLocation ↔ IsEmpty (Place note) := by
  constructor
  · refine fun herror => ⟨fun p => ?_⟩
    have hmem : .block p.block ∈ landmarks note := by
      rw [p.landmarks_eq]
      exact List.mem_append_right _ List.mem_cons_self
    obtain ⟨b, hb⟩ := exists_choose? hmem heading
    rw [insertBlock_eq_ok_iff.mpr hb] at herror
    cases herror
  · intro hempty
    cases hinsert : insertBlock note heading with
    | ok b =>
      obtain ⟨p, -⟩ := exists_place (mem_of_insertBlock hinsert)
      exact hempty.elim p
    | error e =>
      -- Without a block nothing is chosen, and there is no other error.
      unfold insertBlock at hinsert
      simp only at hinsert
      split at hinsert
      · cases hinsert
      · cases hinsert
        rfl

/-- The block of the section is written before all others. -/
theorem insertBlock_of_under {heading : String} {p : Place note}
    (h : Under note (title heading.toList) p) : insertBlock note (some heading) = .ok p.block := by
  refine insertBlock_eq_ok_iff.mpr ?_
  rw [choose?, Option.bind_some, blockUnder?_of_under h]
  rfl

/-- Without a section that has a block, the first block is written. -/
theorem insertBlock_of_first {heading : Option String} {p : Place note}
    (hnone : ∀ wanted q, heading = some wanted → ¬ Under note (title wanted.toList) q)
    (h : First note p) : insertBlock note heading = .ok p.block := by
  refine insertBlock_eq_ok_iff.mpr ?_
  have hunder : (heading.bind fun wanted => blockUnder? (title wanted.toList) (landmarks note)) = none := by
    rw [Option.bind_eq_none_iff]
    intro wanted hwanted
    refine Option.eq_none_iff_forall_ne_some.mpr fun b hb => ?_
    obtain ⟨q, hq, -⟩ := exists_under hb
    exact hnone wanted q hwanted hq
  rw [choose?, hunder, firstBlock?_of_first h]
  rfl

/-- A note with a fence that is never closed is read as if it ended before the fence. -/
theorem landmarks_of_unclosed {opening marker : Text} (hlines : linesWithEnds note = before ++ opening :: rest)
    (hwhole : Whole before) (hopens : fence? opening = some marker)
    (hrest : ∀ line ∈ rest, ¬ Closes marker line) : landmarks note = landmarks before.flatten := by
  have hended : ∀ line ∈ before, Ended line :=
    Text.ended_of_linesWithEnds hlines (List.cons_ne_nil _ _)
  have hbefore : linesWithEnds before.flatten = before := by
    have hsplit := Text.linesWithEnds_flatten_append hended []
    rw [List.append_nil] at hsplit
    exact hsplit.trans (List.append_nil before)
  rw [landmarks, landmarks, hlines, hbefore, hwhole.landmarksFrom, landmarksFrom_unclosed hopens hrest,
    List.append_nil]

/-- Where the body of a block stands in the text of its note. Its start is right behind the opening fence's
line, which has its line feed, and its stop is right before the closing fence's line. -/
structure Place.Located (p : Place note) : Prop where
  text : note =
    p.before.flatten ++ p.row.opening ++ p.row.body.flatten ++ (p.row.closing ++ p.after.flatten)
  start : p.block.start = byteLength (p.before.flatten ++ p.row.opening)
  stop : p.block.stop = byteLength (p.before.flatten ++ p.row.opening ++ p.row.body.flatten)
  ended : Ended p.row.opening
  ordered : p.block.start ≤ p.block.stop
  within : p.block.stop ≤ byteLength note

/-- Each block of a note has its place in the text. -/
theorem Place.located (p : Place note) : p.Located := by
  have htext : note =
      p.before.flatten ++ p.row.opening ++ p.row.body.flatten ++ (p.row.closing ++ p.after.flatten) := by
    refine p.refill_body.symm.trans ?_
    simp [refill, front, back]
  have hblock := p.block_eq
  have hfront : p.front = p.before.flatten ++ p.row.opening := by simp [front]
  rw [hfront] at hblock
  refine ⟨htext, ?_, ?_, p.ended _ (by simp), ?_, ?_⟩
  · rw [hblock]
  · rw [hblock, byteLength_append _ p.row.body.flatten]
  · rw [hblock]
    exact Nat.le_add_right _ _
  · rw [hblock]
    conv_rhs => rw [htext]
    rw [byteLength_append _ (p.row.closing ++ p.after.flatten), byteLength_append _ p.row.body.flatten]
    exact Nat.le_add_right _ _

/-- The block to write is the first one behind the first heading line with the title, if no heading line
comes before that block. In all other cases it is the first block of the note, and a note without a block
has none to write. The body of the block starts right behind the line of the opening fence and ends where
the line of the closing fence starts. What follows a fence that is never closed is not looked at. -/
theorem insertBlock_finds (note : Text) (heading : Option String) :
    (∀ wanted p, heading = some wanted → Under note (title wanted.toList) p →
        insertBlock note heading = .ok p.block) ∧
      ((∀ wanted p, heading = some wanted → ¬ Under note (title wanted.toList) p) →
        ∀ p, First note p → insertBlock note heading = .ok p.block) ∧
      (insertBlock note heading = .error .noInsertLocation ↔ IsEmpty (Place note)) ∧
      (∀ b, insertBlock note heading = .ok b → ∃ p : Place note, p.block = b ∧ p.Located) ∧
      ∀ before opening marker rest, linesWithEnds note = before ++ opening :: rest → Whole before →
        fence? opening = some marker → (∀ line ∈ rest, ¬ Closes marker line) →
        insertBlock note heading = insertBlock before.flatten heading := by
  refine ⟨?_, fun hnone p hp => insertBlock_of_first hnone hp, insertBlock_eq_error_iff, ?_, ?_⟩
  · rintro wanted p rfl hunder
    exact insertBlock_of_under hunder
  · intro b hb
    obtain ⟨p, hp⟩ := exists_place (mem_of_insertBlock hb)
    exact ⟨p, hp, p.located⟩
  · intro before opening marker rest hlines hwhole hopens hrest
    rw [insertBlock, insertBlock, landmarks_of_unclosed hlines hwhole hopens hrest]

/-- A heading and a shorter fence inside a block of tildes do not count, so the section starts at the second
heading line, and it has a block; a third fence is never closed. -/
theorem insertBlock_finds_section :
    insertBlock "# a\n~~~\n# B\n```\n~~~\n# b\n```js\nx\n```\n```\n# c\n".toList (some "# B") =
        .ok ⟨30, 32, some "js"⟩ ∧
      insertBlock "# a\n~~~\n# B\n```\n~~~\n# b\n```js\nx\n```\n```\n# c\n".toList none =
        .ok ⟨8, 16, none⟩ ∧
      (∃ p : Place "# a\n~~~\n# B\n```\n~~~\n# b\n```js\nx\n```\n```\n# c\n".toList,
        p.block = ⟨30, 32, some "js"⟩ ∧ p.Located) ∧
      insertBlock "# a\n~~~\n# B\n```\n~~~\n# b\n```js\nx\n```\n```\n# c\n".toList (some "c") =
        insertBlock "# a\n~~~\n# B\n```\n~~~\n# b\n```js\nx\n```\n".toList (some "c") := by
  have hread : blockUnder? (title "# B".toList)
      (landmarks "# a\n~~~\n# B\n```\n~~~\n# b\n```js\nx\n```\n```\n# c\n".toList) =
      some ⟨30, 32, some "js"⟩ := by
    decide +kernel
  obtain ⟨p, hunder, hp⟩ := exists_under hread
  obtain ⟨first, hfirst⟩ := exists_first p
  have hblock : first.block = ⟨8, 16, none⟩ := by
    refine Option.some.inj ((firstBlock?_of_first hfirst).symm.trans ?_)
    decide +kernel
  have hsection := (insertBlock_finds _ (some "# B")).1 "# B" p rfl hunder
  have hdefault := (insertBlock_finds _ none).2.1 (fun _ _ h => nomatch h) first hfirst
  have hplace := (insertBlock_finds _ (some "# B")).2.2.2.1 _ (hp ▸ hsection)
  have hhidden := (insertBlock_finds
    "# a\n~~~\n# B\n```\n~~~\n# b\n```js\nx\n```\n```\n# c\n".toList (some "c")).2.2.2.2
    ["# a\n".toList, "~~~\n".toList, "# B\n".toList, "```\n".toList, "~~~\n".toList, "# b\n".toList,
      "```js\n".toList, "x\n".toList, "```\n".toList] "```\n".toList "```".toList ["# c\n".toList]
    (by decide +kernel) ?_ (by decide +kernel) (by decide +kernel)
  · exact ⟨hp ▸ hsection, hblock ▸ hdefault, hplace, hhidden⟩
  · exact .plain (by decide) (.fenced ⟨"~~~\n".toList, "~~~".toList, ["# B\n".toList, "```\n".toList],
      "~~~\n".toList, by decide, by decide, by decide⟩
      (.plain (by decide) (.fenced ⟨"```js\n".toList, "```".toList, ["x\n".toList], "```\n".toList,
        by decide, by decide, by decide⟩ .nil)))

end Graft.Note
