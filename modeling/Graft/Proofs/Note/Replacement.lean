import Mathlib.Data.List.Basic
import Graft.Proofs.Note.Choice

/-!
# A note after its block was written

Writing a block changes the lines of its body and no others. If none of the new lines closes the block's
fence, the block stands where it stood, all other blocks and headings are where they were but for the
change of length (`Place.landmarks_refill`), and so is the reference that the note names: nothing of the
note's structure is lost (`replaceBlock_frame`). Writing the same again then changes nothing, and this
is so only then: a line of the code that closes the fence cuts the block off (`replaceBlock_again_iff`).
-/

namespace Graft

/-- Where a block stands after the body of `r` was replaced by one of `length` bytes: before `r` as it
was, behind it further on or back. -/
def Block.resized (r : Block) (length : Nat) (b : Block) : Block :=
  if b.start < r.start then b
  else if b.start = r.start then ⟨b.start, b.start + length, b.language⟩
  else ⟨b.start + length - (r.stop - r.start), b.stop + length - (r.stop - r.start), b.language⟩

namespace Note

open Text (byteLength byteLength_append withoutLineEnd linesWithEnds)

variable {note text updated code : Text} {lines : List Text} {b r again : Block}
  {heading : Option String} {source : Provenance} {max : Nat}

/-- The fence of a block: that of the line before its body. -/
def marker? (note : Text) (b : Block) : Option Text :=
  (linesWithEnds (splitAtByte b.start note).1).getLast?.bind fence?

/-- What becomes of a block `b` when the body of the block `r` is replaced. -/
inductive Moved (note updated : Text) (r : Block) (body : Text) (b again : Block) : Prop
  /-- Before `r` nothing changes. -/
  | before (hbefore : b.stop < r.start) (hsame : again = b)
    (htext : bodyText updated again = bodyText note b)
  /-- The block `r` itself gets the body. -/
  | itself (hself : b = r) (hstart : again.start = r.start) (hlanguage : again.language = r.language)
    (hstop : again.stop = r.start + byteLength body) (htext : bodyText updated again = body)
  /-- Behind `r` a block moves by the change of length. -/
  | behind (hbehind : r.stop < b.start) (hlanguage : again.language = b.language)
    (hstart : (again.start : Int) = b.start + (byteLength body - (r.stop - r.start : Int)))
    (hstop : (again.stop : Int) = b.stop + (byteLength body - (r.stop - r.start : Int)))
    (htext : bodyText updated again = bodyText note b)

/-- A note after the body of its block `r` was replaced, against the note before that. -/
structure Replaced (note updated : Text) (r : Block) (body : Text) : Prop where
  /-- It names the same reference, or none as before. -/
  reference : sourceReference updated = sourceReference note
  /-- The lines around the body are the same, the two fences of the block among them. -/
  lines : ∃ before opening marker old closing after,
    linesWithEnds note = before ++ opening :: (old ++ closing :: after) ∧
      linesWithEnds updated = before ++ opening :: (linesWithEnds body ++ closing :: after) ∧
      byteLength (before ++ [opening]).flatten = r.start ∧ old.flatten = bodyText note r ∧
      fence? opening = some marker ∧ Closes marker closing
  /-- For each heading the same block is found. -/
  blocks : ∀ heading, ∃ b again, insertBlock note heading = .ok b ∧
    insertBlock updated heading = .ok again ∧ Moved note updated r body b again

/-- A note with another text in place of the body of its block `b`, and all else as it was. -/
inductive Rewritten (note : Text) (b : Block) (body : Text) : (updated : Text) → Prop
  | intro {front back : Text} (hnote : note = front ++ (bodyText note b ++ back))
    (hstart : byteLength front = b.start)
    (hstop : byteLength front + byteLength (bodyText note b) = b.stop) :
    Rewritten note b body (front ++ (body ++ back))

/-! ## What is written -/

/-- A body that holds code ends with a line feed. -/
theorem exists_newBody_eq (code : Text) (source : Provenance) :
    ∃ init, newBody code source = init ++ ['\n'] :=
  ⟨source.comment.toList ++ ['\n'] ++ Text.trimEnd code, rfl⟩

/-- Writing a block replaces its body and nothing else, if the new body is not too long. -/
theorem replaceBlock_of_rewritten (h : Rewritten note b (newBody code source) updated) (max : Nat) :
    replaceBlock note b code source max =
      if max < (newBody code source).length then
        .error (.outputTooLarge (newBody code source).length max)
      else .ok updated := by
  cases h with
  | @intro front back hnote hstart hstop =>
    have hfront : (splitAtByte b.start note).1 = front := by
      rw [hnote, ← hstart, splitAtByte_front]
    have hback : (splitAtByte b.stop note).2 = back := by
      rw [hnote, ← hstop, ← byteLength_append, ← List.append_assoc, splitAtByte_front]
    rw [replaceBlock, hfront, hback, List.append_assoc]

namespace Place

/-- With its place filled, only the body of the block is another one. -/
theorem rewritten (p : Place note) (body : Text) : Rewritten note p.block body (p.refill body) := by
  refine .intro ?_ ?_ ?_
  · rw [p.bodyText_block]
    exact p.refill_body.symm
  · rw [p.block_eq]
  · rw [p.bodyText_block, p.block_eq]

/-- Writing a block fills its place, if the new body is not too long. -/
theorem replaceBlock_eq_ok_iff (p : Place note) :
    replaceBlock note p.block code source max = .ok updated ↔
      (newBody code source).length ≤ max ∧ p.refill (newBody code source) = updated := by
  rw [replaceBlock_of_rewritten (p.rewritten (newBody code source)) max]
  by_cases hmax : max < (newBody code source).length
  · simp [hmax, Nat.not_le_of_lt hmax]
  · simp [hmax, Nat.le_of_not_lt hmax]

/-- The fence of the block is that of its opening line. -/
theorem marker?_block (p : Place note) : marker? note p.block = some p.row.marker := by
  have hcut := splitAtByte_front p.front (p.row.body.flatten ++ p.back)
  rw [← refill, p.refill_body] at hcut
  have hlines := Text.linesWithEnds_flatten_append p.ended []
  rw [List.append_nil] at hlines
  unfold marker?
  rw [p.block_eq, hcut, front, hlines]
  simp [linesWithEnds, p.row.opens]

/-! ## Landmarks around the block -/

/-- The position behind the row. -/
def behind (p : Place note) : Nat := byteLength p.before.flatten + byteLength p.row.lines.flatten

/-- The closing line lies between the body and what is behind the row. -/
theorem behind_eq (p : Place note) : p.behind = p.block.stop + byteLength p.row.closing := by
  simp [behind, block, Fenced.blockAt, Fenced.lines, Nat.add_assoc]

/-- A block does not end before it starts. -/
theorem start_le_stop (p : Place note) : p.block.start ≤ p.block.stop := Nat.le_add_right _ _

/-- The closing line stands between the body and what is behind the row. -/
theorem stop_lt_behind (p : Place note) : p.block.stop < p.behind := by
  obtain ⟨marks, hmarks, -⟩ := p.row.closes
  have hclosing := byteLength_pos_of_fence? hmarks
  rw [p.behind_eq]
  omega

/-- The opening line stands between what is before the row and the body. -/
theorem before_lt_start (p : Place note) : byteLength p.before.flatten < p.block.start := by
  have hopening := byteLength_pos_of_fence? p.row.opens
  simp only [block, Fenced.blockAt]
  omega

/-- A block of the note is before the row, or is the row, or is behind it. -/
theorem block_cases (p : Place note) (h : .block b ∈ landmarks note) :
    .block b ∈ landmarksFrom none 0 p.before ∨ b = p.block ∨
      ∃ a, .block a ∈ landmarksFrom none 0 p.after ∧ b = a.later p.behind := by
  have hafter := landmarksFrom_later p.after 0 p.behind
  rw [Nat.zero_add] at hafter
  rw [p.landmarks_eq, List.mem_append, List.mem_cons, ← behind, hafter] at h
  rcases h with hbefore | hself | hbehind
  · exact Or.inl hbefore
  · exact Or.inr (Or.inl (Landmark.block.inj hself))
  · obtain ⟨landmark, hlandmark, hb⟩ := List.mem_map.mp hbehind
    cases landmark with
    | heading t => cases hb
    | block a =>
      cases hb
      exact Or.inr (Or.inr ⟨a, hlandmark, rfl⟩)

/-- A block before the row ends before the block. -/
theorem stop_lt_start (p : Place note) (h : .block b ∈ landmarksFrom none 0 p.before) :
    b.start ≤ b.stop ∧ b.stop < p.block.start := by
  have hbounds := bounds_of_mem h
  have hbefore := p.before_lt_start
  omega

/-! ## The body filled with other lines -/

variable (p : Place note) (hends : ∃ init, text = init ++ ['\n'])
  (hwithin : ∀ line ∈ linesWithEnds text, ¬ Closes p.row.marker line)

include hends hwithin

/-- The body is the text that it was filled with. -/
theorem body_refilled : (p.refilled hends hwithin).row.body.flatten = text :=
  Text.flatten_linesWithEnds text

/-- Filling it again is filling it once. -/
theorem refill_refilled (again : Text) : (p.refilled hends hwithin).refill again = p.refill again := rfl

/-- The block stands where it stood, and ends with the new body. -/
theorem block_refilled :
    (p.refilled hends hwithin).block =
      ⟨p.block.start, p.block.start + byteLength text, p.block.language⟩ := by
  rw [block_eq, block_eq, p.body_refilled hends hwithin]
  rfl

/-- What is behind the row moves by the change of length. -/
theorem behind_refilled :
    (p.refilled hends hwithin).behind + (p.block.stop - p.block.start) =
      p.behind + byteLength text := by
  have hrow : (p.refilled hends hwithin).row.closing = p.row.closing := rfl
  have hstop := p.start_le_stop
  rw [behind_eq, behind_eq, p.block_refilled hends hwithin, hrow]
  simp only
  omega

/-- Behind the block a block moves by the change of length. -/
theorem resized_later (b : Block) :
    p.block.resized (byteLength text) (b.later p.behind) =
      b.later (p.refilled hends hwithin).behind := by
  have hbehind := p.behind_refilled hends hwithin
  have hstart := p.start_le_stop
  have hstop := p.stop_lt_behind
  have hlater : (b.later p.behind).start = b.start + p.behind := rfl
  rw [Block.resized, if_neg (by omega), if_neg (by omega)]
  simp only [Block.later, Block.mk.injEq, and_true]
  omega

/-- The landmarks of the note are the same, but for the block and the change of length. -/
theorem landmarks_refill :
    landmarks (p.refill text) =
      (landmarks note).map (Landmark.onBlock (p.block.resized (byteLength text))) := by
  have hafter := landmarksFrom_later p.after 0
  rw [(p.refilled hends hwithin).landmarks_eq, p.landmarks_eq, List.map_append, List.map_cons,
    ← behind, ← behind]
  congr 1
  · -- What is before the row does not move.
    have hsame : ∀ landmark ∈ landmarksFrom none 0 p.before,
        landmark.onBlock (p.block.resized (byteLength text)) = landmark := by
      intro landmark hlandmark
      cases landmark with
      | heading t => rfl
      | block b =>
        have hb := p.stop_lt_start hlandmark
        rw [Landmark.onBlock, Block.resized, if_pos (by omega)]
    rw [List.map_congr_left hsame, List.map_id']
    rfl
  · congr 1
    · rw [p.block_refilled hends hwithin, Landmark.onBlock, Block.resized, if_neg (by omega),
        if_pos rfl]
    · -- What is behind it is the same, read from another position.
      have hpositions := hafter (p.refilled hends hwithin).behind
      have hold := hafter p.behind
      rw [Nat.zero_add] at hpositions hold
      rw [show (p.refilled hends hwithin).after = p.after from rfl, hpositions, hold, List.map_map]
      apply List.map_congr_left
      intro landmark _
      cases landmark with
      | heading t => rfl
      | block b => exact congrArg Landmark.block (p.resized_later hends hwithin b).symm

/-- Each block of the note is found again, with the same body unless it is the one that was written. -/
theorem moved (h : .block b ∈ landmarks note) :
    Moved note (p.refill text) p.block text b (p.block.resized (byteLength text) b) := by
  have hbehind := p.behind_refilled hends hwithin
  have hstart := p.start_le_stop
  have hstop := p.stop_lt_behind
  rcases p.block_cases h with hbefore | rfl | ⟨a, ha, rfl⟩
  · -- The note and the filled one begin with the same lines.
    obtain ⟨body, hbody⟩ := exists_bodyText hbefore
    have hread : ∀ t, bodyText (p.refill t) b = body := by
      intro t
      have htext : p.refill t = [] ++ (p.before.flatten ++ (p.row.opening ++ (t ++ p.back))) := by
        simp [refill, front]
      rw [htext]
      exact hbody [] _
    have hold := hread p.row.body.flatten
    rw [p.refill_body] at hold
    have hb := p.stop_lt_start hbefore
    have hsame : p.block.resized (byteLength text) b = b := by
      rw [Block.resized, if_pos (by omega)]
    rw [hsame]
    exact .before hb.2 rfl ((hread text).trans hold.symm)
  · have hself : p.block.resized (byteLength text) p.block = (p.refilled hends hwithin).block := by
      rw [p.block_refilled hends hwithin, Block.resized, if_neg (by omega), if_pos rfl]
    have hbody := (p.refilled hends hwithin).bodyText_block
    rw [p.body_refilled hends hwithin] at hbody
    rw [hself]
    rw [p.block_refilled hends hwithin] at hbody ⊢
    exact .itself rfl rfl rfl rfl hbody
  · -- They end with the same lines.
    obtain ⟨body, hbody⟩ := exists_bodyText ha
    have hread : ∀ t, bodyText (p.refill t) (a.later (byteLength (p.front ++ (t ++ p.row.closing)))) =
        body := by
      intro t
      have htext : p.refill t = p.front ++ (t ++ p.row.closing) ++ (p.after.flatten ++ []) := by
        simp [refill, back]
      rw [htext]
      exact hbody _ []
    have hposition : byteLength (p.front ++ (p.row.body.flatten ++ p.row.closing)) = p.behind := by
      rw [p.behind_eq, p.block_eq]
      simp [Nat.add_assoc]
    have hposition' : byteLength (p.front ++ (text ++ p.row.closing)) =
        (p.refilled hends hwithin).behind := by
      rw [behind_eq, p.block_refilled hends hwithin, p.block_eq]
      simp [refilled, Nat.add_assoc]
    have hold := hread p.row.body.flatten
    have hnew := hread text
    rw [p.refill_body, hposition] at hold
    rw [hposition'] at hnew
    rw [p.resized_later hends hwithin]
    have hfar : p.block.stop < (a.later p.behind).start := Nat.lt_of_lt_of_le hstop (Nat.le_add_left _ _)
    refine .behind hfar rfl ?_ ?_ (hnew.trans hold.symm)
    · simp only [Block.later]
      omega
    · simp only [Block.later]
      omega

end Place

/-- The note with its block filled, against the note. -/
theorem Place.replaced (p : Place note) (hends : ∃ init, text = init ++ ['\n'])
    (hwithin : ∀ line ∈ linesWithEnds text, ¬ Closes p.row.marker line) :
    Replaced note (p.refill text) p.block text := by
  constructor
  · -- Inside the row nothing is read.
    unfold sourceReference
    rw [(p.refilled hends hwithin).referenceIn?_eq, p.referenceIn?_eq]
    rfl
  · refine ⟨p.before, p.row.opening, p.row.marker, p.row.body, p.row.closing, p.after, ?_,
      p.linesWithEnds_refill hends, ?_, p.bodyText_block.symm, p.row.opens, p.row.closes⟩
    · rw [p.lines, Fenced.lines]
      simp
    · rw [p.block_eq]
      rfl
  · intro heading
    have hblock : .block p.block ∈ landmarks note := by
      rw [p.landmarks_eq]
      simp
    obtain ⟨b, hb⟩ := exists_choose? hblock heading
    refine ⟨b, p.block.resized (byteLength text) b, insertBlock_eq_ok_iff.mpr hb, ?_,
      p.moved hends hwithin (mem_of_choose? hb)⟩
    rw [insertBlock_eq_ok_iff, p.landmarks_refill hends hwithin, choose?_onBlock, hb]
    rfl

/-- A block of the note has a body that can be replaced. -/
theorem exists_rewritten (hb : .block b ∈ landmarks note) (body : Text) :
    ∃ updated, Rewritten note b body updated := by
  obtain ⟨p, rfl⟩ := exists_place hb
  exact ⟨_, p.rewritten body⟩

/-- Writing a block of the note replaces its body and nothing else. -/
theorem replaceBlock_eq_ok_iff (hb : .block b ∈ landmarks note) :
    replaceBlock note b code source max = .ok updated ↔
      (newBody code source).length ≤ max ∧ Rewritten note b (newBody code source) updated := by
  obtain ⟨p, rfl⟩ := exists_place hb
  constructor
  · intro hok
    obtain ⟨hmax, rfl⟩ := p.replaceBlock_eq_ok_iff.mp hok
    exact ⟨hmax, p.rewritten (newBody code source)⟩
  · rintro ⟨hmax, h⟩
    rw [replaceBlock_of_rewritten h max, if_neg (Nat.not_lt_of_le hmax)]

/-- If no line that is written closes the block's fence, writing the block leaves all else in the note as
it was: the reference that it names, its lines but for those of the body, and the block of each heading,
which moves if it is behind the one that was written. -/
theorem replaceBlock_frame (note code : Text) (heading : Option String) (source : Provenance)
    (max : Nat) (r : Block) (updated : Text) (hr : insertBlock note heading = .ok r)
    (hfree : ∀ marker ∈ marker? note r, ∀ line ∈ linesWithEnds (newBody code source),
      ¬ Closes marker line)
    (hupdated : replaceBlock note r code source max = .ok updated) :
    Replaced note updated r (newBody code source) := by
  obtain ⟨p, rfl⟩ := exists_place (mem_of_insertBlock hr)
  obtain ⟨-, rfl⟩ := p.replaceBlock_eq_ok_iff.mp hupdated
  exact p.replaced (exists_newBody_eq code source) (hfree _ p.marker?_block)

/-- A note with a block before the one that is written and one behind it; inside tildes neither backticks
nor a hash sign count. -/
theorem replaceBlock_frame_tildes :
    Replaced "```\na\n```\n# Code\n~~~ js\nold\n~~~\nrepo: o/r\n```\nb\n```\n".toList
      ("```\na\n```\n# Code\n~~~ js\n// Synced from o/r at 1970-01-01T00:00:00Z\n# x\n```\ny\n~~~\n" ++
        "repo: o/r\n```\nb\n```\n").toList
      ⟨24, 28, some "js"⟩ (newBody "# x\n```\ny".toList ⟨"o/r", ⟨0, 0⟩⟩) :=
  replaceBlock_frame _ _ (some "code") _ 99 _ _ (by decide +kernel) (by decide +kernel)
    (by decide +kernel)

/-! ## Writing a block again -/

/-- The place of a block whose fence is closed by a line of the new body: its body is cut off there. -/
def Place.cutOff (p : Place note) (hends : ∃ init, text = init ++ ['\n']) {body rest : List Text}
    {closing : Text} (hlines : linesWithEnds text = body ++ closing :: rest)
    (hwithin : ∀ line ∈ body, ¬ Closes p.row.marker line) (hcloses : Closes p.row.marker closing) :
    Place (p.refill text) where
  before := p.before
  row := p.row.cut hwithin hcloses
  after := rest ++ p.row.closing :: p.after
  whole := p.whole
  lines := by
    rw [p.linesWithEnds_refill hends, hlines]
    simp [Fenced.lines, Fenced.cut]

/-- No two blocks start at one position. -/
theorem Place.eq_block (p : Place note) (h : .block b ∈ landmarks note)
    (hstart : b.start = p.block.start) : b = p.block := by
  rcases p.block_cases h with hbefore | hself | ⟨a, -, rfl⟩
  · have hb := p.stop_lt_start hbefore
    omega
  · exact hself
  · have hle := p.start_le_stop
    have hstop := p.stop_lt_behind
    simp only [Block.later] at hstart
    omega

/-- The block that was written is found again, with the language that it had and what was written as its
body, exactly if no line of this closes its fence. Then writing the same again changes nothing. -/
theorem replaceBlock_again_iff (note code : Text) (heading : Option String) (source : Provenance)
    (max : Nat) (r : Block) (updated : Text) (hr : insertBlock note heading = .ok r)
    (hupdated : replaceBlock note r code source max = .ok updated) :
    ((∃ again, insertBlock updated heading = .ok again ∧ again.start = r.start ∧
        again.language = r.language ∧ bodyText updated again = newBody code source) ↔
      ∀ marker ∈ marker? note r, ∀ line ∈ linesWithEnds (newBody code source), ¬ Closes marker line) ∧
    ((∀ marker ∈ marker? note r, ∀ line ∈ linesWithEnds (newBody code source), ¬ Closes marker line) →
      ∃ again, insertBlock updated heading = .ok again ∧
        replaceBlock updated again code source max = .ok updated) := by
  obtain ⟨p, rfl⟩ := exists_place (mem_of_insertBlock hr)
  obtain ⟨hmax, rfl⟩ := p.replaceBlock_eq_ok_iff.mp hupdated
  have hends := exists_newBody_eq code source
  -- With no line that closes the fence, the block to write is the one that was written.
  have hfound : (hwithin : ∀ line ∈ linesWithEnds (newBody code source), ¬ Closes p.row.marker line) →
      insertBlock (p.refill (newBody code source)) heading = .ok (p.refilled hends hwithin).block := by
    intro hwithin
    have hchoice := insertBlock_eq_ok_iff.mp hr
    rw [insertBlock_eq_ok_iff, p.landmarks_refill hends hwithin, choose?_onBlock, hchoice,
      Option.map_some, Block.resized, if_neg (Nat.lt_irrefl _), if_pos rfl,
      p.block_refilled hends hwithin]
  constructor
  · constructor
    · rintro ⟨again, hagain, hstart, -, hbody⟩ marker hmarker
      rw [p.marker?_block] at hmarker
      cases hmarker
      rcases forall_not_closes_or_exists_first p.row.marker (linesWithEnds (newBody code source)) with
        hfree | ⟨body, closing, rest, hlines, hwithin, hcloses⟩
      · exact hfree
      · -- The block at this position ends where its fence is closed first, so its body is shorter.
        let q := p.cutOff hends hlines hwithin hcloses
        have hsame : again = q.block := q.eq_block (mem_of_insertBlock hagain) hstart
        have hshort : body.flatten = newBody code source := by
          rw [← hbody, hsame]
          exact q.bodyText_block.symm
        have hwhole := Text.flatten_linesWithEnds (newBody code source)
        rw [hlines, List.flatten_append, hshort, List.flatten_cons] at hwhole
        have hempty := (List.append_eq_nil_iff.mp (List.append_right_eq_self.mp hwhole)).1
        rw [hempty] at hcloses
        exact absurd hcloses (not_closes rfl)
    · intro hfree
      have hwithin := hfree _ p.marker?_block
      refine ⟨_, hfound hwithin, ?_, ?_, ?_⟩
      · rw [p.block_refilled hends hwithin]
      · rw [p.block_refilled hends hwithin]
      · rw [(p.refilled hends hwithin).bodyText_block, p.body_refilled hends hwithin]
  · intro hfree
    have hwithin := hfree _ p.marker?_block
    refine ⟨_, hfound hwithin, (p.refilled hends hwithin).replaceBlock_eq_ok_iff.mpr ⟨hmax, ?_⟩⟩
    exact p.refill_refilled hends hwithin (newBody code source)

/-- Code without a fence in it is written once and for all. -/
theorem replaceBlock_again_plain :
    ∃ again,
      insertBlock "```js\n// Synced from o/r at 1970-01-01T00:00:00Z\n\x7brun\x7d\n```\n".toList none =
          .ok again ∧
        replaceBlock "```js\n// Synced from o/r at 1970-01-01T00:00:00Z\n\x7brun\x7d\n```\n".toList again
          "\x7brun\x7d".toList ⟨"o/r", ⟨0, 0⟩⟩ 99 =
            .ok "```js\n// Synced from o/r at 1970-01-01T00:00:00Z\n\x7brun\x7d\n```\n".toList :=
  (replaceBlock_again_iff "```js\nold\n```\n".toList "\x7brun\x7d".toList none ⟨"o/r", ⟨0, 0⟩⟩ 99
    ⟨6, 10, some "js"⟩ _ (by decide +kernel) (by decide +kernel)).2 (by decide +kernel)

/-- Code with a fence at the start of one of its lines: the block that is found again ends before that
line, and writing the same code again puts it in front of what is left of the first copy. -/
theorem replaceBlock_again_fence :
    insertBlock "```js\nold\n```\n".toList none = .ok ⟨6, 10, some "js"⟩ ∧
      replaceBlock "```js\nold\n```\n".toList ⟨6, 10, some "js"⟩ "\x7bhelp: `\n```\nrun()\n```\n`\x7d".toList
          ⟨"o/r", ⟨0, 0⟩⟩ 99 =
        .ok ("```js\n// Synced from o/r at 1970-01-01T00:00:00Z\n\x7bhelp: `\n```\nrun()\n```\n`\x7d\n" ++
          "```\n").toList ∧
      insertBlock ("```js\n// Synced from o/r at 1970-01-01T00:00:00Z\n\x7bhelp: `\n```\nrun()\n```\n`\x7d\n" ++
          "```\n").toList none = .ok ⟨6, 58, some "js"⟩ ∧
      replaceBlock ("```js\n// Synced from o/r at 1970-01-01T00:00:00Z\n\x7bhelp: `\n```\nrun()\n```\n`\x7d\n" ++
          "```\n").toList ⟨6, 58, some "js"⟩ "\x7bhelp: `\n```\nrun()\n```\n`\x7d".toList ⟨"o/r", ⟨0, 0⟩⟩ 99 =
        .ok ("```js\n// Synced from o/r at 1970-01-01T00:00:00Z\n\x7bhelp: `\n```\nrun()\n```\n`\x7d\n" ++
          "```\nrun()\n```\n`\x7d\n```\n").toList := by
  decide +kernel

end Note

end Graft
