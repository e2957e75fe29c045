import Graft.Proofs.Declaration.Excerpts
import Graft.Proofs.Declaration.Names

/-!
# Bodies that are cut out

A body that is cut out of a file has no white space at its end: a block ends with its closing brace, and an
expression is trimmed, with something left of it (`whole_of_cut?`). Body and parameters stand in the file,
so they have no character that the file has not (`mem_of_written`).
-/

namespace Graft

/-- The text of a body. -/
def Body.text : Body → Text
  | .block text => text
  | .expression text => text

namespace Declaration

variable {file source : Text} {c : Char} {d : Declaration} {h : Header} {done : Cut}

/-- A declaration whose body does not end with white space, and where only a block may have a generator's
star. -/
structure Whole (d : Declaration) : Prop where
  last : ∃ c ∈ d.body.text.getLast?, Alphabet.isSpace c = false
  star : ∀ e, d.body = .expression e → d.isGenerator = false

/-- A block ends with its closing brace. -/
theorem whole_of_withBlock? {isGenerator : Bool} {parameters text : Text}
    (hcut : h.withBlock? isGenerator parameters ('{' :: text) = some done) : done.declaration.Whole := by
  obtain ⟨body, rest, -, hlast, -, rfl⟩ := withBlock?_eq_some hcut
  refine ⟨⟨'}', hlast, by decide⟩, fun e he => ?_⟩
  cases he

/-- An expression is trimmed, and something is left of it. -/
theorem whole_of_withExpression? {parameters text : Text}
    (hcut : h.withExpression? parameters text = some done) : done.declaration.Whole := by
  obtain ⟨rest, -, hne, rfl⟩ := withExpression?_eq_some hcut
  have hlast := List.getLast?_eq_some_getLast hne
  refine ⟨⟨_, hlast, ?_⟩, fun _ _ => rfl⟩
  exact Text.trimEndBy_getLast? Alphabet.isSpace _ _ hlast

/-- Whatever is cut is whole. -/
theorem whole_of_cut? (hcut : h.cut? = some done) : done.declaration.Whole := by
  cases hkind : h.kind with
  | function isGenerator =>
    unfold Header.cut? at hcut
    rw [hkind] at hcut
    obtain ⟨⟨parameters, behind⟩, -, hcut⟩ := Option.bind_eq_some_iff.mp hcut
    dsimp only at hcut
    rcases dropWhile_brace behind with hnone | ⟨text, htext⟩
    · -- Without a brace there is no block.
      rw [hnone] at hcut
      cases hcut
    · rw [htext] at hcut
      exact whole_of_withBlock? hcut
  | arrow parameters =>
    cases htrim : Text.trimStart h.rest with
    | nil =>
      rw [cut?_arrow_nil hkind htrim] at hcut
      cases hcut
    | cons c text =>
      rw [cut?_arrow hkind htrim] at hcut
      split at hcut
      · exact whole_of_withBlock? hcut
      · exact whole_of_withExpression? hcut

/-- The parameters and the body of a declaration are in the text in which it is written. -/
theorem mem_of_written (hwritten : Written d source) (hc : c ∈ d.parameters ∨ c ∈ d.body.text) :
    c ∈ source := by
  unfold Written at hwritten
  split at hwritten
  · next body hbody =>
    obtain ⟨-, -, -, marker, opening, between, rfl⟩ := hwritten
    rw [hbody] at hc
    rcases hc with hc | (hc : c ∈ body) <;> simp [hc]
  · next e hbody =>
    obtain ⟨htext, -, tail, -, -, marker, opening, between, hparts⟩ := hwritten
    -- The text of an expression is what is left of the source without white space at its end.
    have hmem : c ∈ d.text := by
      rw [hbody] at hc
      rw [hparts]
      rcases hc with hc | (hc : c ∈ e) <;> simp [hc]
    rw [htext] at hmem
    exact (Text.trimEndBy_isPrefix Alphabet.isSpace source).subset hmem

/-! ## The declarations of a file -/

/-- A declaration of a file was cut from a header at the start of a line. -/
theorem exists_cut_of_mem_extract (hd : d ∈ extract file) :
    ∃ before t h done, file = before ++ t ∧ (∀ c ∈ before.getLast?, c = '\n') ∧
      Header.read? t = some h ∧ h.cut? = some done ∧ done.declaration = d := by
  obtain ⟨attempt, hattempt, hsome⟩ := List.mem_filterMap.mp (mem_of_mem_byName hd)
  cases attempt with
  | unbounded name start => cases hsome
  | cut start stop found =>
    obtain rfl := Option.some.inj hsome
    obtain ⟨before, t, h, done, hfile, -, -, hread, hcut, hdone, -, hline⟩ := exists_of_mem hattempt
    exact ⟨before, t, h, done, hfile, hline, hread, hcut, hdone⟩

/-- What a file gives is whole, and its parameters and its body are in the file. -/
theorem whole_of_mem_extract (hd : d ∈ extract file) :
    d.Whole ∧ ∀ c, c ∈ d.parameters ∨ c ∈ d.body.text → c ∈ file := by
  obtain ⟨before, t, h, done, hfile, hline, hread, hcut, rfl⟩ := exists_cut_of_mem_extract hd
  obtain ⟨e, -, hdone, -⟩ := exists_excerpt hfile hline hread hcut
  refine ⟨whole_of_cut? hcut, fun c hc => ?_⟩
  have hmem : c ∈ e.source := mem_of_written e.written (by rwa [hdone])
  rw [e.file_eq]
  simp [hmem]

end Declaration

end Graft
