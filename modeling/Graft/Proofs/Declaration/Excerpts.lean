import Graft.Proofs.Declaration.Ends
import Graft.Proofs.Declaration.Scanning

/-!
# The stretches that are cut out of a file

Each declaration that is cut out of a file stands in it: the file is what stands before its line, an
`export` that is left out, the text in which the declaration is written, and the rest. `Excerpt` is such
a stretch with its proofs. The scan makes one for each cut (`exists_excerpts`); the next one starts where
the last one ends, or later, since a header inside a cut is passed over.
-/

namespace Graft.Declaration

open Text (byteLength)

/-- A stretch of a file in which a declaration is written. -/
structure Excerpt (file : Text) where
  /-- What stands before its line. -/
  before : Text
  /-- An `export` that is left out, with the white space behind it. -/
  exported : Text
  /-- The text from the declaring keyword to the end of the body. -/
  source : Text
  after : Text
  declaration : Declaration
  file_eq : file = before ++ (exported ++ (source ++ after))
  line : ∀ c ∈ before.getLast?, c = '\n'
  isExport : Header.IsExport exported
  written : Written declaration source

namespace Excerpt

variable {file : Text}

/-- The position of the first byte. -/
def start (e : Excerpt file) : Nat := byteLength e.before

/-- The position behind the last byte. -/
def stop (e : Excerpt file) : Nat := byteLength (e.before ++ (e.exported ++ e.source))

/-- A declaration is written in a text that is not empty. -/
theorem source_ne_nil (e : Excerpt file) : e.source ≠ [] := by
  have hannounced : ∃ source later, Announces e.declaration source later ∧
      (e.source = [] → source = []) := by
    have hwritten := e.written
    unfold Written at hwritten
    split at hwritten
    · exact ⟨_, _, hwritten.2.2, id⟩
    · obtain ⟨htext, -, tail, -, hannounced⟩ := hwritten
      refine ⟨_, _, hannounced, fun hnil => ?_⟩
      rw [htext, hnil]
      rfl
  obtain ⟨source, later, ⟨⟨word, hmem, hprefix⟩, -⟩, hnil⟩ := hannounced
  intro h
  rw [hnil h, List.prefix_nil] at hprefix
  have hwords : ∀ word ∈ Header.declaringWords, word.toList ≠ [] := by decide
  exact hwords word hmem hprefix

/-- An excerpt has at least one byte. -/
theorem start_lt_stop (e : Excerpt file) : e.start < e.stop := by
  have := Text.byteLength_pos e.source_ne_nil
  unfold start stop
  rw [Text.byteLength_append, Text.byteLength_append]
  omega

end Excerpt

/-- The positions and the declaration of a cut. -/
def Attempt.cut? : Attempt → Option (Nat × Nat × Declaration)
  | .cut start stop d => some (start, stop, d)
  | .unbounded _ _ => none

/-- What is cut first is listed first. -/
theorem filterMap_cut (start stop : Nat) (d : Declaration) (later : List Attempt) :
    (Attempt.cut start stop d :: later).filterMap Attempt.cut? =
      (start, stop, d) :: later.filterMap Attempt.cut? := rfl

/-- A declaration without an end is not listed. -/
theorem filterMap_unbounded (name : String) (start : Nat) (later : List Attempt) :
    (Attempt.unbounded name start :: later).filterMap Attempt.cut? = later.filterMap Attempt.cut? := rfl

variable {file t : Text} {h : Header} {done : Cut}

/-- A header that is cut at the start of a line makes an excerpt. -/
theorem exists_excerpt {before : Text} (hfile : file = before ++ t) (hline : ∀ c ∈ before.getLast?, c = '\n')
    (hread : Header.read? t = some h) (hcut : h.cut? = some done) :
    ∃ e : Excerpt file, e.before = before ∧ e.declaration = done.declaration ∧
      t = (e.exported ++ e.source) ++ done.rest := by
  obtain ⟨exported, marker, opening, ht, hexported, hspelled⟩ := Header.exists_spelled hread
  obtain ⟨source, hdeclared, hwritten⟩ := hspelled.exists_source hcut
  rw [hdeclared] at ht
  exact ⟨⟨before, exported, source, done.rest, done.declaration, by rw [hfile, ht], hline, hexported,
    hwritten⟩, rfl, rfl, by simpa using ht⟩

/-- The cuts that are made from some place on are excerpts one behind the other, none of which starts
before the end of the last cut. -/
theorem exists_excerpts_from (header cut : Nat) (lineStart : Bool) (before : Text)
    (hfile : file = before ++ t) (hline : lineStart = true → ∀ c ∈ before.getLast?, c = '\n') :
    ∃ excerpts : List (Excerpt file),
      (attemptsFrom header cut (byteLength before) lineStart t).filterMap Attempt.cut? =
        excerpts.map (fun e => (e.start, e.stop, e.declaration)) ∧
      excerpts.Pairwise (fun e later => e.stop ≤ later.start) ∧
      ∀ e ∈ excerpts, byteLength (before ++ t.take cut) ≤ e.start := by
  induction t generalizing header cut lineStart before with
  | nil => exact ⟨[], rfl, List.Pairwise.nil, fun e he => absurd he List.not_mem_nil⟩
  | cons c rest ih =>
    -- One character further, what the last cut still covers is one character less.
    have hnext : ∀ header cut, ∃ excerpts : List (Excerpt file),
        (attemptsFrom header (cut - 1) (byteLength before + c.utf8Size) (c = '\n') rest).filterMap
            Attempt.cut? = excerpts.map (fun e => (e.start, e.stop, e.declaration)) ∧
        excerpts.Pairwise (fun e later => e.stop ≤ later.start) ∧
        ∀ e ∈ excerpts, byteLength (before ++ (c :: rest).take cut) ≤ e.start := by
      intro header cut
      have hbefore : byteLength (before ++ [c]) = byteLength before + c.utf8Size := by simp
      obtain ⟨excerpts, hmap, hpairwise, hstart⟩ := ih header (cut - 1) (c = '\n') (before ++ [c])
        (by rw [hfile]; simp) (by simp)
      rw [hbefore] at hmap
      refine ⟨excerpts, hmap, hpairwise, fun e he => Nat.le_trans ?_ (hstart e he)⟩
      cases cut with
      | zero => simp
      | succ cut => simp
    cases header with
    | succ header => exact hnext header cut
    | zero =>
      rcases attemptsFrom_cases cut (byteLength before) lineStart c rest with
        ⟨-, heq⟩ | ⟨h, hstarts, hread, ⟨-, heq⟩ | ⟨rfl, done, hcut, heq⟩ | ⟨rfl, -, heq⟩⟩
      · rw [heq]
        exact hnext 0 cut
      · rw [heq]
        exact hnext _ cut
      · -- The excerpt of this cut comes first; those behind it start where it ends, or later.
        obtain ⟨e, hbefore, hdeclaration, ht⟩ := exists_excerpt hfile (hline hstarts) hread hcut
        have hlength := congrArg List.length ht
        have hne := List.length_pos_iff.mpr e.source_ne_nil
        simp only [List.length_cons, List.length_append] at hlength
        have hspan : (c :: rest).take (rest.length + 1 - done.rest.length) = e.exported ++ e.source := by
          rw [← List.length_cons (a := c), ht, List.length_append, Nat.add_sub_cancel, List.take_left]
        have hstop : byteLength (before ++ (e.exported ++ e.source)) = e.stop := by
          rw [Excerpt.stop, hbefore]
        obtain ⟨excerpts, hmap, hpairwise, hstart⟩ :=
          hnext (rest.length - h.rest.length) (rest.length + 1 - done.rest.length)
        rw [hspan, hstop] at hstart
        rw [show rest.length + 1 - done.rest.length - 1 = rest.length - done.rest.length by omega] at hmap
        refine ⟨e :: excerpts, ?_, List.pairwise_cons.mpr ⟨hstart, hpairwise⟩,
          List.forall_mem_cons.mpr ⟨?_, fun later hlater => ?_⟩⟩
        · rw [heq, filterMap_cut, List.map_cons, hmap, hspan, ← Text.byteLength_append,
            hstop, hdeclaration, Excerpt.start, hbefore]
        · simp [Excerpt.start, hbefore]
        · have hlt := e.start_lt_stop
          have hle := hstart later hlater
          rw [Excerpt.start, hbefore] at hlt
          rw [List.take_zero, List.append_nil]
          exact Nat.le_of_lt (Nat.lt_of_lt_of_le hlt hle)
      · rw [heq, filterMap_unbounded]
        exact hnext _ 0

/-- The cuts of a file are excerpts one behind the other. -/
theorem exists_excerpts (file : Text) :
    ∃ excerpts : List (Excerpt file),
      (attempts file).filterMap Attempt.cut? =
        excerpts.map (fun e => (e.start, e.stop, e.declaration)) ∧
      excerpts.Pairwise (fun e later => e.stop ≤ later.start) := by
  have hfile : file = [] ++ file := rfl
  obtain ⟨excerpts, hmap, hpairwise, -⟩ :=
    exists_excerpts_from 0 0 true [] hfile (by simp)
  exact ⟨excerpts, hmap, hpairwise⟩

end Graft.Declaration
