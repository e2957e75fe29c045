import Graft.Proofs.Declaration.Excerpts
import Graft.Proofs.Declaration.Abreast
import Graft.Proofs.Text.Bytes

/-!
# Comments behind declarations

A comment is put in behind a declaration that ends in front of the end of its line. In front of that line,
the scans of the two files go the same way (`exists_earlier`): no header and no cut reaches over the start
of a later cut, and what ends in front of it does not depend on the comment. On the line, a declaration
with a block is cut as before, and the scans meet behind the comment (`cut?_comment_of_block`); an
expression takes the comment in (`cut?_comment_of_expression`). So the declarations of the file stay as
they are exactly if the one in front of the comment has a block (`extract_comment`).
-/

namespace Graft.Declaration

open Text (byteLength)

variable {after c r s span t tail x : Text} {d : Declaration} {h : Header} {start stop header cut offset : Nat}
  {lineStart : Bool}

/-! ## In front of the line -/

/-- A line on which a header may be read: it starts with a letter, and not all of it is passed over in
front of a name. -/
structure IsHeaderLine (t : Text) : Prop where
  oneLine : '\n' ∉ t
  letter : ∃ e ∈ t.head?, Alphabet.isAsciiLetter e = true
  anchored : Header.Anchored t

/-- A header stands in front of what follows it, and not all of it is passed over in front of a name. -/
theorem exists_front_of_read? (hread : Header.read? t = some h) :
    ∃ front, t = front ++ h.rest ∧ Header.Anchored front := by
  obtain ⟨exported, marker, opening, ht, -, hspelled⟩ := Header.exists_spelled hread
  refine ⟨exported ++ (marker ++ (h.name ++ opening)), ?_, ?_⟩
  · rw [ht, hspelled.declared]
    simp only [List.append_assoc]
  · have hkind := hspelled.kind
    obtain ⟨e, he, hleading⟩ : ∃ e ∈ opening, Header.isLeading e = false := by
      split at hkind
      · obtain ⟨before, rfl⟩ := hkind
        exact ⟨'(', by simp, by decide⟩
      · obtain ⟨before, behind, hequals, rfl⟩ := hkind
        exact ⟨'=', List.mem_append_left _ hequals, by decide⟩
    exact ⟨e, by simp [he], hleading⟩

/-- What follows a header is at the end of the text that it is read from, also without what stands behind
that. -/
theorem exists_front_of_headerOf {declared : Text} {parts : Text × Bool × Kind}
    (hread : Header.read? (t ++ s) = some (Header.headerOf declared (parts, r ++ s))) :
    ∃ front, t = front ++ r := by
  obtain ⟨front, hfront, -⟩ := exists_front_of_read? hread
  refine ⟨front, (List.append_left_inj s).mp ?_⟩
  rw [hfront, List.append_assoc]
  rfl

/-- What is read in front of a line without and with a comment behind the line: nothing, or headers with
as much of the text in front of them and the same ends, or, without the comment, a header that reaches
into the line. -/
theorem read?_front (hafter : IsLineEnd after) (hc : Harmless c after) (ht : IsHeaderLine t)
    (hx : ∀ e ∈ x.getLast?, e = '\n') :
    (Header.read? (x ++ (t ++ after)) = none ∧ Header.read? (x ++ (t ++ (comment c ++ after))) = none) ∨
    (∃ h h', Header.read? (x ++ (t ++ after)) = some h ∧
      Header.read? (x ++ (t ++ (comment c ++ after))) = some h' ∧
      h'.rest.length = h.rest.length + (comment c).length ∧ CutAbreast c t after h.cut? h'.cut?) ∨
    ∃ h, Header.read? (x ++ (t ++ after)) = some h ∧ h.rest.length < (t ++ after).length := by
  have hanchored : Header.Anchored (x ++ t) := by
    obtain ⟨e, he, hleading⟩ := ht.anchored
    exact ⟨e, List.mem_append_right x he, hleading⟩
  have hpos := List.length_pos_iff.mpr ht.anchored.ne_nil
  obtain ⟨declared, old, new, habreast, hold, hnew⟩ := Header.read?_abreast hafter hc hanchored
  rw [List.append_assoc] at hold hnew
  rw [hold, hnew]
  cases habreast with
  | neither => exact Or.inl ⟨rfl, rfl⟩
  | past hlength =>
    refine Or.inr (Or.inr ⟨_, rfl, ?_⟩)
    rw [List.length_append]
    exact Nat.lt_of_le_of_lt hlength (by omega)
  | near a r =>
    by_cases hlength : r.length < t.length
    · refine Or.inr (Or.inr ⟨_, rfl, ?_⟩)
      show (r ++ after).length < (t ++ after).length
      simpa using hlength
    · -- The header ends in front of the line.
      rw [← List.append_assoc] at hold
      obtain ⟨front, hsplit⟩ := exists_front_of_headerOf hold
      obtain ⟨r', rfl, hr'⟩ : ∃ r', r = r' ++ t ∧ ∀ e ∈ r'.getLast?, e = '\n' := by
        rcases List.append_eq_append_iff.mp hsplit with ⟨a, -, rfl⟩ | ⟨a, rfl, rfl⟩
        · rw [List.length_append] at hlength
          obtain rfl : a = [] := List.length_eq_zero_iff.mp (by omega)
          exact ⟨[], rfl, by simp⟩
        · refine ⟨a, rfl, fun e he => hx e ?_⟩
          rw [Option.mem_def] at he ⊢
          rw [List.getLast?_append, he]
          rfl
      obtain ⟨e, he, hletter⟩ := ht.letter
      have hcut := cut?_abreast hafter hc hr' ht.oneLine hletter he declared a
      refine Or.inr (Or.inl ⟨_, _, rfl, rfl, ?_, ?_⟩)
      · show ((r' ++ t) ++ (comment c ++ after)).length = ((r' ++ t) ++ after).length + (comment c).length
        simp only [List.length_append]
        omega
      · rwa [List.append_assoc, List.append_assoc]

/-- A header that covers no more than what stands in front of the line covers as much with a comment behind
the line. -/
theorem exists_read?_front (hafter : IsLineEnd after) (hc : Harmless c after) (ht : IsHeaderLine t) {a : Char}
    (hx : ∀ e ∈ (a :: x).getLast?, e = '\n') (hread : Header.read? (a :: (x ++ (t ++ after))) = some h)
    (hle : (x ++ (t ++ after)).length - h.rest.length ≤ x.length) :
    ∃ h', Header.read? (a :: (x ++ (t ++ (comment c ++ after)))) = some h' ∧
      (x ++ (t ++ (comment c ++ after))).length - h'.rest.length =
        (x ++ (t ++ after)).length - h.rest.length ∧
      CutAbreast c t after h.cut? h'.cut? := by
  have hreads := read?_front hafter hc ht hx
  rw [List.cons_append, List.cons_append, hread] at hreads
  rcases hreads with ⟨hold, -⟩ | ⟨old, h', hold, hnew, hrest, habreast⟩ | ⟨old, hold, hrest⟩
  · cases hold
  · obtain rfl := Option.some.inj hold
    refine ⟨h', hnew, ?_, habreast⟩
    simp only [List.length_append] at hrest ⊢
    omega
  · -- The header would reach into the line.
    obtain rfl := Option.some.inj hold
    have hpos := List.length_pos_iff.mpr ht.anchored.ne_nil
    simp only [List.length_append] at hle hrest
    omega

/-- Where no header is read in front of the line, none is read with a comment behind the line. -/
theorem read?_front_of_none (hafter : IsLineEnd after) (hc : Harmless c after) (ht : IsHeaderLine t)
    (hx : ∀ e ∈ x.getLast?, e = '\n') (hread : Header.read? (x ++ (t ++ after)) = none) :
    Header.read? (x ++ (t ++ (comment c ++ after))) = none := by
  have hreads := read?_front hafter hc ht hx
  rw [hread] at hreads
  rcases hreads with ⟨-, hnew⟩ | ⟨h, -, hold, -⟩ | ⟨h, hold, -⟩
  · exact hnew
  · cases hold
  · cases hold

/-- One step of the scans in front of a line on which a declaration is cut later: both cut the same, and
cover as much of what follows. -/
theorem scan_step (hafter : IsLineEnd after) (hc : Harmless c after) (ht : IsHeaderLine t) {a : Char}
    (hx : ∀ e ∈ (a :: x).getLast?, e = '\n')
    (hmem : .cut (offset + byteLength (a :: x)) stop d ∈
      attemptsFrom header cut offset lineStart (a :: (x ++ (t ++ after)))) :
    ∃ now header' cut',
      .cut ((offset + a.utf8Size) + byteLength x) stop d ∈
        attemptsFrom header' cut' (offset + a.utf8Size) (a = '\n') (x ++ (t ++ after)) ∧
      declarationsFrom header cut lineStart (a :: (x ++ (t ++ after))) =
        now ++ declarationsFrom header' cut' (a = '\n') (x ++ (t ++ after)) ∧
      declarationsFrom header cut lineStart (a :: (x ++ (t ++ (comment c ++ after)))) =
        now ++ declarationsFrom header' cut' (a = '\n') (x ++ (t ++ (comment c ++ after))) := by
  have hne : t ++ after ≠ [] := by simp [ht.anchored.ne_nil]
  have hlength : ∀ s : Text, (x ++ (t ++ s)).length = x.length + (t.length + s.length) := by simp
  have hlt : offset < offset + byteLength (a :: x) := by
    have := Text.byteLength_pos (List.cons_ne_nil a x)
    omega
  rw [Text.byteLength_cons, ← Nat.add_assoc] at hmem hlt
  cases header with
  | succ header =>
    exact ⟨[], header, cut - 1, hmem, declarationsFrom_inside .., declarationsFrom_inside ..⟩
  | zero =>
    rcases attemptsFrom_cases cut offset lineStart a (x ++ (t ++ after)) with
      ⟨hplain, heq⟩ | ⟨h, rfl, hread, hattempt⟩
    · have hplain' : lineStart = true → Header.read? (a :: (x ++ (t ++ (comment c ++ after)))) = none :=
        fun hstart => read?_front_of_none (x := a :: x) hafter hc ht hx (hplain hstart)
      rw [heq] at hmem
      exact ⟨[], 0, cut - 1, hmem, declarationsFrom_plain hplain cut, declarationsFrom_plain hplain' cut⟩
    · -- The header ends in front of the line, or it would cover the start of the later cut.
      have hfront := exists_read?_front hafter hc ht hx hread
      rcases hattempt with ⟨hpos, heq⟩ | ⟨rfl, done, hdone, heq⟩ | ⟨rfl, hdone, heq⟩
      · rw [heq] at hmem
        obtain ⟨h', hread', hcovered, -⟩ := hfront (covered_le_length hne hmem).1
        refine ⟨[], _, cut - 1, hmem, declarationsFrom_passed hread hpos, ?_⟩
        rw [← hcovered]
        exact declarationsFrom_passed hread' hpos
      · rw [heq] at hmem
        have hlater := mem_of_mem_cut_cons hlt hmem
        obtain ⟨hheader, hcut⟩ := covered_le_length hne hlater
        obtain ⟨h', hread', hcovered, habreast⟩ := hfront hheader
        rw [hdone] at habreast
        generalize hdone' : h'.cut? = done' at habreast
        cases habreast with
        | near e q =>
          have hsame : (x ++ (t ++ (comment c ++ after))).length - (q ++ (t ++ (comment c ++ after))).length =
              (x ++ (t ++ after)).length - (q ++ (t ++ after)).length := by
            simp only [List.length_append]
            omega
          refine ⟨[e], _, _, hlater, declarationsFrom_cut hread hdone, ?_⟩
          rw [← hcovered, ← hsame]
          exact declarationsFrom_cut hread' hdone'
        | past hrest =>
          -- The cut would cover the start of the later one.
          rw [List.length_append] at hrest
          rw [hlength] at hcut
          omega
      · rw [heq] at hmem
        have hlater := (List.mem_cons.mp hmem).resolve_left (by simp)
        obtain ⟨h', hread', hcovered, habreast⟩ := hfront (covered_le_length hne hlater).1
        rw [hdone] at habreast
        generalize hdone' : h'.cut? = done' at habreast
        cases habreast
        refine ⟨[], _, 0, hlater, declarationsFrom_unbounded hread hdone, ?_⟩
        rw [← hcovered]
        exact declarationsFrom_unbounded hread' hdone'

/-- What is cut in front of a line on which a declaration is cut is the same with a comment behind the
line. -/
theorem exists_earlier (hafter : IsLineEnd after) (hc : Harmless c after) (ht : IsHeaderLine t)
    (hx : ∀ e ∈ x.getLast?, e = '\n')
    (hmem : .cut (offset + byteLength x) stop d ∈
      attemptsFrom header cut offset lineStart (x ++ (t ++ after))) :
    ∃ earlier,
      declarationsFrom header cut lineStart (x ++ (t ++ after)) =
        earlier ++ declarationsFrom 0 0 true (t ++ after) ∧
      declarationsFrom header cut lineStart (x ++ (t ++ (comment c ++ after))) =
        earlier ++ declarationsFrom 0 0 true (t ++ (comment c ++ after)) := by
  -- The induction is on the text in front of the line. What is scanned so far may lie ahead of it, which is
  -- why the three counters are general.
  induction x generalizing header cut offset lineStart with
  | nil =>
    -- The scan is at the line itself, and a cut there is only possible when nothing is left to skip.
    obtain ⟨hheader, hcut⟩ := covered_le_length (by simp [ht.anchored.ne_nil]) hmem
    obtain rfl : lineStart = true := by
      cases lineStart with
      | true => rfl
      | false => exact absurd ((le_start_of_mem hmem).2.2 rfl) (Nat.lt_irrefl _)
    rw [Nat.le_zero.mp hheader, Nat.le_zero.mp hcut]
    exact ⟨[], rfl, rfl⟩
  | cons a x ih =>
    have hx' : ∀ e ∈ x.getLast?, e = '\n' := by
      intro e he
      refine hx e ?_
      rw [Option.mem_def] at he ⊢
      rw [List.getLast?_cons, he]
      rfl
    obtain ⟨now, header', cut', hlater, hold, hnew⟩ := scan_step hafter hc ht hx hmem
    obtain ⟨earlier, hold', hnew'⟩ := ih hx' hlater
    refine ⟨now ++ earlier, ?_, ?_⟩
    · rw [List.cons_append, hold, hold', List.append_assoc]
    · rw [List.cons_append, hnew, hnew', List.append_assoc]

/-! ## On the line -/

variable {declared parameters : Text} {a : Text × Bool × Kind} {isGenerator : Bool}

/-- A declaration whose block is closed on its line is cut at the same place with a comment. -/
theorem withBlock?_comment (hafter : IsLineEnd after) (hc : Harmless c after) (hx : '\n' ∉ x)
    (htail : IsPlainTail tail)
    (hcut : (Header.headerOf (declared ++ after) (a, r)).withBlock? isGenerator parameters
      ('{' :: (x ++ after)) = some ⟨d, tail ++ after⟩) :
    (∃ body, d.body = .block body) ∧
    (Header.headerOf (declared ++ (comment c ++ after)) (a, s)).withBlock? isGenerator parameters
      ('{' :: (x ++ (comment c ++ after))) = some ⟨d, tail ++ (comment c ++ after)⟩ := by
  obtain ⟨body, rest, hbody, hlast, hlength, hdone⟩ := withBlock?_eq_some hcut
  obtain ⟨rfl, rfl⟩ := Cut.mk.inj hdone
  obtain rfl : x = body ++ tail := by
    rw [← List.append_assoc] at hbody
    exact List.append_cancel_right hbody
  have hnew := blockLength?_comment hafter hc hx hlast htail hlength
  refine ⟨⟨_, rfl⟩, ?_⟩
  rw [List.append_assoc, withBlock?_of_length hnew, spanUntil_headerOf, spanUntil_headerOf]
  rfl

/-- An expression on a line takes a comment in. -/
theorem withExpression?_comment (hx : '\n' ∉ x)
    (hcut : h.withExpression? parameters (x ++ after) = some ⟨d, tail ++ after⟩) (h' : Header) :
    (∃ e, d.body = .expression e) ∧
    ∃ done, h'.withExpression? parameters (x ++ (comment c ++ after)) = some done ∧ done.declaration ≠ d := by
  obtain ⟨rest, hsplit, -, hdone⟩ := withExpression?_eq_some hcut
  obtain ⟨hd, rfl⟩ := Cut.mk.inj hdone
  -- Without the comment the body is not longer than what stands in front of the comment,
  have hshort : (bodyOf (expressionOf (x ++ after))).length ≤ x.length := by
    have hle := (bodyOf_isPrefix (expressionOf (x ++ after))).length_le
    have hlength := congrArg List.length hsplit
    simp only [List.length_append] at hlength
    omega
  -- and with it the body has the slashes, too.
  have hslashes : '\n' ∉ x ++ [' ', '/', '/'] := by simpa using hx
  obtain ⟨kept, hkept⟩ := exists_expressionOf_append (x ++ [' ', '/', '/']) (by simp) hslashes
    (by simp; decide) (' ' :: (c ++ after))
  obtain ⟨more, hmore⟩ := exists_bodyOf_append (x ++ [' ', '/', '/']) (by simp; decide) kept
  have hcut' := withExpression?_eq h' parameters (x ++ (comment c ++ after))
  have htext : x ++ (comment c ++ after) = (x ++ [' ', '/', '/']) ++ (' ' :: (c ++ after)) := by
    simp [comment]
  rw [htext, hkept, hmore, if_neg (by simp)] at hcut'
  rw [htext]
  refine ⟨⟨_, congrArg Declaration.body hd⟩, _, hcut', fun hsame => ?_⟩
  have hbody := (congrArg Declaration.body hsame).trans (congrArg Declaration.body hd)
  have hlength := congrArg List.length (Body.expression.inj hbody)
  simp only [List.length_append, List.length_cons, List.length_nil] at hlength
  omega

/-- What is cut on a line without a comment, and with one: a declaration with a block stays as it is, and
one with an expression does not. -/
theorem cut?_comment (hafter : IsLineEnd after) (hc : Harmless c after) (hr : '\n' ∉ r)
    (htail : IsPlainTail tail)
    (hcut : (Header.headerOf (declared ++ after) (a, r ++ after)).cut? = some ⟨d, tail ++ after⟩) :
    ((∃ body, d.body = .block body) ∧
      (Header.headerOf (declared ++ (comment c ++ after)) (a, r ++ (comment c ++ after))).cut? =
        some ⟨d, tail ++ (comment c ++ after)⟩) ∨
    (∃ e, d.body = .expression e) ∧ ∃ done,
      (Header.headerOf (declared ++ (comment c ++ after)) (a, r ++ (comment c ++ after))).cut? = some done ∧
        done.declaration ≠ d := by
  obtain ⟨name, isAsync, kind⟩ := a
  have hlength : ∀ {n : Nat}, n = (tail ++ after).length → ¬ n < after.length := by
    intro n hn
    rw [hn, List.length_append]
    omega
  cases kind with
  | function isGenerator =>
    rcases cut?_function_append r isGenerator with
      ⟨front, inside, x, rfl, heq⟩ | ⟨inside, heq⟩ | ⟨opened, heq⟩
    · rw [heq _ after rfl rfl] at hcut
      rw [heq _ (comment c ++ after) rfl rfl]
      have hx : '\n' ∉ x := fun h => hr (List.mem_append_right _ (List.mem_cons_of_mem _ h))
      exact Or.inl (withBlock?_comment hafter hc hx htail hcut)
    -- A block that is behind the line would reach over its end.
    · rw [heq _ after rfl rfl] at hcut
      exact absurd (length_lt_of_dropWhile hcut) (hlength rfl)
    · rw [heq _ after rfl rfl] at hcut
      obtain ⟨parts, hparts, hcut⟩ := Option.bind_eq_some_iff.mp hcut
      obtain ⟨-, -, hrest⟩ := untilCloseParen?_eq_some hparts
      have hlt := length_lt_of_dropWhile hcut
      have hle := congrArg List.length hrest
      rw [List.length_append] at hle
      exact absurd (Nat.lt_of_lt_of_le hlt (by omega)) (hlength rfl)
  | arrow parameters =>
    cases hbody : Text.trimStart r with
    | nil =>
      have hlt := length_lt_of_cut?_arrow rfl hcut
      change _ < (Text.trimStart (r ++ after)).length at hlt
      rw [trimStart_append_of_nil hbody] at hlt
      exact absurd (Nat.lt_of_lt_of_le hlt (Header.length_trimStart_le after)) (hlength rfl)
    | cons e x =>
      have htrim : ∀ s, Text.trimStart (r ++ s) = e :: (x ++ s) := by
        intro s
        rw [trimStart_append (by simp [hbody]), hbody, List.cons_append]
      have hx : '\n' ∉ e :: x := by
        intro h
        rw [← hbody] at h
        exact hr ((List.dropWhile_suffix _).subset h)
      rw [cut?_arrow rfl (htrim after)] at hcut
      rw [cut?_arrow rfl (htrim (comment c ++ after))]
      by_cases he : e = '{'
      · rw [if_pos he] at hcut ⊢
        exact Or.inl (withBlock?_comment hafter hc (fun h => hx (List.mem_cons_of_mem _ h)) htail hcut)
      · rw [if_neg he] at hcut ⊢
        exact Or.inr (withExpression?_comment hx hcut _)

/-- A declaration that is cut on a line is followed by what is cut behind the line. -/
theorem declarationsFrom_line (ht : '\n' ∉ t) (hne : t ≠ []) (hread : Header.read? (t ++ s) = some h)
    (hcut : h.cut? = some ⟨d, tail ++ s⟩) :
    declarationsFrom 0 0 true (t ++ s) = d :: declarationsFrom 0 0 false s := by
  obtain ⟨e, t, rfl⟩ := List.exists_cons_of_ne_nil hne
  obtain ⟨he, ht⟩ := not_or.mp (mt List.mem_cons.mpr ht)
  have hlt := length_lt_of_cut? hcut
  rw [List.cons_append] at hread ⊢
  rw [declarationsFrom_cut hread hcut, decide_eq_false (Ne.symm he), declarationsFrom_along ht]
  simp only [List.length_append] at hlt ⊢
  congr 2 <;> omega

/-! ## Files -/

/-- A declaration that is cut out of a file and ends in front of the end of its line. -/
structure ClosedOnLine (before span tail after : Text) (d : Declaration) : Prop where
  cut : .cut (byteLength before) (byteLength (before ++ span)) d ∈
    attempts (before ++ (span ++ (tail ++ after)))
  oneLine : '\n' ∉ span ++ tail
  plain : IsPlainTail tail
  lineEnd : IsLineEnd after

/-- A declaration that is closed on its line is read and cut there. -/
theorem ClosedOnLine.exists_read (h : ClosedOnLine before span tail after d) :
    (∀ e ∈ before.getLast?, e = '\n') ∧
    ∃ r, Header.read? (span ++ (tail ++ after)) = some r ∧ r.cut? = some ⟨d, tail ++ after⟩ := by
  obtain ⟨x, u, r, done, hfile, hstart, hstop, hread, hcut, hd, -, hlast⟩ := exists_of_mem h.cut
  rw [Nat.zero_add] at hstart
  obtain ⟨rfl, rfl⟩ := Text.append_inj_of_byteLength hfile hstart
  refine ⟨hlast, r, hread, ?_⟩
  obtain ⟨source, hsplit⟩ : ∃ source, span ++ (tail ++ after) = source ++ done.rest := by
    obtain ⟨excerpt, -, -, hsplit⟩ := exists_excerpt rfl hlast hread hcut
    exact ⟨_, hsplit⟩
  have htake : (span ++ (tail ++ after)).take ((span ++ (tail ++ after)).length - done.rest.length) =
      source := by
    rw [hsplit, List.length_append, Nat.add_sub_cancel, List.take_left]
  rw [htake, Text.byteLength_append] at hstop
  obtain ⟨-, hrest⟩ := Text.append_inj_of_byteLength hsplit (Nat.add_left_cancel hstop)
  rw [hcut, hrest, ← hd]

/-- A declaration that is closed on its line is cut on a line that a header may be read on. -/
theorem ClosedOnLine.isHeaderLine (h : ClosedOnLine before span tail after d) :
    IsHeaderLine (span ++ tail) := by
  obtain ⟨-, r, hread, hcut⟩ := h.exists_read
  obtain ⟨front, hfront, hanchored⟩ := exists_front_of_read? hread
  -- The header is in the span.
  obtain ⟨more, rfl⟩ : ∃ more, span = front ++ more := by
    have hlt := length_lt_of_cut? hcut
    rcases List.append_eq_append_iff.mp hfront with ⟨a, -, ha⟩ | ⟨a, ha, -⟩
    · rw [ha, List.length_append] at hlt
      omega
    · exact ⟨a, ha⟩
  refine ⟨h.oneLine, ?_, ?_⟩
  · by_contra hletter
    obtain ⟨e, front, rfl⟩ := List.exists_cons_of_ne_nil hanchored.ne_nil
    have hnone : Header.read? (((e :: front) ++ more) ++ (tail ++ after)) = none :=
      Header.read?_of_head? (by simpa using hletter)
    rw [hnone] at hread
    cases hread
  · obtain ⟨e, he, hleading⟩ := hanchored
    exact ⟨e, by simp [he], hleading⟩

/-- A declaration that is closed on its line, and a harmless comment behind the line: the declarations of the
file stay as they are exactly if this one has a block. -/
theorem extract_comment (h : ClosedOnLine before span tail after d) (hc : Harmless c after) :
    ((attempts (before ++ (span ++ (tail ++ (comment c ++ after))))).filterMap Attempt.declaration? =
        (attempts (before ++ (span ++ (tail ++ after)))).filterMap Attempt.declaration? ↔
      ∃ body, d.body = .block body) ∧
    ((∃ body, d.body = .block body) →
      extract (before ++ (span ++ (tail ++ (comment c ++ after)))) =
        extract (before ++ (span ++ (tail ++ after)))) := by
  suffices hiff :
      (attempts (before ++ (span ++ (tail ++ (comment c ++ after))))).filterMap Attempt.declaration? =
        (attempts (before ++ (span ++ (tail ++ after)))).filterMap Attempt.declaration? ↔
      ∃ body, d.body = .block body from
    ⟨hiff, fun hblock => congrArg byName (hiff.mpr hblock)⟩
  have hline := h.isHeaderLine
  obtain ⟨hbefore, r, hread, hcut⟩ := h.exists_read
  have hmem := h.cut
  rw [← List.append_assoc span] at hmem hread
  rw [← List.append_assoc span, ← List.append_assoc span]
  rw [← Nat.zero_add (byteLength before)] at hmem
  -- In front of the line the same is cut, and both scans come to the line with nothing covered.
  obtain ⟨earlier, hold, hnew⟩ := exists_earlier h.lineEnd hc hline hbefore hmem
  change declarationsFrom 0 0 true _ = declarationsFrom 0 0 true _ ↔ _
  rw [hold, hnew, List.append_right_inj, declarationsFrom_line hline.oneLine hline.anchored.ne_nil hread hcut]
  -- The header on the line is the same, but for what follows.
  obtain ⟨declared, old, new, habreast, hreadOld, hreadNew⟩ :=
    Header.read?_abreast h.lineEnd hc hline.anchored
  rw [hread] at hreadOld
  cases habreast with
  | neither => cases hreadOld
  | past hlength =>
    obtain rfl := Option.some.inj hreadOld
    have hlt : (tail ++ after).length < after.length := Nat.lt_of_lt_of_le (length_lt_of_cut? hcut) hlength
    rw [List.length_append] at hlt
    omega
  | near a q =>
    obtain rfl := Option.some.inj hreadOld
    have hq : '\n' ∉ q := by
      obtain ⟨front, hsplit⟩ := exists_front_of_headerOf hread
      intro hmem
      refine hline.oneLine ?_
      rw [hsplit]
      exact List.mem_append_right front hmem
    rcases cut?_comment h.lineEnd hc hq h.plain hcut with ⟨hblock, hcut'⟩ | ⟨⟨e, he⟩, done, hcut', hne⟩
    · rw [declarationsFrom_line hline.oneLine hline.anchored.ne_nil hreadNew hcut',
        declarationsFrom_along hc.notMem_comment.1]
      simp only [Nat.zero_sub]
      exact iff_of_true trivial hblock
    · obtain ⟨first, line, hfirst⟩ := List.exists_cons_of_ne_nil hline.anchored.ne_nil
      rw [hfirst, List.cons_append] at hreadNew ⊢
      rw [declarationsFrom_cut hreadNew hcut']
      refine iff_of_false (fun hsame => hne (List.cons.inj hsame).1) ?_
      rintro ⟨body, hbody⟩
      rw [hbody] at he
      cases he

/-- A block on one line, a comment with parentheses behind it, and another declaration behind that. -/
theorem extract_comment_one :
    ClosedOnLine [] "export function a() \x7b return 1; \x7d".toList ";".toList "\nconst b = () => 2;\n".toList
        ⟨"a", "function a() \x7b return 1; \x7d".toList, false, false, [], .block " return 1; \x7d".toList⟩ ∧
      Harmless "one (1)".toList "\nconst b = () => 2;\n".toList ∧
      extract "export function a() \x7b return 1; \x7d; // one (1)\nconst b = () => 2;\n".toList =
        extract "export function a() \x7b return 1; \x7d;\nconst b = () => 2;\n".toList := by
  have hclosed : ClosedOnLine [] "export function a() \x7b return 1; \x7d".toList ";".toList
      "\nconst b = () => 2;\n".toList
      ⟨"a", "function a() \x7b return 1; \x7d".toList, false, false, [], .block " return 1; \x7d".toList⟩ :=
    ⟨by decide +kernel, by decide, Or.inl (by decide), Or.inr (Or.inl ⟨_, rfl⟩)⟩
  have hharmless : Harmless "one (1)".toList "\nconst b = () => 2;\n".toList := by
    refine ⟨by decide, by decide, by decide, fun front back hsplit hfront => ?_⟩
    have hread := Header.parameters?_closed hfront back
    rw [← hsplit] at hread
    obtain ⟨-, rfl⟩ := Prod.mk.inj (Option.some.inj hread)
    decide
  exact ⟨hclosed, hharmless, (extract_comment hclosed hharmless).2 ⟨_, rfl⟩⟩

/-- A closing brace in a comment moves the end of a block, here over the next declaration; and an expression
takes any comment in. -/
theorem extract_comment_brace :
    extract "function a() \x7b return 1; \x7d\n\nfunction b() \x7b\n  return 2;\n\x7d\n".toList =
        [⟨"a", "function a() \x7b return 1; \x7d".toList, false, false, [], .block " return 1; \x7d".toList⟩,
          ⟨"b", "function b() \x7b\n  return 2;\n\x7d".toList, false, false, [],
            .block "\n  return 2;\n\x7d".toList⟩] ∧
      extract "function a() \x7b return 1; \x7d // ends a \x7d\n\nfunction b() \x7b\n  return 2;\n\x7d\n".toList =
        [⟨"a", "function a() \x7b return 1; \x7d // ends a \x7d\n\nfunction b() \x7b\n  return 2;\n\x7d".toList,
          false, false, [],
          .block " return 1; \x7d // ends a \x7d\n\nfunction b() \x7b\n  return 2;\n\x7d".toList⟩] ∧
      extract "const a = () => 1;\n".toList =
        [⟨"a", "const a = () => 1;".toList, false, false, [], .expression "1".toList⟩] ∧
      extract "const a = () => 1; // one\n".toList =
        [⟨"a", "const a = () => 1; // one".toList, false, false, [], .expression "1; // one".toList⟩] := by
  decide +kernel

end Graft.Declaration
