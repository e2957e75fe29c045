import Graft.Declaration.Extract
import Graft.Proofs.Declaration.Reading

/-!
# The scan for declarations, character by character

What the scan does at a character: inside a header it goes on; where no header is read it goes on; a header
inside a cut is passed over; any other one is cut, or found to have no end. The declarations that it cuts
(`declarationsFrom`) do not depend on the position that it counts from, and along a line, and over a line
that starts with no letter, it only counts.
-/

namespace Graft.Text

/-- Lines, each with a line feed behind it. -/
def unlines : List Text → Text
  | [] => []
  | line :: lines => line ++ '\n' :: unlines lines

end Graft.Text

namespace Graft.Declaration

open Text (byteLength unlines)

variable {c : Char} {rest : Text} {h : Header} {done : Cut} {cut offset : Nat} {lineStart : Bool}

/-- Where no header is read, the scan goes on with the next character. -/
theorem attemptsFrom_plain (hread : lineStart = true → Header.read? (c :: rest) = none)
    (cut offset : Nat) :
    attemptsFrom 0 cut offset lineStart (c :: rest) =
      attemptsFrom 0 (cut - 1) (offset + c.utf8Size) (c = '\n') rest := by
  cases lineStart with
  | false => rfl
  | true => rw [attemptsFrom, if_pos rfl, hread rfl]

/-- A header inside what was cut is passed over. -/
theorem attemptsFrom_passed (hread : Header.read? (c :: rest) = some h) (hcut : 0 < cut) (offset : Nat) :
    attemptsFrom 0 cut offset true (c :: rest) =
      attemptsFrom (rest.length - h.rest.length) (cut - 1) (offset + c.utf8Size) (c = '\n') rest := by
  rw [attemptsFrom, if_pos rfl, hread]
  exact if_pos hcut

/-- A header that has an end is cut, and the scan goes on behind it. -/
theorem attemptsFrom_cut (hread : Header.read? (c :: rest) = some h) (hdone : h.cut? = some done)
    (offset : Nat) :
    attemptsFrom 0 0 offset true (c :: rest) =
      .cut offset (offset + byteLength ((c :: rest).take (rest.length + 1 - done.rest.length)))
          done.declaration ::
        attemptsFrom (rest.length - h.rest.length) (rest.length - done.rest.length)
          (offset + c.utf8Size) (c = '\n') rest := by
  rw [attemptsFrom, if_pos rfl, hread]
  dsimp only
  rw [hdone]
  rfl

/-- A header without an end is noted, and the scan goes on behind it. -/
theorem attemptsFrom_unbounded (hread : Header.read? (c :: rest) = some h) (hdone : h.cut? = none)
    (offset : Nat) :
    attemptsFrom 0 0 offset true (c :: rest) =
      .unbounded (String.ofList h.name) offset ::
        attemptsFrom (rest.length - h.rest.length) 0 (offset + c.utf8Size) (c = '\n') rest := by
  rw [attemptsFrom, if_pos rfl, hread]
  dsimp only
  rw [hdone]
  rfl

/-- What the scan comes to at a character that is in no header: no header is read there, or one is that a
cut covers, that is cut, or that has no end. -/
theorem attemptsFrom_cases (cut offset : Nat) (lineStart : Bool) (c : Char) (rest : Text) :
    ((lineStart = true → Header.read? (c :: rest) = none) ∧
      attemptsFrom 0 cut offset lineStart (c :: rest) =
        attemptsFrom 0 (cut - 1) (offset + c.utf8Size) (c = '\n') rest) ∨
    ∃ h, lineStart = true ∧ Header.read? (c :: rest) = some h ∧
      ((0 < cut ∧ attemptsFrom 0 cut offset lineStart (c :: rest) =
        attemptsFrom (rest.length - h.rest.length) (cut - 1) (offset + c.utf8Size) (c = '\n') rest) ∨
      (cut = 0 ∧ ∃ done, h.cut? = some done ∧ attemptsFrom 0 cut offset lineStart (c :: rest) =
        .cut offset (offset + byteLength ((c :: rest).take (rest.length + 1 - done.rest.length)))
            done.declaration ::
          attemptsFrom (rest.length - h.rest.length) (rest.length - done.rest.length)
            (offset + c.utf8Size) (c = '\n') rest) ∨
      (cut = 0 ∧ h.cut? = none ∧ attemptsFrom 0 cut offset lineStart (c :: rest) =
        .unbounded (String.ofList h.name) offset ::
          attemptsFrom (rest.length - h.rest.length) 0 (offset + c.utf8Size) (c = '\n') rest)) := by
  by_cases hplain : lineStart = true → Header.read? (c :: rest) = none
  · exact Or.inl ⟨hplain, attemptsFrom_plain hplain cut offset⟩
  -- A header is read, and what is left to skip of the last cut decides what becomes of it.
  obtain ⟨rfl, hread⟩ := Classical.not_imp.mp hplain
  obtain ⟨h, hread⟩ := Option.ne_none_iff_exists'.mp hread
  refine Or.inr ⟨h, rfl, hread, ?_⟩
  rcases Nat.eq_zero_or_pos cut with rfl | hcut
  · cases hdone : h.cut? with
    | some done => exact Or.inr (Or.inl ⟨rfl, done, rfl, attemptsFrom_cut hread hdone offset⟩)
    | none => exact Or.inr (Or.inr ⟨rfl, rfl, attemptsFrom_unbounded hread hdone offset⟩)
  · exact Or.inl ⟨hcut, attemptsFrom_passed hread hcut offset⟩

/-! ## Where later cuts start -/

/-- A cut that is made from some place on starts behind the last header and the last cut, and behind that
place if no line starts there. -/
theorem le_start_of_mem {start stop header : Nat} {d : Declaration} {t : Text}
    (hmem : .cut start stop d ∈ attemptsFrom header cut offset lineStart t) :
    offset + byteLength (t.take header) ≤ start ∧ offset + byteLength (t.take cut) ≤ start ∧
      (lineStart = false → offset < start) := by
  induction t generalizing header cut offset lineStart with
  | nil => cases header <;> cases hmem
  | cons c rest ih =>
    have hc := c.utf8Size_pos
    have htake : ∀ n, byteLength ((c :: rest).take n) ≤ c.utf8Size + byteLength (rest.take (n - 1)) := by
      intro n
      cases n <;> simp
    -- What is cut behind this character starts behind all that is still covered there.
    have hlater : ∀ header' cut', header - 1 ≤ header' → cut - 1 ≤ cut' →
        .cut start stop d ∈ attemptsFrom header' cut' (offset + c.utf8Size) (c = '\n') rest →
        offset + byteLength ((c :: rest).take header) ≤ start ∧
          offset + byteLength ((c :: rest).take cut) ≤ start ∧ (lineStart = false → offset < start) := by
      intro header' cut' hheader hcut hmem
      obtain ⟨hstart, hstart', -⟩ := ih hmem
      have := htake header
      have := htake cut
      have := Text.byteLength_take_le hheader rest
      have := Text.byteLength_take_le hcut rest
      refine ⟨?_, ?_, fun _ => ?_⟩ <;> omega
    cases header with
    | succ header => exact hlater header (cut - 1) (by simp) (Nat.le_refl _) hmem
    | zero =>
      rcases attemptsFrom_cases cut offset lineStart c rest with
        ⟨-, heq⟩ | ⟨h, rfl, -, ⟨-, heq⟩ | ⟨rfl, done, -, heq⟩ | ⟨rfl, -, heq⟩⟩
      · rw [heq] at hmem
        exact hlater 0 (cut - 1) (by simp) (Nat.le_refl _) hmem
      · rw [heq] at hmem
        exact hlater _ (cut - 1) (by simp) (Nat.le_refl _) hmem
      · rw [heq] at hmem
        rcases List.mem_cons.mp hmem with hhere | hmem
        · obtain ⟨rfl, -, -⟩ := Attempt.cut.inj hhere
          simp
        · exact hlater _ _ (by simp) (by simp) hmem
      · rw [heq] at hmem
        rcases List.mem_cons.mp hmem with hhere | hmem
        · cases hhere
        · exact hlater _ 0 (by simp) (by simp) hmem

/-- A cut is made at the start of a line, from a header that is read there. -/
theorem exists_of_mem {start stop header : Nat} {d : Declaration} {t : Text}
    (hmem : .cut start stop d ∈ attemptsFrom header cut offset lineStart t) :
    ∃ x u h done, t = x ++ u ∧ start = offset + byteLength x ∧
      stop = start + byteLength (u.take (u.length - done.rest.length)) ∧
      Header.read? u = some h ∧ h.cut? = some done ∧ done.declaration = d ∧
      (x = [] → lineStart = true) ∧ ∀ e ∈ x.getLast?, e = '\n' := by
  induction t generalizing header cut offset lineStart with
  | nil => cases header <;> cases hmem
  | cons c rest ih =>
    -- What is cut right behind this character starts a line, and so the character is a line feed.
    have hlater : ∀ header' cut',
        .cut start stop d ∈ attemptsFrom header' cut' (offset + c.utf8Size) (c = '\n') rest →
        ∃ x u h done, c :: rest = x ++ u ∧ start = offset + byteLength x ∧
          stop = start + byteLength (u.take (u.length - done.rest.length)) ∧
          Header.read? u = some h ∧ h.cut? = some done ∧ done.declaration = d ∧
          (x = [] → lineStart = true) ∧ ∀ e ∈ x.getLast?, e = '\n' := by
      intro header' cut' hmem
      obtain ⟨x, u, h, done, rfl, rfl, hstop, hread, hdone, hd, hnil, hlast⟩ := ih hmem
      refine ⟨c :: x, u, h, done, rfl, by rw [Text.byteLength_cons, Nat.add_assoc], hstop, hread, hdone, hd,
        by simp, fun e he => ?_⟩
      rw [List.getLast?_cons, Option.mem_some] at he
      cases hx : x.getLast? with
      | none =>
        have : c = '\n' := by simpa using hnil (List.getLast?_eq_none_iff.mp hx)
        rw [hx, Option.getD_none] at he
        rw [← he, this]
      | some last =>
        rw [hx, Option.getD_some] at he
        exact hlast e (by rw [hx, he, Option.mem_some])
    cases header with
    | succ header => exact hlater header (cut - 1) hmem
    | zero =>
      rcases attemptsFrom_cases cut offset lineStart c rest with
        ⟨-, heq⟩ | ⟨h, rfl, hread, ⟨-, heq⟩ | ⟨rfl, done, hdone, heq⟩ | ⟨rfl, -, heq⟩⟩
      · rw [heq] at hmem
        exact hlater 0 _ hmem
      · rw [heq] at hmem
        exact hlater _ _ hmem
      · rw [heq] at hmem
        rcases List.mem_cons.mp hmem with hhere | hmem
        · obtain ⟨rfl, rfl, rfl⟩ := Attempt.cut.inj hhere
          exact ⟨[], c :: rest, h, done, rfl, rfl, rfl, hread, hdone, rfl, fun _ => rfl, by simp⟩
        · exact hlater _ _ hmem
      · rw [heq] at hmem
        exact hlater _ 0 ((List.mem_cons.mp hmem).resolve_left (by simp))

/-- Where a cut starts, nothing is covered. -/
theorem covered_le_length {stop header : Nat} {d : Declaration} {t u : Text} (hu : u ≠ [])
    (hmem : .cut (offset + byteLength t) stop d ∈ attemptsFrom header cut offset lineStart (t ++ u)) :
    header ≤ t.length ∧ cut ≤ t.length := by
  obtain ⟨hheader, hcut, -⟩ := le_start_of_mem hmem
  exact ⟨Text.le_length_of_byteLength_take hu (by omega), Text.le_length_of_byteLength_take hu (by omega)⟩

/-- A cut behind some place is not made there. -/
theorem mem_of_mem_cut_cons {start start' stop stop' : Nat} {d e : Declaration} {later : List Attempt}
    (hlt : start' < start) (hmem : .cut start stop d ∈ .cut start' stop' e :: later) :
    .cut start stop d ∈ later := by
  refine (List.mem_cons.mp hmem).resolve_left fun hhere => ?_
  obtain ⟨rfl, -, -⟩ := Attempt.cut.inj hhere
  exact Nat.lt_irrefl _ hlt

/-! ## The declarations of a scan -/

/-- The declarations that are cut from some place on. -/
def declarationsFrom (header cut : Nat) (lineStart : Bool) (t : Text) : List Declaration :=
  (attemptsFrom header cut 0 lineStart t).filterMap Attempt.declaration?

/-- What is cut is a declaration. -/
theorem declarations_of_cut (start stop : Nat) (d : Declaration) (later : List Attempt) :
    (Attempt.cut start stop d :: later).filterMap Attempt.declaration? =
      d :: later.filterMap Attempt.declaration? := rfl

/-- What has no end is none. -/
theorem declarations_of_unbounded (name : String) (start : Nat) (later : List Attempt) :
    (Attempt.unbounded name start :: later).filterMap Attempt.declaration? =
      later.filterMap Attempt.declaration? := rfl

/-- Wherever the positions are counted from, the declarations are the same. -/
theorem filterMap_attemptsFrom (header cut offset : Nat) (lineStart : Bool) (t : Text) :
    (attemptsFrom header cut offset lineStart t).filterMap Attempt.declaration? =
      declarationsFrom header cut lineStart t := by
  -- The offset only goes into the positions, which the declarations leave out.
  suffices hsame : ∀ offset', (attemptsFrom header cut offset lineStart t).filterMap Attempt.declaration? =
      (attemptsFrom header cut offset' lineStart t).filterMap Attempt.declaration? from hsame 0
  intro offset'
  induction t generalizing header cut offset offset' lineStart with
  | nil => cases header <;> rfl
  | cons c rest ih =>
    cases header with
    | succ header => exact ih header (cut - 1) _ _ _
    | zero =>
      unfold attemptsFrom
      split
      · exact ih 0 (cut - 1) _ _ _
      · dsimp only
        split
        · exact ih _ (cut - 1) _ _ _
        · split
          · rw [declarations_of_cut, declarations_of_cut]
            exact congrArg _ (ih _ _ _ _ _)
          · rw [declarations_of_unbounded, declarations_of_unbounded]
            exact ih _ 0 _ _ _

/-- Nothing is declared inside a header. -/
theorem declarationsFrom_inside (header cut : Nat) (lineStart : Bool) (c : Char) (rest : Text) :
    declarationsFrom (header + 1) cut lineStart (c :: rest) =
      declarationsFrom header (cut - 1) (c = '\n') rest :=
  filterMap_attemptsFrom header (cut - 1) _ _ rest

/-- Nothing is declared where no header is read. -/
theorem declarationsFrom_plain (hread : lineStart = true → Header.read? (c :: rest) = none) (cut : Nat) :
    declarationsFrom 0 cut lineStart (c :: rest) = declarationsFrom 0 (cut - 1) (c = '\n') rest := by
  unfold declarationsFrom
  rw [attemptsFrom_plain hread, filterMap_attemptsFrom]
  rfl

/-- Nothing is declared by a header inside what was cut. -/
theorem declarationsFrom_passed (hread : Header.read? (c :: rest) = some h) (hcut : 0 < cut) :
    declarationsFrom 0 cut true (c :: rest) =
      declarationsFrom (rest.length - h.rest.length) (cut - 1) (c = '\n') rest := by
  unfold declarationsFrom
  rw [attemptsFrom_passed hread hcut, filterMap_attemptsFrom]
  rfl

/-- A header that has an end declares something. -/
theorem declarationsFrom_cut (hread : Header.read? (c :: rest) = some h) (hdone : h.cut? = some done) :
    declarationsFrom 0 0 true (c :: rest) = done.declaration ::
      declarationsFrom (rest.length - h.rest.length) (rest.length - done.rest.length) (c = '\n') rest := by
  unfold declarationsFrom
  rw [attemptsFrom_cut hread hdone, declarations_of_cut, filterMap_attemptsFrom]
  rfl

/-- A header without an end declares nothing. -/
theorem declarationsFrom_unbounded (hread : Header.read? (c :: rest) = some h) (hdone : h.cut? = none) :
    declarationsFrom 0 0 true (c :: rest) =
      declarationsFrom (rest.length - h.rest.length) 0 (c = '\n') rest := by
  unfold declarationsFrom
  rw [attemptsFrom_unbounded hread hdone, declarations_of_unbounded, filterMap_attemptsFrom]
  rfl

/-- Along the rest of a line the scan only counts. -/
theorem declarationsFrom_along {line : Text} (hline : '\n' ∉ line) (header cut : Nat) (rest : Text) :
    declarationsFrom header cut false (line ++ rest) =
      declarationsFrom (header - line.length) (cut - line.length) false rest := by
  induction line generalizing header cut with
  | nil => rfl
  | cons c line ih =>
    obtain ⟨hc, hline⟩ := not_or.mp (mt List.mem_cons.mpr hline)
    have hbreak : decide (c = '\n') = false := decide_eq_false (Ne.symm hc)
    have hstep : declarationsFrom header cut false (c :: (line ++ rest)) =
        declarationsFrom (header - 1) (cut - 1) false (line ++ rest) := by
      cases header with
      | zero => rw [declarationsFrom_plain (by simp), hbreak]
      | succ header => rw [declarationsFrom_inside, hbreak, Nat.add_sub_cancel]
    rw [List.cons_append, hstep, ih hline, List.length_cons, Nat.sub_sub, Nat.sub_sub, Nat.add_comm 1]

/-- At the end of a line the next one starts. -/
theorem declarationsFrom_lineFeed (header cut : Nat) (rest : Text) :
    declarationsFrom header cut false ('\n' :: rest) =
      declarationsFrom (header - 1) (cut - 1) true rest := by
  cases header with
  | zero => exact declarationsFrom_plain (by simp) cut
  | succ header => exact declarationsFrom_inside header cut false '\n' rest

/-- A line that starts with no letter, without its line feed. -/
structure IsQuiet (line : Text) : Prop where
  oneLine : '\n' ∉ line
  head : ∀ c ∈ line.head?, Alphabet.isAsciiLetter c = false

/-- Where a line starts with no letter, the scan only counts to the next line. -/
theorem declarationsFrom_quietLine {line : Text} (hquiet : IsQuiet line) (header cut : Nat) (rest : Text) :
    declarationsFrom header cut true (line ++ '\n' :: rest) =
      declarationsFrom (header - (line.length + 1)) (cut - (line.length + 1)) true rest := by
  have hstep : ∀ (c : Char) (t : Text), Alphabet.isAsciiLetter c = false →
      declarationsFrom header cut true (c :: t) =
        declarationsFrom (header - 1) (cut - 1) (c = '\n') t := by
    intro c t hc
    cases header with
    | zero => exact declarationsFrom_plain (fun _ => Header.read?_of_head? (by simpa using hc)) cut
    | succ header => exact declarationsFrom_inside header cut true c t
  obtain ⟨hline, hhead⟩ := hquiet
  cases line with
  | nil => exact hstep '\n' rest rfl
  | cons c line =>
    obtain ⟨hc, hline⟩ := not_or.mp (mt List.mem_cons.mpr hline)
    rw [List.cons_append, hstep c _ (hhead c rfl), decide_eq_false (Ne.symm hc),
      declarationsFrom_along hline, declarationsFrom_lineFeed, List.length_cons]
    simp only [Nat.sub_sub]
    congr 1 <;> omega

/-- Over lines that start with no letter, the scan only counts. -/
theorem declarationsFrom_quietLines {lines : List Text} (hlines : ∀ line ∈ lines, IsQuiet line)
    (header cut : Nat) (rest : Text) :
    declarationsFrom header cut true (unlines lines ++ rest) =
      declarationsFrom (header - (unlines lines).length) (cut - (unlines lines).length) true rest := by
  induction lines generalizing header cut with
  | nil => rfl
  | cons line lines ih =>
    obtain ⟨hline, hlines⟩ := List.forall_mem_cons.mp hlines
    rw [unlines, List.append_assoc, List.cons_append, declarationsFrom_quietLine hline, ih hlines]
    simp only [List.length_append, List.length_cons]
    congr 1 <;> omega

/-- What the scan makes of a header at the start of a line that is cut before some place, if only lines
that start with no letter stand between: the declaration, and what it makes of the text from there. -/
theorem declarationsFrom_printed {line : Text} {later : List Text} {behind : Text} (hline : '\n' ∉ line)
    (hne : line ≠ []) (hlater : ∀ line ∈ later, IsQuiet line)
    (hread : Header.read? (line ++ '\n' :: (unlines later ++ behind)) = some h) (hdone : h.cut? = some done)
    (hheader : behind.length ≤ h.rest.length) (hcut : behind.length ≤ done.rest.length) :
    declarationsFrom 0 0 true (line ++ '\n' :: (unlines later ++ behind)) =
      done.declaration :: declarationsFrom 0 0 true behind := by
  obtain ⟨c, line, rfl⟩ := List.exists_cons_of_ne_nil hne
  obtain ⟨hc, hline⟩ := not_or.mp (mt List.mem_cons.mpr hline)
  rw [List.cons_append] at hread ⊢
  rw [declarationsFrom_cut hread hdone, decide_eq_false (Ne.symm hc), declarationsFrom_along hline,
    declarationsFrom_lineFeed, declarationsFrom_quietLines hlater]
  simp only [List.length_append, List.length_cons]
  congr 2 <;> omega

/-- In a last line that starts with no letter, nothing is cut. -/
theorem declarationsFrom_lastLine {line : Text} (hquiet : IsQuiet line) (header cut : Nat) :
    declarationsFrom header cut true line = [] := by
  have hend : ∀ header cut, declarationsFrom header cut false [] = [] := by
    intro header cut
    cases header <;> rfl
  obtain ⟨hline, hhead⟩ := hquiet
  cases line with
  | nil => cases header <;> rfl
  | cons c line =>
    obtain ⟨hc, hline⟩ := not_or.mp (mt List.mem_cons.mpr hline)
    have halong := fun header cut => declarationsFrom_along hline header cut []
    rw [List.append_nil] at halong
    cases header with
    | zero =>
      have hread : Header.read? (c :: line) = none := Header.read?_of_head? hhead
      rw [declarationsFrom_plain (fun _ => hread), decide_eq_false (Ne.symm hc), halong, hend]
    | succ header => rw [declarationsFrom_inside, decide_eq_false (Ne.symm hc), halong, hend]

/-- Of a text in which only the first line may start with a letter, nothing is cut but what the header of
that line starts. -/
theorem declarationsFrom_single {line last : Text} {later : List Text} (hline : '\n' ∉ line)
    (hlater : ∀ line ∈ later, IsQuiet line) (hlast : IsQuiet last) :
    declarationsFrom 0 0 true (line ++ '\n' :: (unlines later ++ last)) =
      (((Header.read? (line ++ '\n' :: (unlines later ++ last))).bind Header.cut?).map
        Cut.declaration).toList := by
  -- Behind the first line nothing is cut, however much of it the first line's cut covers.
  have hbehind : ∀ header cut, declarationsFrom header cut true (unlines later ++ last) = [] := by
    intro header cut
    rw [declarationsFrom_quietLines hlater, declarationsFrom_lastLine hlast]
  cases line with
  | nil =>
    have hread : Header.read? ('\n' :: (unlines later ++ last)) = none := Header.read?_of_head? (by simp; decide)
    rw [List.nil_append, declarationsFrom_plain (fun _ => hread), hread]
    exact hbehind 0 _
  | cons c line =>
    obtain ⟨hc, hline⟩ := not_or.mp (mt List.mem_cons.mpr hline)
    have hrest : ∀ header cut,
        declarationsFrom header cut (c = '\n') (line ++ '\n' :: (unlines later ++ last)) = [] := by
      intro header cut
      rw [decide_eq_false (Ne.symm hc), declarationsFrom_along hline, declarationsFrom_lineFeed, hbehind]
    rw [List.cons_append]
    cases hread : Header.read? (c :: (line ++ '\n' :: (unlines later ++ last))) with
    | none =>
      rw [declarationsFrom_plain fun _ => hread, hrest]
      rfl
    | some h =>
      cases hcut : h.cut? with
      | none =>
        rw [declarationsFrom_unbounded hread hcut, hrest, Option.bind_some, hcut]
        rfl
      | some done =>
        rw [declarationsFrom_cut hread hcut, hrest, Option.bind_some, hcut]
        rfl

end Graft.Declaration
