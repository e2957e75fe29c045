import Graft.Proofs.Declaration.Bodies
import Graft.Proofs.Draft.Rendering
import Graft.Proofs.Text.Shifting

/-!
# The lines of a member

A member is its declaration in the form of a method or a property, shifted by two spaces, with a comma at
its end. White space is trimmed off the whole once the lines are indented; that takes the two spaces of the
first line and nothing else, if what is indented neither starts nor ends with white space
(`exists_trim_indent`). It starts with a marker, the name, a parenthesis or a colon, and ends as the body
does, so for the declarations of a file without carriage returns, rendering is shifting line by line
(`render_shifted`).
-/

namespace Graft.Member

open Declaration.Header (mark starMark)
open Text (shiftLeft? shiftLine shiftRight splitOn)

variable {file t : Text} {d : Declaration} {name : String}

/-! ## Shifting and trimming -/

/-- A text without carriage returns that neither starts nor ends with white space. -/
structure Trimmed (t : Text) : Prop where
  noReturn : '\r' ∉ t
  head : ∃ c ∈ t.head?, Alphabet.isSpace c = false
  last : ∃ c ∈ t.getLast?, Alphabet.isSpace c = false

/-- Indenting the lines of a trimmed text is shifting it. -/
theorem indent_eq_shiftRight (ht : Trimmed t) : indent t = shiftRight t := by
  obtain ⟨first, hfirst, -⟩ := ht.head
  obtain ⟨last, hlast, hspace⟩ := ht.last
  have hne : t ≠ [] := by
    rintro rfl
    cases hfirst
  have hends : t.getLast? ≠ some '\n' := fun hbreak =>
    (Alphabet.ne_lineBreak_of_isSpace hspace).1 (Option.some.inj (hlast.symm.trans hbreak))
  unfold indent
  rw [Text.lines_eq_splitOn hne ht.noReturn hends]
  rfl

/-- Trimming what is shifted takes the two spaces in front of its first line. -/
theorem exists_trim_indent (ht : Trimmed t) :
    ∃ first more, shiftRight t = ' ' :: ' ' :: first :: more ∧ Text.trim (indent t) = first :: more := by
  obtain ⟨first, hfirst, hhead⟩ := ht.head
  obtain ⟨last, hlast, hspace⟩ := ht.last
  obtain ⟨more, hmore⟩ : ∃ more, shiftRight t = ' ' :: ' ' :: first :: more := by
    obtain ⟨rest, rfl⟩ := List.head?_eq_some_iff.mp hfirst
    exact Text.exists_shiftRight_cons (Alphabet.ne_lineBreak_of_isSpace hhead).1 rest
  have hstart : Text.trimStart (' ' :: ' ' :: first :: more) = first :: more :=
    trimStart_indented (by simpa using hhead)
  -- What is shifted ends as the text does, so nothing is trimmed off its end.
  have hstop : Text.trimEnd (first :: more) = first :: more := by
    have hends := Text.getLast?_shiftRight hlast (Alphabet.ne_lineBreak_of_isSpace hspace).1
    rw [hmore, List.getLast?_cons_cons, List.getLast?_cons_cons] at hends
    refine Text.trimEndBy_of_getLast? fun c hc => ?_
    obtain rfl : last = c := Option.some.inj (hends.symm.trans hc)
    exact hspace
  exact ⟨first, more, hmore, by rw [indent_eq_shiftRight ht, hmore, Text.trim, hstart, hstop]⟩

/-- The comma behind a text that does not end with one. -/
def comma (t : Text) : Text := if t.getLast? = some ',' then [] else [',']

/-- The comma behind a member brings no line of its own. -/
theorem lineFeed_notMem_comma (t : Text) : '\n' ∉ comma t := by
  unfold comma
  split <;> simp

/-- A member whose text is trimmed is that text with a comma, shifted. -/
theorem render_eq_shiftRight (ht : Trimmed (spell d name)) :
    render d name = '\n' :: (shiftRight (spell d name ++ comma (spell d name)) ++ ['\n']) := by
  obtain ⟨first, more, hmore, htrim⟩ := exists_trim_indent ht
  obtain ⟨last, hlast, hspace⟩ := ht.last
  have htrimmed : trimmed d name = first :: more := htrim
  -- What is shifted ends with the same character, so it lacks a comma exactly if the text does.
  have hends : (first :: more).getLast? = (spell d name).getLast? := by
    have := Text.getLast?_shiftRight hlast (Alphabet.ne_lineBreak_of_isSpace hspace).1
    rwa [hmore, List.getLast?_cons_cons, List.getLast?_cons_cons, ← hlast] at this
  have hcomma : (if Text.endsWith ',' (first :: more) then [] else [',']) = comma (spell d name) := by
    simp [Text.endsWith, comma, hends]
  rw [render_eq, htrimmed, hcomma, Text.shiftRight_append (lineFeed_notMem_comma _), hmore]
  simp

/-! ## The forms of a member -/

/-- What stands before the body of a member: the markers, the name and the parameters, for a method or for a
property. -/
def opening (d : Declaration) (name : String) : Text :=
  match d.body with
  | .block _ => mark "async" d.isAsync ++ (starMark d.isGenerator ++ (name.toList ++ ("(".toList ++
      (d.parameters ++ ") \x7b".toList))))
  | .expression _ => name.toList ++ (": ".toList ++ (mark "async" d.isAsync ++ ("(".toList ++
      (d.parameters ++ ") => ".toList))))

/-- A declaration is spelled as a member with its body behind the opening. -/
theorem spell_eq (d : Declaration) (name : String) : spell d name = opening d name ++ d.body.text := by
  unfold spell opening Body.text mark starMark
  cases d.body <;> cases d.isAsync <;> simp

/-- The opening of a member starts with no white space. -/
theorem exists_head?_opening (hname : ∀ c ∈ name.toList, Alphabet.isIdentifier c = true) (d : Declaration) :
    ∃ c ∈ (opening d name).head?, Alphabet.isSpace c = false := by
  -- Even a name without characters has a mark behind it.
  have hnamed : ∀ c rest, Alphabet.isSpace c = false →
      ∃ e ∈ (name.toList ++ c :: rest).head?, Alphabet.isSpace e = false := by
    intro c rest hc
    cases hletters : name.toList with
    | nil => exact ⟨c, rfl, hc⟩
    | cons e letters =>
      exact ⟨e, rfl, Alphabet.isSpace_of_isIdentifier (hname e (by simp [hletters]))⟩
  unfold opening
  split
  · cases d.isAsync with
    | true => exact ⟨'a', rfl, by decide⟩
    | false =>
      cases d.isGenerator with
      | true => exact ⟨'*', rfl, by decide⟩
      | false => exact hnamed '(' _ (by decide)
  · exact hnamed ':' _ (by decide)

/-- There are no carriage returns in the opening of a member unless there are any in its parameters. -/
theorem return_notMem_opening (hname : ∀ c ∈ name.toList, Alphabet.isIdentifier c = true)
    (hparameters : '\r' ∉ d.parameters) : '\r' ∉ opening d name := by
  have hmark : '\r' ∉ mark "async" d.isAsync ∧ '\r' ∉ starMark d.isGenerator := by
    cases d.isAsync <;> cases d.isGenerator <;> decide
  have hname : '\r' ∉ name.toList := fun hmem => absurd (hname _ hmem) (by decide)
  unfold opening
  split <;> simp [hmark, hname, hparameters]

/-- A whole declaration is spelt without white space around it and without carriage returns. -/
theorem trimmed_spell (hname : ∀ c ∈ name.toList, Alphabet.isIdentifier c = true) (hwhole : d.Whole)
    (hreturn : ∀ c, c ∈ d.parameters ∨ c ∈ d.body.text → c ≠ '\r') : Trimmed (spell d name) := by
  rw [spell_eq]
  obtain ⟨first, hfirst, hhead⟩ := exists_head?_opening hname d
  obtain ⟨last, hlast, hspace⟩ := hwhole.last
  refine ⟨fun hmem => ?_, ⟨first, ?_, hhead⟩, ⟨last, ?_, hspace⟩⟩
  · rcases List.mem_append.mp hmem with hmem | hmem
    · exact return_notMem_opening hname (fun h => hreturn _ (Or.inl h) rfl) hmem
    · exact hreturn _ (Or.inr hmem) rfl
  · rw [List.head?_append, Option.mem_def.mp hfirst]
    rfl
  · rw [List.getLast?_append, Option.mem_def.mp hlast]
    rfl

/-- Out of a file without carriage returns, a declaration is rendered under a new name on lines of its own,
each with two spaces in front of it. Taking these away leaves the declaration in the form of a method or a
property, with a comma unless it ends with one: the markers, the name and the parameters, and behind them the
body. All lines of the body are lines of the member, in their order, where the first one stands behind the
last line of the opening and the comma behind the last one. A property never stands for a generator, so no
marker is left out. -/
theorem render_shifted (hfile : '\r' ∉ file) (hd : d ∈ Declaration.extract file)
    (hname : ∀ c ∈ name.toList, Alphabet.isIdentifier c = true) :
    let text := opening d name ++ d.body.text
    ∃ shifted earlier start first others,
      render d name = '\n' :: (shifted ++ ['\n']) ∧
      shiftLeft? shifted = some (text ++ comma text) ∧
      splitOn '\n' (opening d name) = earlier ++ [start] ∧
      splitOn '\n' (d.body.text ++ comma text) = first :: others ∧
      splitOn '\n' shifted = (earlier ++ (start ++ first) :: others).map shiftLine ∧
      ∀ e, d.body = .expression e → d.isGenerator = false := by
  intro text
  obtain ⟨hwhole, hmem⟩ := Declaration.whole_of_mem_extract hd
  have ht : Trimmed (spell d name) := trimmed_spell hname hwhole fun c hc hreturn =>
    hfile (hreturn ▸ hmem c hc)
  have hrender := render_eq_shiftRight ht
  rw [spell_eq] at hrender
  -- The last line of the opening and the first one of the body are one line of the member.
  obtain ⟨earlier, start, hopening⟩ := Text.exists_splitOn_eq_concat '\n' (opening d name)
  obtain ⟨first, others, hbody⟩ := Text.exists_splitOn_eq_cons '\n' (d.body.text ++ comma text)
  refine ⟨shiftRight (text ++ comma text), earlier, start, first, others, hrender,
    Text.shiftLeft?_eq_some_iff.mpr rfl, hopening, hbody, ?_, hwhole.star⟩
  rw [Text.splitOn_shiftRight, List.append_assoc, Text.splitOn_append hopening hbody]

/-- A generator with its parameters on two lines, and a blank line and a deeper one in its block. -/
def pagesFile : Text :=
  ("export async function* pages(url,\n  last) \x7b\n  if (last) \x7b\n\n" ++
    "      yield url\n  \x7d\n\x7d\n").toList

/-- The declaration of that generator. -/
def pages : Declaration :=
  ⟨"pages", ("async function* pages(url,\n  last) \x7b\n  if (last) \x7b\n\n" ++
    "      yield url\n  \x7d\n\x7d").toList, true, true, "url,\n  last".toList,
    .block "\n  if (last) \x7b\n\n      yield url\n  \x7d\n\x7d".toList⟩

/-- The parameters and the block go two spaces to the right, and so does the blank line. -/
theorem render_shifted_pages :
    '\r' ∉ pagesFile ∧ pages ∈ Declaration.extract pagesFile ∧
      (∀ c ∈ "_inlined_api_js_pages".toList, Alphabet.isIdentifier c = true) ∧
      render pages "_inlined_api_js_pages" = ("\n  async *_inlined_api_js_pages(url,\n    last) \x7b\n" ++
        "    if (last) \x7b\n  \n        yield url\n    \x7d\n  \x7d,\n").toList ∧
      ∃ shifted earlier start first others,
        render pages "_inlined_api_js_pages" = '\n' :: (shifted ++ ['\n']) ∧
        shiftLeft? shifted = some ("async *_inlined_api_js_pages(url,\n  last) \x7b\n  if (last) \x7b\n\n" ++
          "      yield url\n  \x7d\n\x7d,").toList ∧
        splitOn '\n' "async *_inlined_api_js_pages(url,\n  last) \x7b".toList = earlier ++ [start] ∧
        splitOn '\n' "\n  if (last) \x7b\n\n      yield url\n  \x7d\n\x7d,".toList = first :: others ∧
        splitOn '\n' shifted = (earlier ++ (start ++ first) :: others).map shiftLine := by
  have hfile : '\r' ∉ pagesFile := by decide +kernel
  have hd : pages ∈ Declaration.extract pagesFile := by decide +kernel
  have hname : ∀ c ∈ "_inlined_api_js_pages".toList, Alphabet.isIdentifier c = true :=
    List.all_eq_true.mp (by decide +kernel)
  obtain ⟨shifted, earlier, start, first, others, hrender, hleft, hopening, hbody, hlines, -⟩ :=
    render_shifted hfile hd hname
  refine ⟨hfile, hd, hname, by decide +kernel, shifted, earlier, start, first, others, hrender,
    hleft.trans ?_, Eq.trans ?_ hopening, Eq.trans ?_ hbody, hlines⟩
  · decide +kernel
  · decide +kernel
  · decide +kernel

end Graft.Member
