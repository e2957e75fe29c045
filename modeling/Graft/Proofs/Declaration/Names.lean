import Graft.Proofs.Declaration.Latest
import Graft.Proofs.Declaration.Scanning
import Graft.Proofs.Declaration.Signature
import Graft.Proofs.Text.Space

/-!
# The names of declarations

A header takes for a name all that stands before a character that ends names: white space, a parenthesis or
a star behind `function`, and white space or an equals sign behind `const` and `let`. These are marks, but
not all marks are among them. A name is an identifier exactly if the mark behind its longest front of
identifier characters ends names (`extract_names`), so behind `function` the text `id<T>(` has the name
`id<T>`, which no call of `id` is.
-/

namespace Graft.Declaration

namespace Header

/-- What `export` and `async` may stand before the keyword. -/
def IsModifiers (t : Text) : Prop :=
  ∃ exported marker, t = exported ++ marker ∧ IsExport exported ∧
    (marker = [] ∨ ∃ blank, marker = "async".toList ++ blank ∧ ∀ c ∈ blank, Alphabet.isSpace c = true)

/-- Whether a character goes on with a name behind a keyword. -/
def isNameChar (keyword : String) : Char → Bool :=
  if keyword = "function" then isFunctionNameChar else isVariableNameChar

/-- A text that starts with a keyword, with `name` behind it up to a character that ends names. -/
structure Named (keyword : String) (name t between after : Text) : Prop where
  eq : t = keyword.toList ++ (between ++ (name ++ after))
  word : keyword ∈ ["function", "const", "let"]
  between : ∀ c ∈ between, Alphabet.isSpace c = true ∨ c = '*'
  ne_nil : name ≠ []
  chars : ∀ c ∈ name, isNameChar keyword c = true
  stop : ∃ c rest, after = c :: rest ∧ isNameChar keyword c = false

variable {h : Header} {t name rest line declared between after : Text} {keyword : String}
  {isAsync : Bool} {c : Char}

/-! ## Names in headers -/

/-- A run in front of something that is left of it ends with a character that is not of its class. -/
theorem exists_stop {p : Char → Bool} {c : Char} (hrun : run? p t = some (name, after))
    (hrest : Text.trimStart after = c :: rest) : ∃ d more, after = d :: more ∧ p d = false := by
  cases after with
  | nil => cases hrest
  | cons d more => exact ⟨d, more, rfl, (run?_eq_some hrun).2.2.2 d rfl⟩

/-- The name in a function's header stands behind the keyword. -/
theorem function?_named (hread : function? declared isAsync t = some h) :
    ∃ between after, Named "function" h.name t between after := by
  unfold function? at hread
  obtain ⟨behind, hbehind, hread⟩ := Option.bind_eq_some_iff.mp hread
  obtain ⟨marks, hmarks, hstars⟩ := exists_star behind
  obtain ⟨isGenerator, unmarked, hstar⟩ : ∃ g u, star behind = (g, u) := ⟨_, _, rfl⟩
  rw [hstar] at hread hmarks
  obtain ⟨⟨name, after⟩, hrun, hread⟩ := Option.bind_eq_some_iff.mp hread
  obtain ⟨rest, hrest, hread⟩ := Option.bind_eq_some_iff.mp hread
  obtain rfl := Option.some.inj hread
  obtain ⟨blank, rfl, hspace⟩ := keyword?_eq_some hbehind
  obtain ⟨hname, hne, hchars, -⟩ := run?_eq_some hrun
  refine ⟨blank ++ marks, after, ?_, by simp, ?_, hne, hchars,
    exists_stop hrun (Text.follow?_eq_some_iff.mp hrest)⟩
  · rw [List.append_assoc, ← hname, ← hmarks]
  · exact List.forall_mem_append.mpr ⟨fun c hc => Or.inl (hspace c hc), hstars⟩

/-- The name in an arrow function's header stands behind `const` or `let`. -/
theorem arrow?_named (hread : arrow? t = some h) :
    ∃ keyword between after, Named keyword h.name t between after := by
  unfold arrow? at hread
  obtain ⟨text, htext, hread⟩ := Option.bind_eq_some_iff.mp hread
  obtain ⟨⟨name, after⟩, hrun, hread⟩ := Option.bind_eq_some_iff.mp hread
  obtain ⟨value, hvalue, hread⟩ := Option.bind_eq_some_iff.mp hread
  obtain ⟨⟨isAsync, parameters, rest⟩, -, hread⟩ := Option.bind_eq_some_iff.mp hread
  obtain rfl := Option.some.inj hread
  obtain ⟨rfl, hne, hchars, -⟩ := run?_eq_some hrun
  have hstop := exists_stop hrun (Text.follow?_eq_some_iff.mp hvalue)
  rcases orElse_eq_some htext with hconst | ⟨-, hlet⟩
  · obtain ⟨blank, hblank, -, hspace⟩ := spacedKeyword?_eq_some hconst
    exact ⟨"const", blank, after, hblank, by simp, fun c hc => Or.inl (hspace c hc), hne, hchars, hstop⟩
  · obtain ⟨blank, hblank, -, hspace⟩ := spacedKeyword?_eq_some hlet
    exact ⟨"let", blank, after, hblank, by simp, fun c hc => Or.inl (hspace c hc), hne, hchars, hstop⟩

/-- A header gives the name that stands behind its keyword. -/
theorem read?_named (hread : read? line = some h) :
    ∃ modifiers t keyword between after, line = modifiers ++ t ∧ IsModifiers modifiers ∧
      Named keyword h.name t between after := by
  unfold read? at hread
  obtain ⟨exported, hline, hexported⟩ := exists_export line
  generalize (spacedKeyword? "export" line).getD line = declared at hread hline
  dsimp only at hread
  -- Behind an async only a function is looked for; otherwise a function comes first, and then an arrow
  -- function.
  split at hread
  · next text hasync =>
    obtain ⟨blank, rfl, -, hspace⟩ := spacedKeyword?_eq_some hasync
    obtain ⟨between, after, hnamed⟩ := function?_named hread
    exact ⟨exported ++ ("async".toList ++ blank), text, "function", between, after, by simp [hline],
      ⟨exported, _, rfl, hexported, Or.inr ⟨blank, rfl, hspace⟩⟩, hnamed⟩
  · have hmodifiers : IsModifiers exported := ⟨exported, [], (List.append_nil _).symm, hexported, Or.inl rfl⟩
    rcases orElse_eq_some hread with hfunction | ⟨-, harrow⟩
    · obtain ⟨between, after, hnamed⟩ := function?_named hfunction
      exact ⟨exported, declared, "function", between, after, hline, hmodifiers, hnamed⟩
    · obtain ⟨keyword, between, after, hnamed⟩ := arrow?_named harrow
      exact ⟨exported, declared, keyword, between, after, hline, hmodifiers, hnamed⟩

/-! ## Names and identifiers -/

/-- What ends a name belongs to no identifier. -/
theorem isIdentifier_of_stop (h : isNameChar keyword c = false) : Alphabet.isIdentifier c = false := by
  by_cases hspace : Alphabet.isSpace c = true
  · exact Alphabet.isIdentifier_of_isSpace hspace
  · have hc : c = '(' ∨ c = '*' ∨ c = '=' := by
      unfold isNameChar at h
      split at h
      · have hfunction : c ≠ '(' → c = '*' := by simpa [isFunctionNameChar, hspace] using h
        tauto
      · have hvariable : c = '=' := by simpa [isVariableNameChar, hspace] using h
        exact Or.inr (Or.inr hvariable)
    rcases hc with rfl | rfl | rfl <;> decide

/-- A name is an identifier exactly if the character behind its longest front of identifier characters ends
names. -/
theorem Named.isIdentifier_iff (h : Named keyword name t between after) :
    (∀ c ∈ name, Alphabet.isIdentifier c = true) ↔
      ∀ c ∈ ((name ++ after).dropWhile Alphabet.isIdentifier).head?, isNameChar keyword c = false := by
  obtain ⟨d, rest, rfl, hd⟩ := h.stop
  constructor
  · intro hletters c hc
    have hnot : ¬ Alphabet.isIdentifier d = true := by
      rw [isIdentifier_of_stop hd]
      exact Bool.false_ne_true
    rw [List.dropWhile_append_of_pos hletters, List.dropWhile_cons_of_neg hnot, List.head?_cons,
      Option.mem_some] at hc
    rwa [← hc]
  · intro hstop
    by_contra hmark
    -- The first mark in the name goes on with it.
    have hne : name.dropWhile Alphabet.isIdentifier ≠ [] := by
      rwa [Ne, List.dropWhile_eq_nil_iff]
    obtain ⟨c, more, hc⟩ := List.exists_cons_of_ne_nil hne
    have hmem : c ∈ name := (List.dropWhile_suffix _).subset (by rw [hc]; exact List.mem_cons_self)
    have hhead : c ∈ ((name ++ d :: rest).dropWhile Alphabet.isIdentifier).head? := by
      rw [List.dropWhile_append, hc]
      rfl
    have hgoes := h.chars c hmem
    rw [hstop c hhead] at hgoes
    cases hgoes

end Header

/-! ## Names in files -/

variable {file : Text} {d : Declaration} {ds : List Declaration}

/-- A declaration has the name of its header. -/
theorem name_of_cut? {h : Header} {done : Cut} (hcut : h.cut? = some done) :
    done.declaration.name = String.ofList h.name := by
  have hblock : ∀ {isGenerator parameters text}, h.withBlock? isGenerator parameters text = some done →
      done.declaration.name = String.ofList h.name := by
    intro isGenerator parameters text hblock
    obtain ⟨length, -, hdone⟩ := Option.bind_eq_some_iff.mp hblock
    rw [← Option.some.inj hdone]
  unfold Header.cut? at hcut
  split at hcut
  -- A function has a block, and an arrow function a block or an expression.
  · obtain ⟨⟨parameters, text⟩, -, hcut⟩ := Option.bind_eq_some_iff.mp hcut
    exact hblock hcut
  · split at hcut
    · cases hcut
    · exact hblock hcut
    · unfold Header.withExpression? at hcut
      dsimp only at hcut
      split at hcut
      · cases hcut
      · rw [← Option.some.inj hcut]

/-- The declarations by name are among those that were found. -/
theorem mem_of_mem_byName (h : d ∈ byName ds) : d ∈ ds := by
  rw [byName_eq_latest] at h
  obtain ⟨n, -, hlast⟩ := List.mem_filterMap.mp h
  exact List.mem_reverse.mp (List.mem_of_find?_eq_some hlast)

/-- Each name that a file gives stands in it, behind the keyword of a header at the start of a line, up to a
character that ends names. It is an identifier exactly if the character behind its longest front of
identifier characters ends names. -/
theorem extract_names (hd : d ∈ extract file) :
    ∃ before modifiers t keyword between after,
      file = before ++ (modifiers ++ t) ∧ (∀ c ∈ before.getLast?, c = '\n') ∧
      Header.IsModifiers modifiers ∧ Header.Named keyword d.name.toList t between after ∧
      ((∀ c ∈ d.name.toList, Alphabet.isIdentifier c = true) ↔
        ∀ c ∈ ((d.name.toList ++ after).dropWhile Alphabet.isIdentifier).head?,
          Header.isNameChar keyword c = false) := by
  obtain ⟨attempt, hattempt, hsome⟩ := List.mem_filterMap.mp (mem_of_mem_byName hd)
  cases attempt with
  | unbounded name start => cases hsome
  | cut start stop found =>
    obtain rfl := Option.some.inj hsome
    obtain ⟨before, line, h, done, hfile, -, -, hread, hcut, rfl, -, hline⟩ := exists_of_mem hattempt
    obtain ⟨modifiers, t, keyword, between, after, rfl, hmodifiers, hnamed⟩ := Header.read?_named hread
    rw [name_of_cut? hcut, String.toList_ofList]
    exact ⟨before, modifiers, t, keyword, between, after, hfile, hline, hmodifiers, hnamed,
      hnamed.isIdentifier_iff⟩

/-- A generator, with the file that it stands in. -/
theorem extract_names_pad :
    ∃ d before modifiers t keyword between after,
      extract "// pads\nexport async function* pad(x) \x7b\n\x7d\n".toList = [d] ∧ d.name = "pad" ∧
      "// pads\nexport async function* pad(x) \x7b\n\x7d\n".toList = before ++ (modifiers ++ t) ∧
      Header.Named keyword "pad".toList t between after := by
  have hextract : extract "// pads\nexport async function* pad(x) \x7b\n\x7d\n".toList =
      [⟨"pad", "async function* pad(x) \x7b\n\x7d".toList, true, true, ['x'], .block "\n\x7d".toList⟩] := by
    decide +kernel
  obtain ⟨before, modifiers, t, keyword, between, after, hfile, -, -, hnamed, -⟩ :=
    extract_names (by rw [hextract]; exact List.mem_cons_self)
  exact ⟨_, before, modifiers, t, keyword, between, after, hextract, rfl, hfile, hnamed⟩

/-- The type parameters of a function belong to its name, and so does the type of a variable. -/
theorem extract_generic :
    (∃ d, extract "function id<T>(x: T) \x7b\n  return x\n\x7d".toList = [d] ∧ d.name = "id<T>" ∧
      ¬ ∀ c ∈ d.name.toList, Alphabet.isIdentifier c = true) ∧
    ∃ d, extract "const id:Id = x => x".toList = [d] ∧ d.name = "id:Id" ∧
      ¬ ∀ c ∈ d.name.toList, Alphabet.isIdentifier c = true :=
  ⟨⟨⟨"id<T>", "function id<T>(x: T) \x7b\n  return x\n\x7d".toList, false, false, "x: T".toList,
      .block "\n  return x\n\x7d".toList⟩, by decide +kernel, rfl,
      fun h => absurd (h '<' (by decide)) (by decide)⟩,
    ⟨⟨"id:Id", "const id:Id = x => x".toList, false, false, ['x'], .expression ['x']⟩,
      by decide +kernel, rfl, fun h => absurd (h ':' (by decide)) (by decide)⟩⟩

end Graft.Declaration
