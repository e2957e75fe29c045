import Graft.Proofs.Declaration.Signature
import Graft.Proofs.Text.Space

/-!
# Reading a header that is written

A header that is put together from its parts is read back: `function?_append` and `arrow?_append` read
what follows an `export` and a marker, in front of any text. Where a line does not start with a letter,
no header is read (`read?_of_head?`).
-/

namespace Graft.Declaration.Header

open Alphabet (IsName)

variable {t rest name value : Text} {c : Char}

/-! ## Words -/

/-- One space is cut off in front of a text that starts with none. -/
theorem trimStart_space (h : ∀ c ∈ t.head?, Alphabet.isSpace c = false) : Text.trimStart (' ' :: t) = t := by
  have hblank : ∀ c ∈ [' '], Alphabet.isSpace c = true := by simp; decide
  rw [← List.singleton_append, Text.trimStart_blank hblank, Text.trimStart_of_head? h]

/-- A word with a space behind it is read, and the text behind the space is left. -/
theorem spacedKeyword?_append (word : String) (hrest : ∀ c ∈ rest.head?, Alphabet.isSpace c = false) :
    spacedKeyword? word (word.toList ++ ' ' :: rest) = some rest := by
  unfold spacedKeyword?
  rw [Text.follow?_append]
  show Text.spaces? (' ' :: rest) = some rest
  rw [Text.spaces?_cons rfl, Text.trimStart_of_head? hrest]

/-- A word with another first letter is not read. -/
theorem spacedKeyword?_of_head? (word : String) (hword : word.toList.head? = some c) (ht : c ∉ t.head?) :
    spacedKeyword? word t = none := by
  unfold spacedKeyword?
  rw [Text.follow?_of_head? word hword ht]
  rfl

/-- It is not read where no white space is asked for, either. -/
theorem keyword?_of_head? (word : String) (hword : word.toList.head? = some c) (ht : c ∉ t.head?) :
    keyword? word t = none := by
  unfold keyword?
  rw [Text.follow?_of_head? word hword ht]
  rfl

/-! ## Headers -/

/-- The star of a generator, or nothing. -/
def starMark (isGenerator : Bool) : Text := if isGenerator then ['*'] else []

/-- A function's header is read up to the opening parenthesis. -/
theorem function?_append (hname : IsName name) (declared : Text) (isAsync isGenerator : Bool) (rest : Text) :
    function? declared isAsync
        ("function".toList ++ (starMark isGenerator ++ ' ' :: (name ++ '(' :: rest))) =
      some ⟨declared, name, isAsync, .function isGenerator, rest⟩ := by
  -- The letters of a name are none of the marks, and so the star and the run of the name stop where they
  -- should.
  have htrim := trimStart_space (hname.isSpace_head? ('(' :: rest))
  have hstar : star (name ++ '(' :: rest) = (false, name ++ '(' :: rest) := by
    obtain ⟨c, more, rfl⟩ := List.exists_cons_of_ne_nil hname.ne_nil
    have hc : c ≠ '*' := hname.ne_of_mem (by simp) (by decide)
    unfold star
    split
    · next heq => exact absurd (List.cons.inj heq).1 hc
    · rfl
  have hmark : keyword? "function" ("function".toList ++ (starMark isGenerator ++ ' ' :: (name ++ '(' :: rest)))
      >>= (fun text => some (star text)) = some (isGenerator, name ++ '(' :: rest) := by
    unfold keyword?
    rw [Text.follow?_append]
    cases isGenerator with
    | true =>
      show some (true, Text.trimStart (' ' :: (name ++ '(' :: rest))) = _
      rw [htrim]
    | false =>
      show some (star (Text.trimStart (' ' :: (name ++ '(' :: rest)))) = _
      rw [htrim, hstar]
  have hrun : run? isFunctionNameChar (name ++ '(' :: rest) = some (name, '(' :: rest) := by
    refine run?_append hname.ne_nil (fun c hc => ?_) (by simp [isFunctionNameChar])
    have hspace := Alphabet.isSpace_of_isIdentifier (hname.letters c hc)
    have hopen : c ≠ '(' := hname.ne_of_mem hc (by decide)
    have hstar : c ≠ '*' := hname.ne_of_mem hc (by decide)
    simp [isFunctionNameChar, hspace, hopen, hstar]
  obtain ⟨text, htext, hpair⟩ := Option.bind_eq_some_iff.mp hmark
  unfold function?
  rw [htext]
  dsimp only [Option.bind_eq_bind, Option.bind_some]
  rw [Option.some.inj hpair]
  dsimp only
  rw [hrun]
  rfl

/-- The word that declares a variable. -/
def variableWord (isConst : Bool) : String := if isConst then "const" else "let"

/-- An arrow function's header is read off the value of the variable. -/
theorem arrow?_append (hname : IsName name) (isConst : Bool)
    (hvalue : ∀ c ∈ value.head?, Alphabet.isSpace c = false) :
    arrow? ((variableWord isConst).toList ++ ' ' :: (name ++ ' ' :: '=' :: ' ' :: value)) =
      (arrowTail? value).map fun (isAsync, parameters, rest) =>
        ⟨(variableWord isConst).toList ++ ' ' :: (name ++ ' ' :: '=' :: ' ' :: value), name, isAsync,
          .arrow parameters, rest⟩ := by
  have hword := spacedKeyword?_append (variableWord isConst)
    (hname.isSpace_head? (' ' :: '=' :: ' ' :: value))
  have hdeclaring : ∀ declared, declared = (variableWord isConst).toList ++
      ' ' :: (name ++ ' ' :: '=' :: ' ' :: value) →
      (spacedKeyword? "const" declared <|> spacedKeyword? "let" declared) =
        some (name ++ ' ' :: '=' :: ' ' :: value) := by
    rintro declared rfl
    -- For let the other word is tried in vain, since it starts with another letter.
    cases isConst with
    | true =>
      rw [show spacedKeyword? "const" _ = _ from hword]
      rfl
    | false =>
      rw [spacedKeyword?_of_head? "const" (c := 'c') rfl (by simp [variableWord])]
      exact hword
  have hrun : run? isVariableNameChar (name ++ ' ' :: '=' :: ' ' :: value) =
      some (name, ' ' :: '=' :: ' ' :: value) := by
    refine run?_append hname.ne_nil (fun c hc => ?_) (by simp [isVariableNameChar, Alphabet.isSpace])
    have hspace := Alphabet.isSpace_of_isIdentifier (hname.letters c hc)
    have hequals : c ≠ '=' := hname.ne_of_mem hc (by decide)
    simp [isVariableNameChar, hspace, hequals]
  unfold arrow?
  rw [hdeclaring _ rfl]
  dsimp only [Option.bind_eq_bind, Option.bind_some]
  rw [hrun]
  dsimp only [Option.bind_some]
  rw [show Text.trimStart (' ' :: '=' :: ' ' :: value) = "=".toList ++ ' ' :: value from rfl,
    Text.follow?_append, Option.bind_some, trimStart_space hvalue]
  cases arrowTail? value <;> rfl

/-- Parameters in parentheses are read up to the first closing one. -/
theorem parameters?_closed {parameters : Text} (h : ')' ∉ parameters) (rest : Text) :
    parameters? ('(' :: (parameters ++ ')' :: rest)) = some (parameters, rest) := by
  have hclose : (')' :: rest).dropWhile (· ≠ ')') = ')' :: rest := List.dropWhile_cons_of_neg (by simp)
  have hnone : (')' :: rest).takeWhile (· ≠ ')') = [] := List.takeWhile_cons_of_neg (by simp)
  simp only [parameters?, Text.dropWhile_ne_append h, Text.takeWhile_ne_append h, hclose, hnone,
    List.append_nil]

/-- The parameters of an arrow function are read, and then the arrow. -/
theorem arrowParameters?_eq (t : Text) :
    arrowParameters? t = (parameters? t).bind fun parts =>
      (Text.follow? "=>" (Text.trimStart parts.2)).map fun rest => (parts.1, rest) := by
  unfold arrowParameters?
  cases parameters? t with
  | none => rfl
  | some parts =>
    show (Text.follow? "=>" (Text.trimStart parts.2)).bind _ = (Text.follow? "=>" (Text.trimStart parts.2)).map _
    cases Text.follow? "=>" (Text.trimStart parts.2) <;> rfl

/-- A marker with a space behind it, or nothing. -/
def mark (word : String) (isMarked : Bool) : Text := if isMarked then word.toList ++ [' '] else []

/-- A marker in front of a text is the word and a space in front of it, or nothing. -/
theorem mark_append (word : String) (isMarked : Bool) (t : Text) :
    mark word isMarked ++ t = if isMarked then word.toList ++ ' ' :: t else t := by
  cases isMarked with
  | true => exact List.append_assoc ..
  | false => rfl

/-- The value of an arrow function's variable is read up to the arrow. -/
theorem arrowTail?_append {parameters : Text} (h : ')' ∉ parameters) (isAsync : Bool) (rest : Text) :
    arrowTail? (mark "async" isAsync ++ '(' :: (parameters ++ ')' :: ' ' :: '=' :: '>' :: rest)) =
      some (isAsync, parameters, rest) := by
  have hread : arrowParameters? ('(' :: (parameters ++ ')' :: ' ' :: '=' :: '>' :: rest)) =
      some (parameters, rest) := by
    rw [arrowParameters?_eq, parameters?_closed h]
    rfl
  rw [mark_append]
  unfold arrowTail?
  -- Without the marker the parameters start with a parenthesis, which no marker does.
  cases isAsync with
  | true =>
    have hmark : keyword? "async" ("async".toList ++
        ' ' :: '(' :: (parameters ++ ')' :: ' ' :: '=' :: '>' :: rest)) =
          some ('(' :: (parameters ++ ')' :: ' ' :: '=' :: '>' :: rest)) := by
      unfold keyword?
      rw [Text.follow?_append]
      rfl
    rw [if_pos rfl, hmark]
    dsimp only [Option.bind_eq_bind, Option.bind_some]
    rw [hread]
  | false =>
    rw [if_neg (by simp), keyword?_of_head? "async" (c := 'a') rfl (by simp), hread]
    rfl

/-- Parameters that open with a parenthesis are what stands before the first closing one. -/
theorem parameters_of_arrowTail? {parameters : Text} {isAsync : Bool}
    (hread : arrowTail? ('(' :: t) = some (isAsync, parameters, rest)) :
    parameters = t.takeWhile (· ≠ ')') := by
  have hmark : keyword? "async" ('(' :: t) = none := keyword?_of_head? "async" (c := 'a') rfl (by simp)
  unfold arrowTail? at hread
  rw [hmark] at hread
  obtain ⟨⟨parameters', rest'⟩, harrow, hpair⟩ := Option.map_eq_some_iff.mp hread
  obtain ⟨-, rfl, rfl⟩ : false = isAsync ∧ parameters' = parameters ∧ rest' = rest := by simpa using hpair
  obtain ⟨⟨inside, behind⟩, hparameters, harrow⟩ := Option.bind_eq_some_iff.mp harrow
  obtain ⟨rest'', -, hpair⟩ := Option.bind_eq_some_iff.mp harrow
  obtain ⟨rfl, -⟩ := Prod.mk.inj (Option.some.inj hpair)
  simp only [parameters?] at hparameters
  split at hparameters
  · exact (Prod.mk.inj (Option.some.inj hparameters)).1.symm
  · cases hparameters

/-! ## Lines -/

/-- An `export` in front of a declaration is passed over. -/
theorem read?_export (isExported : Bool) {declared : Text}
    (hspace : ∀ c ∈ declared.head?, Alphabet.isSpace c = false)
    (hexport : 'e' ∉ declared.head?) : read? (mark "export" isExported ++ declared) = read? declared := by
  have hplain := spacedKeyword?_of_head? "export" rfl hexport
  rw [mark_append]
  cases isExported with
  | true =>
    unfold read?
    rw [if_pos rfl, spacedKeyword?_append "export" hspace, hplain]
    rfl
  | false => rfl

/-- The header of a function at the start of a line. -/
theorem read?_function (hname : IsName name) (isExported isAsync isGenerator : Bool) (rest : Text) :
    read? (mark "export" isExported ++ (mark "async" isAsync ++
        ("function".toList ++ (starMark isGenerator ++ ' ' :: (name ++ '(' :: rest))))) =
      some ⟨mark "async" isAsync ++
        ("function".toList ++ (starMark isGenerator ++ ' ' :: (name ++ '(' :: rest))), name, isAsync,
        .function isGenerator, rest⟩ := by
  have hread := fun declared => function?_append hname declared isAsync isGenerator rest
  -- The two words are marked or not; what stands where one could stand starts with a letter that it does not
  -- start with.
  rw [mark_append "async"]
  cases isAsync with
  | true =>
    rw [if_pos rfl, read?_export isExported (by simp; decide) (by simp)]
    unfold read?
    rw [spacedKeyword?_of_head? "export" (c := 'e') rfl (by simp)]
    dsimp only [Option.getD_none]
    rw [spacedKeyword?_append "async" (by simp; decide)]
    exact hread _
  | false =>
    rw [if_neg (by simp), read?_export isExported (by simp; decide) (by simp)]
    unfold read?
    rw [spacedKeyword?_of_head? "export" (c := 'e') rfl (by simp)]
    dsimp only [Option.getD_none]
    rw [spacedKeyword?_of_head? "async" (c := 'a') rfl (by simp)]
    dsimp only
    rw [hread]
    rfl

/-- The header of an arrow function at the start of a line. -/
theorem read?_arrow (hname : IsName name) (isExported isConst : Bool)
    (hvalue : ∀ c ∈ value.head?, Alphabet.isSpace c = false) :
    read? (mark "export" isExported ++
        ((variableWord isConst).toList ++ ' ' :: (name ++ ' ' :: '=' :: ' ' :: value))) =
      (arrowTail? value).map fun (isAsync, parameters, rest) =>
        ⟨(variableWord isConst).toList ++ ' ' :: (name ++ ' ' :: '=' :: ' ' :: value), name, isAsync,
          .arrow parameters, rest⟩ := by
  have hread := arrow?_append hname isConst hvalue
  have hhead : ∀ c, c ∈ ((variableWord isConst).toList ++
      ' ' :: (name ++ ' ' :: '=' :: ' ' :: value)).head? → c = 'c' ∨ c = 'l' := by
    cases isConst <;> simp [variableWord, eq_comm]
  have hne : ∀ d, d ≠ 'c' → d ≠ 'l' → d ∉ ((variableWord isConst).toList ++
      ' ' :: (name ++ ' ' :: '=' :: ' ' :: value)).head? :=
    fun d hc hl hmem => (hhead d hmem).elim hc hl
  rw [read?_export isExported (fun c hc => by rcases hhead c hc with rfl | rfl <;> decide)
    (hne 'e' (by decide) (by decide))]
  unfold read?
  rw [spacedKeyword?_of_head? "export" rfl (hne 'e' (by decide) (by decide))]
  dsimp only [Option.getD_none]
  rw [spacedKeyword?_of_head? "async" rfl (hne 'a' (by decide) (by decide))]
  dsimp only
  unfold function?
  rw [keyword?_of_head? "function" rfl (hne 'f' (by decide) (by decide))]
  exact hread

/-- Where a line starts with no letter, no header is read. -/
theorem read?_of_head? (h : ∀ c ∈ t.head?, Alphabet.isAsciiLetter c = false) : read? t = none := by
  have hno : ∀ d, Alphabet.isAsciiLetter d = true → d ∉ t.head? := by
    intro d hd hmem
    rw [h d hmem] at hd
    cases hd
  unfold read?
  rw [spacedKeyword?_of_head? "export" rfl (hno 'e' rfl)]
  dsimp only [Option.getD_none]
  rw [spacedKeyword?_of_head? "async" rfl (hno 'a' rfl)]
  dsimp only
  unfold function? arrow?
  rw [keyword?_of_head? "function" rfl (hno 'f' rfl),
    spacedKeyword?_of_head? "const" rfl (hno 'c' rfl),
    spacedKeyword?_of_head? "let" rfl (hno 'l' rfl)]
  rfl

end Graft.Declaration.Header
