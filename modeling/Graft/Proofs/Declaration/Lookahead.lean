import Graft.Proofs.Declaration.Reading
import Graft.Proofs.Declaration.Balance
import Graft.Proofs.Text.Nesting

/-!
# How far a header looks ahead

A comment is put in behind a line. What is read from a place before it does not change, unless it is read
past the line anyway: words, names and white space end where the line ends, and a comment starts with
none of what may follow them. Only parameters in parentheses reach over it, up to the first closing
parenthesis. So a comment is `Harmless` if that is followed by no arrow. It has no braces, and
parentheses that are balanced, for the sake of the ends of declarations (`Graft.Proofs.Declaration.Reach`).
-/

namespace Graft.Declaration

/-- A comment as it is put in behind a line. -/
def comment (c : Text) : Text := ' ' :: '/' :: '/' :: ' ' :: c

/-- What follows a line: nothing, or a line break. -/
def IsLineEnd (after : Text) : Prop :=
  after = [] ∨ (∃ rest, after = '\n' :: rest) ∨ ∃ rest, after = '\r' :: '\n' :: rest

/-- A comment without braces, with balanced parentheses, in which the first closing parenthesis is not
followed by an arrow. -/
structure Harmless (c after : Text) : Prop where
  oneLine : '\n' ∉ c
  braceless : Text.Braceless c
  balanced : Text.Balanced c
  arrowless : ∀ front back, c = front ++ ')' :: back → ')' ∉ front →
    Text.startsWith "=>" (Text.trimStart (back ++ after)) = false

/-- A text that starts with the end of a line, or with a comment. -/
def IsBreak (t : Text) : Prop := ∀ c ∈ t.head?, c = ' ' ∨ c = '\n' ∨ c = '\r'

/-- The end of a line starts with one. -/
theorem isBreak_of_isLineEnd {after : Text} (h : IsLineEnd after) : IsBreak after := by
  intro c hc
  rcases h with rfl | ⟨rest, rfl⟩ | ⟨rest, rfl⟩
  · cases hc
  · exact Or.inr (Or.inl (by simpa using hc.symm))
  · exact Or.inr (Or.inr (by simpa using hc.symm))

/-- A comment starts with a space. -/
theorem isBreak_comment (c after : Text) : IsBreak (comment c ++ after) := by
  intro d hd
  exact Or.inl (by simpa [comment] using hd.symm)

variable {c r s t after : Text} {word : String}

/-- A character class that has none of the characters that end a line stops there. -/
theorem IsBreak.not_class (ht : IsBreak t) {p : Char → Bool}
    (hp : p ' ' = false ∧ p '\n' = false ∧ p '\r' = false) : ∀ c ∈ t.head?, p c = false := by
  intro c hc
  rcases ht c hc with rfl | rfl | rfl
  exacts [hp.1, hp.2.1, hp.2.2]

/-! ## In front of the end of a line -/

/-- White space in front of a text that has anything else in it ends inside that text. -/
theorem trimStart_append (h : Text.trimStart r ≠ []) (t : Text) :
    Text.trimStart (r ++ t) = Text.trimStart r ++ t := by
  unfold Text.trimStart at h ⊢
  rw [List.dropWhile_append, if_neg (by simpa using h)]

/-- White space in front goes on behind a text that has nothing else in it. -/
theorem trimStart_append_of_nil (h : Text.trimStart r = []) (t : Text) :
    Text.trimStart (r ++ t) = Text.trimStart t := by
  unfold Text.trimStart at h ⊢
  rw [List.dropWhile_append, if_pos (by simp [h])]

/-- A word is not read over the end of a line. -/
theorem follow?_append_right (hword : ∀ c ∈ word.toList, Alphabet.isSpace c = false) (ht : IsBreak t)
    (r : Text) : Text.follow? word (r ++ t) = (Text.follow? word r).map (· ++ t) := by
  unfold Text.follow?
  -- The induction is on the letters of the word. No letter is white space, so none is found in a break.
  generalize word.toList = letters at hword
  induction letters generalizing r with
  | nil => rfl
  | cons w letters ih =>
    obtain ⟨hw, hletters⟩ := List.forall_mem_cons.mp hword
    cases r with
    | nil =>
      cases t with
      | nil => rfl
      | cons c t =>
        have hne : w ≠ c := by
          rintro rfl
          rcases ht w rfl with rfl | rfl | rfl <;> exact absurd hw (by decide)
        exact if_neg hne
    | cons c r =>
      show (if w = c then Text.after? letters (r ++ t) else none) =
        Option.map (· ++ t) (if w = c then Text.after? letters r else none)
      split
      · exact ih r hletters
      · rfl

namespace Header

/-- A run of a class stops at the end of a line. -/
theorem takeWhile_append_right {p : Char → Bool} (ht : ∀ c ∈ t.head?, p c = false) (r : Text) :
    (r ++ t).takeWhile p = r.takeWhile p ∧ (r ++ t).dropWhile p = r.dropWhile p ++ t := by
  have hstop : t.takeWhile p = [] := by
    cases t with
    | nil => rfl
    | cons c t => simp [ht c rfl]
  have htake : (r ++ t).takeWhile p = r.takeWhile p := by
    rw [List.takeWhile_append, hstop, List.append_nil]
    split
    · next hall => exact ((List.takeWhile_prefix p).eq_of_length hall).symm
    · rfl
  refine ⟨htake, ?_⟩
  have hsplit := (List.takeWhile_append_dropWhile (p := p) (l := r ++ t)).trans
    (congrArg (· ++ t) (List.takeWhile_append_dropWhile (p := p) (l := r)).symm)
  rw [htake, List.append_assoc] at hsplit
  exact List.append_cancel_left hsplit

/-- A run in front of a text that starts with none of its class does not reach into it. -/
theorem run?_append_right {p : Char → Bool} (ht : ∀ c ∈ t.head?, p c = false) (r : Text) :
    run? p (r ++ t) = (run? p r).map fun parts => (parts.1, parts.2 ++ t) := by
  obtain ⟨htake, hdrop⟩ := takeWhile_append_right ht r
  unfold run?
  rw [htake, hdrop]
  split <;> rfl

/-- A character that is passed over in front of a name: white space, a letter or a star. -/
def isLeading (c : Char) : Bool := Alphabet.isSpace c || Alphabet.isAsciiLetter c || c = '*'

/-- A text with a character that is not passed over in front of a name. -/
def Anchored (t : Text) : Prop := ∃ c ∈ t, isLeading c = false

/-- What is left when characters are passed over is still anchored. -/
theorem Anchored.of_append (h : Anchored (r ++ t)) (hr : ∀ c ∈ r, isLeading c = true) : Anchored t := by
  obtain ⟨c, hc, hleading⟩ := h
  rcases List.mem_append.mp hc with hc | hc
  · rw [hr c hc] at hleading
    cases hleading
  · exact ⟨c, hc, hleading⟩

/-- An anchored text has a character. -/
theorem Anchored.ne_nil (h : Anchored t) : t ≠ [] := by
  obtain ⟨c, hc, -⟩ := h
  exact List.ne_nil_of_mem hc

/-- White space does not reach over an anchored text. -/
theorem Anchored.trimStart (hr : Anchored r) (t : Text) :
    Text.trimStart (r ++ t) = Text.trimStart r ++ t ∧ Anchored (Text.trimStart r) := by
  obtain ⟨blank, hblank, hspace⟩ := Text.exists_trimStart r
  have hanchored : Anchored (Text.trimStart r) :=
    Anchored.of_append (r := blank) (by rwa [← hblank]) fun c hc => by simp [isLeading, hspace c hc]
  exact ⟨trimStart_append hanchored.ne_nil t, hanchored⟩

/-- A word of ASCII letters, as they stand in a header. -/
def IsWord (word : String) : Prop := ∀ c ∈ word.toList, Alphabet.isAsciiLetter c = true

/-- The letters of a word are checked one by one. -/
instance (word : String) : Decidable (IsWord word) := List.decidableBAll _ _

/-- A word has no white space in it. -/
theorem IsWord.noSpace (h : IsWord word) : ∀ c ∈ word.toList, Alphabet.isSpace c = false :=
  fun c hc => Alphabet.isSpace_of_isIdentifier (Alphabet.isIdentifier_of_isAsciiLetter (h c hc))

/-- The letters of a word are passed over in front of a name. -/
theorem IsWord.leading (h : IsWord word) : ∀ c ∈ word.toList, isLeading c = true :=
  fun c hc => by simp [isLeading, h c hc]

/-- What follows a word in an anchored text is anchored, too. -/
theorem Anchored.follow? (hr : Anchored r) (hword : IsWord word) (hfollow : Text.follow? word r = some s) :
    Anchored s := by
  rw [Text.follow?_eq_some_iff.mp hfollow] at hr
  exact hr.of_append hword.leading

/-- A keyword in an anchored text is read the same, whatever follows the end of the line. -/
theorem keyword?_append_right (hword : IsWord word) (ht : IsBreak t) (hr : Anchored r) :
    keyword? word (r ++ t) = (keyword? word r).map (· ++ t) := by
  unfold keyword?
  rw [follow?_append_right hword.noSpace ht]
  cases hfollow : Text.follow? word r with
  | none => rfl
  | some s =>
    have hs := hr.follow? hword hfollow
    obtain ⟨htrim, -⟩ := hs.trimStart t
    obtain ⟨c, s, rfl⟩ := List.exists_cons_of_ne_nil hs.ne_nil
    show (if atWordEnd (c :: s) then some (Text.trimStart ((c :: s) ++ t)) else none) =
      Option.map (· ++ t) (if atWordEnd (c :: s) then some (Text.trimStart (c :: s)) else none)
    rw [htrim]
    split <;> rfl

/-- What follows a word and white space is still anchored. -/
theorem Anchored.keyword? (hr : Anchored r) (hword : IsWord word) (hread : Header.keyword? word r = some s) :
    Anchored s := by
  obtain ⟨blank, rfl, hspace⟩ := keyword?_eq_some hread
  exact (hr.of_append hword.leading).of_append fun c hc => by simp [isLeading, hspace c hc]

/-- So is a keyword with white space behind it. -/
theorem spacedKeyword?_append_right (hword : IsWord word) (ht : IsBreak t) (hr : Anchored r) :
    spacedKeyword? word (r ++ t) = (spacedKeyword? word r).map (· ++ t) := by
  unfold spacedKeyword?
  rw [follow?_append_right hword.noSpace ht]
  cases hfollow : Text.follow? word r with
  | none => rfl
  | some s =>
    have hs := hr.follow? hword hfollow
    obtain ⟨c, s, rfl⟩ := List.exists_cons_of_ne_nil hs.ne_nil
    show Text.spaces? ((c :: s) ++ t) = (Text.spaces? (c :: s)).map (· ++ t)
    unfold Text.spaces?
    by_cases hc : Alphabet.isSpace c = true
    · have hbehind : Anchored s :=
        Anchored.of_append (r := [c]) hs fun d hd => by simp [List.mem_singleton.mp hd, isLeading, hc]
      simp only [List.cons_append, hc, if_true, Option.map_some, (hbehind.trimStart t).1]
    · simp only [List.cons_append, hc]
      rfl

/-- What follows a word and the white space behind it is still anchored. -/
theorem Anchored.spacedKeyword? (hr : Anchored r) (hword : IsWord word)
    (hread : Header.spacedKeyword? word r = some s) : Anchored s := by
  obtain ⟨blank, rfl, -, hspace⟩ := spacedKeyword?_eq_some hread
  exact (hr.of_append hword.leading).of_append fun c hc => by simp [isLeading, hspace c hc]

/-- A star in an anchored text is read the same, whatever follows that text. -/
theorem star_append (hr : Anchored r) (t : Text) : star (r ++ t) = ((star r).1, (star r).2 ++ t) := by
  obtain ⟨c, r, rfl⟩ := List.exists_cons_of_ne_nil hr.ne_nil
  unfold star
  by_cases hc : c = '*'
  · subst hc
    have hbehind : Anchored r := Anchored.of_append (r := ['*']) hr (by simp; decide)
    simp only [List.cons_append, (hbehind.trimStart t).1]
  · simp [hc]

/-! ## The start of a header -/

/-- A function's header up to the name: whether it is marked as a generator, the name, and what follows. -/
def functionHead? (t : Text) : Option (Bool × Text × Text) := do
  let (isGenerator, text) := star (← keyword? "function" t)
  let (name, text) ← run? isFunctionNameChar text
  return (isGenerator, name, text)

/-- An arrow function's header up to the name. -/
def arrowHead? (t : Text) : Option (Text × Text) := do
  run? isVariableNameChar (← (spacedKeyword? "const" t <|> spacedKeyword? "let" t))

/-- A function's header is read up to the name, and then up to the opening parenthesis. -/
theorem function?_eq_head (declared : Text) (isAsync : Bool) (t : Text) :
    function? declared isAsync t = (functionHead? t).bind fun (isGenerator, name, text) =>
      (Text.follow? "(" (Text.trimStart text)).map fun rest =>
        ⟨declared, name, isAsync, .function isGenerator, rest⟩ := by
  unfold function? functionHead?
  cases keyword? "function" t with
  | none => rfl
  | some text =>
    dsimp only [Option.bind_eq_bind, Option.bind_some]
    cases run? isFunctionNameChar (star text).2 with
    | none => rfl
    | some parts =>
      dsimp only [Option.bind_some]
      show (Text.follow? "(" (Text.trimStart parts.2)).bind _ =
        (Text.follow? "(" (Text.trimStart parts.2)).map _
      cases Text.follow? "(" (Text.trimStart parts.2) <;> rfl

/-- An arrow function's header is read up to the name, and then the equals sign and what is behind it. -/
theorem arrow?_eq_head (t : Text) :
    arrow? t = (arrowHead? t).bind fun (name, text) =>
      (Text.follow? "=" (Text.trimStart text)).bind fun value =>
        (arrowTail? (Text.trimStart value)).map fun (isAsync, parameters, rest) =>
          ⟨t, name, isAsync, .arrow parameters, rest⟩ := by
  unfold arrow? arrowHead?
  cases (spacedKeyword? "const" t <|> spacedKeyword? "let" t) with
  | none => rfl
  | some text =>
    dsimp only [Option.bind_eq_bind, Option.bind_some]
    cases run? isVariableNameChar text with
    | none => rfl
    | some parts =>
      dsimp only [Option.bind_some]
      cases Text.follow? "=" (Text.trimStart parts.2) with
      | none => rfl
      | some value =>
        dsimp only [Option.bind_some]
        cases arrowTail? (Text.trimStart value) <;> rfl

/-- Up to the name, a function's header does not look over the end of a line. -/
theorem functionHead?_append (ht : IsBreak t) (hr : Anchored r) :
    functionHead? (r ++ t) = (functionHead? r).map fun (isGenerator, name, text) =>
      (isGenerator, name, text ++ t) := by
  have hword : IsWord "function" := by decide
  unfold functionHead?
  rw [keyword?_append_right hword ht hr]
  cases hkeyword : keyword? "function" r with
  | none => rfl
  | some text =>
    dsimp only [Option.bind_eq_bind, Option.bind_some, Option.map_some]
    rw [star_append (hr.keyword? hword hkeyword)]
    dsimp only
    rw [run?_append_right (ht.not_class (by decide))]
    cases run? isFunctionNameChar (star text).2 <;> rfl

/-- Up to the name, an arrow function's header does not look over the end of a line. -/
theorem arrowHead?_append (ht : IsBreak t) (hr : Anchored r) :
    arrowHead? (r ++ t) = (arrowHead? r).map fun (name, text) => (name, text ++ t) := by
  unfold arrowHead?
  rw [spacedKeyword?_append_right (by decide) ht hr,
    spacedKeyword?_append_right (by decide) ht hr]
  cases spacedKeyword? "const" r with
  | some text =>
    show run? isVariableNameChar (text ++ t) = Option.map _ (run? isVariableNameChar text)
    exact run?_append_right (ht.not_class (by decide)) text
  | none =>
    cases spacedKeyword? "let" r with
    | none => rfl
    | some text =>
      show run? isVariableNameChar (text ++ t) = Option.map _ (run? isVariableNameChar text)
      exact run?_append_right (ht.not_class (by decide)) text

/-! ## The rest of a header -/

variable {α β : Type}

/-- What is read without and with a comment: the same in front of it, nothing in either text, or something
that reaches over the place of the comment in the text without one. -/
inductive Abreast (c after : Text) : Option (α × Text) → Option (α × Text) → Prop
  | near (a : α) (r : Text) : Abreast c after (some (a, r ++ after)) (some (a, r ++ (comment c ++ after)))
  | neither : Abreast c after none none
  | past {a : α} {s : Text} (h : s.length ≤ after.length) (new : Option (α × Text)) :
    Abreast c after (some (a, s)) new

/-- Nothing is read with the comment, and without it nothing that ends in front of its place. -/
theorem Abreast.of_none {old : Option (α × Text)} (h : ∀ a s, old = some (a, s) → s.length ≤ after.length) :
    Abreast c after old none := by
  cases old with
  | none => exact .neither
  | some parts => exact .past (h parts.1 parts.2 rfl) none

/-- What is made of the two values does not matter. -/
theorem Abreast.map {old new : Option (α × Text)} (h : Abreast c after old new) (f : α → β) :
    Abreast c after (old.map fun parts => (f parts.1, parts.2))
      (new.map fun parts => (f parts.1, parts.2)) := by
  cases h with
  | near a r => exact .near (f a) r
  | neither => exact .neither
  | past hs new => exact .past hs _

/-- A first reading and a second one in its place. -/
theorem Abreast.or {old new old' new' : Option (α × Text)} (h : Abreast c after old new)
    (h' : Abreast c after old' new') : Abreast c after (old.or old') (new.or new') := by
  cases h with
  | near a r => exact .near a r
  | neither => exact h'
  | past hs new => exact .past hs _

/-- Behind white space, a comment starts with a slash. -/
theorem trimStart_comment (c after : Text) :
    Text.trimStart (comment c ++ after) = '/' :: '/' :: ' ' :: (c ++ after) := by
  unfold comment
  exact trimStart_space (by simp; decide)

/-- Trimming makes no text longer. -/
theorem length_trimStart_le (t : Text) : (Text.trimStart t).length ≤ t.length :=
  List.length_dropWhile_le _ t

/-- A mark behind white space is read in front of the comment; or else it is not read with the comment,
and without it only behind its place. -/
theorem follow?_trimStart (mark : String) (hspace : ∀ c ∈ mark.toList, Alphabet.isSpace c = false)
    {first : Char} (hfirst : mark.toList.head? = some first) (hslash : first ≠ '/') (hafter : IsLineEnd after)
    (c r : Text) :
    (∃ s, Text.follow? mark (Text.trimStart (r ++ after)) = some (s ++ after) ∧
      Text.follow? mark (Text.trimStart (r ++ (comment c ++ after))) = some (s ++ (comment c ++ after))) ∨
    (Text.follow? mark (Text.trimStart (r ++ (comment c ++ after))) = none ∧
      ∀ s, Text.follow? mark (Text.trimStart (r ++ after)) = some s → s.length ≤ after.length) := by
  -- Only white space may be left of the line, and then the mark would have to stand behind it, where the
  -- comment starts with a slash.
  by_cases hr : Text.trimStart r = []
  · right
    rw [trimStart_append_of_nil hr, trimStart_append_of_nil hr, trimStart_comment]
    refine ⟨Text.follow?_of_head? mark hfirst (by simpa using hslash.symm), fun s hs => ?_⟩
    have hle := length_trimStart_le after
    rw [Text.follow?_eq_some_iff.mp hs, List.length_append] at hle
    omega
  · rw [trimStart_append hr, trimStart_append hr,
      follow?_append_right hspace (isBreak_of_isLineEnd hafter),
      follow?_append_right hspace (isBreak_comment c after)]
    cases Text.follow? mark (Text.trimStart r) with
    | none => exact Or.inr ⟨rfl, fun s hs => absurd hs (by simp)⟩
    | some s => exact Or.inl ⟨s, rfl, rfl⟩

/-- What is read behind an arrow that may stand behind white space. -/
theorem abreast_arrow (hafter : IsLineEnd after) (a : α) (r : Text) :
    Abreast c after ((Text.follow? "=>" (Text.trimStart (r ++ after))).map fun rest => (a, rest))
      ((Text.follow? "=>" (Text.trimStart (r ++ (comment c ++ after)))).map fun rest => (a, rest)) := by
  rcases follow?_trimStart "=>" (by simp; decide) rfl (by decide) hafter c r with
    ⟨s, hold, hnew⟩ | ⟨hnew, hold⟩
  · rw [hold, hnew]
    exact .near a s
  · rw [hnew]
    refine .of_none fun b s hs => ?_
    obtain ⟨s', hs', hpair⟩ := Option.map_eq_some_iff.mp hs
    obtain ⟨-, rfl⟩ := Prod.mk.inj hpair
    exact hold s' hs'

/-- What is read behind white space, if nothing starts with a slash. -/
theorem abreast_trimStart (read : Text → Option (α × Text)) (hslash : ∀ t, read ('/' :: t) = none)
    (hshort : ∀ t a s, read t = some (a, s) → s.length ≤ t.length)
    (hread : ∀ r, Abreast c after (read (r ++ after)) (read (r ++ (comment c ++ after)))) (r : Text) :
    Abreast c after (read (Text.trimStart (r ++ after)))
      (read (Text.trimStart (r ++ (comment c ++ after)))) := by
  by_cases hr : Text.trimStart r = []
  · rw [trimStart_append_of_nil hr, trimStart_append_of_nil hr, trimStart_comment, hslash]
    exact .of_none fun a s hs => Nat.le_trans (hshort _ a s hs) (length_trimStart_le after)
  · rw [trimStart_append hr, trimStart_append hr]
    exact hread _

/-- Without a closing parenthesis there are no parameters in parentheses. -/
theorem parameters?_unclosed {p : Text} (hp : ')' ∉ p) : parameters? ('(' :: p) = none := by
  have hdrop := Text.dropWhile_ne_append hp []
  rw [List.append_nil, List.dropWhile_nil] at hdrop
  simp only [parameters?, hdrop]

/-- Parameters that are not closed in a line end behind it. -/
theorem length_le_of_arrowParameters? {p a : Text} (hp : ')' ∉ p)
    (h : arrowParameters? ('(' :: (p ++ after)) = some (a, s)) : s.length ≤ after.length := by
  rw [arrowParameters?_eq] at h
  by_cases hclose : ')' ∈ after
  · obtain ⟨front, back, rfl, hfront⟩ := List.eq_append_cons_of_mem hclose
    rw [← List.append_assoc, parameters?_closed (by simp [hp, hfront]), Option.bind_some] at h
    obtain ⟨rest, hfollow, hpair⟩ := Option.map_eq_some_iff.mp h
    obtain ⟨-, rfl⟩ := Prod.mk.inj hpair
    have hle := length_trimStart_le back
    rw [Text.follow?_eq_some_iff.mp hfollow, List.length_append] at hle
    simp only [List.length_append, List.length_cons]
    omega
  · rw [parameters?_unclosed (by simp [hp, hclose])] at h
    cases h

/-- Parameters that are not closed in a line, nor in a comment behind it, are closed at the same place with
the comment. -/
theorem arrowParameters?_comment_of_none {p : Text} (hp : ')' ∉ p) (hc : ')' ∉ c)
    (hnone : arrowParameters? ('(' :: (p ++ after)) = none) :
    arrowParameters? ('(' :: (p ++ (comment c ++ after))) = none := by
  have hcomment : ')' ∉ comment c := by simpa [comment] using hc
  rw [arrowParameters?_eq] at hnone ⊢
  by_cases hclose : ')' ∈ after
  · obtain ⟨front, back, rfl, hfront⟩ := List.eq_append_cons_of_mem hclose
    have hopen : ')' ∉ p ++ front := by simp [hp, hfront]
    have hopen' : ')' ∉ p ++ (comment c ++ front) := by simp [hp, hcomment, hfront]
    rw [← List.append_assoc, parameters?_closed hopen, Option.bind_some, Option.map_eq_none_iff] at hnone
    rw [← List.append_assoc (comment c), ← List.append_assoc, parameters?_closed hopen', Option.bind_some,
      Option.map_eq_none_iff]
    exact hnone
  · rw [parameters?_unclosed (by simp [hp, hcomment, hclose])]
    rfl

/-- What is read as parameters in parentheses and the arrow behind them. -/
theorem arrowParameters?_abreast_open (hafter : IsLineEnd after) (hc : Harmless c after) (p : Text) :
    Abreast c after (arrowParameters? ('(' :: (p ++ after)))
      (arrowParameters? ('(' :: (p ++ (comment c ++ after)))) := by
  by_cases hp : ')' ∈ p
  · obtain ⟨front, back, rfl, hfront⟩ := List.eq_append_cons_of_mem hp
    rw [arrowParameters?_eq, arrowParameters?_eq, List.append_assoc, List.append_assoc, List.cons_append,
      List.cons_append, parameters?_closed hfront, parameters?_closed hfront]
    exact abreast_arrow hafter front back
  by_cases hclose : ')' ∈ c
  · -- The first closing parenthesis of the comment is followed by no arrow.
    obtain ⟨front, back, rfl, hfront⟩ := List.eq_append_cons_of_mem hclose
    have hopen : ')' ∉ p ++ comment front := by simpa [hp, comment] using hfront
    have hnone : Text.follow? "=>" (Text.trimStart (back ++ after)) = none := by
      have := hc.arrowless front back rfl hfront
      unfold Text.startsWith at this
      rwa [Option.isSome_eq_false_iff, Option.isNone_iff_eq_none] at this
    rw [arrowParameters?_eq ('(' :: (p ++ (comment (front ++ ')' :: back) ++ after))),
      show p ++ (comment (front ++ ')' :: back) ++ after) =
        (p ++ comment front) ++ ')' :: (back ++ after) by simp [comment],
      parameters?_closed hopen, Option.bind_some, hnone]
    exact .of_none fun a s hs => length_le_of_arrowParameters? hp hs
  · cases hread : arrowParameters? ('(' :: (p ++ after)) with
    | none =>
      rw [arrowParameters?_comment_of_none hp hclose hread]
      exact .neither
    | some parts => exact .past (length_le_of_arrowParameters? hp hread) _

/-- Without a parenthesis, the parameters are one bare identifier. -/
theorem parameters?_bare {d : Char} (hd : d ≠ '(') (t : Text) :
    parameters? (d :: t) = if Alphabet.isAsciiLetter d || d = '_' || d = '$' then
      some (d :: t.takeWhile fun e => Alphabet.isWord e || e = '$',
        t.dropWhile fun e => Alphabet.isWord e || e = '$') else none := by
  conv_lhs => unfold parameters?
  split
  · next heq => exact absurd (List.cons.inj heq).1 hd
  · next heq =>
    obtain ⟨rfl, rfl⟩ := List.cons.inj heq
    rfl
  · next heq => cases heq

/-- What is read as the parameters of an arrow function. -/
theorem arrowParameters?_abreast (hafter : IsLineEnd after) (hc : Harmless c after) (r : Text) :
    Abreast c after (arrowParameters? (r ++ after)) (arrowParameters? (r ++ (comment c ++ after))) := by
  have hold := isBreak_of_isLineEnd hafter
  have hnew := isBreak_comment c after
  -- From a line break on, no parameters are read. An open parenthesis may run into the comment, a bare name
  -- ends in front of it.
  cases r with
  | nil =>
    have hnone : ∀ t, IsBreak t → arrowParameters? t = none := by
      intro t ht
      rw [arrowParameters?_eq]
      cases t with
      | nil => rfl
      | cons d t => rcases ht d rfl with rfl | rfl | rfl <;> rfl
    rw [List.nil_append, List.nil_append, hnone _ hold, hnone _ hnew]
    exact .neither
  | cons d p =>
    rw [List.cons_append, List.cons_append]
    by_cases hd : d = '('
    · rw [hd]
      exact arrowParameters?_abreast_open hafter hc p
    · have hclass : ∀ t, IsBreak t → ∀ e ∈ t.head?, (Alphabet.isWord e || e = '$') = false :=
        fun t ht => ht.not_class (by decide)
      obtain ⟨htake, hdrop⟩ := takeWhile_append_right (hclass _ hold) p
      obtain ⟨htake', hdrop'⟩ := takeWhile_append_right (hclass _ hnew) p
      rw [arrowParameters?_eq, arrowParameters?_eq, parameters?_bare hd, parameters?_bare hd, htake, htake',
        hdrop, hdrop']
      split
      · exact abreast_arrow hafter _ _
      · exact .neither

/-- The value of an arrow function's variable: whether it is marked `async`, the parameters, and what
follows the arrow. -/
def value? (t : Text) : Option ((Bool × Text) × Text) :=
  (((Text.follow? "async" t).bind fun text =>
      if atWordEnd text then arrowParameters? (Text.trimStart text) else none).map
    fun parts => ((true, parts.1), parts.2)).or
  ((arrowParameters? t).map fun parts => ((false, parts.1), parts.2))

/-- What stands behind the equals sign is read as a value. -/
theorem arrowTail?_eq_value (t : Text) :
    arrowTail? t = (value? t).map fun parts => (parts.1.1, parts.1.2, parts.2) := by
  have hmark : (keyword? "async" t >>= arrowParameters?) = (Text.follow? "async" t).bind fun text =>
      if atWordEnd text then arrowParameters? (Text.trimStart text) else none := by
    unfold keyword?
    cases Text.follow? "async" t with
    | none => rfl
    | some text =>
      show (if atWordEnd text then some (Text.trimStart text) else none).bind arrowParameters? =
        if atWordEnd text then arrowParameters? (Text.trimStart text) else none
      split <;> rfl
  unfold arrowTail? value?
  rw [hmark]
  cases (Text.follow? "async" t).bind fun text =>
      if atWordEnd text then arrowParameters? (Text.trimStart text) else none with
  | some parts => rfl
  | none => cases arrowParameters? t <;> rfl

/-- A word ends where a line ends. -/
theorem atWordEnd_append (ht : IsBreak t) (r : Text) : atWordEnd (r ++ t) = atWordEnd r := by
  cases r with
  | nil =>
    cases t with
    | nil => rfl
    | cons d t => rcases ht d rfl with rfl | rfl | rfl <;> rfl
  | cons d r => rfl

/-- What is read as the value of an arrow function's variable. -/
theorem value?_abreast (hafter : IsLineEnd after) (hc : Harmless c after) (r : Text) :
    Abreast c after (value? (r ++ after)) (value? (r ++ (comment c ++ after))) := by
  have hold := isBreak_of_isLineEnd hafter
  have hnew := isBreak_comment c after
  have hasync : IsWord "async" := by decide
  have hplain := (arrowParameters?_abreast hafter hc r).map fun parameters => (false, parameters)
  unfold value?
  rw [follow?_append_right hasync.noSpace hold, follow?_append_right hasync.noSpace hnew]
  cases Text.follow? "async" r with
  | none => exact Abreast.neither.or hplain
  | some text =>
    refine Abreast.or ?_ hplain
    dsimp only [Option.map_some, Option.bind_some]
    rw [atWordEnd_append hold, atWordEnd_append hnew]
    split
    · have hmarked := abreast_trimStart arrowParameters? (fun t => rfl)
        (fun t a s hs => by
          obtain ⟨before, behind, rfl⟩ := arrowParameters?_eq_some hs
          simp only [List.length_append]
          omega) (arrowParameters?_abreast hafter hc) text
      exact hmarked.map fun parameters => (true, parameters)
    · exact .neither

/-! ## Headers -/

/-- A header made of what is read. -/
def headerOf (declared : Text) (parts : (Text × Bool × Kind) × Text) : Header :=
  ⟨declared, parts.1.1, parts.1.2.1, parts.1.2.2, parts.2⟩

/-- What is read as a function's header. -/
theorem function?_abreast (hafter : IsLineEnd after) (c : Text) (isAsync : Bool) (hr : Anchored r) :
    ∃ old new, Abreast c after old new ∧
      (∀ declared, function? declared isAsync (r ++ after) = old.map (headerOf declared)) ∧
      ∀ declared, function? declared isAsync (r ++ (comment c ++ after)) = new.map (headerOf declared) := by
  -- Keyword and name end in front of the line break, since the text is anchored; the parenthesis may stand
  -- behind it.
  have hread : ∀ t, IsBreak t → ∀ declared, function? declared isAsync (r ++ t) =
      ((functionHead? r).bind fun (isGenerator, name, text) =>
        (Text.follow? "(" (Text.trimStart (text ++ t))).map fun rest =>
          ((name, isAsync, Kind.function isGenerator), rest)).map (headerOf declared) := by
    intro t ht declared
    rw [function?_eq_head, functionHead?_append ht hr]
    cases functionHead? r with
    | none => rfl
    | some parts =>
      dsimp only [Option.map_some, Option.bind_some]
      cases Text.follow? "(" (Text.trimStart (parts.2.2 ++ t)) <;> rfl
  refine ⟨_, _, ?_, hread after (isBreak_of_isLineEnd hafter),
    hread (comment c ++ after) (isBreak_comment c after)⟩
  cases functionHead? r with
  | none => exact .neither
  | some parts =>
    dsimp only [Option.bind_some]
    -- The parenthesis is found in both texts at one place, or not found with the comment in between.
    rcases follow?_trimStart "(" (by simp; decide) rfl (by decide) hafter c parts.2.2 with
      ⟨s, hold, hnew⟩ | ⟨hnew, hold⟩
    · rw [hold, hnew]
      exact .near _ s
    · rw [hnew]
      refine .of_none fun b s hs => ?_
      obtain ⟨s', hs', hpair⟩ := Option.map_eq_some_iff.mp hs
      obtain ⟨-, rfl⟩ := Prod.mk.inj hpair
      exact hold s' hs'

/-- What is read as an arrow function's header. -/
theorem arrow?_abreast (hafter : IsLineEnd after) (hc : Harmless c after) (hr : Anchored r) :
    ∃ old new, Abreast c after old new ∧ arrow? (r ++ after) = old.map (headerOf (r ++ after)) ∧
      arrow? (r ++ (comment c ++ after)) = new.map (headerOf (r ++ (comment c ++ after))) := by
  -- The name ends in front of the line break, since the text is anchored; the equals sign and the value may
  -- stand behind it.
  have hread : ∀ t, IsBreak t → arrow? (r ++ t) =
      ((arrowHead? r).bind fun (name, text) =>
        (Text.follow? "=" (Text.trimStart (text ++ t))).bind fun text =>
          (value? (Text.trimStart text)).map fun parts =>
            ((name, parts.1.1, Kind.arrow parts.1.2), parts.2)).map (headerOf (r ++ t)) := by
    intro t ht
    rw [arrow?_eq_head, arrowHead?_append ht hr]
    cases arrowHead? r with
    | none => rfl
    | some parts =>
      dsimp only [Option.map_some, Option.bind_some]
      cases Text.follow? "=" (Text.trimStart (parts.2 ++ t)) with
      | none => rfl
      | some text =>
        dsimp only [Option.bind_some]
        rw [arrowTail?_eq_value]
        cases value? (Text.trimStart text) <;> rfl
  have hshort : ∀ t a s, value? t = some (a, s) → s.length ≤ t.length := by
    intro t a s hs
    have htail : arrowTail? t = some (a.1, a.2, s) := by
      rw [arrowTail?_eq_value, hs]
      rfl
    obtain ⟨before, behind, rfl⟩ := arrowTail?_eq_some htail
    simp only [List.length_append]
    omega
  refine ⟨_, _, ?_, hread after (isBreak_of_isLineEnd hafter),
    hread (comment c ++ after) (isBreak_comment c after)⟩
  cases arrowHead? r with
  | none => exact .neither
  | some parts =>
    dsimp only [Option.bind_some]
    -- The equals sign is found in both texts at one place, or not found with the comment in between.
    rcases follow?_trimStart "=" (by simp; decide) rfl (by decide) hafter c parts.2 with
      ⟨s, hold, hnew⟩ | ⟨hnew, hold⟩
    · rw [hold, hnew]
      exact (abreast_trimStart value? (fun t => rfl) hshort (value?_abreast hafter hc) s).map fun a =>
        (parts.1, a.1, Kind.arrow a.2)
    · rw [hnew]
      refine .of_none fun b s hs => ?_
      obtain ⟨text, htext, hs⟩ := Option.bind_eq_some_iff.mp hs
      obtain ⟨⟨a, rest⟩, hvalue, hpair⟩ := Option.map_eq_some_iff.mp hs
      obtain ⟨-, rfl⟩ := Prod.mk.inj hpair
      exact Nat.le_trans (hshort _ a rest hvalue) (Nat.le_trans (length_trimStart_le text) (hold text htext))

/-- What is read as a header in front of the end of a line: with a comment there, the same, but for what
follows; or nothing in either text; or something that reaches over the end of the line. -/
theorem read?_abreast (hafter : IsLineEnd after) (hc : Harmless c after) (hr : Anchored r) :
    ∃ declared old new, Abreast c after old new ∧
      read? (r ++ after) = old.map (headerOf (declared ++ after)) ∧
      read? (r ++ (comment c ++ after)) = new.map (headerOf (declared ++ (comment c ++ after))) := by
  have hexport : IsWord "export" := by decide
  have hasync : IsWord "async" := by decide
  -- What is declared starts behind an `export`, in both texts at the same place.
  obtain ⟨declared, hdeclared, hstart⟩ : ∃ declared, Anchored declared ∧ ∀ t, IsBreak t →
      (spacedKeyword? "export" (r ++ t)).getD (r ++ t) = declared ++ t := by
    cases hread : spacedKeyword? "export" r with
    | none =>
      refine ⟨r, hr, fun t ht => ?_⟩
      rw [spacedKeyword?_append_right hexport ht hr, hread]
      rfl
    | some rest =>
      refine ⟨rest, hr.spacedKeyword? hexport hread, fun t ht => ?_⟩
      rw [spacedKeyword?_append_right hexport ht hr, hread]
      rfl
  have hold := isBreak_of_isLineEnd hafter
  have hnew := isBreak_comment c after
  unfold read?
  dsimp only
  rw [hstart after hold, hstart _ hnew, spacedKeyword?_append_right hasync hold hdeclared,
    spacedKeyword?_append_right hasync hnew hdeclared]
  cases hread : spacedKeyword? "async" declared with
  | some rest =>
    obtain ⟨old, new, habreast, hfunction, hfunction'⟩ :=
      function?_abreast hafter c true (hdeclared.spacedKeyword? hasync hread)
    exact ⟨declared, old, new, habreast, hfunction _, hfunction' _⟩
  | none =>
    obtain ⟨old, new, habreast, hfunction, hfunction'⟩ := function?_abreast hafter c false hdeclared
    obtain ⟨old', new', habreast', harrow, harrow'⟩ := arrow?_abreast hafter hc hdeclared
    refine ⟨declared, old.or old', new.or new', habreast.or habreast', ?_, ?_⟩
    · show (function? _ false _ <|> arrow? _) = _
      rw [hfunction, harrow]
      cases old <;> rfl
    · show (function? _ false _ <|> arrow? _) = _
      rw [hfunction', harrow']
      cases new <;> rfl

end Header

end Graft.Declaration
