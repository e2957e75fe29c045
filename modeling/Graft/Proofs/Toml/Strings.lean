import Mathlib.Data.List.Basic
import Graft.Proofs.Text.Cut
import Graft.Toml.Quoted
import Graft.Toml.Writer

/-!
# Strings are read as they were written

Whatever the style of a string, reading what was written gives the string and leaves what follows it
(`Quoted.read?_string`), as long as no quotation mark follows. The string may have any characters:
`escape?_read` reads each escape back. On several lines quotation marks stand as they are, but never
three in a row, so that the closing ones can be told apart; `Spells` says which texts between the marks
stand for a string, and how many marks stand right before.
-/

namespace Graft.Toml

variable {c mark : Char} {t value inside rest : Text} {run : Nat}

/-! ## Escapes -/

/-- What stands after a backslash names a character, and is no line end to be passed over. -/
structure Names (body : Text) (c : Char) : Prop where
  escape : ∀ rest, Quoted.escape? (body ++ rest) = some (c, body.length)
  visible : ∀ rest, Quoted.foldLength? (body ++ rest) = none

/-- A line does not end where there is no line break. -/
theorem lineEnd?_cons (hbreak : Alphabet.isLineBreak c = false) (rest : Text) :
    lineEnd? (c :: rest) = none := by
  unfold lineEnd?
  split
  · simp_all [Alphabet.isLineBreak]
  · simp_all [Alphabet.isLineBreak]
  · rfl

/-- A letter, or one of the marks that have an escape, does not end a line. -/
theorem foldLength?_cons (hblank : Alphabet.isBlank c = false) (hbreak : Alphabet.isLineBreak c = false)
    (rest : Text) : Quoted.foldLength? (c :: rest) = none := by
  unfold Quoted.foldLength?
  rw [List.dropWhile_cons_of_neg (by simp [hblank]), lineEnd?_cons hbreak]
  rfl

/-- An escape of one letter. -/
theorem names_letter {letter : Char} (h : Quoted.simpleEscape? letter = some c)
    (hu : letter ≠ 'u' ∧ letter ≠ 'U')
    (hseen : Alphabet.isBlank letter = false ∧ Alphabet.isLineBreak letter = false) :
    Names [letter] c where
  escape rest := by simp [Quoted.escape?, hu.1, hu.2, h]
  visible rest := foldLength?_cons hseen.1 hseen.2 rest

/-- The code point of a control character is read back. -/
theorem value?_upper {n : Nat} (h : n < 0x20 ∨ n = 0x7F) :
    (Hex.upper 4 n).length = 4 ∧ Hex.value? (Hex.upper 4 n) = some n ∧
      Hex.char? n = some (Char.ofNat n) := by
  have hcodes : ∀ n ∈ 0x7F :: List.range 0x20,
      (Hex.upper 4 n).length = 4 ∧ Hex.value? (Hex.upper 4 n) = some n ∧
        Hex.char? n = some (Char.ofNat n) := by
    decide +kernel
  apply hcodes
  rcases h with h | h
  · exact List.mem_cons_of_mem _ (List.mem_range.mpr h)
  · exact h ▸ List.mem_cons_self

/-- An escape by the code point. -/
theorem names_code (h : c.toNat < 0x20 ∨ c.toNat = 0x7F) : Names ('u' :: Hex.upper 4 c.toNat) c where
  escape rest := by
    obtain ⟨hlength, hvalue, hchar⟩ := value?_upper h
    have htake : (Hex.upper 4 c.toNat ++ rest).take 4 = Hex.upper 4 c.toNat :=
      List.take_left' hlength
    have hcode : Quoted.byCode? 4 (Hex.upper 4 c.toNat ++ rest) = some c := by
      unfold Quoted.byCode?
      rw [htake, if_pos hlength, hvalue]
      show Hex.char? c.toNat = some c
      rw [hchar, Char.ofNat_toNat]
    rw [List.cons_append, Quoted.escape?, if_pos rfl, hcode, List.length_cons, hlength]
    rfl
  visible rest := foldLength?_cons (by decide) (by decide) _

/-- An escaped character is a backslash and what names it. -/
theorem escape?_read {isMulti : Bool} {e : Text} (h : escape? isMulti c = some e) :
    ∃ body, e = '\\' :: body ∧ Names body c := by
  -- The branches are those of the escapes, of which the last two name a character by its number or not at
  -- all.
  unfold escape? at h
  split at h
  · next hc =>
    subst hc
    cases h
    exact ⟨['\\'], rfl, names_letter rfl (by decide) (by decide)⟩
  split at h
  · next hc =>
    subst hc
    cases h
    exact ⟨['t'], rfl, names_letter rfl (by decide) (by decide)⟩
  split at h
  · next hc =>
    subst hc
    cases h
    exact ⟨['r'], rfl, names_letter rfl (by decide) (by decide)⟩
  split at h
  · next hc =>
    subst hc
    split at h
    · cases h
    · cases h
      exact ⟨['n'], rfl, names_letter rfl (by decide) (by decide)⟩
  split at h
  · next hc =>
    cases h
    have hchar : c = Char.ofNat 8 := by rw [← hc, Char.ofNat_toNat]
    exact ⟨['b'], rfl, hchar ▸ names_letter rfl (by decide) (by decide)⟩
  split at h
  · next hc =>
    cases h
    have hchar : c = Char.ofNat 12 := by rw [← hc, Char.ofNat_toNat]
    exact ⟨['f'], rfl, hchar ▸ names_letter rfl (by decide) (by decide)⟩
  split at h
  · next hcode =>
    cases h
    exact ⟨_, rfl, names_code (by simpa using hcode)⟩
  · cases h

/-- A character without an escape may stand as it is. -/
theorem plain_of_escape? {isMulti : Bool} (h : escape? isMulti c = none) :
    c ≠ '\\' ∧ ((isMulti = true ∧ c = '\n') ∨ isPlain c = true) := by
  have hbackslash : c ≠ '\\' := by
    rintro rfl
    cases h
  refine ⟨hbackslash, ?_⟩
  by_cases hline : c = '\n'
  · left
    subst hline
    cases isMulti with
    | true => exact ⟨rfl, rfl⟩
    | false => cases h
  · right
    -- Any control character has an escape by its code point, if not one of its own.
    have hcode : ¬ (c.toNat < 0x20 ∨ c.toNat = 0x7F) := by
      intro hcode
      have hcoded : (decide (c.toNat < 0x20) || decide (c.toNat = 0x7F)) = true := by
        simpa using hcode
      unfold escape? at h
      simp only [hbackslash, hline, hcoded, if_false, if_true] at h
      split at h
      · cases h
      split at h
      · cases h
      split at h
      · cases h
      split at h <;> cases h
    unfold isPlain
    simp only [Bool.or_eq_true, Bool.and_eq_true, decide_eq_true_eq]
    omega

/-! ## Strings on one line -/

/-- What an escape covers is passed over. -/
theorem basicFrom?_covered (body rest : Text) :
    Quoted.basicFrom? body.length (body ++ rest) = Quoted.basicFrom? 0 rest := by
  induction body with
  | nil => rfl
  | cons c body ih => exact ih

/-- An escape in a string on one line is read as the character that it names. -/
theorem basicFrom?_escape {body : Text} (h : Names body c) (rest : Text) :
    Quoted.basicFrom? 0 ('\\' :: body ++ rest) =
      (Quoted.basicFrom? 0 rest).map fun (value, tail) => (c :: value, tail) := by
  rw [List.cons_append, Quoted.basicFrom?]
  simp only [Char.reduceEq, if_false, if_true, h.escape rest, basicFrom?_covered]

/-- Any other character in a string on one line is read as itself. -/
theorem basicFrom?_plain (hc : c ≠ '"' ∧ c ≠ '\\') (hplain : isPlain c = true) (rest : Text) :
    Quoted.basicFrom? 0 (c :: rest) =
      (Quoted.basicFrom? 0 rest).map fun (value, tail) => (c :: value, tail) := by
  rw [Quoted.basicFrom?]
  simp only [hc.1, hc.2, hplain, if_false, if_true]

/-- A basic string on one line is read back. -/
theorem basicFrom?_escaped (run : Nat) (t rest : Text) :
    Quoted.basicFrom? 0 (escaped false run t ++ '"' :: rest) = some (t, rest) := by
  -- The induction is on the string. A quotation mark is always escaped on one line, so the run of marks does
  -- not matter.
  induction t generalizing run with
  | nil => rfl
  | cons c t ih =>
    rw [escaped]
    split
    · next hc =>
      have hquote : Names ['"'] '"' := names_letter rfl (by decide) (by decide)
      rw [if_neg (by simp)]
      show Quoted.basicFrom? 0 ('\\' :: ['"'] ++ (escaped false 0 t ++ '"' :: rest)) = _
      rw [basicFrom?_escape hquote, ih 0, hc]
      rfl
    · next hc =>
      cases hescape : escape? false c with
      | some e =>
        obtain ⟨body, rfl, hnames⟩ := escape?_read hescape
        simp only [List.append_assoc]
        rw [basicFrom?_escape hnames, ih 0]
        rfl
      | none =>
        obtain ⟨hbackslash, hplain⟩ := plain_of_escape? hescape
        simp only [List.cons_append]
        rw [basicFrom?_plain ⟨hc, hbackslash⟩ (by simpa using hplain), ih 0]
        rfl

/-- A literal string on one line is read back. -/
theorem literal?_append (h : ∀ c ∈ t, c ≠ '\'' ∧ isPlain c = true) (rest : Text) :
    Quoted.literal? (t ++ '\'' :: rest) = some (t, rest) := by
  induction t with
  | nil => rfl
  | cons c t ih =>
    obtain ⟨hc, hplain⟩ := h c List.mem_cons_self
    rw [List.cons_append, Quoted.literal?, if_neg hc, if_pos hplain,
      ih fun d hd => h d (List.mem_cons_of_mem c hd)]
    rfl

/-! ## Strings on several lines -/

/-- A text between the marks of a string on several lines, and the value that it stands for, where `run`
marks stand right before the text. -/
inductive Spells (mark : Char) (hasEscapes : Bool) : (run : Nat) → (value inside : Text) → Prop
  | nil {run : Nat} : Spells mark hasEscapes run [] []
  | mark {run : Nat} {value inside : Text} (hrun : run < 2)
      (h : Spells mark hasEscapes (run + 1) value inside) :
      Spells mark hasEscapes run (mark :: value) (mark :: inside)
  | plain {run : Nat} {value inside : Text} {c : Char} (hmark : c ≠ mark)
      (hplain : c = '\n' ∨ isPlain c = true) (hbackslash : hasEscapes = true → c ≠ '\\')
      (h : Spells mark hasEscapes 0 value inside) :
      Spells mark hasEscapes run (c :: value) (c :: inside)
  | escape {run : Nat} {value inside : Text} {c : Char} {body : Text} (hescapes : hasEscapes = true)
      (hnames : Names body c) (h : Spells mark hasEscapes 0 value inside) :
      Spells mark hasEscapes run (c :: value) ('\\' :: body ++ inside)

variable {hasEscapes : Bool}

/-- Such a text is a few marks and nothing else, or it has no more than two at its start. -/
theorem Spells.cases_marks (h : Spells mark hasEscapes run value inside) (hmark : mark ≠ '\\')
    (hrun : run ≤ 2) :
    (∃ k, run + k ≤ 2 ∧ value = List.replicate k mark ∧ inside = List.replicate k mark) ∨
      ∀ more, run + ((inside ++ more).takeWhile (· = mark)).length ≤ 2 := by
  -- The induction is on how the text is spelled; all but a mark end the run of marks at once.
  induction h with
  | nil => exact Or.inl ⟨0, hrun, rfl, rfl⟩
  | @mark run value inside hlt h ih =>
    rcases ih hlt with ⟨k, hk, rfl, rfl⟩ | hfew
    · exact Or.inl ⟨k + 1, by omega, rfl, rfl⟩
    · right
      intro more
      have hmore := hfew more
      rw [List.cons_append, List.takeWhile_cons_of_pos (by simp), List.length_cons]
      omega
  | plain hne _ _ _ _ =>
    right
    intro more
    rw [List.cons_append, List.takeWhile_cons_of_neg (by simpa using hne)]
    simpa using hrun
  | escape _ _ _ _ =>
    right
    intro more
    rw [List.cons_append, List.cons_append, List.takeWhile_cons_of_neg (by simpa using hmark.symm)]
    simpa using hrun

/-- The characters that an escape covers are passed over. -/
theorem multiFrom?_covered (body rest : Text) :
    Quoted.multiFrom? mark hasEscapes body.length (body ++ rest) =
      Quoted.multiFrom? mark hasEscapes 0 rest := by
  induction body with
  | nil => rfl
  | cons c body ih => exact ih

/-- The closing marks may have up to two more right before them. -/
theorem multiFrom?_close {k : Nat} (hk : k ≤ 2) (hrest : rest.head? ≠ some mark) :
    Quoted.multiFrom? mark hasEscapes 0 (List.replicate k mark ++ ([mark, mark, mark] ++ rest)) =
      some (List.replicate k mark, rest) := by
  -- The marks are one run of up to five, of which the last three close the string.
  have hall : List.replicate k mark ++ ([mark, mark, mark] ++ rest) =
      mark :: (List.replicate (k + 2) mark ++ rest) := by
    rw [← List.append_assoc, ← List.cons_append]
    congr 1
    show List.replicate k mark ++ List.replicate 3 mark = mark :: List.replicate (k + 2) mark
    rw [← List.replicate_add, ← List.replicate_succ]
  have hcons : mark :: (List.replicate (k + 2) mark ++ rest) = List.replicate (k + 3) mark ++ rest := by
    rw [← List.cons_append, ← List.replicate_succ]
  have htake : ((mark :: (List.replicate (k + 2) mark ++ rest)).takeWhile (· = mark)).length =
      k + 3 := by
    have hstop : rest.takeWhile (· = mark) = [] := by
      cases rest with
      | nil => rfl
      | cons c rest =>
        refine List.takeWhile_cons_of_neg ?_
        rintro hc
        exact hrest (congrArg some (of_decide_eq_true hc))
    rw [hcons, List.takeWhile_append_of_pos (by simp +contextual), hstop]
    simp
  have hdrop : (mark :: (List.replicate (k + 2) mark ++ rest)).drop (3 + k) = rest := by
    rw [hcons]
    exact List.drop_left' (by simp; omega)
  have hextra : min (k + 3 - 3) 2 = k := by omega
  rw [hall, Quoted.multiFrom?]
  simp only [htake, hextra, hdrop]
  exact if_pos (by omega)

/-- A character in a string over several lines is read as itself, unless it starts an escape or the end. -/
theorem multiFrom?_plain (hfew : ((c :: rest).takeWhile (· = mark)).length ≤ 2)
    (hbackslash : hasEscapes = true → c ≠ '\\') (hplain : c = '\n' ∨ isPlain c = true) :
    Quoted.multiFrom? mark hasEscapes 0 (c :: rest) =
      (Quoted.multiFrom? mark hasEscapes 0 rest).map fun (value, tail) => (c :: value, tail) := by
  rw [Quoted.multiFrom?]
  simp only
  rw [if_neg (by omega), if_neg (by simpa using hbackslash), if_pos (by simpa using hplain)]

/-- An escape in a string over several lines is read as the character that it names. -/
theorem multiFrom?_escape {body : Text} (h : Names body c) (hmark : mark ≠ '\\') (rest : Text) :
    Quoted.multiFrom? mark true 0 ('\\' :: body ++ rest) =
      (Quoted.multiFrom? mark true 0 rest).map fun (value, tail) => (c :: value, tail) := by
  have hnone : (('\\' :: (body ++ rest)).takeWhile (· = mark)).length = 0 := by
    rw [List.takeWhile_cons_of_neg (by simpa using hmark.symm)]
    rfl
  rw [List.cons_append, Quoted.multiFrom?]
  simp only [hnone, h.visible, h.escape, multiFrom?_covered]
  rfl

/-- What is spelled between the marks of a string on several lines is read back. -/
theorem Spells.multiFrom? (h : Spells mark hasEscapes run value inside) (hmark : mark ≠ '\\')
    (hplain : isPlain mark = true) (hrun : run ≤ 2) (hrest : rest.head? ≠ some mark) :
    Quoted.multiFrom? mark hasEscapes 0 (inside ++ ([mark, mark, mark] ++ rest)) =
      some (value, rest) := by
  induction h with
  | nil => exact multiFrom?_close (Nat.zero_le 2) hrest
  | @mark run value inside hlt h ih =>
    rcases (Spells.mark hlt h).cases_marks hmark hrun with ⟨k, hk, hvalue, hinside⟩ | hfew
    · -- Nothing but marks is left, so these are taken for a part of the closing ones.
      rw [hvalue, hinside]
      exact multiFrom?_close (by omega) hrest
    · have hmarks := hfew ([mark, mark, mark] ++ rest)
      rw [List.cons_append] at hmarks ⊢
      rw [multiFrom?_plain (by omega) (fun _ => hmark) (Or.inr hplain), ih hlt]
      rfl
  | @plain run value inside c hne hc hbackslash h ih =>
    have hnone : ((c :: (inside ++ ([mark, mark, mark] ++ rest))).takeWhile (· = mark)).length ≤ 2 := by
      rw [List.takeWhile_cons_of_neg (by simpa using hne)]
      exact Nat.zero_le 2
    rw [List.cons_append, multiFrom?_plain hnone hbackslash hc, ih (Nat.zero_le 2)]
    rfl
  | @escape run value inside c body hescapes hnames h ih =>
    subst hescapes
    rw [List.append_assoc, multiFrom?_escape hnames hmark, ih (Nat.zero_le 2)]
    rfl

/-- Plain characters do not end a line. -/
theorem isLineBreak_of_isPlain (h : isPlain c = true) : Alphabet.isLineBreak c = false := by
  unfold Alphabet.isLineBreak
  rw [Bool.or_eq_false_iff, decide_eq_false_iff_not, decide_eq_false_iff_not]
  constructor <;> rintro rfl <;> revert h <;> decide

/-- A string on several lines that has a line end starts on a line of its own; any other one has no line
end after its opening marks. -/
theorem Spells.skipLineEnd (h : Spells mark hasEscapes run value inside) (hplain : isPlain mark = true)
    (rest : Text) :
    (lineEnd? ((if value.contains '\n' then ['\n'] else []) ++ (inside ++ mark :: rest))).getD
        ((if value.contains '\n' then ['\n'] else []) ++ (inside ++ mark :: rest)) =
      inside ++ mark :: rest := by
  split
  · rfl
  · next hline =>
    rw [List.contains_eq_mem, decide_eq_true_eq] at hline
    -- The first character of the spelling is a mark, a backslash, or a character of the string itself.
    have hnone : lineEnd? (inside ++ mark :: rest) = none := by
      cases h with
      | nil => exact lineEnd?_cons (isLineBreak_of_isPlain hplain) _
      | mark _ _ => exact lineEnd?_cons (isLineBreak_of_isPlain hplain) _
      | plain _ hc _ _ =>
        have hc' := hc.resolve_left fun heq => hline (heq ▸ List.mem_cons_self)
        exact lineEnd?_cons (isLineBreak_of_isPlain hc') _
      | escape _ _ _ => exact lineEnd?_cons (by decide) _
    rw [List.nil_append, hnone]
    rfl

/-- The escaped text of a basic string on several lines stands for the string. -/
theorem spells_escaped (run : Nat) (t : Text) : Spells '"' true run t (escaped true run t) := by
  induction t generalizing run with
  | nil => exact .nil
  | cons c t ih =>
    rw [escaped]
    split
    · next hc =>
      subst hc
      simp only [if_true]
      split
      · next hrun => exact .mark hrun (ih (run + 1))
      · have hnames : Names ['"'] '"' := names_letter rfl (by decide) (by decide)
        exact .escape rfl hnames (ih 0)
    · next hc =>
      cases hescape : escape? true c with
      | some e =>
        obtain ⟨body, rfl, hnames⟩ := escape?_read hescape
        exact .escape rfl hnames (ih 0)
      | none =>
        obtain ⟨hbackslash, hplain⟩ := plain_of_escape? hescape
        exact .plain hc (by simpa using hplain) (fun _ => hbackslash) (ih 0)

/-- A run that has begun is no longer than the longest one. -/
theorem Style.le_longestRunFrom (run : Nat) (t : Text) : run ≤ Style.longestRunFrom mark run t := by
  induction t generalizing run with
  | nil => exact Nat.le_refl run
  | cons c t ih =>
    rw [Style.longestRunFrom]
    split
    · exact Nat.le_trans (Nat.le_succ run) (ih (run + 1))
    · exact Nat.le_max_left _ _

/-- A text with no long run of marks stands for itself in a literal string on several lines. -/
theorem spells_literal (hlong : Style.longestRunFrom mark run t ≤ 2)
    (h : ∀ c ∈ t, c = '\n' ∨ isPlain c = true) : Spells mark false run t t := by
  induction t generalizing run with
  | nil => exact .nil
  | cons c t ih =>
    have hrest : ∀ d ∈ t, d = '\n' ∨ isPlain d = true := fun d hd => h d (List.mem_cons_of_mem c hd)
    rw [Style.longestRunFrom] at hlong
    split at hlong
    · next hc =>
      subst hc
      have hbound : run + 1 ≤ 2 := Nat.le_trans (Style.le_longestRunFrom (run + 1) t) hlong
      exact .mark (by omega) (ih hlong hrest)
    · next hc =>
      exact .plain hc (h c List.mem_cons_self) (fun hfalse => by cases hfalse)
        (ih (by omega) hrest)

/-! ## Every style -/

/-- A character that needs no code is a line feed or plain. -/
theorem plain_of_not_isCode (h : Style.isCode c = false) : c = '\n' ∨ isPlain c = true := by
  unfold Style.isCode at h
  unfold isPlain
  by_cases hline : c = '\n'
  · exact Or.inl hline
  · right
    by_cases htab : c = '\t'
    · simp [htab]
    · simp [hline, htab] at h
      simp only [htab, decide_false, Bool.false_or, Bool.and_eq_true, decide_eq_true_eq]
      exact h

/-- What holds of the characters of a string decides its style. -/
theorem styleOf_cases (t : Text) :
    Style.of t = .basic ∨ Style.of t = .multiBasic ∨
    (Style.of t = .literal ∧ ∀ c ∈ t, c ≠ '\'' ∧ isPlain c = true) ∨
    (Style.of t = .multiLiteral ∧ Style.longestRunFrom '\'' 0 t ≤ 2 ∧
      ∀ c ∈ t, c = '\n' ∨ isPlain c = true) := by
  have hplain : t.any Style.isCode = false → ∀ c ∈ t, c = '\n' ∨ isPlain c = true := by
    intro h c hc
    exact plain_of_not_isCode (by simpa using List.any_eq_false.mp h c hc)
  unfold Style.of
  simp only
  -- The branches are those of the style; only the two literal ones say something about the characters.
  split
  · exact Or.inl rfl
  split
  · next h =>
    simp only [Bool.and_eq_true, Bool.not_eq_true', List.contains_eq_mem, decide_eq_false_iff_not] at h
    obtain ⟨⟨hcode, hline⟩, hquote⟩ := h
    refine Or.inr (Or.inr (Or.inl ⟨rfl, ?_⟩))
    intro c hc
    refine ⟨fun heq => hquote (heq ▸ hc), (hplain hcode c hc).resolve_left ?_⟩
    exact fun heq => hline (heq ▸ hc)
  split
  · exact Or.inr (Or.inl rfl)
  split
  · next h =>
    simp only [Bool.and_eq_true, Bool.not_eq_true', decide_eq_true_eq] at h
    exact Or.inr (Or.inr (Or.inr ⟨rfl, h.2, hplain h.1⟩))
  split
  · exact Or.inr (Or.inl rfl)
  · exact Or.inl rfl

/-! ### The opening marks -/

/-- One quotation mark opens a string on one line. -/
theorem read?_basic (h : Text.after? ['"', '"'] t = none) :
    Quoted.read? ('"' :: t) = Quoted.basicFrom? 0 t := by
  have hdouble : Text.follow? "\"\"\"" ('"' :: t) = none := h
  have hsingle : Text.follow? "'''" ('"' :: t) = none := rfl
  unfold Quoted.read?
  rw [hdouble, hsingle]
  rfl

/-- One apostrophe opens a string on one line without escapes. -/
theorem read?_literal (h : Text.after? ['\'', '\''] t = none) :
    Quoted.read? ('\'' :: t) = Quoted.literal? t := by
  have hdouble : Text.follow? "\"\"\"" ('\'' :: t) = none := rfl
  have hsingle : Text.follow? "'''" ('\'' :: t) = none := h
  unfold Quoted.read?
  rw [hdouble, hsingle]
  rfl

/-- Three quotation marks open a string over several lines; a line end right behind them does not count. -/
theorem read?_multiBasic (t : Text) :
    Quoted.read? ('"' :: '"' :: '"' :: t) = Quoted.multiFrom? '"' true 0 ((lineEnd? t).getD t) := rfl

/-- Three apostrophes open a string over several lines without escapes; a line end right behind them does
not count. -/
theorem read?_multiLiteral (t : Text) :
    Quoted.read? ('\'' :: '\'' :: '\'' :: t) =
      Quoted.multiFrom? '\'' false 0 ((lineEnd? t).getD t) := rfl

/-- After the opening mark of a string on one line, two more marks never follow. -/
theorem after?_marks (hinside : inside.head? ≠ some mark) (hrest : rest.head? ≠ some mark) :
    Text.after? [mark, mark] (inside ++ mark :: rest) = none := by
  have hcons : ∀ (c : Char) (t : Text), (c :: t).head? ≠ some mark → mark ≠ c := by
    rintro c t hhead rfl
    exact hhead rfl
  cases inside with
  | nil =>
    cases rest with
    | nil => simp [Text.after?]
    | cons c rest => simp [Text.after?, hcons c rest hrest]
  | cons c inside => simp [Text.after?, hcons c inside hinside]

/-- On one line an escaped text does not start with a quotation mark. -/
theorem head?_escaped (t : Text) : (escaped false 0 t).head? ≠ some '"' := by
  cases t with
  | nil => simp [escaped]
  | cons c t =>
    rw [escaped]
    split
    · simp
    · next hc =>
      cases hescape : escape? false c with
      | some e =>
        obtain ⟨body, rfl, -⟩ := escape?_read hescape
        simp
      | none => simpa using hc

/-- A string is read back as it was written, unless a quotation mark follows. -/
theorem read?_string (t : Text) (hdouble : rest.head? ≠ some '"') (hsingle : rest.head? ≠ some '\'') :
    Quoted.read? (string t ++ rest) = some (t, rest) := by
  unfold string
  -- Each style has its own reader. On one line it must not take its marks for three of them; on several lines
  -- it skips the first line feed.
  rcases styleOf_cases t with hstyle | hstyle | ⟨hstyle, hchars⟩ | ⟨hstyle, hlong, hchars⟩
  · have hnone := after?_marks (head?_escaped t) hdouble
    rw [hstyle]
    show Quoted.read? ('"' :: (escaped false 0 t ++ ['"']) ++ rest) = some (t, rest)
    rw [List.cons_append, List.append_assoc, List.singleton_append, read?_basic hnone]
    exact basicFrom?_escaped 0 t rest
  · have hspells := spells_escaped 0 t
    have hline := hspells.skipLineEnd rfl ('"' :: '"' :: rest)
    rw [hstyle]
    show Quoted.read? (['"', '"', '"'] ++ (if t.contains '\n' then ['\n'] else []) ++
      escaped true 0 t ++ ['"', '"', '"'] ++ rest) = some (t, rest)
    simp only [List.append_assoc, List.cons_append, List.nil_append]
    rw [read?_multiBasic, hline]
    exact hspells.multiFrom? (by decide) rfl (Nat.zero_le 2) hdouble
  · have hhead : t.head? ≠ some '\'' := fun hhead =>
      (hchars '\'' (List.mem_of_mem_head? hhead)).1 rfl
    have hnone := after?_marks hhead hsingle
    rw [hstyle]
    show Quoted.read? ('\'' :: (t ++ ['\'']) ++ rest) = some (t, rest)
    rw [List.cons_append, List.append_assoc, List.singleton_append, read?_literal hnone]
    exact literal?_append hchars rest
  · have hspells := spells_literal hlong hchars
    have hline := hspells.skipLineEnd rfl ('\'' :: '\'' :: rest)
    rw [hstyle]
    show Quoted.read? (['\'', '\'', '\''] ++ (if t.contains '\n' then ['\n'] else []) ++ t ++
      ['\'', '\'', '\''] ++ rest) = some (t, rest)
    simp only [List.append_assoc, List.cons_append, List.nil_append]
    rw [read?_multiLiteral, hline]
    exact hspells.multiFrom? (by decide) rfl (Nat.zero_le 2) hsingle

end Graft.Toml
