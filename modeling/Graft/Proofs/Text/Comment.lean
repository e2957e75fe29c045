import Mathlib.Data.List.Basic
import Graft.Proofs.Text.Cut

/-!
# Line comments

A line comment goes from two slashes to the end of the line. Reading a text from left to right, all that
has to be remembered is whether a comment is open: `endsInComment` says so at the end of a text, and
`significant` lists what stands neither in a comment nor is white space. Texts that differ in words only
end alike (`EndsAlike`): no word has a slash, a line feed or a comma in it.
-/

namespace Graft.Text

/-- Whether a comment is open behind a character, where `inComment` says so of the place before it. -/
def opensComment (inComment : Bool) (c : Char) (rest : Text) : Bool :=
  c ≠ '\n' && (inComment || (c = '/' && rest.head? = some '/'))

/-- Whether a text ends in a line comment, where `inComment` says whether it starts in one. -/
def endsInComment : (inComment : Bool) → Text → Bool
  | inComment, [] => inComment
  | inComment, c :: rest => endsInComment (opensComment inComment c rest) rest

/-- The characters of a text that are neither white space nor in a line comment. -/
def significant : (inComment : Bool) → Text → Text
  | _, [] => []
  | inComment, c :: rest =>
    let inside := opensComment inComment c rest
    if inside || Alphabet.isSpace c then significant inside rest else c :: significant inside rest

/-- A text that ends with a comma or an opening brace. -/
def Opens (t : Text) : Prop := t.getLast? = some ',' ∨ t.getLast? = some '{'

/-- A text whose last significant character is a comma or an opening brace. -/
def Live (t : Text) : Prop := Opens (significant false t)

/-- The last character is looked at. -/
instance (t : Text) : Decidable (Opens t) := inferInstanceAs (Decidable (_ ∨ _))

/-- So is the last significant character. -/
instance (t : Text) : Decidable (Live t) := inferInstanceAs (Decidable (Opens _))

variable {t u v blank : Text} {c : Char} {b : Bool}

/-! ## Reading on -/

/-- What follows a text does not open a comment in it, if it does not start with a slash. -/
theorem opensComment_append (hu : u.head? ≠ some '/') (b : Bool) (c : Char) (t : Text) :
    opensComment b c (t ++ u) = opensComment b c t := by
  unfold opensComment
  cases t with
  | nil => simp [hu]
  | cons d t => rfl

/-- A comment that is open at the end of a text is open at the start of what follows. -/
theorem endsInComment_append (hu : u.head? ≠ some '/') (b : Bool) (t : Text) :
    endsInComment b (t ++ u) = endsInComment (endsInComment b t) u := by
  induction t generalizing b with
  | nil => rfl
  | cons c t ih =>
    rw [List.cons_append, endsInComment, endsInComment, opensComment_append hu, ih]

/-- What is significant in two texts one after the other. -/
theorem significant_append (hu : u.head? ≠ some '/') (b : Bool) (t : Text) :
    significant b (t ++ u) = significant b t ++ significant (endsInComment b t) u := by
  induction t generalizing b with
  | nil => rfl
  | cons c t ih =>
    rw [List.cons_append, significant, significant, endsInComment, opensComment_append hu, ih]
    split
    · rfl
    · rfl

/-- A line feed ends a comment, so only the last line counts. -/
theorem endsInComment_line (b : Bool) (t u : Text) :
    endsInComment b (t ++ '\n' :: u) = endsInComment false u := by
  rw [endsInComment_append (by simp)]
  rfl

/-- White space is not significant. -/
theorem significant_blank (hblank : ∀ c ∈ blank, Alphabet.isSpace c = true) (b : Bool) :
    significant b blank = [] := by
  induction blank generalizing b with
  | nil => rfl
  | cons c blank ih =>
    rw [significant, hblank c List.mem_cons_self]
    simp [ih fun d hd => hblank d (List.mem_cons_of_mem _ hd)]

/-- White space at the start of a text opens no comment. -/
theorem endsInComment_trimStart (t : Text) :
    endsInComment false (trimStart t) = endsInComment false t := by
  unfold trimStart
  induction t with
  | nil => rfl
  | cons c t ih =>
    by_cases hc : Alphabet.isSpace c = true
    · have hslash : c ≠ '/' := by
        rintro rfl
        revert hc
        decide
      rw [List.dropWhile_cons_of_pos hc, ih, endsInComment]
      simp [opensComment, hslash]
    · rw [List.dropWhile_cons_of_neg hc]

/-- A text ends in a comment exactly if two slashes stand in its last line, or it started in one and has
one line only. -/
theorem endsInComment_iff_of (b : Bool) (t : Text) :
    endsInComment b t = true ↔
      (b = true ∧ '\n' ∉ t) ∨ ∃ before after, t = before ++ '/' :: '/' :: after ∧ '\n' ∉ after := by
  induction t generalizing b with
  | nil => simp [endsInComment]
  | cons c t ih =>
    rw [endsInComment, ih]
    constructor
    · rintro (⟨hopens, hline⟩ | ⟨before, after, rfl, hline⟩)
      · -- The comment was open before the character, or it starts there.
        have hc : c ≠ '\n' ∧ (b = true ∨ (c = '/' ∧ t.head? = some '/')) := by
          simpa [opensComment] using hopens
        rcases hc with ⟨hc, hb | ⟨rfl, hslash⟩⟩
        · exact Or.inl ⟨hb, by simp [hc.symm, hline]⟩
        · obtain ⟨after, rfl⟩ := List.head?_eq_some_iff.mp hslash
          exact Or.inr ⟨[], after, rfl, fun hmem => hline (List.mem_cons_of_mem _ hmem)⟩
      · exact Or.inr ⟨c :: before, after, rfl, hline⟩
    · rintro (⟨rfl, hline⟩ | ⟨before, after, htext, hline⟩)
      · have hc : c ≠ '\n' := fun hc => hline (hc ▸ List.mem_cons_self)
        exact Or.inl ⟨by simp [opensComment, hc], fun hmem => hline (List.mem_cons_of_mem _ hmem)⟩
      · cases before with
        | nil =>
          obtain ⟨rfl, rfl⟩ := List.cons.inj htext
          exact Or.inl ⟨by simp [opensComment], by simpa using hline⟩
        | cons d before =>
          obtain ⟨rfl, rfl⟩ := List.cons.inj htext
          exact Or.inr ⟨before, after, rfl, hline⟩

/-- A text ends in a comment exactly if two slashes stand in its last line. -/
theorem endsInComment_iff :
    endsInComment false t = true ↔ ∃ before after, t = before ++ '/' :: '/' :: after ∧ '\n' ∉ after := by
  simp [endsInComment_iff_of]

/-! ## Texts that end alike -/

/-- How a text ends is how its last part ends, unless that is empty. -/
theorem opens_append (ht : t ≠ []) : Opens (u ++ t) ↔ Opens t := by
  unfold Opens
  rw [List.getLast?_append_of_ne_nil _ ht]

/-- Texts of which neither or both start with a slash, end in a comment, have anything significant in
them, and end with a comma or an opening brace as far as that goes, whether they start in a comment or
not. -/
structure EndsAlike (t u : Text) : Prop where
  slash : t.head? = some '/' ↔ u.head? = some '/'
  comment : ∀ b, endsInComment b t = endsInComment b u
  nothing : ∀ b, significant b t = [] ↔ significant b u = []
  opens : ∀ b, Opens (significant b t) ↔ Opens (significant b u)

namespace EndsAlike

/-- A text ends like itself. -/
theorem refl (t : Text) : EndsAlike t t := ⟨Iff.rfl, fun _ => rfl, fun _ => Iff.rfl, fun _ => Iff.rfl⟩

/-- Texts that end like a third one end alike. -/
theorem trans (htu : EndsAlike t u) (huv : EndsAlike u v) : EndsAlike t v where
  slash := htu.slash.trans huv.slash
  comment b := (htu.comment b).trans (huv.comment b)
  nothing b := (htu.nothing b).trans (huv.nothing b)
  opens b := (htu.opens b).trans (huv.opens b)

/-- What is significant behind a row of significant characters decides how the row ends. -/
theorem opens_append_iff (hnothing : t = [] ↔ u = []) (hopens : Opens t ↔ Opens u) {x y : Text}
    (hxy : Opens x ↔ Opens y) : Opens (x ++ t) ↔ Opens (y ++ u) := by
  by_cases ht : t = []
  · rw [ht, hnothing.mp ht, List.append_nil, List.append_nil]
    exact hxy
  · rw [opens_append ht, opens_append fun hu => ht (hnothing.mpr hu)]
    exact hopens

/-- The same character in front of both. -/
theorem cons (h : EndsAlike t u) (c : Char) : EndsAlike (c :: t) (c :: u) := by
  -- Whether a comment starts here only depends on the next character.
  have hinside : ∀ b, opensComment b c t = opensComment b c u := by
    intro b
    unfold opensComment
    rw [decide_eq_decide.mpr h.slash]
  have hfront : ∀ b (v : Text), significant b (c :: v) =
      (if opensComment b c v || Alphabet.isSpace c then [] else [c]) ++
        significant (opensComment b c v) v := by
    intro b v
    rw [significant]
    split
    · rfl
    · rfl
  refine ⟨by simp, fun b => ?_, fun b => ?_, fun b => ?_⟩
  · rw [endsInComment, endsInComment, hinside, h.comment]
  · rw [hfront, hfront, hinside, List.append_eq_nil_iff, List.append_eq_nil_iff, h.nothing]
  · rw [hfront, hfront, hinside]
    exact opens_append_iff (h.nothing _) (h.opens _) Iff.rfl

end EndsAlike

/-- A text of characters that can neither open nor end a comment, and that no member may follow. -/
structure Quiet (t : Text) : Prop where
  ne_nil : t ≠ []
  chars : ∀ c ∈ t, c ≠ '/' ∧ c ≠ ',' ∧ c ≠ '{' ∧ Alphabet.isSpace c = false

namespace Quiet

/-- A quiet text starts with no slash, whatever follows it. -/
theorem head?_append (h : Quiet t) (u : Text) : (t ++ u).head? ≠ some '/' := by
  rw [List.head?_append_of_ne_nil _ h.ne_nil]
  exact fun hslash => (h.chars '/' (List.mem_of_head? hslash)).1 rfl

/-- A quiet text ends with neither a comma nor an opening brace. -/
theorem not_opens (h : Quiet t) : ¬ Opens t := by
  rintro (hlast | hlast)
  · exact (h.chars _ (List.mem_of_getLast? hlast)).2.1 rfl
  · exact (h.chars _ (List.mem_of_getLast? hlast)).2.2.1 rfl

/-- A quiet text leaves a comment open, or opens none. -/
theorem opensComment_eq (hc : c ≠ '/' ∧ c ≠ ',' ∧ c ≠ '{' ∧ Alphabet.isSpace c = false) (b : Bool)
    (rest : Text) : opensComment b c rest = b := by
  have hline : c ≠ '\n' := by
    rintro rfl
    revert hc
    decide
  simp [opensComment, hline, hc.1]

/-- A quiet text in front changes no comment, and is significant unless it stands in one. -/
theorem append_eq (h : ∀ c ∈ t, c ≠ '/' ∧ c ≠ ',' ∧ c ≠ '{' ∧ Alphabet.isSpace c = false) (b : Bool)
    (u : Text) :
    endsInComment b (t ++ u) = endsInComment b u ∧
      significant b (t ++ u) = (if b then [] else t) ++ significant b u := by
  induction t with
  | nil => simp
  | cons c t ih =>
    obtain ⟨hcomment, hsignificant⟩ := ih fun d hd => h d (List.mem_cons_of_mem _ hd)
    have hc := h c List.mem_cons_self
    rw [List.cons_append, endsInComment, significant, opensComment_eq hc, hcomment, hsignificant,
      hc.2.2.2]
    cases b <;> simp

/-- Different quiet texts in front of texts that end alike. -/
theorem endsAlike {q : Text} (ht : Quiet t) (hq : Quiet q) (h : EndsAlike u v) :
    EndsAlike (t ++ u) (q ++ v) := by
  refine ⟨?_, fun b => ?_, fun b => ?_, fun b => ?_⟩
  · exact iff_of_false (ht.head?_append u) (hq.head?_append v)
  · rw [(append_eq ht.chars b u).1, (append_eq hq.chars b v).1, h.comment]
  · rw [(append_eq ht.chars b u).2, (append_eq hq.chars b v).2, List.append_eq_nil_iff,
      List.append_eq_nil_iff, h.nothing]
    cases b with
    | true => exact Iff.rfl
    | false => simp [ht.ne_nil, hq.ne_nil]
  · rw [(append_eq ht.chars b u).2, (append_eq hq.chars b v).2]
    refine EndsAlike.opens_append_iff (h.nothing b) (h.opens b) ?_
    cases b with
    | true => exact Iff.rfl
    | false => exact iff_of_false ht.not_opens hq.not_opens

end Quiet

end Graft.Text
