import Graft.Import
import Graft.Proofs.Text.Front

/-!
# What is read as a named import

A `Spelling` is a named import as it stands in a text: its clause, the white space between its parts and
its quotation marks. Reading a named import takes a spelling off the front of a text, and every spelling
is read, whatever follows it (`Clause.read?_eq_some_iff`).
-/

namespace Graft.Import

variable {t list inside rest : Text}

/-- White space that must be there. -/
structure IsSpacing (t : Text) : Prop where
  /-- There is some. -/
  ne_nil : t ≠ []
  /-- There is nothing else. -/
  space : ∀ c ∈ t, Alphabet.isSpace c = true

/-- One character of white space is enough. -/
theorem isSpacing_singleton {c : Char} (h : Alphabet.isSpace c = true) : IsSpacing [c] :=
  ⟨List.cons_ne_nil c [], List.forall_mem_singleton.mpr h⟩

/-- White space in front of anything else is read off. -/
theorem IsSpacing.spaces? {c : Char} (h : IsSpacing t) (hc : Alphabet.isSpace c = false) (rest : Text) :
    Text.spaces? (t ++ c :: rest) = some (c :: rest) := by
  refine Text.spaces?_append h.ne_nil h.space fun d hd => ?_
  obtain rfl := Option.some.inj hd
  exact hc

/-- A quoted specifier as it stands in a text. -/
structure Quoted where
  specifier : Text
  opening : Char
  closing : Char
  ne_nil : specifier ≠ []
  noQuote : ∀ c ∈ specifier, Alphabet.isQuote c = false
  isOpening : Alphabet.isQuote opening = true
  isClosing : Alphabet.isQuote closing = true

/-- The specifier between its marks. -/
def Quoted.text (q : Quoted) : Text := q.opening :: (q.specifier ++ [q.closing])

/-- A named import as it stands in a text. -/
structure Spelling where
  list : Text
  quoted : Quoted
  afterImport : Text
  afterList : Text
  afterFrom : Text
  list_ne_nil : list ≠ []
  noBrace : '}' ∉ list
  isAfterImport : IsSpacing afterImport
  isAfterList : IsSpacing afterList
  isAfterFrom : IsSpacing afterFrom

namespace Spelling

/-- What the named import says. -/
def clause (s : Spelling) : Clause := ⟨s.list, s.quoted.specifier⟩

/-- What stands between `import` and the specifier. -/
def gap (s : Spelling) : Text :=
  s.afterImport ++ ('{' :: (s.list ++ ('}' :: (s.afterList ++ ("from".toList ++ s.afterFrom)))))

/-- The text of the named import. -/
def text (s : Spelling) : Text := "import".toList ++ (s.gap ++ s.quoted.text)

/-- The parts of a named import in front of a text, one after the other. -/
theorem text_append (s : Spelling) (rest : Text) :
    s.text ++ rest = "import".toList ++ (s.afterImport ++ '{' :: (s.list ++ '}' ::
      (s.afterList ++ ("from".toList ++ (s.afterFrom ++ (s.quoted.text ++ rest)))))) := by
  have hgap : s.gap =
      s.afterImport ++ ('{' :: (s.list ++ ('}' :: (s.afterList ++ ("from".toList ++ s.afterFrom))))) := rfl
  have htext : s.text = "import".toList ++ (s.gap ++ s.quoted.text) := rfl
  rw [htext, hgap]
  simp only [List.append_assoc, List.cons_append]

end Spelling

/-! ## The parts -/

/-- A quoted specifier is read exactly if it stands there. -/
theorem readQuoted?_eq_some_iff :
    readQuoted? t = some (inside, rest) ↔ ∃ q : Quoted, q.specifier = inside ∧ t = q.text ++ rest := by
  constructor
  · intro h
    cases t with
    | nil => cases h
    | cons o t =>
      rw [readQuoted?] at h
      -- The specifier is what stands before the first quotation mark, of whichever kind it is.
      have hcut := List.takeWhile_append_dropWhile (p := fun c => !Alphabet.isQuote c) (l := t)
      have hclosing := List.head?_dropWhile_not (fun c => !Alphabet.isQuote c) t
      cases hdrop : t.dropWhile fun c => !Alphabet.isQuote c with
      | nil =>
        rw [hdrop] at h
        cases h
      | cons c tail =>
        rw [hdrop] at h hcut hclosing
        simp only at h
        split at h
        · next hmarks =>
          cases h
          obtain ⟨ho, hne⟩ := Bool.and_eq_true_iff.mp hmarks
          refine ⟨⟨_, o, c, by simpa using hne, fun d hd => ?_, ho, by simpa using hclosing⟩, rfl, ?_⟩
          · simpa using List.mem_takeWhile_imp hd
          · simp only [Quoted.text, List.cons_append, List.append_assoc, List.nil_append, hcut]
        · cases h
  · rintro ⟨q, rfl, rfl⟩
    have hinside : ∀ c ∈ q.specifier, (!Alphabet.isQuote c) = true := by simpa using q.noQuote
    have hstop : (!Alphabet.isQuote q.closing) = false := by simp [q.isClosing]
    have htail : q.specifier ++ [q.closing] ++ rest = q.specifier ++ q.closing :: rest := by simp
    rw [Quoted.text, List.cons_append, readQuoted?, htail]
    simp [List.takeWhile_append_of_pos hinside, List.dropWhile_append_of_pos hinside, hstop, q.isOpening,
      q.ne_nil]

/-- A brace list is read exactly if it stands there. -/
theorem readBraces?_eq_some_iff :
    readBraces? t = some (list, rest) ↔
      list ≠ [] ∧ '}' ∉ list ∧ t = '{' :: (list ++ '}' :: rest) := by
  constructor
  · intro h
    unfold readBraces? at h
    split at h
    · next t =>
      -- The list is what stands before the first closing brace.
      simp only at h
      have hcut := List.takeWhile_append_dropWhile (p := fun c => c ≠ '}') (l := t)
      have hbrace := List.head?_dropWhile_not (fun c => c ≠ '}') t
      cases hdrop : t.dropWhile (· ≠ '}') with
      | nil =>
        rw [hdrop] at h
        cases h
      | cons c tail =>
        rw [hdrop] at h hcut hbrace
        simp only at h
        split at h
        · cases h
        · next hne =>
          cases h
          obtain rfl : c = '}' := by simpa using hbrace
          refine ⟨by simpa using hne, fun hmem => ?_, by rw [hcut]⟩
          simpa using List.mem_takeWhile_imp hmem
    · cases h
  · rintro ⟨hne, hbrace, rfl⟩
    unfold readBraces?
    simp only
    rw [Text.dropWhile_ne_append hbrace, Text.takeWhile_ne_append hbrace]
    simp [hne]

/-! ## The whole -/

/-- A named import is read exactly if it stands there. -/
theorem Clause.read?_eq_some_iff {clause : Clause} :
    Clause.read? t = some (clause, rest) ↔ ∃ s : Spelling, s.clause = clause ∧ t = s.text ++ rest := by
  constructor
  · intro h
    unfold Clause.read? at h
    simp only [Option.bind_eq_bind, Option.bind_eq_some_iff] at h
    obtain ⟨t₁, himport, t₂, hspace₁, ⟨list, t₃⟩, hlist, t₄, hspace₂, t₅, hfrom, t₆, hspace₃,
      ⟨specifier, t₇⟩, hquoted, hclause⟩ := h
    cases hclause
    obtain rfl := Text.follow?_eq_some_iff.mp himport
    obtain ⟨first, rfl, hne₁, hfirst⟩ := Text.spaces?_eq_some hspace₁
    obtain ⟨hne, hbrace, rfl⟩ := readBraces?_eq_some_iff.mp hlist
    obtain ⟨second, rfl, hne₂, hsecond⟩ := Text.spaces?_eq_some hspace₂
    obtain rfl := Text.follow?_eq_some_iff.mp hfrom
    obtain ⟨third, rfl, hne₃, hthird⟩ := Text.spaces?_eq_some hspace₃
    obtain ⟨q, rfl, rfl⟩ := readQuoted?_eq_some_iff.mp hquoted
    refine ⟨⟨list, q, first, second, third, hne, hbrace, ⟨hne₁, hfirst⟩, ⟨hne₂, hsecond⟩,
      ⟨hne₃, hthird⟩⟩, rfl, ?_⟩
    rw [Spelling.text_append]
  · rintro ⟨s, rfl, rfl⟩
    have hmark : Alphabet.isSpace s.quoted.opening = false := by
      have hquote := s.quoted.isOpening
      rw [Alphabet.isQuote, Bool.or_eq_true, decide_eq_true_eq, decide_eq_true_eq] at hquote
      rcases hquote with h | h <;> rw [h] <;> decide
    -- Each part is read off the front, whatever follows it.
    have hafterImport : ∀ u, Text.spaces? (s.afterImport ++ '{' :: u) = some ('{' :: u) := fun u =>
      s.isAfterImport.spaces? (by decide) u
    have hlist : ∀ u, readBraces? ('{' :: (s.list ++ '}' :: u)) = some (s.list, u) := fun u =>
      readBraces?_eq_some_iff.mpr ⟨s.list_ne_nil, s.noBrace, rfl⟩
    have hafterList : ∀ u, Text.spaces? (s.afterList ++ ("from".toList ++ u)) =
        some ("from".toList ++ u) := fun u =>
      s.isAfterList.spaces? (by decide : Alphabet.isSpace 'f' = false) _
    have hafterFrom : Text.spaces? (s.afterFrom ++ (s.quoted.text ++ rest)) =
        some (s.quoted.text ++ rest) :=
      s.isAfterFrom.spaces? hmark _
    have hquoted : readQuoted? (s.quoted.text ++ rest) = some (s.quoted.specifier, rest) :=
      readQuoted?_eq_some_iff.mpr ⟨s.quoted, rfl, rfl⟩
    rw [s.text_append, Clause.read?]
    simp only [Option.bind_eq_bind, Text.follow?_append, Option.bind_some, hafterImport, hlist, hafterList,
      hafterFrom, hquoted]
    rfl

end Graft.Import
