import Mathlib.Data.List.Basic
import Graft.Proofs.Text.Cut

/-!
# Lines of a text

What splitting a text into lines does with a text of which the start, or the end, is known: a start
without a line feed stays the start of the first line (`exists_lines_append`), and behind a line feed the
lines are those of the rest (`lines_append`). Lines may be cut off and put together: all lines before
another one have their line feed (`ended_of_linesWithEnds`), and such lines are split off again, whatever
follows them (`linesWithEnds_flatten_append`).
-/

namespace Graft.Text

variable {c : Char} {t head tail front rest line : Text}

/-! ## Lines with their ends -/

/-- The lines with their ends make up the text. -/
theorem flatten_linesWithEnds (t : Text) : (linesWithEnds t).flatten = t := by
  induction t with
  | nil => rfl
  | cons c t ih =>
    rw [linesWithEnds]
    split
    · rw [List.flatten_cons, ih]
      rfl
    · cases hlines : linesWithEnds t with
      | nil =>
        rw [hlines] at ih
        simp [← ih]
      | cons first others =>
        rw [hlines, List.flatten_cons] at ih
        simp [← ih]

/-- A text has lines unless it is empty. -/
theorem linesWithEnds_ne_nil (h : t ≠ []) : linesWithEnds t ≠ [] := by
  intro hnil
  have := flatten_linesWithEnds t
  rw [hnil] at this
  exact h this.symm

/-- Behind a line feed the lines are those of the rest. -/
theorem linesWithEnds_append (front rest : Text) :
    linesWithEnds (front ++ '\n' :: rest) = linesWithEnds (front ++ ['\n']) ++ linesWithEnds rest := by
  induction front with
  | nil => rfl
  | cons c front ih =>
    rw [List.cons_append, List.cons_append, linesWithEnds, linesWithEnds, ih]
    split
    · rfl
    · -- The first line is in front of the line feed, or ends with it.
      cases hlines : linesWithEnds (front ++ ['\n']) with
      | nil => exact absurd hlines (linesWithEnds_ne_nil (by simp))
      | cons first others => rfl

/-- A text without a line feed is one line. -/
theorem linesWithEnds_eq_singleton (hne : line ≠ []) (h : '\n' ∉ line) : linesWithEnds line = [line] := by
  induction line with
  | nil => exact absurd rfl hne
  | cons c line ih =>
    rw [List.mem_cons, not_or] at h
    rw [linesWithEnds, if_neg (Ne.symm h.1)]
    cases line with
    | nil => rfl
    | cons d line => rw [ih (List.cons_ne_nil d line) h.2]

/-- A start without a line feed stays the start of the first line. -/
theorem exists_linesWithEnds_append (hne : head ≠ []) (h : '\n' ∉ head) (tail : Text) :
    ∃ more others, linesWithEnds (head ++ tail) = (head ++ more) :: others ∧
      tail = more ++ others.flatten := by
  have hlines : ∃ more others, linesWithEnds (head ++ tail) = (head ++ more) :: others := by
    induction head with
    | nil => exact absurd rfl hne
    | cons c head ih =>
      have hc : c ≠ '\n' := fun hc => h (hc ▸ List.mem_cons_self)
      rw [List.cons_append, linesWithEnds, if_neg hc]
      -- Behind the last character of the start, the first line goes on with what the rest has.
      cases head with
      | nil =>
        rw [List.nil_append]
        cases linesWithEnds tail with
        | nil => exact ⟨[], [], rfl⟩
        | cons first others => exact ⟨first, others, rfl⟩
      | cons d head =>
        obtain ⟨more, others, hlines⟩ := ih (by simp) fun hmem => h (List.mem_cons_of_mem c hmem)
        rw [hlines]
        exact ⟨more, others, rfl⟩
  obtain ⟨more, others, hlines⟩ := hlines
  have htext := flatten_linesWithEnds (head ++ tail)
  rw [hlines, List.flatten_cons, List.append_assoc] at htext
  exact ⟨more, others, hlines, (List.append_cancel_left htext).symm⟩

/-- A line with its line feed. -/
def Ended (line : Text) : Prop := ∃ front, '\n' ∉ front ∧ line = front ++ ['\n']

/-- A line with its line feed is the first line, whatever follows it. -/
theorem linesWithEnds_ended_append (h : Ended line) (rest : Text) :
    linesWithEnds (line ++ rest) = line :: linesWithEnds rest := by
  obtain ⟨front, hfront, rfl⟩ := h
  induction front with
  | nil => rfl
  | cons c front ih =>
    have hc : c ≠ '\n' := fun hc => hfront (hc ▸ List.mem_cons_self)
    have hrest := ih fun hmem => hfront (List.mem_cons_of_mem c hmem)
    rw [List.cons_append, List.cons_append, linesWithEnds, if_neg hc, hrest]

/-- Lines with their line feeds are split off again, whatever follows them. -/
theorem linesWithEnds_flatten_append {lines : List Text} (h : ∀ line ∈ lines, Ended line) (rest : Text) :
    linesWithEnds (lines.flatten ++ rest) = lines ++ linesWithEnds rest := by
  induction lines with
  | nil => rfl
  | cons line lines ih =>
    have hline := h line List.mem_cons_self
    have hlines := ih fun other hmem => h other (List.mem_cons_of_mem line hmem)
    rw [List.flatten_cons, List.append_assoc, linesWithEnds_ended_append hline, hlines, List.cons_append]

/-- The lines behind the first one are those of their text, and if there are any, the first line has its
line feed. -/
theorem of_linesWithEnds_eq_cons {lines : List Text} (h : linesWithEnds t = line :: lines) :
    linesWithEnds lines.flatten = lines ∧ (lines ≠ [] → Ended line) := by
  -- The induction is on the characters: a line feed ends a line of its own, any other character goes to the
  -- front of the first line.
  induction t generalizing line with
  | nil => cases h
  | cons c t ih =>
    rw [linesWithEnds] at h
    split at h
    · next hc =>
      cases h
      rw [flatten_linesWithEnds, hc]
      exact ⟨rfl, fun _ => ⟨[], List.not_mem_nil, rfl⟩⟩
    · next hc =>
      cases hlines : linesWithEnds t with
      | nil =>
        rw [hlines] at h
        cases h
        exact ⟨rfl, fun hne => absurd rfl hne⟩
      | cons first others =>
        rw [hlines] at h
        cases h
        obtain ⟨hothers, hended⟩ := ih hlines
        refine ⟨hothers, fun hne => ?_⟩
        obtain ⟨front, hfront, rfl⟩ := hended hne
        exact ⟨c :: front, List.not_mem_cons_of_ne_of_not_mem (Ne.symm hc) hfront, rfl⟩

/-- If a text has more lines behind some, these have their line feeds. -/
theorem ended_of_linesWithEnds {lines more : List Text} (h : linesWithEnds t = lines ++ more)
    (hne : more ≠ []) : ∀ line ∈ lines, Ended line := by
  induction lines generalizing t with
  | nil => exact fun line hline => absurd hline List.not_mem_nil
  | cons first lines ih =>
    obtain ⟨hrest, hfirst⟩ := of_linesWithEnds_eq_cons h
    intro line hline
    rcases List.mem_cons.mp hline with rfl | hline
    · exact hfirst (by simp [hne])
    · exact ih hrest line hline

/-- What follows some lines of a text is split into the lines behind them. -/
theorem linesWithEnds_flatten_of {lines more : List Text} (h : linesWithEnds t = lines ++ more) :
    linesWithEnds more.flatten = more := by
  induction lines generalizing t with
  | nil =>
    rw [List.nil_append] at h
    rw [← h, flatten_linesWithEnds]
  | cons first lines ih => exact ih (of_linesWithEnds_eq_cons h).1

/-! ## Lines without their ends -/

/-- What is cut off at the end of a line is a line end, if anything. -/
theorem withoutLineEnd_append (line : Text) :
    ∃ cut, line = withoutLineEnd line ++ cut ∧ (cut = [] ∨ cut = ['\n'] ∨ cut = ['\r', '\n']) := by
  unfold withoutLineEnd
  split
  · next front hline =>
    have := congrArg List.reverse hline
    exact ⟨['\r', '\n'], by simpa using this, Or.inr (Or.inr rfl)⟩
  · next front _ hline =>
    have := congrArg List.reverse hline
    exact ⟨['\n'], by simpa using this, Or.inr (Or.inl rfl)⟩
  · exact ⟨[], by simp, Or.inl rfl⟩

/-- A start that ends like no line end stays the start of the line. -/
theorem exists_withoutLineEnd_append (hne : head ≠ [])
    (hlast : ∀ c ∈ head.getLast?, c ≠ '\n' ∧ c ≠ '\r') (more : Text) :
    ∃ kept, withoutLineEnd (head ++ more) = head ++ kept ∧ kept <+: more := by
  obtain ⟨cut, hcut, hends⟩ := withoutLineEnd_append (head ++ more)
  generalize withoutLineEnd (head ++ more) = line at hcut ⊢
  have hlast' := hlast _ (List.getLast?_eq_some_getLast hne)
  rcases List.append_eq_append_iff.mp hcut with ⟨x, hline, hmore⟩ | ⟨x, hhead, hx⟩
  · exact ⟨x, hline, cut, hmore.symm⟩
  · -- Had the cut reached into the start, the start would end with what is cut off.
    rcases List.eq_nil_or_concat x with rfl | ⟨x, c, rfl⟩
    · exact ⟨[], by simpa using hhead.symm, List.nil_prefix⟩
    · have hc : c ∈ cut := by simp [hx]
      have hgetLast : head.getLast hne = c := by simp [hhead]
      rw [hgetLast] at hlast'
      rcases hends with rfl | rfl | rfl
      · cases hc
      · exact absurd (List.mem_singleton.mp hc) hlast'.1
      · rcases List.mem_cons.mp hc with rfl | hc
        · exact absurd rfl hlast'.2
        · exact absurd (List.mem_singleton.mp hc) hlast'.1

/-- Of a line without carriage returns, the line feed is cut off. -/
theorem withoutLineEnd_lineFeed (h : '\r' ∉ line) : withoutLineEnd (line ++ ['\n']) = line := by
  unfold withoutLineEnd
  rw [List.reverse_append, List.reverse_singleton, List.singleton_append]
  split
  · next front hline =>
    have hmem : '\r' ∈ line.reverse := by simp [(List.cons.inj hline).2]
    exact absurd (List.mem_reverse.mp hmem) h
  · next front _ hline => rw [← (List.cons.inj hline).2, List.reverse_reverse]
  · next hno => exact absurd rfl (hno line.reverse)

/-- A text without line breaks is one line. -/
theorem lines_eq_singleton (hne : line ≠ []) (h : ∀ c ∈ line, c ≠ '\n' ∧ c ≠ '\r') : lines line = [line] := by
  obtain ⟨kept, hkept, hnil⟩ := exists_withoutLineEnd_append hne
    (fun c hc => h c (List.mem_of_getLast? hc)) []
  rw [List.prefix_nil.mp hnil, List.append_nil] at hkept
  rw [lines, linesWithEnds_eq_singleton hne fun hmem => (h _ hmem).1 rfl, List.map_singleton, hkept]

/-- Behind a line feed the lines are those of the rest. -/
theorem lines_append (front rest : Text) :
    lines (front ++ '\n' :: rest) = lines (front ++ ['\n']) ++ lines rest := by
  unfold lines
  rw [linesWithEnds_append, List.map_append]

/-- A text has lines unless it is empty. -/
theorem lines_ne_nil (h : t ≠ []) : lines t ≠ [] := fun hnil =>
  linesWithEnds_ne_nil h (List.map_eq_nil_iff.mp hnil)

/-- A start without a line feed that ends like no line end stays the start of the first line, and what
else is in the lines is in the rest of the text. -/
theorem exists_lines_append (hne : head ≠ []) (h : '\n' ∉ head) (hlast : ∀ c ∈ head.getLast?, c ≠ '\r')
    (tail : Text) :
    ∃ more others, lines (head ++ tail) = (head ++ more) :: others ∧
      (∀ c ∈ more, c ∈ tail) ∧ ∀ line ∈ others, ∀ c ∈ line, c ∈ tail := by
  obtain ⟨more, others, hlines, htail⟩ := exists_linesWithEnds_append hne h tail
  have hends : ∀ c ∈ head.getLast?, c ≠ '\n' ∧ c ≠ '\r' := fun c hc =>
    ⟨fun heq => h (heq ▸ List.mem_of_getLast? hc), hlast c hc⟩
  obtain ⟨kept, hkept, hkeeps⟩ := exists_withoutLineEnd_append hne hends more
  refine ⟨kept, others.map withoutLineEnd, ?_, fun c hc => ?_, fun line hline c hc => ?_⟩
  · rw [lines, hlines, List.map_cons, hkept]
  · rw [htail]
    exact List.mem_append_left _ (hkeeps.subset hc)
  · obtain ⟨whole, hwhole, rfl⟩ := List.mem_map.mp hline
    obtain ⟨cut, hcut, -⟩ := withoutLineEnd_append whole
    rw [htail]
    refine List.mem_append_right _ (List.mem_flatten.mpr ⟨whole, hwhole, ?_⟩)
    rw [hcut]
    exact List.mem_append_left cut hc

/-! ## Joining -/

/-- A separator stands between the first piece and the others. -/
theorem joinWith_cons_cons (separator piece second : Text) (pieces : List Text) :
    joinWith separator (piece :: second :: pieces) =
      piece ++ separator ++ joinWith separator (second :: pieces) := rfl

/-- Two rows of pieces are joined by one more separator. -/
theorem joinWith_append {separator : Text} {pieces others : List Text} (hpieces : pieces ≠ [])
    (hothers : others ≠ []) :
    joinWith separator (pieces ++ others) =
      joinWith separator pieces ++ (separator ++ joinWith separator others) := by
  induction pieces with
  | nil => exact absurd rfl hpieces
  | cons piece pieces ih =>
    cases pieces with
    | nil =>
      obtain ⟨first, others, rfl⟩ := List.exists_cons_of_ne_nil hothers
      simp [joinWith]
    | cons second pieces =>
      have hrest := ih (by simp)
      rw [List.cons_append] at hrest
      rw [List.cons_append, List.cons_append, joinWith_cons_cons, hrest, joinWith_cons_cons]
      simp

/-- Joined pieces start with the first one, and what follows it is in the others, or is a separator. -/
theorem exists_joinWith_cons (separator piece : Text) (pieces : List Text) :
    ∃ more, joinWith separator (piece :: pieces) = piece ++ more ∧
      ∀ c ∈ more, c ∈ separator ∨ ∃ p ∈ pieces, c ∈ p := by
  induction pieces generalizing piece with
  | nil => exact ⟨[], by simp [joinWith], fun c hc => absurd hc List.not_mem_nil⟩
  | cons second pieces ih =>
    obtain ⟨more, hmore, hmem⟩ := ih second
    refine ⟨separator ++ (second ++ more), ?_, fun c hc => ?_⟩
    · rw [joinWith_cons_cons, hmore, List.append_assoc]
    · simp only [List.mem_append] at hc
      rcases hc with hc | hc | hc
      · exact Or.inl hc
      · exact Or.inr ⟨second, List.mem_cons_self, hc⟩
      · exact (hmem c hc).imp_right fun ⟨p, hp, hcp⟩ => ⟨p, List.mem_cons_of_mem _ hp, hcp⟩

end Graft.Text
