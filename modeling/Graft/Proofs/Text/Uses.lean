import Graft.Proofs.Text.Lexeme

/-!
# The free uses in a text

Resolving a text replaces whole runs of identifier characters that do not follow a dot. `usesFrom` lists
these runs, whatever is said of them, so that the runs that are replaced can be counted and compared.
A text that was resolved has only uses of which nothing is said, if that holds of all that was put in
(`mem_usesFrom_resolveFrom`).
-/

namespace Graft.Lexeme

variable {α β : Type} (char : α → Char)

/-- The characters of a lexeme. -/
def text : Lexeme α → List α
  | .word run => run
  | .mark a => [a]

/-- A text cut into maximal runs of identifier characters and single other characters. -/
structure IsSplit (t : List α) (lexemes : List (Lexeme α)) : Prop where
  text : lexemes.flatMap Lexeme.text = t
  word : ∀ run, .word run ∈ lexemes → run ≠ [] ∧ ∀ a ∈ run, IsLetter char a
  mark : ∀ a, .mark a ∈ lexemes → ¬ IsLetter char a
  /-- No run goes on in the next lexeme. -/
  maximal : ∀ front run run' back, lexemes ≠ front ++ .word run :: .word run' :: back

/-- The runs among lexemes that do not follow a dot; `afterDot` tells whether one stands before the first
lexeme. -/
def freeRuns : (afterDot : Bool) → List (Lexeme α) → List (List α)
  | _, [] => []
  | afterDot, .word run :: rest => (if afterDot then [] else [run]) ++ freeRuns false rest
  | _, .mark a :: rest => freeRuns (char a = '.') rest

/-- The free uses in a text, where a dot may stand before it. -/
def usesFrom (afterDot : Bool) (t : List α) : List (List α) := freeRuns char afterDot (split char t)

variable {char} {ρ : List α → Option (List α)} {d : Bool} {a : α} {t u run : List α}

/-- The lexemes of a text are a way to cut it. -/
theorem isSplit_split (t : List α) : IsSplit char t (split char t) := by
  -- The induction takes off a mark, or a run as a whole, which cannot be followed by another run.
  induction t using text_induction char with
  | nil => exact ⟨rfl, by simp [split], by simp [split], by simp [split]⟩
  | mark a t ha ih =>
    rw [split_mark ha]
    refine ⟨congrArg (a :: ·) ih.text, fun run hrun => ih.word run ?_, fun b hb => ?_, ?_⟩
    · simpa using hrun
    · rcases List.mem_cons.mp hb with hb | hb
      · rwa [Lexeme.mark.inj hb]
      · exact ih.mark b hb
    · intro front run run' back heq
      cases front with
      | nil => cases heq
      | cons l front => exact ih.maximal front run run' back (List.cons.inj heq).2
  | word run t hne hrun ht ih =>
    rw [split_run hne hrun ht]
    refine ⟨congrArg (run ++ ·) ih.text, fun run' hrun' => ?_, fun b hb => ih.mark b ?_, ?_⟩
    · rcases List.mem_cons.mp hrun' with heq | hrun'
      · rw [Lexeme.word.inj heq]
        exact ⟨hne, hrun⟩
      · exact ih.word run' hrun'
    · simpa using hb
    · intro front first second back heq
      cases front with
      | nil => exact split_ne_word ht second back (List.cons.inj heq).2
      | cons l front => exact ih.maximal front first second back (List.cons.inj heq).2

/-! ## Piece by piece -/

/-- A mark is no use, and the next run is free unless the mark is a dot. -/
theorem usesFrom_mark (ha : ¬ IsLetter char a) (d : Bool) (t : List α) :
    usesFrom char d (a :: t) = usesFrom char (char a = '.') t := by
  rw [usesFrom, split_mark ha, freeRuns, usesFrom]

/-- A maximal run is a use unless it follows a dot. -/
theorem usesFrom_run (hne : run ≠ []) (hrun : ∀ a ∈ run, IsLetter char a) (ht : StartsApart char t)
    (d : Bool) : usesFrom char d (run ++ t) = (if d then [] else [run]) ++ usesFrom char false t := by
  rw [usesFrom, split_run hne hrun ht, freeRuns, usesFrom]

/-- Before a text that does not start with a run, it does not matter whether a dot stands there. -/
theorem usesFrom_of_startsApart (ht : StartsApart char t) (d : Bool) :
    usesFrom char d t = usesFrom char false t := by
  cases t with
  | nil => rfl
  | cons a t =>
    have ha : ¬ IsLetter char a := by simpa using ht
    rw [usesFrom_mark ha, usesFrom_mark ha]

/-- A text may be cut before a character that belongs to no run. -/
theorem usesFrom_append (hu : StartsApart char u) (d : Bool) (t : List α) :
    usesFrom char d (t ++ u) = usesFrom char d t ++ usesFrom char false u := by
  induction t using text_induction char generalizing d with
  | nil => exact usesFrom_of_startsApart hu d
  | mark a t ha ih => rw [List.cons_append, usesFrom_mark ha, usesFrom_mark ha, ih]
  | word run t hne hrun ht ih =>
    have htu : StartsApart char (t ++ u) := by
      cases t with
      | nil => exact hu
      | cons b t => simpa using ht
    rw [List.append_assoc, usesFrom_run hne hrun htu, usesFrom_run hne hrun ht, ih, List.append_assoc]

/-- A free use between two texts is among the uses. -/
theorem IsUse.mem_usesFrom (h : IsUse char t run u) (hd : t = [] → d = false) :
    run ∈ usesFrom char d (t ++ (run ++ u)) := by
  have hlast := h.before
  induction t using text_induction char generalizing d with
  | nil =>
    rw [List.nil_append, usesFrom_run h.ne_nil h.letters h.after, hd rfl]
    simp
  | mark a t ha ih =>
    rw [List.cons_append, usesFrom_mark ha]
    -- If the mark is the last character before the use, it is no dot.
    have hend : EndsApart char t ∧ (t = [] → decide (char a = '.') = false) := by
      by_cases hempty : t = []
      · subst hempty
        simpa [EndsApart, ha] using hlast
      · rw [EndsApart, List.getLast?_cons_of_ne_nil hempty] at hlast
        exact ⟨hlast, fun hnil => absurd hnil hempty⟩
    exact ih ⟨hend.1, h.ne_nil, h.letters, h.after⟩ hend.2 hend.1
  | word first t hne hfirst ht ih =>
    have hempty : t ≠ [] := by
      rintro rfl
      rw [List.append_nil] at hlast
      exact (hlast _ (List.getLast?_eq_some_getLast hne)).1 (hfirst _ (List.getLast_mem hne))
    rw [EndsApart, List.getLast?_append_of_ne_nil _ hempty] at hlast
    have hstart : StartsApart char (t ++ (run ++ u)) := by
      rw [StartsApart, List.head?_append_of_ne_nil _ hempty]
      exact ht
    rw [List.append_assoc, usesFrom_run hne hfirst hstart]
    exact List.mem_append_right _ (ih ⟨hlast, h.ne_nil, h.letters, h.after⟩ (fun _ => rfl) hlast)

/-! ## Uses of a resolved text -/

/-- Of the uses in a resolved text nothing is said, if nothing is said of those in what was put in. -/
theorem mem_usesFrom_resolveFrom
    (h : ∀ run r, ρ run = some r → ∀ use ∈ usesFrom char false r, ρ use = none) :
    ∀ use ∈ usesFrom char d (resolveFrom char ρ d t), ρ use = none := by
  induction t using text_induction char generalizing d with
  | nil => exact fun use huse => absurd huse List.not_mem_nil
  | mark a t ha ih =>
    rw [resolveFrom_mark ha, usesFrom_mark ha]
    exact ih
  | word run t hne hrun ht ih =>
    have hstart : StartsApart char (resolveFrom char ρ false t) := resolve_startsApart ht
    rw [resolveFrom_run hne hrun ht]
    cases d with
    | true =>
      rw [if_pos rfl, usesFrom_run hne hrun hstart, if_pos rfl, List.nil_append]
      exact ih
    | false =>
      -- What was put in ends where the run ended, and so its uses are counted apart from the rest.
      rw [if_neg Bool.false_ne_true, usesFrom_append hstart]
      refine List.forall_mem_append.mpr ⟨?_, ih⟩
      cases hr : ρ run with
      | some r => exact h run r hr
      | none =>
        have hsole : usesFrom char false (run ++ []) = [run] := usesFrom_run hne hrun startsApart_nil _
        rw [List.append_nil] at hsole
        rw [Option.getD_none, hsole]
        exact List.forall_mem_singleton.mpr hr

/-- A text stays as it is if nothing is said of its uses. -/
theorem resolveFrom_eq_self (h : ∀ use ∈ usesFrom char d t, ρ use = none) :
    resolveFrom char ρ d t = t := by
  induction t using text_induction char generalizing d with
  | nil => rfl
  | mark a t ha ih =>
    rw [usesFrom_mark ha] at h
    rw [resolveFrom_mark ha, ih h]
  | word run t hne hrun ht ih =>
    rw [usesFrom_run hne hrun ht] at h
    rw [resolveFrom_run hne hrun ht, ih fun use huse => h use (List.mem_append_right _ huse)]
    cases d with
    | true => rw [if_pos rfl]
    | false => rw [if_neg Bool.false_ne_true, h run (List.mem_append_left _ List.mem_cons_self), Option.getD_none]

/-- The uses are the same for a map that keeps the characters. -/
theorem usesFrom_map {char' : β → Char} (f : α → β) (hchar : ∀ a, char' (f a) = char a) (d : Bool)
    (t : List α) : usesFrom char' d (t.map f) = (usesFrom char d t).map (List.map f) := by
  induction t using text_induction char generalizing d with
  | nil => rfl
  | mark a t ha ih =>
    have ha' : ¬ IsLetter char' (f a) := by rwa [isLetter_map f hchar]
    rw [List.map_cons, usesFrom_mark ha', usesFrom_mark ha, ih, hchar]
  | word run t hne hrun ht ih =>
    have hrun' : ∀ b ∈ run.map f, IsLetter char' b :=
      List.forall_mem_map.mpr fun a ha => (isLetter_map f hchar).mpr (hrun a ha)
    have ht' : StartsApart char' (t.map f) := (startsApart_map f hchar).mpr ht
    rw [List.map_append, usesFrom_run (by simpa using hne) hrun' ht', usesFrom_run hne hrun ht, ih,
      List.map_append]
    cases d <;> rfl

end Graft.Lexeme
