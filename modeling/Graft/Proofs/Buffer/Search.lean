import Graft.Buffer
import Graft.Proofs.Text.Cut
import Graft.Proofs.Text.Lexeme
import Graft.Proofs.Text.Space

/-!
# Searching for a name

The search goes through a text character by character and jumps over each occurrence of the name,
whether it is free or not. It finds the uses that `Lexeme.resolve` replaces: `filled_stretchesFrom` says
so for a text that comes from one file. A text that comes from several is cut where it changes, and
the search falls into the searches of its parts (`stretchesFrom_append`); its changes before such a
cut add up to the growth of what stands before it (`growthBefore_cut`).
-/

namespace Graft.Buffer

open Alphabet (IsName)
open Lexeme (IsLetter StartsApart EndsApart Apart resolve resolveFrom)

/-- The text that a stretch stands for. -/
def Stretch.text (name : Text) : Stretch → Text
  | .plain c => [c]
  | .occurrence _ _ => name

/-- The text of a stretch when the free occurrence at a position is replaced as `φ` says. -/
def Stretch.filled (name : Text) (φ : Nat → Option Text) : Stretch → Text
  | .plain c => [c]
  | .occurrence start true => (φ start).getD name
  | .occurrence _ false => name

/-- The change that this makes. -/
def Stretch.edit? (name : Text) (φ : Nat → Option Text) : Stretch → Option Edit
  | .occurrence start true =>
    (φ start).map fun r => ⟨start, (Text.byteLength r : Int) - Text.byteLength name⟩
  | _ => none

/-- A stretch stays as it is, or it is a free occurrence that is replaced. -/
theorem Stretch.edit?_cases (name : Text) (φ : Nat → Option Text) (s : Stretch) :
    (s.edit? name φ = none ∧ s.filled name φ = s.text name) ∨
      ∃ start r, s = .occurrence start true ∧ s.filled name φ = r ∧
        s.edit? name φ = some ⟨start, (Text.byteLength r : Int) - Text.byteLength name⟩ := by
  cases s with
  | plain c => exact Or.inl ⟨rfl, rfl⟩
  | occurrence start isFree =>
    cases isFree with
    | false => exact Or.inl ⟨rfl, rfl⟩
    | true =>
      cases hr : φ start with
      | none => exact Or.inl ⟨by simp [edit?, hr], by simp [filled, text, hr]⟩
      | some r => exact Or.inr ⟨start, r, rfl, by simp [filled, hr], by simp [edit?, hr]⟩

/-- A text with the free occurrences of a name replaced as `φ` says, where the text starts at a
position. -/
def fill (name : Text) (φ : Nat → Option Text) (position : Nat) (t : Text) : Text :=
  (stretchesFrom name 0 position none t).flatMap (Stretch.filled name φ)

/-- Says `r` of the name and nothing of other names. -/
def only (name : Text) (r : Option Text) (run : Text) : Option Text := if run = name then r else none

variable {name t u : Text} {φ : Nat → Option Text} {covered position : Nat} {last : Option Char}

/-! ## Occurrences and letters -/

/-- A name may start after a character that ends a text apart. -/
theorem freeBefore_of_endsApart {c : Char} (h : EndsApart id [c]) : freeBefore (some c) = true := by
  have h : ¬ IsLetter id c ∧ id c ≠ '.' := h c (by simp)
  have hc : Alphabet.isIdentifier c = false := by simpa [IsLetter] using h.1
  simpa [freeBefore, hc] using h.2

/-- A name may start after what is no letter and no dot. -/
theorem freeBefore_of_not_dot (hlast : ∀ c ∈ last, ¬ IsLetter id c) (hdot : last ≠ some '.') :
    freeBefore last = true := by
  cases last with
  | none => rfl
  | some c =>
    have hc : c ≠ '.' := by simpa using hdot
    exact freeBefore_of_endsApart (by simpa [EndsApart] using ⟨hlast c rfl, hc⟩)

/-- A name does not start inside a run. -/
theorem freeBefore_letter {c : Char} (h : IsLetter id c) : freeBefore (some c) = false := by
  have h : Alphabet.isIdentifier c = true := h
  simp [freeBefore, h]

/-- A name ends where no run goes on. -/
theorem freeAfter_of_startsApart (h : StartsApart id u) : freeAfter u.head? = true := by
  cases u with
  | nil => rfl
  | cons c u =>
    have hc : Alphabet.isIdentifier c = false := by simpa [IsLetter] using h
    simp [freeAfter, hc]

/-- A name does not end inside a run. -/
theorem freeAfter_letter {c : Char} (h : IsLetter id c) : freeAfter (some c) = false := by
  have h : Alphabet.isIdentifier c = true := h
  simp [freeAfter, h]

/-- A name does not stand at the front of a text that starts with no letter. -/
theorem after?_startsApart (hname : IsName name) (hu : StartsApart id u) :
    Text.after? name u = none := by
  rw [Option.eq_none_iff_forall_ne_some]
  intro rest h
  rw [Text.after?_eq_some_iff] at h
  obtain ⟨c, name', hc⟩ := List.exists_cons_of_ne_nil hname.ne_nil
  subst hc h
  have hc : ¬ IsLetter id c := by simpa using hu
  exact hc (hname.letters c (by simp))

/-- A name at the front of a text that is apart from what follows does not reach into that. -/
theorem after?_append (hname : IsName name) (h : Apart id t u) (hne : t ≠ []) :
    Text.after? name (t ++ u) = (Text.after? name t).map (· ++ u) := by
  cases hat : Text.after? name t with
  | some tail =>
    rw [Text.after?_eq_some_iff] at hat
    rw [hat, List.append_assoc, Option.map_some, Text.after?_eq_some_iff]
  | none =>
    rw [Option.map_none, Option.eq_none_iff_forall_ne_some]
    intro rest hrest
    rw [Text.after?_eq_some_iff, List.append_eq_append_iff] at hrest
    -- If the name stood in the longer text only, a letter would cross the cut.
    rcases hrest with ⟨x, hx, hu⟩ | ⟨y, hy, -⟩
    · -- The name goes beyond the text, or ends with it.
      cases x with
      | nil =>
        rw [List.append_nil] at hx
        have : Text.after? name t = some [] := by
          rw [Text.after?_eq_some_iff, List.append_nil, hx]
        rw [hat] at this
        simp at this
      | cons c x =>
        rcases h with hend | hstart
        · have hlast := hend _ (List.getLast?_eq_some_getLast hne)
          exact hlast.1 (hname.letters _ (by rw [hx]; simp [List.getLast_mem hne]))
        · rw [hu] at hstart
          have hc : ¬ IsLetter id c := by simpa using hstart
          exact hc (hname.letters c (by rw [hx]; simp))
    · have : Text.after? name t = some y := Text.after?_eq_some_iff.mpr hy
      rw [hat] at this
      simp at this

/-- What follows the text does not count for a name at its front. -/
theorem freeAfter_append (hname : IsName name) (h : Apart id t u) {tail : Text}
    (hat : Text.after? name t = some tail) :
    freeAfter (tail ++ u).head? = freeAfter tail.head? := by
  cases tail with
  | cons d tail => rfl
  | nil =>
    -- The text is the name, so it ends with a letter.
    rw [Text.after?_eq_some_iff, List.append_nil] at hat
    subst hat
    rw [List.nil_append]
    rcases h with hend | hstart
    · have hlast := hend _ (List.getLast?_eq_some_getLast hname.ne_nil)
      exact absurd (hname.letters _ (List.getLast_mem hname.ne_nil)) hlast.1
    · exact freeAfter_of_startsApart hstart

/-! ## Cutting a search -/

/-- Of what stands before the text, only counts whether a name may start after it. -/
theorem stretchesFrom_last {last' : Option Char} (h : freeBefore last = freeBefore last') :
    stretchesFrom name 0 position last u = stretchesFrom name 0 position last' u := by
  cases u with
  | nil => rfl
  | cons c u => rw [stretchesFrom, stretchesFrom, h]

/-- What stands before the text does not count if the text starts with no letter. -/
theorem stretchesFrom_startsApart (hname : IsName name) (hu : StartsApart id u) :
    stretchesFrom name 0 position last u = stretchesFrom name 0 position none u := by
  cases u with
  | nil => rfl
  | cons c u => rw [stretchesFrom, stretchesFrom, after?_startsApart hname hu]

/-- An occurrence at the front covers no more than the text. -/
theorem covered_le {c : Char} {tail : Text} (hname : IsName name)
    (h : Text.after? name (c :: t) = some tail) : name.length - 1 ≤ t.length := by
  rw [Text.after?_eq_some_iff] at h
  have hlength := congrArg List.length h
  have := List.length_pos_iff.mpr hname.ne_nil
  simp only [List.length_cons, List.length_append] at hlength
  omega

/-- Where two texts are apart, a search goes on in the second as if it began there. -/
theorem stretchesFrom_append (hname : IsName name) (hcovered : covered ≤ t.length)
    (hcut : StartsApart id u ∨ EndsApart id t ∧ (t = [] → freeBefore last = true)) :
    stretchesFrom name covered position last (t ++ u) =
      stretchesFrom name covered position last t ++
        stretchesFrom name 0 (position + Text.byteLength t) none u := by
  induction t generalizing covered position last with
  | nil =>
    have hzero : covered = 0 := by simpa using hcovered
    subst hzero
    rw [List.nil_append, stretchesFrom, List.nil_append, Text.byteLength_nil, Nat.add_zero]
    rcases hcut with hu | ⟨-, hlast⟩
    · exact stretchesFrom_startsApart hname hu
    · exact stretchesFrom_last (hlast rfl)
  | cons c t ih =>
    -- Behind the first character, the cut is as it was.
    have hcut' : StartsApart id u ∨
        EndsApart id t ∧ (t = [] → freeBefore (some c) = true) := by
      refine hcut.imp_right fun ⟨hend, _⟩ => ⟨?_, ?_⟩
      · by_cases hne : t = []
        · simp [hne]
        · rw [EndsApart, List.getLast?_cons_of_ne_nil hne] at hend
          exact hend
      · rintro rfl
        exact freeBefore_of_endsApart hend
    have happart : Apart id (c :: t) u := hcut.symm.imp_left And.left
    rw [List.cons_append, Text.byteLength_cons, ← Nat.add_assoc]
    cases covered with
    | succ covered =>
      rw [stretchesFrom, stretchesFrom]
      exact ih (by simpa using hcovered) hcut'
    | zero =>
      rw [stretchesFrom, stretchesFrom, ← List.cons_append,
        after?_append hname happart (List.cons_ne_nil c t)]
      cases hat : Text.after? name (c :: t) with
      | none => rw [Option.map_none, ih (Nat.zero_le _) hcut', List.cons_append]
      | some tail =>
        have hfree := freeAfter_append hname happart hat
        rw [Option.map_some, ih (covered_le hname hat) hcut', List.cons_append]
        simp only [hfree]

/-! ## What a search finds -/

/-- The stretches of a text make it up. -/
theorem text_stretchesFrom (hname : name ≠ []) :
    (stretchesFrom name covered position last t).flatMap (Stretch.text name) = t.drop covered := by
  induction t generalizing covered position last with
  | nil => simp [stretchesFrom]
  | cons c t ih =>
    cases covered with
    | succ covered =>
      rw [stretchesFrom, ih]
      rfl
    | zero =>
      rw [stretchesFrom]
      cases hat : Text.after? name (c :: t) with
      | none => simp [ih, Stretch.text]
      | some tail =>
        rw [Text.after?_eq_some_iff] at hat
        -- Behind an occurrence the search skips what the name covers.
        have htail : t.drop (name.length - 1) = tail := by
          obtain ⟨d, name', hd⟩ := List.exists_cons_of_ne_nil hname
          subst hd
          rw [List.cons_append, List.cons.injEq] at hat
          rw [hat.2]
          simp
        simp [ih, Stretch.text, htail, ← hat]

/-- In a run, an occurrence is no use unless it is the whole run and nothing before it forbids that. -/
theorem not_free_of_run (hrun : ∀ c ∈ t, IsLetter id c)
    (h : covered = 0 → freeBefore last = false ∨ t ≠ name) (start : Nat) :
    Stretch.occurrence start true ∉ stretchesFrom name covered position last t := by
  induction t generalizing covered position last with
  | nil => simp [stretchesFrom]
  | cons c t ih =>
    have hc : freeBefore (some c) = false := freeBefore_letter (hrun c (by simp))
    -- Behind the first character a letter stands before, so nothing there is free.
    have hlater : ∀ covered', Stretch.occurrence start true ∉
        stretchesFrom name covered' (position + c.utf8Size) (some c) t :=
      fun covered' => ih (fun d hd => hrun d (by simp [hd])) fun _ => Or.inl hc
    cases covered with
    | succ covered =>
      rw [stretchesFrom]
      exact hlater _
    | zero =>
      rw [stretchesFrom]
      cases hat : Text.after? name (c :: t) with
      | none => simpa using hlater _
      | some tail =>
        have hfree : (freeBefore last && freeAfter tail.head?) = false := by
          rcases h rfl with hlast | hne
          · rw [hlast, Bool.false_and]
          · rw [Text.after?_eq_some_iff] at hat
            cases tail with
            | nil =>
              rw [List.append_nil] at hat
              exact absurd hat hne
            | cons d tail =>
              have hd : IsLetter id d := hrun d (by rw [hat]; simp)
              rw [List.head?_cons, freeAfter_letter hd, Bool.and_false]
        simpa [hfree] using hlater _

/-- Nothing is found behind what the last occurrence covers. -/
theorem stretchesFrom_covered (h : t.length ≤ covered) :
    stretchesFrom name covered position last t = [] := by
  induction t generalizing covered position last with
  | nil => rfl
  | cons c t ih =>
    cases covered with
    | zero => simp at h
    | succ covered =>
      rw [stretchesFrom]
      exact ih (by simpa using h)

/-- In a run that is the name, the one stretch is an occurrence. -/
theorem stretchesFrom_name (hname : IsName name) :
    stretchesFrom name 0 position last name = [.occurrence position (freeBefore last)] := by
  obtain ⟨c, rest, hc⟩ := List.exists_cons_of_ne_nil hname.ne_nil
  have hat : Text.after? name name = some [] := by
    rw [Text.after?_eq_some_iff, List.append_nil]
  subst hc
  rw [stretchesFrom, hat]
  simp only [List.head?_nil, freeAfter, Bool.and_true]
  rw [stretchesFrom_covered (by simp)]

/-- Where no occurrence is free, nothing is replaced. -/
theorem filled_eq_text {stretches : List Stretch}
    (h : ∀ start, Stretch.occurrence start true ∉ stretches) :
    stretches.flatMap (Stretch.filled name φ) = stretches.flatMap (Stretch.text name) := by
  rw [List.flatMap_congr]
  intro s hs
  cases s with
  | plain c => rfl
  | occurrence start isFree =>
    cases isFree with
    | true => exact absurd hs (h start)
    | false => rfl

/-- In a run, the search replaces the run if it is the name and no dot stands before it. -/
theorem filled_run (hname : IsName name) (φ : Nat → Option Text) {run : Text}
    (hrun : ∀ c ∈ run, IsLetter id c) (hlast : ∀ c ∈ last, ¬ IsLetter id c) :
    (stretchesFrom name 0 position last run).flatMap (Stretch.filled name φ) =
      if last = some '.' then run else (only name (φ position) run).getD run := by
  -- If the run is the name it is found as a whole, and else nothing free is found in it.
  by_cases hrunname : run = name
  · subst hrunname
    rw [stretchesFrom_name hname, List.flatMap_singleton]
    by_cases hdot : last = some '.'
    · subst hdot
      rfl
    · rw [freeBefore_of_not_dot hlast hdot, if_neg hdot]
      simp [Stretch.filled, only]
  · have hnone : ∀ start, Stretch.occurrence start true ∉ stretchesFrom name 0 position last run :=
      not_free_of_run hrun fun _ => Or.inr hrunname
    rw [filled_eq_text hnone, text_stretchesFrom hname.ne_nil, List.drop_zero]
    simp [only, hrunname]

/-- In a text that comes from one file, the search finds the uses that resolving replaces. -/
theorem filled_stretchesFrom (hname : IsName name) (r : Option Text)
    (hlast : ∀ c ∈ last, ¬ IsLetter id c) :
    (stretchesFrom name 0 position last t).flatMap (Stretch.filled name fun _ => r) =
      resolveFrom id (only name r) (last = some '.') t := by
  induction t using Lexeme.text_induction id generalizing position last with
  | nil => rfl
  | mark c t hc ih =>
    have hnone : Text.after? name (c :: t) = none := after?_startsApart hname (by simpa using hc)
    rw [stretchesFrom, hnone, Lexeme.resolveFrom_mark hc, List.flatMap_cons,
      ih (by simpa using hc)]
    simp [Stretch.filled]
  | word run t hne hrun ht ih =>
    rw [stretchesFrom_append hname (Nat.zero_le _) (Or.inl ht), List.flatMap_append,
      Lexeme.resolveFrom_run hne hrun ht, ih (by simp), filled_run hname _ hrun hlast]
    simp

/-! ## Changes and positions -/

/-- Occurrences start within the text. -/
theorem occurrence_start {start : Nat} {isFree : Bool}
    (h : Stretch.occurrence start isFree ∈ stretchesFrom name covered position last t) :
    position ≤ start ∧ start < position + Text.byteLength t := by
  induction t generalizing covered position last with
  | nil => simp [stretchesFrom] at h
  | cons c t ih =>
    have hsize := c.utf8Size_pos
    -- An occurrence behind the first character starts later still.
    have hlater : ∀ covered', Stretch.occurrence start isFree ∈
          stretchesFrom name covered' (position + c.utf8Size) (some c) t →
        position ≤ start ∧ start < position + Text.byteLength (c :: t) := by
      intro covered' h
      have := ih h
      rw [Text.byteLength_cons]
      omega
    cases covered with
    | succ covered =>
      rw [stretchesFrom] at h
      exact hlater _ h
    | zero =>
      rw [stretchesFrom] at h
      cases hat : Text.after? name (c :: t) with
      | none =>
        rw [hat] at h
        exact hlater _ (by simpa using h)
      | some tail =>
        rw [hat] at h
        rcases List.mem_cons.mp h with hfront | h
        · rw [Stretch.occurrence.injEq] at hfront
          rw [hfront.1, Text.byteLength_cons]
          omega
        · exact hlater _ h

/-- The changes of a search start within its text. -/
theorem edit_start {e : Edit}
    (h : e ∈ (stretchesFrom name covered position last t).filterMap (Stretch.edit? name φ)) :
    position ≤ e.start ∧ e.start < position + Text.byteLength t := by
  obtain ⟨s, hs, he⟩ := List.mem_filterMap.mp h
  rcases s.edit?_cases name φ with ⟨hnone, -⟩ | ⟨start, r, rfl, -, hsome⟩
  · rw [hnone] at he
    cases he
  · rw [hsome] at he
    cases he
    exact occurrence_start hs

/-- Only what is said of positions within the text matters. -/
theorem filled_congr {ψ : Nat → Option Text}
    (h : ∀ p, position ≤ p → p < position + Text.byteLength t → φ p = ψ p) :
    (stretchesFrom name covered position last t).flatMap (Stretch.filled name φ) =
      (stretchesFrom name covered position last t).flatMap (Stretch.filled name ψ) := by
  rw [List.flatMap_congr]
  intro s hs
  cases s with
  | plain c => rfl
  | occurrence start isFree =>
    cases isFree with
    | false => rfl
    | true =>
      obtain ⟨hle, hlt⟩ := occurrence_start hs
      rw [Stretch.filled, Stretch.filled, h start hle hlt]

/-- By how many bytes changes make a text longer, all together. -/
def totalGrowth : List Edit → Int
  | [] => 0
  | e :: changes => e.growth + totalGrowth changes

/-- The changes of stretches make up the difference between what they stood for and what they become. -/
theorem totalGrowth_edits (stretches : List Stretch) :
    totalGrowth (stretches.filterMap (Stretch.edit? name φ)) =
      (Text.byteLength (stretches.flatMap (Stretch.filled name φ)) : Int) -
        Text.byteLength (stretches.flatMap (Stretch.text name)) := by
  induction stretches with
  | nil => rfl
  | cons s stretches ih =>
    rw [List.flatMap_cons, List.flatMap_cons, Text.byteLength_append, Text.byteLength_append,
      List.filterMap_cons]
    -- A stretch that stays adds nothing, and one that is replaced adds its growth.
    rcases s.edit?_cases name φ with ⟨hnone, hfilled⟩ | ⟨start, r, rfl, hfilled, hsome⟩
    · rw [hnone, hfilled]
      simp only
      rw [ih]
      push_cast
      omega
    · have htext : (Stretch.occurrence start true).text name = name := rfl
      rw [hsome, hfilled, htext]
      simp only [totalGrowth]
      rw [ih]
      push_cast
      omega

/-- Changes before a position count with all their growth. -/
theorem growthBefore_of_lt {changes : List Edit} (h : ∀ e ∈ changes, e.start < position) :
    growthBefore position changes = totalGrowth changes := by
  induction changes with
  | nil => rfl
  | cons e changes ih =>
    rw [growthBefore, if_pos (h e (by simp)), ih fun e' he' => h e' (by simp [he']),
      totalGrowth]

/-- Changes at a position or behind it do not count. -/
theorem growthBefore_of_le {changes : List Edit} (h : ∀ e ∈ changes, position ≤ e.start) :
    growthBefore position changes = 0 := by
  induction changes with
  | nil => rfl
  | cons e changes ih =>
    have he := h e (by simp)
    rw [growthBefore, if_neg (by omega), ih fun e' he' => h e' (by simp [he'])]

/-- Later changes add to the growth before a position. -/
theorem growthBefore_append {changes later : List Edit} :
    growthBefore position (changes ++ later) =
      growthBefore position changes + growthBefore position later := by
  induction changes with
  | nil => simp [growthBefore]
  | cons e changes ih =>
    rw [List.cons_append, growthBefore, growthBefore, ih]
    split <;> omega

/-- Before a cut, a text grows by what the search replaces in it. -/
theorem growthBefore_cut (φ : Nat → Option Text) (position : Nat) (hname : IsName name)
    (h : Apart id t u) :
    growthBefore (position + Text.byteLength t)
        ((stretchesFrom name 0 position none (t ++ u)).filterMap (Stretch.edit? name φ)) =
      (Text.byteLength ((stretchesFrom name 0 position none t).flatMap (Stretch.filled name φ)) : Int)
        - Text.byteLength t := by
  have hcut : StartsApart id u ∨ EndsApart id t ∧ (t = [] → freeBefore none = true) :=
    h.symm.imp_right fun hend => ⟨hend, fun _ => rfl⟩
  rw [stretchesFrom_append hname (Nat.zero_le _) hcut, List.filterMap_append, growthBefore_append,
    growthBefore_of_lt fun e he => (edit_start he).2, growthBefore_of_le fun e he => (edit_start he).1,
    totalGrowth_edits, text_stretchesFrom hname.ne_nil, List.drop_zero, Int.add_zero]

end Graft.Buffer
