import Mathlib.Data.List.Basic
import Mathlib.Data.List.TakeWhile
import Graft.Text.Basic

/-!
# Texts as identifiers and marks

A text falls into maximal runs of identifier characters and single other characters, its marks. The
uses of a name are then whole runs, and replacing free uses is a map over the runs: `resolve` gives
each run that does not follow a dot to a function that may say what to put in its place.

Two facts carry everything that is proved about redirecting names. At a place where a run can neither
go on nor follow a dot, a text may be cut and its halves resolved one by one (`resolve_append`). And
two resolutions one after the other are one, if the second leaves alone what the first puts in
(`resolve_resolve`).

The characters may carry something else along, so everything is stated for a type with a character
in each of its values.
-/

namespace Graft

/-- A maximal run of identifier characters, or one other character. -/
inductive Lexeme (α : Type) where
  /-- A run of identifier characters. -/
  | word (run : List α)
  /-- A character that is none. -/
  | mark (a : α)
  deriving DecidableEq, Repr

namespace Lexeme

variable {α β : Type} (char : α → Char)

/-- The lexemes of a text, from left to right. -/
def split : List α → List (Lexeme α)
  | [] => []
  | a :: rest =>
    if Alphabet.isIdentifier (char a) then
      match split rest with
      | .word run :: others => .word (a :: run) :: others
      | others => .word [a] :: others
    else .mark a :: split rest

/-- The text of lexemes in which each run that does not follow a dot is replaced by what `ρ` says of
it; `afterDot` tells whether a dot stands before the first lexeme. -/
def substitute (ρ : List α → Option (List α)) : (afterDot : Bool) → List (Lexeme α) → List α
  | _, [] => []
  | afterDot, .word run :: rest =>
    (if afterDot then run else (ρ run).getD run) ++ substitute ρ false rest
  | _, .mark a :: rest => a :: substitute ρ (char a = '.') rest

/-- A text with its free uses replaced, where a dot may stand before it. -/
def resolveFrom (ρ : List α → Option (List α)) (afterDot : Bool) (t : List α) : List α :=
  substitute char ρ afterDot (split char t)

/-- A text with its free uses replaced: each maximal run of identifier characters that does not
follow a dot becomes what `ρ` says of it, if `ρ` says anything. -/
def resolve (ρ : List α → Option (List α)) (t : List α) : List α := resolveFrom char ρ false t

/-- Whether a character belongs to an identifier. -/
def IsLetter (a : α) : Prop := Alphabet.isIdentifier (char a) = true

/-- The character is looked up. -/
instance (a : α) : Decidable (IsLetter char a) := inferInstanceAs (Decidable (_ = true))

/-- A text that does not start with an identifier character. -/
def StartsApart (t : List α) : Prop := ∀ a ∈ t.head?, ¬ IsLetter char a

/-- The first character is looked up. -/
instance (t : List α) : Decidable (StartsApart char t) :=
  inferInstanceAs (Decidable (∀ a ∈ t.head?, ¬ IsLetter char a))

/-- A text that ends neither with an identifier character nor with a dot. -/
def EndsApart (t : List α) : Prop := ∀ a ∈ t.getLast?, ¬ IsLetter char a ∧ char a ≠ '.'

/-- The last character is looked up. -/
instance (t : List α) : Decidable (EndsApart char t) :=
  inferInstanceAs (Decidable (∀ a ∈ t.getLast?, ¬ IsLetter char a ∧ char a ≠ '.'))

/-- Two texts side by side such that no identifier goes on from the first into the second, and the
second does not start with a property of something at the end of the first. -/
def Apart (t u : List α) : Prop := EndsApart char t ∨ StartsApart char u

/-- A free use of a name: a whole run of identifier characters between two texts, not after a dot. -/
structure IsUse (before run after : List α) : Prop where
  before : EndsApart char before
  ne_nil : run ≠ []
  letters : ∀ a ∈ run, IsLetter char a
  after : StartsApart char after

variable {char} {ρ σ : List α → Option (List α)} {d : Bool} {a : α} {t u run : List α}

/-- Nothing starts apart from anything. -/
@[simp]
theorem startsApart_nil : StartsApart char ([] : List α) := by
  simp [StartsApart]

/-- A text starts apart unless its first character belongs to an identifier. -/
@[simp]
theorem startsApart_cons : StartsApart char (a :: t) ↔ ¬ IsLetter char a := by
  simp [StartsApart]

/-- The empty text ends apart from everything. -/
@[simp]
theorem endsApart_nil : EndsApart char ([] : List α) := by
  simp [EndsApart]

/-- A text ends apart unless its last character belongs to an identifier or is a dot. -/
@[simp]
theorem endsApart_append_cons :
    EndsApart char (t ++ [a]) ↔ ¬ IsLetter char a ∧ char a ≠ '.' := by
  simp [EndsApart]

/-! ## Maps that keep the characters -/

/-- Whether a character belongs to an identifier does not depend on what it carries. -/
theorem isLetter_map {char' : β → Char} (f : α → β) (hchar : ∀ a, char' (f a) = char a) :
    IsLetter char' (f a) ↔ IsLetter char a := by
  rw [IsLetter, IsLetter, hchar]

/-- Nor does it matter for how a text starts. -/
theorem startsApart_map {char' : β → Char} (f : α → β) (hchar : ∀ a, char' (f a) = char a) :
    StartsApart char' (t.map f) ↔ StartsApart char t := by
  cases t with
  | nil => simp
  | cons a t => rw [List.map_cons, startsApart_cons, startsApart_cons, isLetter_map f hchar]

/-- Nor does it matter for how a text ends. -/
theorem endsApart_map {char' : β → Char} (f : α → β) (hchar : ∀ a, char' (f a) = char a) :
    EndsApart char' (t.map f) ↔ EndsApart char t := by
  rcases List.eq_nil_or_concat t with rfl | ⟨t, a, rfl⟩
  · simp
  · rw [List.concat_eq_append, List.map_append, List.map_singleton, endsApart_append_cons,
      endsApart_append_cons, isLetter_map f hchar, hchar]

/-- Where a text may be cut does not depend on what its characters carry. -/
theorem apart_map {char' : β → Char} (f : α → β) (hchar : ∀ a, char' (f a) = char a) :
    Apart char' (t.map f) (u.map f) ↔ Apart char t u :=
  or_congr (endsApart_map f hchar) (startsApart_map f hchar)

/-! ## The shape of a text -/

/-- A mark at the start is a lexeme of its own. -/
theorem split_mark (ha : ¬ IsLetter char a) : split char (a :: t) = .mark a :: split char t := by
  have ha : Alphabet.isIdentifier (char a) = false := by simpa [IsLetter] using ha
  simp [split, ha]

/-- A text that does not start with an identifier character has no run at its start. -/
theorem split_ne_word (ht : StartsApart char t) (run : List α) (others : List (Lexeme α)) :
    split char t ≠ .word run :: others := by
  cases t with
  | nil => simp [split]
  | cons a t =>
    rw [split_mark (by simpa using ht)]
    simp

/-- A run at the start, up to a character that does not belong to it, is a lexeme of its own. -/
theorem split_run (hne : run ≠ []) (hrun : ∀ a ∈ run, IsLetter char a) (ht : StartsApart char t) :
    split char (run ++ t) = .word run :: split char t := by
  induction run with
  | nil => exact absurd rfl hne
  | cons a run ih =>
    have ha : Alphabet.isIdentifier (char a) = true := hrun a (by simp)
    rw [List.cons_append, split, if_pos ha]
    by_cases hempty : run = []
    · subst hempty
      rw [List.nil_append]
      split
      · next run others h => exact absurd h (split_ne_word ht run others)
      · rfl
    · rw [ih hempty fun b hb => hrun b (by simp [hb])]

/-- A text is empty, or starts with a mark, or starts with a run that ends before a mark or with the
text. -/
theorem text_induction (char : α → Char) {motive : List α → Prop} (nil : motive [])
    (mark : ∀ a t, ¬ IsLetter char a → motive t → motive (a :: t))
    (word : ∀ run t, run ≠ [] → (∀ a ∈ run, IsLetter char a) → StartsApart char t → motive t →
      motive (run ++ t)) (t : List α) : motive t := by
  -- The induction is on the length, since a run is taken off as a whole.
  induction hn : t.length using Nat.strongRecOn generalizing t with
  | _ n ih =>
    cases t with
    | nil => exact nil
    | cons a t =>
      by_cases ha : IsLetter char a
      · have hsplit := List.takeWhile_append_dropWhile
          (p := fun b => decide (IsLetter char b)) (l := a :: t)
        generalize hrun : (a :: t).takeWhile (fun b => decide (IsLetter char b)) = run at hsplit
        generalize hrest : (a :: t).dropWhile (fun b => decide (IsLetter char b)) = rest at hsplit
        have hne : run ≠ [] := by
          rw [← hrun, List.takeWhile_cons_of_pos (by simpa using ha)]
          simp
        have hall : ∀ b ∈ run, IsLetter char b := by
          intro b hb
          rw [← hrun] at hb
          simpa using List.mem_takeWhile_imp hb
        have happart : StartsApart char rest := by
          intro b hb hletter
          have hfirst := List.head?_dropWhile_not (fun b => decide (IsLetter char b)) (a :: t)
          rw [hrest, Option.mem_def.mp hb] at hfirst
          simp [hletter] at hfirst
        have hlength : rest.length < n := by
          have := List.length_pos_iff.mpr hne
          rw [← hn, ← hsplit, List.length_append]
          omega
        rw [← hsplit]
        exact word run rest hne hall happart (ih _ hlength rest rfl)
      · refine mark a t ha (ih t.length ?_ t rfl)
        rw [← hn]
        simp

/-! ## Resolving piece by piece -/

/-- There is nothing to resolve in the empty text, even behind a dot. -/
@[simp]
theorem resolveFrom_nil : resolveFrom char ρ d [] = [] := rfl

/-- There is nothing to resolve in the empty text. -/
@[simp]
theorem resolve_nil : resolve char ρ [] = [] := rfl

/-- A mark stays. -/
theorem resolveFrom_mark (ha : ¬ IsLetter char a) :
    resolveFrom char ρ d (a :: t) = a :: resolveFrom char ρ (char a = '.') t := by
  rw [resolveFrom, split_mark ha, substitute, resolveFrom]

/-- A run becomes what is said of it, unless a dot stands before it. -/
theorem resolveFrom_run (hne : run ≠ []) (hrun : ∀ a ∈ run, IsLetter char a)
    (ht : StartsApart char t) :
    resolveFrom char ρ d (run ++ t) =
      (if d then run else (ρ run).getD run) ++ resolveFrom char ρ false t := by
  rw [resolveFrom, split_run hne hrun ht, substitute, resolveFrom]

/-- Before a text that does not start with a run, it does not matter whether a dot stands there. -/
theorem resolveFrom_eq_resolve (ht : StartsApart char t) :
    resolveFrom char ρ d t = resolve char ρ t := by
  cases t with
  | nil => rfl
  | cons a t =>
    have ha : ¬ IsLetter char a := by simpa using ht
    rw [resolve, resolveFrom_mark ha, resolveFrom_mark ha]

/-- A text may be cut before a character that belongs to no run. -/
theorem resolveFrom_append_of_startsApart (hu : StartsApart char u) :
    resolveFrom char ρ d (t ++ u) = resolveFrom char ρ d t ++ resolve char ρ u := by
  induction t using text_induction char generalizing d with
  | nil => rw [List.nil_append, resolveFrom_nil, List.nil_append, resolveFrom_eq_resolve hu]
  | mark a t ha ih =>
    rw [List.cons_append, resolveFrom_mark ha, resolveFrom_mark ha, ih, List.cons_append]
  | word run t hne hrun ht ih =>
    -- The run ends where it did before.
    have htu : StartsApart char (t ++ u) := by
      cases t with
      | nil => exact hu
      | cons b t => simpa using ht
    rw [List.append_assoc, resolveFrom_run hne hrun htu, resolveFrom_run hne hrun ht, ih,
      List.append_assoc]

/-- A text may be cut after a mark that is not a dot. -/
theorem resolveFrom_append_of_endsApart (ht : EndsApart char t) (hne : t ≠ []) :
    resolveFrom char ρ d (t ++ u) = resolveFrom char ρ d t ++ resolve char ρ u := by
  induction t using text_induction char generalizing d with
  | nil => exact absurd rfl hne
  | mark a t ha ih =>
    rw [List.cons_append, resolveFrom_mark ha, resolveFrom_mark ha, List.cons_append]
    by_cases hempty : t = []
    · subst hempty
      have hdot : char a ≠ '.' := by simpa [EndsApart, ha] using ht
      simp [hdot, resolve]
    · have hlast : EndsApart char t := by
        rw [EndsApart, List.getLast?_cons_of_ne_nil hempty] at ht
        exact ht
      rw [ih hlast hempty]
  | word run t hrunne hrun hstart ih =>
    -- The text ends with no letter, so something follows the run.
    have hempty : t ≠ [] := by
      rintro rfl
      rw [List.append_nil] at ht
      exact (ht _ (List.getLast?_eq_some_getLast hrunne)).1 (hrun _ (List.getLast_mem hrunne))
    have hlast : EndsApart char t := by
      rw [EndsApart, List.getLast?_append_of_ne_nil _ hempty] at ht
      exact ht
    have hstart' : StartsApart char (t ++ u) := by
      cases t with
      | nil => exact absurd rfl hempty
      | cons b t => simpa using hstart
    rw [List.append_assoc, resolveFrom_run hrunne hrun hstart', resolveFrom_run hrunne hrun hstart,
      ih hlast hempty, List.append_assoc]

/-- Texts that are apart are resolved one by one. -/
theorem resolve_append (h : Apart char t u) :
    resolve char ρ (t ++ u) = resolve char ρ t ++ resolve char ρ u := by
  rcases h with ht | hu
  · by_cases hne : t = []
    · subst hne
      simp
    · exact resolveFrom_append_of_endsApart ht hne
  · exact resolveFrom_append_of_startsApart hu

/-- At a free use of a name, the text before it and the text after it are resolved by themselves, and
the name becomes what is said of it. -/
theorem IsUse.resolve (h : IsUse char t run u) :
    resolve char ρ (t ++ run ++ u) = resolve char ρ t ++ (ρ run).getD run ++ resolve char ρ u := by
  have hrest : Lexeme.resolve char ρ (run ++ u) = (ρ run).getD run ++ Lexeme.resolve char ρ u := by
    unfold Lexeme.resolve
    rw [resolveFrom_run h.ne_nil h.letters h.after, if_neg (by simp)]
  calc Lexeme.resolve char ρ (t ++ run ++ u)
    _ = Lexeme.resolve char ρ (t ++ (run ++ u)) := by rw [List.append_assoc]
    _ = Lexeme.resolve char ρ t ++ Lexeme.resolve char ρ (run ++ u) :=
        resolve_append (Or.inl h.before)
    _ = _ := by rw [hrest, List.append_assoc]

/-! ## What resolving keeps -/

/-- Resolving keeps where a text starts, if it does not start with a run. -/
theorem resolve_startsApart (ht : StartsApart char t) : StartsApart char (resolve char ρ t) := by
  cases t with
  | nil => simp
  | cons a t =>
    have ha : ¬ IsLetter char a := by simpa using ht
    rw [resolve, resolveFrom_mark ha]
    simpa using ha

/-- Resolving keeps where a text ends, if it does not end with a run. -/
theorem resolve_getLast? (ht : ∀ a ∈ t.getLast?, ¬ IsLetter char a) :
    (resolve char ρ t).getLast? = t.getLast? := by
  rcases List.eq_nil_or_concat t with rfl | ⟨front, a, rfl⟩
  · rfl
  · have ha : ¬ IsLetter char a := ht a (by simp)
    have happart : StartsApart char [a] := by simpa using ha
    rw [resolve, List.concat_eq_append, resolveFrom_append_of_startsApart happart, resolve,
      resolveFrom_mark ha]
    simp

/-- A text that ends apart still does when it is resolved. -/
theorem resolve_endsApart (ht : EndsApart char t) : EndsApart char (resolve char ρ t) := by
  rw [EndsApart, resolve_getLast? fun a ha => (ht a ha).1]
  exact ht

/-- Texts that are apart stay apart when both are resolved. -/
theorem Apart.resolve (h : Apart char t u) :
    Apart char (Lexeme.resolve char ρ t) (Lexeme.resolve char ρ u) := by
  rcases h with ht | hu
  · exact Or.inl (resolve_endsApart ht)
  · exact Or.inr (resolve_startsApart hu)

/-- What a resolved text is made of: characters of the text, and of what is put in. -/
theorem mem_resolveFrom (h : a ∈ resolveFrom char ρ d t) :
    a ∈ t ∨ ∃ run r, ρ run = some r ∧ a ∈ r := by
  induction t using text_induction char generalizing d with
  | nil => simp at h
  | mark b t hb ih =>
    rw [resolveFrom_mark hb, List.mem_cons] at h
    rcases h with rfl | h
    · exact Or.inl (by simp)
    · exact (ih h).imp_left (by simp +contextual)
  | word run t hne hrun ht ih =>
    rw [resolveFrom_run hne hrun ht, List.mem_append] at h
    rcases h with h | h
    · split at h
      · exact Or.inl (by simp [h])
      · cases hr : ρ run with
        | none => exact Or.inl (by simp_all)
        | some r => exact Or.inr ⟨run, r, hr, by simpa [hr] using h⟩
    · exact (ih h).imp_left (by simp +contextual)

/-- Marks stay where they are, so none of them is lost. -/
theorem mem_resolveFrom_of_mark (ha : ¬ IsLetter char a) (h : a ∈ t) :
    a ∈ resolveFrom char ρ d t := by
  induction t using text_induction char generalizing d with
  | nil => simp at h
  | mark b t hb ih =>
    rw [resolveFrom_mark hb]
    rcases List.mem_cons.mp h with rfl | h
    · simp
    · simp [ih h]
  | word run t hne hrun ht ih =>
    rw [resolveFrom_run hne hrun ht]
    rcases List.mem_append.mp h with h | h
    · exact absurd (hrun a h) ha
    · simp [ih h]

/-- A text does not become empty, if nothing that is put in is. -/
theorem resolveFrom_ne_nil (hρ : ∀ run r, ρ run = some r → r ≠ []) (h : t ≠ []) :
    resolveFrom char ρ d t ≠ [] := by
  induction t using text_induction char generalizing d with
  | nil => exact absurd rfl h
  | mark a t ha ih =>
    rw [resolveFrom_mark ha]
    simp
  | word run t hne hrun ht ih =>
    rw [resolveFrom_run hne hrun ht]
    cases hr : ρ run with
    | none => simp [hne]
    | some r => cases d <;> simp [hne, hρ run r hr]

/-! ## Comparing and composing resolutions -/

/-- Only what is said of runs matters. -/
theorem resolveFrom_congr
    (h : ∀ run, run ≠ [] → (∀ a ∈ run, IsLetter char a) → ρ run = σ run) :
    resolveFrom char ρ d t = resolveFrom char σ d t := by
  induction t using text_induction char generalizing d with
  | nil => rfl
  | mark a t ha ih => rw [resolveFrom_mark ha, resolveFrom_mark ha, ih]
  | word run t hne hrun ht ih =>
    rw [resolveFrom_run hne hrun ht, resolveFrom_run hne hrun ht, ih, h run hne hrun]

/-- Nothing changes where nothing is said. -/
theorem resolveFrom_none : resolveFrom char (fun _ => none) d t = t := by
  induction t using text_induction char generalizing d with
  | nil => rfl
  | mark a t ha ih => rw [resolveFrom_mark ha, ih]
  | word run t hne hrun ht ih =>
    rw [resolveFrom_run hne hrun ht, ih]
    simp

/-- Marks alone stay as they are. -/
theorem resolveFrom_marks (h : ∀ a ∈ t, ¬ IsLetter char a) : resolveFrom char ρ d t = t := by
  induction t generalizing d with
  | nil => rfl
  | cons a t ih =>
    rw [resolveFrom_mark (h a (by simp)), ih fun b hb => h b (by simp [hb])]

/-- Two resolutions one after the other are one, if the second leaves alone what the first puts in:
the second is asked where the first says nothing. -/
theorem resolveFrom_resolveFrom (h : ∀ run r, ρ run = some r → resolve char σ r = r) :
    resolveFrom char σ d (resolveFrom char ρ d t) =
      resolveFrom char (fun run => (ρ run).or (σ run)) d t := by
  induction t using text_induction char generalizing d with
  | nil => rfl
  | mark a t ha ih => rw [resolveFrom_mark ha, resolveFrom_mark ha, resolveFrom_mark ha, ih]
  | word run t hne hrun ht ih =>
    have hstart : StartsApart char (resolve char ρ t) := resolve_startsApart ht
    have hrest : resolve char σ (resolve char ρ t) =
        resolveFrom char (fun run => (ρ run).or (σ run)) false t := ih
    rw [resolveFrom_run hne hrun ht, resolveFrom_run hne hrun ht, ← hrest, ← resolve]
    cases hr : ρ run with
    | none =>
      -- The run is still there, and the second resolution sees it as it was.
      simp only [Option.getD_none, ite_self, Option.none_or]
      rw [resolveFrom_run hne hrun hstart, ← resolve]
    | some r =>
      cases d with
      | true =>
        simp only [if_true]
        rw [resolveFrom_run hne hrun hstart, ← resolve]
        simp
      | false =>
        simp only [Bool.false_eq_true, if_false, Option.getD_some, Option.some_or]
        rw [resolveFrom_append_of_startsApart hstart, ← resolve, h run r hr]

/-- Two resolutions one after the other are one, if the second leaves alone what the first puts in. -/
theorem resolve_resolve (h : ∀ run r, ρ run = some r → resolve char σ r = r) :
    resolve char σ (resolve char ρ t) = resolve char (fun run => (ρ run).or (σ run)) t :=
  resolveFrom_resolveFrom h

/-- Resolving commutes with a map that keeps the characters, for resolutions that it relates. -/
theorem resolveFrom_map {char' : β → Char} {ρ' : List β → Option (List β)} (f : α → β)
    (hchar : ∀ a, char' (f a) = char a)
    (hρ : ∀ run ≠ [], ρ' (run.map f) = (ρ run).map (List.map f)) :
    resolveFrom char' ρ' d (t.map f) = (resolveFrom char ρ d t).map f := by
  induction t using text_induction char generalizing d with
  | nil => rfl
  | mark a t ha ih =>
    have ha' : ¬ IsLetter char' (f a) := by rwa [isLetter_map f hchar]
    rw [List.map_cons, resolveFrom_mark ha', resolveFrom_mark ha, ih, hchar, List.map_cons]
  | word run t hne hrun ht ih =>
    have hne' : run.map f ≠ [] := by simpa using hne
    have hrun' : ∀ b ∈ run.map f, IsLetter char' b := by
      intro b hb
      obtain ⟨a, ha, rfl⟩ := List.mem_map.mp hb
      exact (isLetter_map f hchar).mpr (hrun a ha)
    have ht' : StartsApart char' (t.map f) := (startsApart_map f hchar).mpr ht
    rw [List.map_append, resolveFrom_run hne' hrun' ht', resolveFrom_run hne hrun ht, ih,
      List.map_append, hρ run hne]
    cases d <;> cases ρ run <;> simp

end Lexeme

end Graft
