import Mathlib.Data.List.Find
import Graft.Proofs.Buffer.Seam

/-!
# Redirecting as resolving a tagged text

A buffer whose spans begin and end at seams takes its spans along when a name is redirected, so each
character that stays, and each one that is put in, comes from the file that the use came from
(`Seamed.redirect`). What redirecting does is then said without positions: the tagged text is resolved,
and each end of a span goes to where the text before it ends (`Resolves`). Two such steps are one
(`Resolves.trans`), and the text and what is said of its runs determine the result (`Resolves.unique`).
-/

namespace Graft

open Alphabet (IsName)
open Lexeme (IsLetter StartsApart EndsApart Apart resolve resolveFrom)

/-- A change that redirects a name redirects one of identifier characters. -/
def Change.IsLexical : Change → Prop
  | .separate => True
  | .insert _ _ => True
  | .redirect name _ => ∀ c ∈ name.toList, IsLetter id c

namespace Tagged

/-- The characters before a position. -/
def before : (position : Nat) → Tagged → Tagged
  | _, [] => []
  | position, a :: t =>
    if a.1.utf8Size ≤ position then a :: before (position - a.1.utf8Size) t else []

/-- Where a position is when a text is resolved: behind what the text before it becomes. -/
def reached (ρ : Tagged → Option Tagged) (t : Tagged) (position : Nat) : Nat :=
  Text.byteLength (plain (resolve Prod.fst ρ (before position t)))

/-- Before the length of a front part stands the front part. -/
theorem before_append (t u : Tagged) : before (Text.byteLength (plain t)) (t ++ u) = t := by
  induction t with
  | nil =>
    cases u with
    | nil => rfl
    | cons a u =>
      have hsize := a.1.utf8Size_pos
      exact if_neg (Nat.not_le.mpr hsize)
  | cons a t ih =>
    have hlength : Text.byteLength (plain (a :: t)) = a.1.utf8Size + Text.byteLength (plain t) := rfl
    rw [List.cons_append, before, hlength, if_pos (Nat.le_add_right _ _), Nat.add_sub_cancel_left, ih]

/-- The text of tagged texts in a row. -/
@[simp]
theorem plain_append (t u : Tagged) : plain (t ++ u) = plain t ++ plain u := List.map_append

/-- Parts that are apart are so without their tags. -/
theorem apart_plain {t u : Tagged} (h : Apart Prod.fst t u) : Apart id (plain t) (plain u) :=
  (Lexeme.apart_map Prod.fst fun _ => rfl).mpr h

end Tagged

namespace Buffer

open Tagged (plain reached)

variable {b b' b'' : Buffer} {ρ σ : Tagged → Option Tagged} {t u : Tagged} {position : Nat}

/-! ## Seams of a tagged text -/

/-- The text of a buffer is what its tagged characters say without their files. -/
@[simp]
theorem plain_tagged (b : Buffer) : plain b.tagged = b.text := plain_tagsFrom 0 b.text

/-- At a seam the tagged text of a buffer may be cut. -/
theorem IsSeam.exists_tagged (h : IsSeam b.text position) :
    ∃ t u, b.tagged = t ++ u ∧ Text.byteLength (plain t) = position ∧ Apart Prod.fst t u := by
  obtain ⟨x, y, hxy, hlength, happart⟩ := h
  refine ⟨b.tagsFrom 0 x, b.tagsFrom (0 + Text.byteLength x) y, ?_, ?_, apart_of_plain ?_⟩
  · rw [tagged, hxy, tagsFrom_append]
  · rw [plain_tagsFrom, hlength]
  · rwa [plain_tagsFrom, plain_tagsFrom]

/-- Where the tagged text of a buffer may be cut, there is a seam. -/
theorem isSeam_of_tagged (htagged : b.tagged = t ++ u) (happart : Apart Prod.fst t u) :
    IsSeam b.text (Text.byteLength (plain t)) := by
  refine ⟨plain t, plain u, ?_, rfl, Tagged.apart_plain happart⟩
  rw [← plain_tagged, htagged, Tagged.plain_append]

/-! ## Resolving a buffer -/

/-- The buffer `b'` is `b` with its tagged text resolved and its spans taken along. -/
structure Resolves (ρ : Tagged → Option Tagged) (b b' : Buffer) : Prop where
  tagged : b'.tagged = resolve Prod.fst ρ b.tagged
  origin : b'.origin = b.origin
  members : b'.members = b.members.map fun s =>
    { s with start := reached ρ b.tagged s.start, stop := reached ρ b.tagged s.stop }

/-- A seam goes to the end of what the text before it becomes, and that is a seam. -/
theorem Resolves.reached (h : Resolves ρ b b') (htagged : b.tagged = t ++ u)
    (happart : Apart Prod.fst t u) :
    b'.tagged = resolve Prod.fst ρ t ++ resolve Prod.fst ρ u ∧
      Tagged.reached ρ b.tagged (Text.byteLength (plain t)) =
        Text.byteLength (plain (resolve Prod.fst ρ t)) := by
  constructor
  · rw [h.tagged, htagged, Lexeme.resolve_append happart]
  · rw [Tagged.reached, htagged, Tagged.before_append]

/-- Resolving keeps the spans at seams. -/
theorem Resolves.seamed (h : Resolves ρ b b') (hseamed : Seamed b) : Seamed b' := by
  have hseam : ∀ position, IsSeam b.text position →
      IsSeam b'.text (Tagged.reached ρ b.tagged position) := by
    intro position hposition
    obtain ⟨t, u, htagged, rfl, happart⟩ := hposition.exists_tagged
    obtain ⟨htagged', hreached⟩ := h.reached htagged happart
    rw [hreached]
    exact isSeam_of_tagged htagged' happart.resolve
  intro s hs
  rw [h.members] at hs
  obtain ⟨s, hmem, rfl⟩ := List.mem_map.mp hs
  exact ⟨hseam _ (hseamed s hmem).1, hseam _ (hseamed s hmem).2⟩

/-- What is said of runs determines the buffer. -/
theorem Resolves.unique (h : Resolves ρ b b') (h' : Resolves ρ b b'') : b' = b'' := by
  have htext : b'.text = b''.text := by rw [← plain_tagged, ← plain_tagged, h.tagged, h'.tagged]
  have horigin : b'.origin = b''.origin := h.origin.trans h'.origin.symm
  have hmembers : b'.members = b''.members := h.members.trans h'.members.symm
  cases b'
  cases b''
  simp only at htext horigin hmembers
  rw [htext, horigin, hmembers]

/-- A buffer is resolved to itself if nothing is said of any run. -/
theorem Seamed.resolves_self (h : Seamed b)
    (hρ : ∀ run, run ≠ [] → (∀ a ∈ run, IsLetter Prod.fst a) → ρ run = none) : Resolves ρ b b := by
  have hsame : ∀ t : Tagged, resolve Prod.fst ρ t = t := fun t =>
    (Lexeme.resolveFrom_congr hρ).trans Lexeme.resolveFrom_none
  have hstays : ∀ position, IsSeam b.text position → Tagged.reached ρ b.tagged position = position := by
    intro position hposition
    obtain ⟨t, u, htagged, rfl, -⟩ := hposition.exists_tagged
    rw [Tagged.reached, htagged, Tagged.before_append, hsame]
  refine ⟨(hsame b.tagged).symm, rfl, ?_⟩
  conv_lhs => rw [← List.map_id' b.members]
  refine List.map_congr_left fun s hs => ?_
  rw [hstays _ (h s hs).1, hstays _ (h s hs).2]

/-- Two resolutions one after the other are one, if the second leaves alone what the first puts in. -/
theorem Resolves.trans (h : Resolves ρ b b') (h' : Resolves σ b' b'') (hseamed : Seamed b)
    (hρ : ∀ run r, ρ run = some r → resolve Prod.fst σ r = r) :
    Resolves (fun run => (ρ run).or (σ run)) b b'' := by
  have hreached : ∀ position, IsSeam b.text position →
      Tagged.reached σ b'.tagged (Tagged.reached ρ b.tagged position) =
        Tagged.reached (fun run => (ρ run).or (σ run)) b.tagged position := by
    intro position hposition
    obtain ⟨t, u, htagged, rfl, happart⟩ := hposition.exists_tagged
    obtain ⟨htagged', hthere⟩ := h.reached htagged happart
    rw [hthere, (h'.reached htagged' happart.resolve).2, Lexeme.resolve_resolve hρ, Tagged.reached,
      htagged, Tagged.before_append]
  refine ⟨?_, h'.origin.trans h.origin, ?_⟩
  · rw [h'.tagged, h.tagged, Lexeme.resolve_resolve hρ]
  · rw [h'.members, h.members, List.map_map]
    refine List.map_congr_left fun s hs => ?_
    rw [Function.comp_apply, hreached _ (hseamed s hs).1, hreached _ (hseamed s hs).2]

/-! ## Redirecting a name -/

/-- In a located text that is resolved, what is put in has the position of the use. -/
theorem mem_resolved_located {name : Text} {φ : Nat → Option Text} {x : Text} {afterDot : Bool}
    {a : Char × Nat}
    (h : a ∈ resolveFrom Prod.fst (saidAt name φ) afterDot (located position x)) :
    position ≤ a.2 ∧ a.2 < position + Text.byteLength x := by
  induction x using Lexeme.text_induction id generalizing position afterDot with
  | nil => exact absurd h List.not_mem_nil
  | mark c x hc ih =>
    have hmark : ¬ IsLetter Prod.fst (c, position) := hc
    have hsize := c.utf8Size_pos
    rw [located, Lexeme.resolveFrom_mark hmark, List.mem_cons] at h
    rw [Text.byteLength_cons]
    rcases h with rfl | h
    · omega
    · have := ih h
      omega
  | word run x hne hrun hx ih =>
    have hpos := Text.byteLength_pos hne
    rw [located_append, Lexeme.resolveFrom_run (located_ne_nil hne position) (letters_located hrun position)
      (startsApart_located hx _), List.mem_append] at h
    rw [Text.byteLength_append]
    rcases h with h | h
    · -- The run itself has its positions, and what is put in that of its start.
      have hhere : a ∈ located position run ∨ a.2 = position := by
        split at h
        · exact Or.inl h
        · rw [saidAt_located hne] at h
          cases hr : only name (φ position) run with
          | none => exact Or.inl (by simpa [hr] using h)
          | some r =>
            rw [hr] at h
            obtain ⟨c, -, rfl⟩ := List.mem_map.mp h
            exact Or.inr rfl
      rcases hhere with hhere | hhere
      · have := mem_located hhere
        omega
      · omega
    · have := ih h
      omega

/-- A buffer is tagged with what it says of the characters, wherever they are. -/
theorem tagsFrom_map_fst {α : Type} {char : α → Char} {f : α → String} {row : List α}
    (h : ∀ x a y, row = x ++ a :: y →
      b.sourceAt (position + Text.byteLength (x.map char)) = f a) :
    b.tagsFrom position (row.map char) = row.map fun a => (char a, f a) := by
  induction row generalizing position with
  | nil => rfl
  | cons a row ih =>
    have hhere : b.sourceAt position = f a := h [] a row rfl
    rw [List.map_cons, tagsFrom, List.map_cons, hhere]
    refine congrArg _ (ih fun x c y hrow => ?_)
    have hnext := h (a :: x) c y (by rw [hrow, List.cons_append])
    rwa [List.map_cons, Text.byteLength_cons, ← Nat.add_assoc] at hnext

variable {name : String} {answer : String → Option String}

/-- A seam moves to the end of what the text before it becomes. -/
theorem moved_located (hname : IsName name.toList) {x y : Text} (htext : b.text = x ++ y)
    (happart : Apart id x y) :
    moved (b.edits name answer) (Text.byteLength x) =
      Text.byteLength ((resolve Prod.fst (saidAt name.toList (b.answerAt answer))
        (located 0 x)).map Prod.fst) := by
  rw [moved_cut hname htext happart, fill, filled_located hname _ 0 (by simp)]
  rfl

/-- A character of a redirected buffer comes from the file that the buffer named at the position that the
character carries. -/
theorem Seamed.sourceAt_redirect (h : Seamed b) (hname : IsName name.toList)
    {x y : List (Char × Nat)} {a : Char × Nat}
    (hrow : resolve Prod.fst (saidAt name.toList (b.answerAt answer)) (located 0 b.text) =
      x ++ a :: y) :
    (b.redirect name answer).1.sourceAt (Text.byteLength (x.map Prod.fst)) = b.sourceAt a.2 := by
  -- A seam is on the same side of the character before and after.
  have hside : ∀ position, IsSeam b.text position →
      (moved (b.edits name answer) position ≤ Text.byteLength (x.map Prod.fst) ↔ position ≤ a.2) := by
    intro position hposition
    obtain ⟨v, w, hvw, rfl, happart⟩ := hposition
    rw [moved_located hname hvw happart]
    have hlocated : Apart Prod.fst (located 0 v) (located (0 + Text.byteLength v) w) :=
      apart_located happart _ _
    rw [hvw, located_append, Lexeme.resolve_append hlocated] at hrow
    rcases List.append_eq_append_iff.mp hrow with ⟨m, hx, hw⟩ | ⟨m, hv, hm⟩
    · have hmem : a ∈ resolve Prod.fst (saidAt name.toList (b.answerAt answer))
          (located (0 + Text.byteLength v) w) := by
        rw [hw]
        simp
      have := mem_resolved_located hmem
      rw [hx, List.map_append, Text.byteLength_append]
      omega
    · cases m with
      | nil =>
        have hmem : a ∈ resolve Prod.fst (saidAt name.toList (b.answerAt answer))
            (located (0 + Text.byteLength v) w) := by
          rw [List.nil_append] at hm
          rw [← hm]
          exact List.mem_cons_self
        have := mem_resolved_located hmem
        rw [hv, List.append_nil]
        omega
      | cons c m =>
        obtain ⟨rfl, -⟩ := List.cons.inj hm
        have hmem : a ∈ resolve Prod.fst (saidAt name.toList (b.answerAt answer)) (located 0 v) := by
          rw [hv]
          simp
        have := mem_resolved_located hmem
        have hsize := a.1.utf8Size_pos
        rw [hv, List.map_append, List.map_cons, Text.byteLength_append, Text.byteLength_cons]
        omega
  have hfind : (b.redirect name answer).1.members.find?
        (fun s => s.start ≤ Text.byteLength (x.map Prod.fst) &&
          Text.byteLength (x.map Prod.fst) < s.stop) =
      (b.members.find? fun s => s.start ≤ a.2 && a.2 < s.stop).map fun s =>
        { s with start := moved (b.edits name answer) s.start
                 stop := moved (b.edits name answer) s.stop } := by
    rw [redirect_fst hname.ne_nil, List.find?_map]
    refine congrArg _ (List.find?_congr fun s hs => ?_)
    have hstart := hside _ (h s hs).1
    have hstop := hside _ (h s hs).2
    simp only [Function.comp_apply, hstart, ← Nat.not_le, hstop]
  rw [sourceAt, sourceAt, hfind, redirect_origin]
  cases b.members.find? fun s => s.start ≤ a.2 && a.2 < s.stop with
  | none => rfl
  | some s => rfl

/-- Redirecting a name resolves it, as the files of its uses say, and takes the spans along. -/
theorem Seamed.redirect (h : Seamed b) (hname : IsName name.toList) :
    Resolves (Tagged.answered name answer) b (b.redirect name answer).1 := by
  -- The search moves each seam to where resolving puts it; spans start and end at seams.
  have hmoved : ∀ position, IsSeam b.text position →
      moved (b.edits name answer) position =
        Tagged.reached (Tagged.answered name answer) b.tagged position := by
    intro position hposition
    obtain ⟨x, y, hxy, rfl, happart⟩ := hposition
    have htagged : b.tagged = b.tagsFrom 0 x ++ b.tagsFrom (0 + Text.byteLength x) y := by
      rw [tagged, hxy, tagsFrom_append]
    have hlength : Text.byteLength (plain (b.tagsFrom 0 x)) = Text.byteLength x := by
      rw [plain_tagsFrom]
    rw [moved_located hname hxy happart, Tagged.reached, htagged, ← hlength, Tagged.before_append,
      resolve_tagsFrom, plain, List.map_map]
    rfl
  refine ⟨?_, redirect_origin, ?_⟩
  · rw [tagged, redirect_located hname]
    refine (tagsFrom_map_fst fun x a y hrow => ?_).trans (resolve_tagsFrom name answer 0 b.text).symm
    rw [Nat.zero_add]
    exact h.sourceAt_redirect hname hrow
  · rw [redirect_fst hname.ne_nil]
    refine List.map_congr_left fun s hs => ?_
    rw [hmoved _ (h s hs).1, hmoved _ (h s hs).2]

/-- Redirecting a name, also if it is empty; then nothing is redirected. -/
theorem Seamed.redirect_of_letters (h : Seamed b) (hletters : ∀ c ∈ name.toList, IsLetter id c)
    (answer : String → Option String) :
    Resolves (Tagged.answered name answer) b (b.redirect name answer).1 := by
  by_cases hempty : name.toList = []
  · rw [redirect_of_empty hempty]
    refine h.resolves_self fun run hne _ => if_neg ?_
    rw [hempty, plain, List.map_eq_nil_iff]
    exact hne
  · exact h.redirect ⟨hempty, hletters⟩

/-- Every change keeps the spans at seams. -/
theorem Seamed.change (h : Seamed b) {change : Change} (hchange : change.IsLexical) :
    Seamed (b.change change) := by
  cases change with
  | separate => exact h.separate
  | insert member source => exact h.insert member source
  | redirect name answer => exact (h.redirect_of_letters hchange answer).seamed h

/-- Any number of changes keeps the spans at seams. -/
theorem seamed_changes (text : Text) (origin : String) {changes : List Change}
    (hchanges : ∀ change ∈ changes, change.IsLexical) :
    Seamed (changes.foldl Buffer.change (ofText text origin)) :=
  List.foldlRecOn changes Buffer.change (seamed_ofText text origin)
    fun _ h change hmem => h.change (hchanges change hmem)

end Buffer

end Graft
