import Graft.Proofs.Buffer.Tagged
import Graft.Proofs.Text.Uses

/-!
# Redirecting a name, lexeme by lexeme

The search for a name jumps from occurrence to occurrence and looks at the neighbours of each. It comes to
the same as going through the lexemes of the text and replacing the runs that are the name, follow no dot,
and come from a file that answers (`redirect_lexemes`). This holds of every buffer, wherever its spans
are: the file of a run is the one that the buffer names for its first character. A located text, whose
characters carry their positions, is where the search and the lexemes meet.
-/

namespace Graft

open Alphabet (IsName)
open Lexeme (IsLetter StartsApart Apart resolve resolveFrom usesFrom)

/-- What is said of a run of identifier characters: if it is the name, what the file of its first
character answers, as text of that file. -/
def Tagged.answered (name : String) (answer : String → Option String) (run : Tagged) : Option Tagged :=
  if plain run = name.toList then
    run.head?.bind fun a => (answer a.2).map fun r => ofText r.toList a.2
  else none

namespace Buffer

/-- A text whose characters carry their positions, where the first one is at `position`. -/
def located : (position : Nat) → Text → List (Char × Nat)
  | _, [] => []
  | position, c :: rest => (c, position) :: located (position + c.utf8Size) rest

/-- What is said of a run of a located text: if it is the name, what `φ` says of its position. -/
def saidAt (name : Text) (φ : Nat → Option Text) (run : List (Char × Nat)) :
    Option (List (Char × Nat)) :=
  if run.map Prod.fst = name then
    run.head?.bind fun a => (φ a.2).map fun r => r.map fun c => (c, a.2)
  else none

variable {b : Buffer} {name t u : Text} {φ : Nat → Option Text} {position : Nat} {last : Option Char}

/-! ## Located texts -/

/-- Without the positions it is the text. -/
@[simp]
theorem map_fst_located (position : Nat) (t : Text) : (located position t).map Prod.fst = t := by
  induction t generalizing position with
  | nil => rfl
  | cons c t ih => rw [located, List.map_cons, ih]

/-- What follows a text is located behind the bytes of that text. -/
theorem located_append (position : Nat) (t u : Text) :
    located position (t ++ u) = located position t ++ located (position + Text.byteLength t) u := by
  induction t generalizing position with
  | nil => rfl
  | cons c t ih =>
    rw [List.cons_append, located, located, ih, List.cons_append, Text.byteLength_cons, Nat.add_assoc]

/-- A buffer names a file for each position. -/
theorem tagsFrom_eq_map (b : Buffer) (position : Nat) (t : Text) :
    b.tagsFrom position t = (located position t).map fun a => (a.1, b.sourceAt a.2) := by
  induction t generalizing position with
  | nil => rfl
  | cons c t ih => rw [tagsFrom, located, List.map_cons, ih]

/-- A text that is not empty is not empty when located. -/
theorem located_ne_nil (h : t ≠ []) (position : Nat) : located position t ≠ [] := by
  intro hnil
  rw [← map_fst_located position t, hnil] at h
  exact h rfl

/-- The characters of a located text have positions in it. -/
theorem mem_located {a : Char × Nat} (h : a ∈ located position t) :
    position ≤ a.2 ∧ a.2 < position + Text.byteLength t := by
  induction t generalizing position with
  | nil => exact absurd h List.not_mem_nil
  | cons c t ih =>
    have hsize := c.utf8Size_pos
    rw [Text.byteLength_cons]
    rcases List.mem_cons.mp h with rfl | h
    · exact ⟨le_rfl, by omega⟩
    · have := ih h
      omega

/-- Its letters are those of the text. -/
theorem letters_located (h : ∀ c ∈ t, IsLetter id c) (position : Nat) :
    ∀ a ∈ located position t, IsLetter Prod.fst a := by
  intro a ha
  have hmem : a.1 ∈ t := by
    rw [← map_fst_located position t]
    exact List.mem_map_of_mem ha
  exact h a.1 hmem

/-- Located texts are apart if the texts are, wherever they are. -/
theorem apart_located (h : Apart id t u) (position position' : Nat) :
    Apart Prod.fst (located position t) (located position' u) := by
  rwa [← map_fst_located position t, ← map_fst_located position' u, Lexeme.apart_map Prod.fst fun _ => rfl] at h

/-- A located text starts apart if the text does. -/
theorem startsApart_located (h : StartsApart id t) (position : Nat) :
    StartsApart Prod.fst (located position t) := by
  rwa [← map_fst_located position t, Lexeme.startsApart_map Prod.fst fun _ => rfl] at h

/-- What is said of a run depends on where it starts. -/
theorem saidAt_located (hne : t ≠ []) (name : Text) (φ : Nat → Option Text) (position : Nat) :
    saidAt name φ (located position t) =
      (only name (φ position) t).map fun r => r.map fun c => (c, position) := by
  obtain ⟨c, rest, rfl⟩ := List.exists_cons_of_ne_nil hne
  unfold saidAt only
  rw [map_fst_located]
  split <;> rfl

/-! ## What a search fills in and changes -/

/-- The search replaces the uses that resolving the located text replaces. -/
theorem filled_located (hname : IsName name) (φ : Nat → Option Text) (position : Nat)
    (hlast : ∀ c ∈ last, ¬ IsLetter id c) :
    (stretchesFrom name 0 position last t).flatMap (Stretch.filled name φ) =
      (resolveFrom Prod.fst (saidAt name φ) (last = some '.') (located position t)).map Prod.fst := by
  -- The induction takes off a mark or a whole run, since the search cannot match across the end of a run.
  induction t using Lexeme.text_induction id generalizing position last with
  | nil => rfl
  | mark c t hc ih =>
    have hnone : Text.after? name (c :: t) = none := after?_startsApart hname (by simpa using hc)
    have hmark : ¬ IsLetter Prod.fst (c, position) := hc
    rw [stretchesFrom, hnone, located, Lexeme.resolveFrom_mark hmark, List.flatMap_cons,
      ih _ (by simpa using hc)]
    simp [Stretch.filled]
  | word run t hne hrun ht ih =>
    rw [stretchesFrom_append hname (Nat.zero_le _) (Or.inl ht), List.flatMap_append, located_append,
      Lexeme.resolveFrom_run (located_ne_nil hne position) (letters_located hrun position) (startsApart_located ht _),
      List.map_append, ih _ (by simp), filled_run hname φ hrun hlast, saidAt_located hne]
    by_cases hdot : last = some '.'
    · simp [hdot]
    · cases honly : only name (φ position) run with
      | none => simp [hdot]
      | some r => simp [hdot, Function.comp_def]

/-- In a run, the search makes one change if something is said of the run and no dot stands before it. -/
theorem length_edits_run (hname : IsName name) (φ : Nat → Option Text) {run : Text} (hne : run ≠ [])
    (hrun : ∀ c ∈ run, IsLetter id c) (hlast : ∀ c ∈ last, ¬ IsLetter id c) :
    ((stretchesFrom name 0 position last run).filterMap (Stretch.edit? name φ)).length =
      (if last = some '.' then [] else [located position run]).countP
        fun use => (saidAt name φ use).isSome := by
  -- The run is the name, and then a dot in front of it decides, or it is another word, in which the name is
  -- not free.
  by_cases hrunname : run = name
  · subst hrunname
    rw [stretchesFrom_name hname]
    by_cases hdot : last = some '.'
    · subst hdot
      rfl
    · rw [freeBefore_of_not_dot hlast hdot, if_neg hdot, List.countP_singleton, saidAt_located hne]
      cases hr : φ position with
      | none => simp [Stretch.edit?, only, hr]
      | some r => simp [Stretch.edit?, only, hr]
  · have hnone : (stretchesFrom name 0 position last run).filterMap (Stretch.edit? name φ) = [] := by
      rw [List.filterMap_eq_nil_iff]
      intro s hs
      rcases s.edit?_cases name φ with ⟨hstays, -⟩ | ⟨start, r, rfl, -, -⟩
      · exact hstays
      · exact absurd hs (not_free_of_run hrun (fun _ => Or.inr hrunname) start)
    rw [hnone]
    split
    · rfl
    · rw [List.countP_singleton, saidAt_located hne, only, if_neg hrunname]
      rfl

/-- The search makes as many changes as there are uses of which something is said. -/
theorem length_edits (hname : IsName name) (φ : Nat → Option Text) (position : Nat)
    (hlast : ∀ c ∈ last, ¬ IsLetter id c) :
    ((stretchesFrom name 0 position last t).filterMap (Stretch.edit? name φ)).length =
      (usesFrom Prod.fst (last = some '.') (located position t)).countP
        fun use => (saidAt name φ use).isSome := by
  induction t using Lexeme.text_induction id generalizing position last with
  | nil => rfl
  | mark c t hc ih =>
    have hnone : Text.after? name (c :: t) = none := after?_startsApart hname (by simpa using hc)
    have hmark : ¬ IsLetter Prod.fst (c, position) := hc
    have hstays : (Stretch.plain c).edit? name φ = none := rfl
    rw [stretchesFrom, hnone, located, Lexeme.usesFrom_mark hmark, List.filterMap_cons_none hstays]
    have hnext : ∀ d ∈ some c, ¬ IsLetter id d := by simpa using hc
    simpa using ih (position + c.utf8Size) hnext
  | word run t hne hrun ht ih =>
    rw [stretchesFrom_append hname (Nat.zero_le _) (Or.inl ht), List.filterMap_append,
      List.length_append, located_append,
      Lexeme.usesFrom_run (located_ne_nil hne position) (letters_located hrun position) (startsApart_located ht _),
      List.countP_append, length_edits_run hname φ hne hrun hlast, ih _ (by simp)]
    simp

/-! ## Redirecting a name in a buffer -/

variable {name : String} {answer : String → Option String}

/-- The count of redirecting is that of its changes. -/
theorem redirect_snd (hname : name.toList ≠ []) : (b.redirect name answer).2 = (b.edits name answer).length := by
  have hsome : name.isEmpty = false := by
    rw [Bool.eq_false_iff]
    intro hempty
    exact hname (String.toList_eq_nil_iff.mpr (by simpa using hempty))
  rw [redirect, hsome]
  by_cases hchanges : b.edits name answer = []
  · simp [hchanges]
  · have hchanged : (b.edits name answer).isEmpty = false := by simpa using hchanges
    simp [hchanged]

/-- Where nothing is counted, nothing changes. -/
theorem redirect_of_count (h : (b.redirect name answer).2 = 0) : b.redirect name answer = (b, 0) := by
  by_cases hname : name.toList = []
  · exact redirect_of_empty hname b answer
  · rw [redirect_snd hname, List.length_eq_zero_iff] at h
    rw [redirect, h]
    split <;> rfl

/-- What is said of a located run is what is said of it with the files of its positions. -/
theorem answered_map (name : String) (answer : String → Option String) (run : List (Char × Nat)) :
    Tagged.answered name answer (run.map fun a => (a.1, b.sourceAt a.2)) =
      (saidAt name.toList (b.answerAt answer) run).map (List.map fun a => (a.1, b.sourceAt a.2)) := by
  have hplain : Tagged.plain (run.map fun a => (a.1, b.sourceAt a.2)) = run.map Prod.fst := by
    unfold Tagged.plain
    rw [List.map_map]
    rfl
  unfold Tagged.answered saidAt
  rw [hplain]
  split
  · cases run with
    | nil => rfl
    | cons a run =>
      show (answer (b.sourceAt a.2)).map _ = (((answer (b.sourceAt a.2)).map String.toList).map _).map _
      rw [Option.map_map, Option.map_map]
      refine congrArg (Option.map · _) (funext fun r => ?_)
      simp [Tagged.ofText, Function.comp_def]
  · rfl

/-- Resolving a located text is resolving it with the files of its positions. -/
theorem resolve_tagsFrom (name : String) (answer : String → Option String) (position : Nat) (t : Text) :
    resolve Prod.fst (Tagged.answered name answer) (b.tagsFrom position t) =
      (resolve Prod.fst (saidAt name.toList (b.answerAt answer)) (located position t)).map
        fun a => (a.1, b.sourceAt a.2) := by
  rw [tagsFrom_eq_map]
  exact Lexeme.resolveFrom_map _ (fun _ => rfl) fun run _ => answered_map name answer run

/-- The text of redirecting a name is that of the resolved located text. -/
theorem redirect_located (hname : IsName name.toList) :
    (b.redirect name answer).1.text =
      (resolve Prod.fst (saidAt name.toList (b.answerAt answer)) (located 0 b.text)).map Prod.fst := by
  rw [redirect_fst hname.ne_nil]
  exact filled_located hname _ 0 (by simp)

/-- The text of redirecting a name is that of the resolved tagged text. -/
theorem redirect_text (hname : IsName name.toList) :
    (b.redirect name answer).1.text = Tagged.plain (Tagged.redirected name answer b.tagged) := by
  have hresolved : Tagged.redirected name answer b.tagged = _ := resolve_tagsFrom name answer 0 b.text
  rw [hresolved, redirect_located hname]
  unfold Tagged.plain
  rw [List.map_map]
  rfl

/-- The count of redirecting a name is that of the uses of which something is said. -/
theorem redirect_count (hname : IsName name.toList) :
    (b.redirect name answer).2 = (usesFrom Prod.fst false b.tagged).countP
      fun use => (Tagged.answered name answer use).isSome := by
  have huses : usesFrom Prod.fst false ((located 0 b.text).map fun a => (a.1, b.sourceAt a.2)) =
      (usesFrom Prod.fst false (located 0 b.text)).map (List.map fun a => (a.1, b.sourceAt a.2)) :=
    Lexeme.usesFrom_map _ (fun _ => rfl) false _
  rw [redirect_snd hname.ne_nil, edits_eq, length_edits hname _ 0 (by simp), tagged, tagsFrom_eq_map,
    huses, List.countP_map]
  refine List.countP_congr fun use _ => ?_
  rw [Function.comp_apply, answered_map, Option.isSome_map]

/-- Redirecting a name goes through the lexemes of the text and replaces the runs that are the name, follow
no dot and come from a file that answers. It counts the runs that it replaces, and leaves the buffer as it
is if there are none. -/
theorem redirect_lexemes (b : Buffer) (name : String) (answer : String → Option String)
    (hname : IsName name.toList) :
    let lexemes := Lexeme.split Prod.fst b.tagged
    Lexeme.IsSplit Prod.fst b.tagged lexemes ∧ Tagged.plain b.tagged = b.text ∧
      (b.redirect name answer).1.text =
        Tagged.plain (Lexeme.substitute Prod.fst (Tagged.answered name answer) false lexemes) ∧
      (b.redirect name answer).2 = (Lexeme.freeRuns Prod.fst false lexemes).countP
        (fun run => (Tagged.answered name answer run).isSome) ∧
      ((b.redirect name answer).2 = 0 → (b.redirect name answer).1 = b) := by
  intro lexemes
  refine ⟨Lexeme.isSplit_split b.tagged, plain_tagsFrom 0 b.text, redirect_text hname,
    redirect_count hname, fun hcount => ?_⟩
  rw [redirect_of_count hcount]

/-- A name that overlaps itself, with a longer run, a property and a use in a member that answers nothing. -/
theorem redirect_lexemes_overlapping :
    let b : Buffer := ⟨"aaa aa x.aa \x7baa\x7d".toList, "/p", [⟨13, 15, "/m"⟩]⟩
    let answer := fun source => if source = "/p" then some "this.a" else none
    let lexemes := Lexeme.split Prod.fst b.tagged
    b.redirect "aa" answer = (⟨"aaa this.a x.aa \x7baa\x7d".toList, "/p", [⟨17, 19, "/m"⟩]⟩, 1) ∧
      "aaa this.a x.aa \x7baa\x7d".toList =
        Tagged.plain (Lexeme.substitute Prod.fst (Tagged.answered "aa" answer) false lexemes) ∧
      1 = (Lexeme.freeRuns Prod.fst false lexemes).countP
        fun run => (Tagged.answered "aa" answer run).isSome := by
  intro b answer lexemes
  have hredirect : b.redirect "aa" answer =
      (⟨"aaa this.a x.aa \x7baa\x7d".toList, "/p", [⟨17, 19, "/m"⟩]⟩, 1) := by decide +kernel
  have hname : IsName "aa".toList := ⟨by decide, fun c hc => by
    have hletter : c = 'a' := by simpa using hc
    rw [hletter]
    decide⟩
  obtain ⟨-, -, htext, hcount, -⟩ := redirect_lexemes b "aa" answer hname
  rw [hredirect] at htext hcount
  exact ⟨hredirect, htext, hcount⟩

end Buffer

end Graft
