import Mathlib.Algebra.GroupWithZero.Nat
import Mathlib.Algebra.Order.BigOperators.Group.List
import Mathlib.Algebra.Order.Group.Nat
import Mathlib.Data.Finset.Card
import Mathlib.Data.Prod.Lex
import Graft.Proofs.Fetch.Available
import Graft.Proofs.Text.Pieces
import Graft.Proofs.Walk.Requests

/-!
# Walks end

A walk ends if only finitely many files are available (`inline?_ends`), whatever they import. Each step
takes an import, or leaves a file, of which there are finitely many while no file is put in; and a file
is put in only once. So the pair of the files that can still be put in and of what is left to do with
the open ones gets smaller in lexicographic order (`State.remaining_lt`): the second part may grow, but
only when the first gets smaller. Over an archive, whose files do not change, the two can be added up,
which tells how many steps are enough (`run?_archive`).
-/

namespace Graft

/-- A text has no more imports than characters. -/
theorem Import.length_all_le (text : Text) (url : String) : (all text url).length ≤ text.length := by
  unfold all
  rw [List.length_map]
  exact Scan.length_all_le _ text

namespace Walk

variable {σ : Type} {fetcher : Fetcher σ} {options : InlineOptions} {entry : String} {steps : Nat}
  {s s' : State σ}

/-! ## One step -/

/-- What is left to do with the open files: to take their imports, and to leave each of them. -/
def State.pending (s : State σ) : Nat := (s.stack.map fun file => file.imports.length + 1).sum

/-- What is left to do with the innermost open file counts apart from the others. -/
theorem State.pending_eq {file : Pending} {stack : List Pending} (h : s.stack = file :: stack) :
    s.pending = file.imports.length + 1 + (stack.map fun file => file.imports.length + 1).sum := by
  rw [pending, h, List.map_cons, List.sum_cons]

/-- A step that goes on gets one thing done, or puts in a file that was not visited, whose imports come
on top of what is left to do. -/
theorem State.step_pending (h : s.step fetcher options entry = .continues s') :
    (s'.visited = s.visited ∧ s'.pending + 1 = s.pending) ∨
    ∃ url text, url ∉ s.visited ∧
      (Fetch.run fetcher options.fetchOptions s.source url).result = .ok (some text) ∧
      s'.visited = url :: s.visited ∧ s'.pending = s.pending + (Import.all text url).length := by
  rcases State.step_continues h [] with
    ⟨file, stack, hstack, himports, rfl, -⟩ |
    ⟨importer, i, imports, stack, hstack, hvisit⟩
  · -- A file is left that has no imports any more.
    left
    refine ⟨rfl, ?_⟩
    rw [State.pending_eq hstack, himports]
    show (stack.map fun file => file.imports.length + 1).sum + 1 = _
    rw [List.length_nil]
    omega
  · have hpending := State.pending_eq hstack
    have hcomes := (s.shared []).visit_comes fetcher options importer i.url
    rw [List.length_cons] at hpending
    rcases hvisit with ⟨hpassed, hstack'⟩ | ⟨own, hentered, hstack'⟩
    · -- An import is passed over, whether it was taken before or cannot be fetched.
      left
      have hpending' := State.pending_eq hstack'
      refine ⟨?_, by simp only at hpending'; omega⟩
      rw [hpassed] at hcomes
      generalize hnext : s'.shared ([] ++ s.deeds fetcher options) = next at hcomes
      have hvisited : s'.visited = next.visited := congrArg Shared.visited hnext
      rw [hvisited]
      cases hcomes with
      | failedBefore _ => rfl
      | visitedBefore _ _ => rfl
      | missing _ _ _ => rfl
    · right
      have hpending' := State.pending_eq hstack'
      rw [hentered] at hcomes
      generalize hnext : s'.shared ([] ++ s.deeds fetcher options) = next at hcomes
      have hvisited : s'.visited = next.visited := congrArg Shared.visited hnext
      cases hcomes with
      | arrived _ hnew hresult _ =>
        refine ⟨i.url, _, hnew, hresult, hvisited, ?_⟩
        simp only [List.map_cons, List.sum_cons] at hpending'
        omega

/-- A step does nothing to the fetcher but make attempts. -/
theorem State.step_leads (h : s.step fetcher options entry = .continues s') :
    fetcher.Leads s.source s'.source := by
  rcases State.step_continues h [] with
    ⟨file, stack, -, -, rfl, -⟩ | ⟨importer, i, imports, stack, -, hvisit⟩
  · exact .refl
  · have hsource : s'.source = s.source ∨
        s'.source = (Fetch.run fetcher options.fetchOptions s.source i.url).state := by
      have hor := (s.shared []).visit_source fetcher options importer i.url
      rcases hvisit with ⟨hpassed, -⟩ | ⟨own, hentered, -⟩
      · rwa [hpassed] at hor
      · rwa [hentered] at hor
    rcases hsource with hsame | hfetched
    · rw [hsame]
      exact .refl
    · rw [hfetched]
      exact Fetch.run_leads fetcher options.fetchOptions s.source i.url

/-! ## Finitely many files -/

/-- How far a walk is from its end: how many of the files it can still put in, and what is left to do
with the open ones. -/
def State.remaining (files : Finset String) (s : State σ) : Nat × Nat :=
  ((files.filter (· ∉ s.visited)).card, s.pending)

/-- A step that goes on brings the walk nearer to its end. -/
theorem State.remaining_lt {files : Finset String} (hfiles : fetcher.available s.source ⊆ files)
    (h : s.step fetcher options entry = .continues s') :
    Prod.Lex (· < ·) (· < ·) (s'.remaining files) (s.remaining files) := by
  unfold remaining
  rcases State.step_pending h with
    ⟨hvisited, hpending⟩ | ⟨url, text, hnew, hresult, hvisited, -⟩
  · rw [hvisited]
    exact .right _ (by omega)
  · -- The file that is put in is one of the finitely many, and not visited before.
    refine .left _ _ (Finset.card_lt_card ?_)
    rw [hvisited]
    have hurl : url ∈ files := hfiles (Fetch.mem_available hresult)
    refine (Finset.ssubset_iff_of_subset ?_).mpr ⟨url, by simp [hurl, hnew], by simp⟩
    intro other hother
    simp only [Finset.mem_filter, List.mem_cons, not_or] at hother ⊢
    exact ⟨hother.1, hother.2.2⟩

/-- With finitely many files available, some number of steps is enough. -/
theorem exists_run? (files : Finset String) (options : InlineOptions) (entry : String) (s : State σ)
    (hfiles : fetcher.available s.source ⊆ files) :
    ∃ steps result, run? fetcher options entry steps s = some result := by
  have hwf : WellFounded (Prod.Lex (· < ·) (· < ·) : Nat × Nat → Nat × Nat → Prop) :=
    WellFounded.prod_lex wellFounded_lt wellFounded_lt
  induction hleft : s.remaining files using hwf.induction generalizing s with
  | h left ih =>
    subst hleft
    cases hstep : s.step fetcher options entry with
    | ends ending source log => exact ⟨1, _, by rw [run?, hstep]⟩
    | continues s' =>
      have hfiles' : fetcher.available s'.source ⊆ files :=
        (State.step_leads hstep).available_subset.trans hfiles
      obtain ⟨steps, result, hrun⟩ := ih _ (State.remaining_lt hfiles hstep) s' hfiles' rfl
      exact ⟨steps + 1, result, by rw [run?, hstep]; exact hrun⟩

/-! ## An archive -/

/-- What the files that were not visited may still need: a step for each import, of which a text has
fewer than characters, and one to leave the file. -/
def room (files : List (String × Text)) (visited : List String) : Nat :=
  ((files.filter fun file => file.1 ∉ visited).map fun file => file.2.length + 1).sum

/-- A file that was not visited had room for its imports. -/
theorem room_visit {files : List (String × Text)} {visited : List String} {url : String} {text : Text}
    (hfile : (url, text) ∈ files) (hnew : url ∉ visited) :
    room files (url :: visited) + (text.length + 1) ≤ room files visited := by
  obtain ⟨before, after, rfl⟩ := List.append_of_mem hfile
  have hkeeps : ∀ files : List (String × Text), room files (url :: visited) ≤ room files visited := by
    intro files
    refine (List.Sublist.map _ (List.monotone_filter_right files ?_)).sum_le_sum
      fun n _ => Nat.zero_le n
    intro file hkept
    simp only [List.mem_cons, not_or, decide_eq_true_eq] at hkept ⊢
    exact hkept.2
  have happend : ∀ visited, room (before ++ (url, text) :: after) visited =
      room before visited + (room [(url, text)] visited + room after visited) := by
    intro visited
    unfold room
    rw [← List.singleton_append]
    simp only [List.filter_append, List.map_append, List.sum_append]
  -- The file that is visited takes its own room away, and no other file gets more.
  have hthen : room [(url, text)] (url :: visited) = 0 := by simp [room]
  have hnow : room [(url, text)] visited = text.length + 1 := by simp [room, hnew]
  have hbefore := hkeeps before
  have hafter := hkeeps after
  rw [happend, happend]
  omega

variable {a : State Archive}

/-- Over an archive a walk ends within as many steps as its files have room for. -/
theorem run?_archive (options : InlineOptions) (entry : String) (a : State Archive)
    (hsteps : room a.source.files a.visited + a.pending < steps) :
    ∃ result, run? Archive.fetch options entry steps a = some result := by
  induction steps generalizing a with
  | zero => omega
  | succ steps ih =>
    rw [run?]
    cases hstep : a.step Archive.fetch options entry with
    | ends ending source log => exact ⟨_, rfl⟩
    | continues a' =>
      have hfiles : a'.source.files = a.source.files :=
        Archive.files_of_leads (State.step_leads hstep)
      apply ih
      rw [hfiles]
      -- A visited file makes more imports pending, but takes away at least as much room.
      rcases State.step_pending hstep with
        ⟨hvisited, hpending⟩ | ⟨url, text, hnew, hresult, hvisited, hpending⟩
      · rw [hvisited]
        omega
      · have hroom := room_visit (Archive.mem_of_run hresult) hnew
        have himports := Import.length_all_le text url
        rw [hvisited]
        omega

/-- The number of steps is one for each character and each text, and one to end. -/
theorem stepsFor_eq (texts : List Text) :
    stepsFor texts = (texts.map fun t => t.length + 1).sum + 1 := by
  induction texts with
  | nil => rfl
  | cons t texts ih =>
    have hcons : stepsFor (t :: texts) = t.length + 1 + stepsFor texts := rfl
    rw [hcons, ih, List.map_cons, List.sum_cons]
    omega

/-! ## The whole walk -/

/-- Without content, or without a place for members, there is nothing to walk. -/
theorem inline?_eq_some_or (fetcher : Fetcher σ) (options : InlineOptions) (content : Option Text)
    (entry : String) (source : σ) :
    (∀ steps, ∃ result, inline? fetcher options steps content entry source = some result) ∨
    ∃ text, content = some text ∧ ∀ steps,
      inline? fetcher options steps content entry source =
        run? fetcher options entry steps (start text entry source) := by
  unfold inline?
  cases hfilter : content.filter fun t => !isBlank t with
  | none => exact Or.inl fun _ => ⟨_, rfl⟩
  | some text =>
    simp only
    split
    · exact Or.inl fun _ => ⟨_, rfl⟩
    · exact Or.inr ⟨text, (Option.filter_eq_some_iff.mp hfilter).1, fun _ => rfl⟩

/-- Whatever files import, in circles or again and again, inlining ends if only finitely many files are
available. An archive has no others than its own, and there as many steps are enough as all its texts
and the entry's have room for. -/
theorem inline?_ends (options : InlineOptions) (content : Option Text) (entry : String) :
    (∀ {σ : Type} (fetcher : Fetcher σ) (source : σ), (fetcher.available source).Finite →
      ∃ steps result, inline? fetcher options steps content entry source = some result) ∧
    ∀ archive : Archive, (Archive.fetch.available archive).Finite ∧
      ∃ result, inline? Archive.fetch options
        (stepsFor (content.getD [] :: archive.files.map Prod.snd)) content entry archive =
          some result := by
  constructor
  · intro σ fetcher source hfinite
    rcases inline?_eq_some_or fetcher options content entry source with hnothing | ⟨text, -, hwalk⟩
    · exact ⟨0, hnothing 0⟩
    · have hfiles : fetcher.available (start text entry source).source ⊆ hfinite.toFinset := by
        simp [start]
      obtain ⟨steps, result, hrun⟩ := exists_run? hfinite.toFinset options entry _ hfiles
      exact ⟨steps, result, by rw [hwalk, hrun]⟩
  · intro archive
    refine ⟨archive.finite_available, ?_⟩
    rcases inline?_eq_some_or Archive.fetch options content entry archive with
      hnothing | ⟨text, rfl, hwalk⟩
    · exact hnothing _
    · rw [hwalk]
      apply run?_archive
      -- No file but the entry is visited yet, and the entry's imports are pending.
      have hroom : room archive.files [entry] ≤
          (archive.files.map fun file => file.2.length + 1).sum :=
        (List.filter_sublist.map _).sum_le_sum fun n _ => Nat.zero_le n
      have hpending : (start text entry archive).pending = (Import.all text entry).length + 1 := rfl
      have himports := Import.length_all_le text entry
      have hsteps : stepsFor (text :: archive.files.map Prod.snd) =
          text.length + 1 + (archive.files.map fun file => file.2.length + 1).sum + 1 := by
        rw [stepsFor_eq, List.map_cons, List.sum_cons, List.map_map]
        rfl
      show room archive.files [entry] + (start text entry archive).pending <
        stepsFor (text :: archive.files.map Prod.snd)
      omega

/-- Two files that import each other, themselves, the entry and a missing file, each more than once: the
walk ends. -/
theorem inline?_ends_circle :
    (Archive.fetch.available
      ⟨[("/a", "import {b} from './b'\nimport {a} from './a'\nimport {b} from './b'".toList),
        ("/b", "import {a} from './a'\nimport {p} from './p'\nimport {c} from './c'".toList)],
        [], [], []⟩).Finite ∧
    ∃ steps result, inline? Archive.fetch {} steps
      (some "import {a} from './a'\nimport {c} from './c'\nimport {a} from './a'\n{a}".toList) "/p"
      ⟨[("/a", "import {b} from './b'\nimport {a} from './a'\nimport {b} from './b'".toList),
        ("/b", "import {a} from './a'\nimport {p} from './p'\nimport {c} from './c'".toList)],
        [], [], []⟩ = some result :=
  ⟨Archive.finite_available _,
    (inline?_ends {} _ "/p").1 Archive.fetch _ (Archive.finite_available _)⟩

end Walk

end Graft
