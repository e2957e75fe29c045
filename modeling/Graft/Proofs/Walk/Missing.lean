import Graft.Proofs.Walk.Accounts
import Graft.Proofs.Walk.Strictness

/-!
# The first file that is missing

As long as every file that a walk asks for arrives, it records no failure (`Shared.Complete`). At the first
one for which all attempts fail (`FirstMissing`), it depends on the fetch options of the walk alone what
happens (`run?_missing`): the walk ends there, or, if they are graceful, it records the failure before any
other. A strict walk keeps the options that it is given. So it ends at the first missing file unless these
are graceful, and then it is the lenient walk (`strict_unless_graceful`).
-/

namespace Graft

variable {σ : Type} {fetcher : Fetcher σ}

/-- Attempts that get no text end with the error of the last one, or with nothing, if they are graceful. -/
theorem Fetch.tryFrom_of_missing {options : FetchOptions} {url : String} {left attempt : Nat}
    {last : FetchError} {source : σ}
    (h : ∀ text, (tryFrom fetcher options url left attempt last source).result ≠ .ok (some text)) :
    ∃ last', (tryFrom fetcher options url left attempt last source).result =
      if options.graceful then .ok none else .error (.exhausted url options.attempts last') := by
  induction left generalizing attempt last source with
  | zero => exact ⟨last, rfl⟩
  | succ left ih =>
    rw [tryFrom] at h ⊢
    cases hjudge : judge options url (fetcher source url).reply with
    | ok text =>
      rw [hjudge] at h
      exact absurd rfl (h text)
    | error e =>
      rw [hjudge] at h
      exact ih h

/-- A fetch that gives no text tells how it was given up, or gives nothing, if it is graceful. -/
theorem Fetch.run_of_missing {options : FetchOptions} {source : σ} {url : String}
    (h : ∀ text, (run fetcher options source url).result ≠ .ok (some text)) :
    ∃ last, (run fetcher options source url).result =
      if options.graceful then .ok none else .error (.exhausted url options.attempts last) :=
  tryFrom_of_missing h

namespace Walk

variable {options : InlineOptions} {fetch : FetchOptions} {entry importer url : String} {steps : Nat}
  {s : State σ} {before deeds later : List Deed} {result : Result σ}

/-- Some file that was asked for did not arrive: all attempts to fetch it failed. -/
def Missed (deeds : List Deed) : Prop := ∃ made ∈ fetches deeds, ∀ text, made.2 ≠ .ok (some text)

/-- The answers of the fetches are looked at one by one. -/
instance (deeds : List Deed) : Decidable (Missed deeds) :=
  decidable_of_iff
    ((fetches deeds).any fun made =>
      match made.2 with
      | .ok (some _) => false
      | _ => true)
    (by
      rw [List.any_eq_true]
      refine exists_congr fun made => and_congr_right fun _ => ?_
      split <;> simp_all)

/-- Nothing is missed where nothing was done. -/
theorem missed_nil : ¬ Missed [] := by
  rintro ⟨_, h, -⟩
  cases h

/-- A file was missed if it was missed in the first deeds or in the later ones. -/
theorem missed_append : Missed (deeds ++ later) ↔ Missed deeds ∨ Missed later := by
  unfold Missed
  rw [fetches_append]
  simp only [List.mem_append, or_and_right, exists_or]

/-- A file that was not taken before is asked for, and no attempt gives its text. -/
structure Shared.Misses (fetcher : Fetcher σ) (options : InlineOptions) (s : Shared σ) (url : String) :
    Prop where
  failed : url ∉ s.failed
  visited : url ∉ s.visited
  missing : ∀ text, (Fetch.run fetcher options.fetchOptions s.source url).result ≠ .ok (some text)

/-- From a state, a walk comes to an import of the file `importer` whose file is missing, and all files
that it asks for before arrive. -/
def FirstMissing (fetcher : Fetcher σ) (options : InlineOptions) (entry : String) (s : State σ)
    (importer url : String) : Prop :=
  ∃ steps deeds t i imports stack, Reaches fetcher options entry steps s deeds t ∧ ¬ Missed deeds ∧
    t.stack = ⟨importer, i :: imports⟩ :: stack ∧ i.url = url ∧
    (t.shared []).Misses fetcher options url

/-- What is shared as long as every file that was asked for arrived. -/
structure Shared.Complete (s : Shared σ) : Prop where
  unfailed : s.Unfailed
  arrived : ¬ Missed s.deeds

/-- How a walk ends in which all files arrive: it records no failure and is not given up for a file. -/
structure EndsComplete (done : List Deed) (ending : Except InlineError (Option Output)) : Prop where
  arrived : ¬ Missed done
  available : ∀ url importer cause, ending ≠ .error (.importUnavailable url importer cause)
  unfailed : ∀ output, ending = .ok (some output) → firstFailed? output.skipped = none

/-- How a walk ends whose first missing file is `url`, imported by `importer`: with the error for it, or, if
its fetch options are graceful, with the record of it before all other failures. -/
structure EndsMissing (options : FetchOptions) (importer url : String) (done : List Deed)
    (ending : Except InlineError (Option Output)) : Prop where
  missed : Missed done
  refused : options.graceful = false → ∃ last, ending =
    .error (.importUnavailable url importer (some (.exhausted url options.attempts last)))
  recorded : options.graceful = true → ∀ output, ending = .ok (some output) →
    firstFailed? output.skipped = some ⟨url, importer, .fetchFailed⟩

/-! ## One import -/

section

variable {shared : Shared σ}

/-- A file that arrives is not missed. -/
theorem missed_arrives (url : String) (text : Text) (declarations : List Declaration) :
    ¬ Missed [.fetch url (.ok (some text)), .inline url declarations] := by
  rintro ⟨made, hmade, hmissing⟩
  obtain rfl := List.mem_singleton.mp hmade
  exact hmissing text rfl

/-- A record alone misses nothing, since no file is asked for. -/
theorem missed_skip (skipped : Skipped) : ¬ Missed [.skip skipped] := by
  rintro ⟨made, hmade, -⟩
  cases hmade

/-- A fetch without text misses its file. -/
theorem missed_fetch {answer : Except FetchError (Option Text)} (h : ∀ text, answer ≠ .ok (some text))
    (url : String) : Missed [.fetch url answer] := ⟨(url, answer), List.mem_singleton_self _, h⟩

/-- Passing over a file that was put in before leaves all complete. -/
theorem Shared.Complete.pass (h : shared.Complete) (importer url : String) :
    (shared.pass ⟨url, importer, .alreadyInlined⟩).Complete := by
  refine ⟨⟨h.unfailed.failed, ?_⟩, ?_⟩
  · have hrecords : (shared.pass ⟨url, importer, .alreadyInlined⟩).skipped =
        shared.skipped ++ [⟨url, importer, .alreadyInlined⟩] := rfl
    rw [hrecords, firstFailed?_concat, h.unfailed.skipped]
    rfl
  · exact fun hmissed => (missed_append.mp hmissed).elim h.arrived (missed_skip _)

/-- What a visit comes to as long as all files arrived: either it leaves all complete, or asks for nothing
in vain before it gives up, or its file is missing. Then the fetch options decide whether the walk is given
up for it or its failure is the first one to be recorded. -/
theorem Shared.visit_complete (hs : shared.Complete) (fetcher : Fetcher σ) (options : InlineOptions)
    (importer url : String) :
    match shared.visit fetcher options importer url with
    | .passed next => next.Complete ∨
        (shared.Misses fetcher options url ∧ Missed next.deeds ∧ options.fetchOptions.graceful = true ∧
          firstFailed? next.skipped = some ⟨url, importer, .fetchFailed⟩)
    | .entered next _ => next.Complete
    | .gaveUp e _ done => (¬ Missed done ∧ ∃ origin, e = .missingClosingBrace origin) ∨
        (shared.Misses fetcher options url ∧ Missed done ∧ options.fetchOptions.graceful = false ∧
          ∃ last, e = .importUnavailable url importer
            (some (.exhausted url options.fetchOptions.attempts last))) := by
  have hcomes := shared.visit_comes fetcher options importer url
  generalize shared.visit fetcher options importer url = visit at hcomes ⊢
  cases hcomes with
  | failedBefore hfailed =>
    rw [hs.unfailed.failed] at hfailed
    cases hfailed
  | visitedBefore _ _ => exact Or.inl (hs.pass importer url)
  | @refused hfailed hvisited e herror =>
    have hmissing : ∀ text, (Fetch.run fetcher options.fetchOptions shared.source url).result ≠
        .ok (some text) := by simp [herror]
    obtain ⟨last, hresult⟩ := Fetch.run_of_missing hmissing
    rw [herror] at hresult
    cases hgraceful : options.fetchOptions.graceful with
    | true =>
      rw [hgraceful] at hresult
      cases hresult
    | false =>
      rw [hgraceful] at hresult
      cases hresult
      exact Or.inr ⟨⟨hfailed, hvisited, hmissing⟩,
        missed_append.mpr (Or.inr (missed_fetch (by simp) url)), rfl, last, rfl⟩
  | missing hfailed hvisited hnone =>
    have hmissing : ∀ text, (Fetch.run fetcher options.fetchOptions shared.source url).result ≠
        .ok (some text) := by simp [hnone]
    obtain ⟨last, hresult⟩ := Fetch.run_of_missing hmissing
    rw [hnone] at hresult
    cases hgraceful : options.fetchOptions.graceful with
    | false =>
      rw [hgraceful] at hresult
      cases hresult
    | true =>
      refine Or.inr ⟨⟨hfailed, hvisited, hmissing⟩, ?_, rfl, ?_⟩
      · exact missed_append.mpr (Or.inl (missed_append.mpr (Or.inr (missed_fetch (by simp) url))))
      · -- No failure was recorded before this one.
        have hnone : firstFailed? (shared.withFailure url
            (Fetch.run fetcher options.fetchOptions shared.source url).state).skipped = none :=
          hs.unfailed.skipped
        exact (firstFailed?_concat _ _).trans (by rw [hnone]; rfl)
  | unplaced _ _ _ _ =>
    exact Or.inl ⟨fun hmissed =>
      (missed_append.mp hmissed).elim hs.arrived (missed_arrives url _ _), _, rfl⟩
  | arrived _ _ _ _ =>
    exact ⟨⟨hs.unfailed.failed, hs.unfailed.skipped⟩, fun hmissed =>
      (missed_append.mp hmissed).elim hs.arrived (missed_arrives url _ _)⟩

end

/-! ## Runs -/

/-- A file that is missing after a step that leaves all complete is missing from the state before. -/
theorem FirstMissing.step {s' : State σ} (h : FirstMissing fetcher options entry s' importer url)
    (hstep : s.step fetcher options entry = .continues s')
    (harrived : ¬ Missed (s.deeds fetcher options)) :
    FirstMissing fetcher options entry s importer url := by
  obtain ⟨steps, deeds, t, i, imports, stack, hreaches, hdeeds, hrest⟩ := h
  exact ⟨_, _, t, i, imports, stack, .step hstep hreaches,
    fun hmissed => (missed_append.mp hmissed).elim harrived hdeeds, hrest⟩

/-- A file that is missing at once is the first one. -/
theorem Shared.Misses.first (h : (s.shared before).Misses fetcher options url) {i : Import}
    {imports : List Import} {stack : List Pending} (hstack : s.stack = ⟨importer, i :: imports⟩ :: stack)
    (hurl : i.url = url) (entry : String) : FirstMissing fetcher options entry s importer url := by
  exact ⟨0, [], s, i, imports, stack, .refl s, missed_nil, hstack, hurl, h.failed, h.visited, h.missing⟩

/-- A run in which all files arrive ends so, and any other one comes to a first missing file. -/
theorem run?_missing (hs : (s.shared before).Complete)
    (h : run? fetcher options entry steps s = some result) :
    EndsComplete (before ++ history fetcher options entry steps s) result.ending ∨
      ∃ importer url, FirstMissing fetcher options entry s importer url ∧
        EndsMissing options.fetchOptions importer url
          (before ++ history fetcher options entry steps s) result.ending := by
  induction steps generalizing s before with
  | zero => cases h
  | succ steps ih =>
    rw [run?] at h
    rw [history, ← List.append_assoc]
    cases hstep : s.step fetcher options entry with
    | ends ending source log =>
      rw [hstep] at h
      cases h
      rw [List.append_nil]
      rcases State.step_ends hstep before with
        ⟨-, rfl, -, hdeeds⟩ | ⟨importer, i, imports, stack, e, hstack, hvisit, rfl⟩
      · rw [hdeeds, List.append_nil]
        refine Or.inl ⟨hs.arrived, by simp [Except.map], fun output houtput => ?_⟩
        cases houtput
        exact hs.unfailed.skipped
      · have hcomplete := Shared.visit_complete hs fetcher options importer i.url
        rw [hvisit] at hcomplete
        rcases hcomplete with
          ⟨harrived, origin, rfl⟩ | ⟨hmisses, hmissed, hgraceful, last, rfl⟩
        · exact Or.inl ⟨harrived, by simp [Except.map], by simp [Except.map]⟩
        · exact Or.inr ⟨importer, i.url, hmisses.first hstack rfl entry, hmissed,
            fun _ => ⟨last, rfl⟩, by simp [hgraceful]⟩
    | continues s' =>
      rw [hstep] at h
      -- From a state that is complete the run goes on, and its first missing file is that of the whole.
      suffices hcase : (s'.shared (before ++ s.deeds fetcher options)).Complete ∨
          ∃ importer url, FirstMissing fetcher options entry s importer url ∧
            EndsMissing options.fetchOptions importer url (before ++ s.deeds fetcher options ++
              history fetcher options entry steps s') result.ending by
        rcases hcase with hnext | hmissing
        · refine (ih hnext h).imp_right ?_
          rintro ⟨importer, url, hfirst, hends⟩
          have harrived : ¬ Missed (s.deeds fetcher options) := fun hmissed =>
            hnext.arrived (missed_append.mpr (Or.inr hmissed))
          exact ⟨importer, url, hfirst.step hstep harrived, hends⟩
        · exact Or.inr hmissing
      rcases State.step_continues hstep before with
        ⟨file, stack, -, -, rfl, hdeeds⟩ |
        ⟨importer, i, imports, stack, hstack, ⟨hvisit, -⟩ | ⟨own, hvisit, -⟩⟩
      · rw [hdeeds, List.append_nil]
        exact Or.inl hs
      · have hcomplete := Shared.visit_complete hs fetcher options importer i.url
        rw [hvisit] at hcomplete
        refine hcomplete.imp_right ?_
        rintro ⟨hmisses, hmissed, hgraceful, hfirst⟩
        refine ⟨importer, i.url, hmisses.first hstack rfl entry,
          missed_append.mpr (Or.inl hmissed), by simp [hgraceful], fun _ output houtput => ?_⟩
        exact (run?_skipped h houtput).find?_eq_some hfirst
      · have hnext := Shared.visit_complete hs fetcher options importer i.url
        rw [hvisit] at hnext
        exact Or.inl hnext

/-! ## Whole walks -/

/-- The options of a walk matter only through its fetch options. -/
theorem inline?_congr {options options' : InlineOptions} (h : options.fetchOptions = options'.fetchOptions)
    (fetcher : Fetcher σ) (steps : Nat) (content : Option Text) (entry : String) (source : σ) :
    inline? fetcher options steps content entry source =
      inline? fetcher options' steps content entry source := by
  have hstep : ∀ s : State σ, s.step fetcher options entry = s.step fetcher options' entry := by
    intro s
    unfold State.step State.take
    rw [h]
  have hrun : ∀ steps (s : State σ), run? fetcher options entry steps s =
      run? fetcher options' entry steps s := by
    intro steps
    induction steps with
    | zero => exact fun _ => rfl
    | succ steps ih =>
      intro s
      rw [run?, run?, hstep]
      cases s.step fetcher options' entry with
      | continues s' => exact ih s'
      | ends ending source log => rfl
  unfold inline?
  simp only [hrun]

/-- Nothing is missing at the start. -/
theorem complete_start (text : Text) (entry : String) (source : σ) :
    ((start text entry source).shared []).Complete := ⟨⟨rfl, rfl⟩, missed_nil⟩

/-- A finished walk is complete, or comes to a first missing file after it got past the look for a place
for members. -/
theorem inline?_missing {content : Option Text} {source : σ}
    (h : inline? fetcher options steps content entry source = some result) :
    EndsComplete (inlineHistory fetcher options steps content entry source) result.ending ∨
      ∃ text importer url, content = some text ∧ ¬ Unplaced text entry ∧
        run? fetcher options entry steps (start text entry source) = some result ∧
        FirstMissing fetcher options entry (start text entry source) importer url ∧
        EndsMissing options.fetchOptions importer url
          (inlineHistory fetcher options steps content entry source) result.ending := by
  -- A walk that does not start misses no file.
  rcases inline?_cases h with
    ⟨hending, -, hhistory⟩ | ⟨text, rfl, -, ⟨-, rfl, hhistory⟩ | ⟨hplaced, hrun, hhistory⟩⟩
  · rw [hhistory, hending]
    exact Or.inl ⟨missed_nil, by simp, by simp⟩
  · rw [hhistory]
    exact Or.inl ⟨missed_nil, by simp, by simp⟩
  · rw [hhistory]
    refine (run?_missing (complete_start text entry source) hrun).imp_right ?_
    rintro ⟨importer, url, hfirst, hends⟩
    exact ⟨text, importer, url, rfl, hplaced, hrun, hfirst, hends⟩

/-- A walk with no failure among its records passed over nothing but what was put in before. -/
theorem reason_of_firstFailed? {skipped : List Skipped} (h : firstFailed? skipped = none) :
    ∀ r ∈ skipped, r.reason = .alreadyInlined := by
  intro r hr
  have hreason := List.find?_eq_none.mp h r hr
  cases hcase : r.reason with
  | alreadyInlined => rfl
  | fetchFailed => simp [hcase] at hreason

/-- A strict walk whose fetch options are not graceful records no failure, and if all attempts fail for some
file, it ends with the error for the first such file. If they are graceful, it is the lenient walk, and if all
attempts fail for some file, it ends with an object, and the first failure that it records is the one of the
first such file. -/
theorem strict_unless_graceful (fetcher : Fetcher σ) (fetch : FetchOptions) (steps : Nat)
    (content : Option Text) (entry : String) (source : σ) (result : Result σ)
    (h : inline? fetcher ⟨fetch, true⟩ steps content entry source = some result) :
    (fetch.graceful = false →
      (∀ output, result.ending = .ok (some output) →
        ∀ r ∈ output.skipped, r.reason = .alreadyInlined) ∧
      (Missed (inlineHistory fetcher ⟨fetch, true⟩ steps content entry source) →
        ∃ text importer url last, content = some text ∧
          FirstMissing fetcher ⟨fetch, true⟩ entry (start text entry source) importer url ∧
          result.ending = .error (.importUnavailable url importer
            (some (.exhausted url fetch.attempts last))))) ∧
    (fetch.graceful = true →
      inline? fetcher ⟨fetch, false⟩ steps content entry source = some result ∧
      (Missed (inlineHistory fetcher ⟨fetch, true⟩ steps content entry source) →
        ∃ text importer url output, content = some text ∧
          FirstMissing fetcher ⟨fetch, true⟩ entry (start text entry source) importer url ∧
          result.ending = .ok (some output) ∧
          firstFailed? output.skipped = some ⟨url, importer, .fetchFailed⟩)) := by
  have hoptions : (⟨fetch, true⟩ : InlineOptions).fetchOptions = fetch := rfl
  have hcases := inline?_missing h
  refine ⟨fun hplain => ⟨fun output houtput => ?_, fun hmissed => ?_⟩,
    fun hgraceful => ⟨?_, fun hmissed => ?_⟩⟩
  · rcases hcases with hcomplete | ⟨_, importer, url, -, -, -, -, hends⟩
    · exact reason_of_firstFailed? (hcomplete.unfailed output houtput)
    · obtain ⟨last, herror⟩ := hends.refused hplain
      rw [houtput] at herror
      cases herror
  · rcases hcases with hcomplete | ⟨text, importer, url, hcontent, -, -, hfirst, hends⟩
    · exact absurd hmissed hcomplete.arrived
    · obtain ⟨last, herror⟩ := hends.refused hplain
      exact ⟨text, importer, url, last, hcontent, hfirst, herror⟩
  · have hsame : (⟨fetch, false⟩ : InlineOptions).fetchOptions =
        (⟨fetch, true⟩ : InlineOptions).fetchOptions := by
      show fetch.gracefully = fetch
      rw [FetchOptions.gracefully, ← hgraceful]
    rw [← h]
    exact inline?_congr hsame fetcher steps content entry source
  · rcases hcases with hcomplete | ⟨text, importer, url, hcontent, hplaced, hrun, hfirst, hends⟩
    · exact absurd hmissed hcomplete.arrived
    · -- No fetch gives an error, so the walk ends with an object.
      rcases ending_of_placed hplaced hrun with ⟨output, houtput⟩ | ⟨url', _, _, source', -, e, herror⟩
      · exact ⟨text, importer, url, output, hcontent, hfirst, houtput,
          hends.recorded hgraceful output houtput⟩
      · exact absurd herror (Fetch.run_ne_error fetcher hgraceful source' url' e)

/-- Of two files the second one is missing: a strict walk ends with the error for it, unless its fetch
options are graceful, and then its record is the first failure. -/
theorem strict_unless_graceful_second :
    (∃ result,
      inline? Archive.fetch ⟨{ retries := 1 }, true⟩ 9
          (some "import {a} from './b'\nimport {x} from './c'\n{a}".toList) "/p"
          ⟨[("/b", "function a(){}".toList)], [], [], []⟩ = some result ∧
        ∃ last, result.ending = .error (.importUnavailable "/c" "/p" (some (.exhausted "/c" 1 last)))) ∧
    ∃ result output,
      inline? Archive.fetch ⟨{ retries := 1, graceful := true }, true⟩ 9
          (some "import {a} from './b'\nimport {x} from './c'\n{a}".toList) "/p"
          ⟨[("/b", "function a(){}".toList)], [], [], []⟩ = some result ∧
        result.ending = .ok (some output) ∧
        firstFailed? output.skipped = some ⟨"/c", "/p", .fetchFailed⟩ := by
  constructor
  · have hrun : (inline? Archive.fetch ⟨{ retries := 1 }, true⟩ 9
        (some "import {a} from './b'\nimport {x} from './c'\n{a}".toList) "/p"
        ⟨[("/b", "function a(){}".toList)], [], [], []⟩).map Result.ending =
        some (.error (.importUnavailable "/c" "/p" (some (.exhausted "/c" 1 (.notFound "/c"))))) := by
      decide +kernel
    have hmissed : Missed (inlineHistory Archive.fetch ⟨{ retries := 1 }, true⟩ 9
        (some "import {a} from './b'\nimport {x} from './c'\n{a}".toList) "/p"
        ⟨[("/b", "function a(){}".toList)], [], [], []⟩) := by
      decide +kernel
    obtain ⟨result, hresult, hending⟩ := Option.map_eq_some_iff.mp hrun
    obtain ⟨-, hends⟩ := (strict_unless_graceful _ _ _ _ _ _ result hresult).1 rfl
    obtain ⟨text, importer, url, last, -, -, herror⟩ := hends hmissed
    rw [hending] at herror
    cases herror
    exact ⟨result, hresult, _, hending⟩
  · have hmissed : Missed (inlineHistory Archive.fetch ⟨{ retries := 1, graceful := true }, true⟩ 9
        (some "import {a} from './b'\nimport {x} from './c'\n{a}".toList) "/p"
        ⟨[("/b", "function a(){}".toList)], [], [], []⟩) := by
      decide +kernel
    have hrun : (inline? Archive.fetch ⟨{ retries := 1, graceful := true }, true⟩ 9
        (some "import {a} from './b'\nimport {x} from './c'\n{a}".toList) "/p"
        ⟨[("/b", "function a(){}".toList)], [], [], []⟩).map Result.ending =
        some (.ok (some ⟨"\x7bthis._inlined_b_a,\n  _inlined_b_a() \x7b\x7d,\n\x7d".toList,
          [Renaming.of "/b" "a"], [⟨"/c", "/p", .fetchFailed⟩]⟩)) := by
      decide +kernel
    obtain ⟨result, hresult, hending⟩ := Option.map_eq_some_iff.mp hrun
    obtain ⟨-, hends⟩ := (strict_unless_graceful _ _ _ _ _ _ result hresult).2 rfl
    obtain ⟨text, importer, url, output, -, -, houtput, hfirst⟩ := hends hmissed
    rw [hending] at houtput
    cases houtput
    exact ⟨result, _, hresult, hending, rfl⟩

/-- A strict walk whose fetch options are graceful gives an object without the file that is missing. -/
theorem strict_passes_over_missing :
    ∃ result output,
      inline? Archive.fetch ⟨{ retries := 1, graceful := true }, true⟩ 9
          (some "import {a} from './b'\n{a}".toList) "/p" ⟨[], [], [], []⟩ = some result ∧
        result.ending = .ok (some output) ∧
        ∃ r ∈ output.skipped, r.reason = .fetchFailed := by
  have hrun : (inline? Archive.fetch ⟨{ retries := 1, graceful := true }, true⟩ 9
      (some "import {a} from './b'\n{a}".toList) "/p" ⟨[], [], [], []⟩).map Result.ending =
      some (.ok (some ⟨"{a}".toList, [], [⟨"/b", "/p", .fetchFailed⟩]⟩)) := by
    decide +kernel
  obtain ⟨result, hresult, hending⟩ := Option.map_eq_some_iff.mp hrun
  exact ⟨result, _, hresult, hending, _, List.mem_singleton_self _, rfl⟩

end Walk

end Graft
