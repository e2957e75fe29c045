import Graft.Proofs.Fetch.Budget
import Graft.Proofs.Walk.Asking
import Graft.Proofs.Walk.Ending
import Graft.Proofs.Walk.InStep

/-!
# Failures that pass

A walk over an archive in which every request may fail some times, but less often than a fetch makes
attempts, is in step with the walk over the same archive without failures (`transient_failures_invisible`).
A fetch comes to the same in both, and makes in the first the requests of the second with those repeated
that failed before their text came (`Archive.run_stretch`). The failures of a URL are still to come when it
is asked for, as no file is fetched twice.
-/

namespace Graft

variable {options : FetchOptions} {url : String}

namespace Archive

variable {a : Archive} {asked : List String}

/-- The same archive with no failure to come. -/
def settled (a : Archive) : Archive := { a with failures := [] }

/-- How many requests of a URL fail before its text comes. Where no text comes, none of them counts. -/
def failsFirst (a : Archive) (url : String) : Nat :=
  if (a.answer url).text?.isSome then a.remaining url else 0

/-- Requests with each of them repeated as often as it fails before its text comes. -/
def stretch (a : Archive) (asked : List String) : List String :=
  asked.flatMap fun url => List.replicate (a.failsFirst url + 1) url

/-- Requests are stretched one by one. -/
theorem stretch_append (a : Archive) (asked more : List String) :
    a.stretch (asked ++ more) = a.stretch asked ++ a.stretch more :=
  List.flatMap_append

/-- Stretching asks for the same URLs. -/
theorem mem_stretch : url ∈ a.stretch asked ↔ url ∈ asked := by
  simp [stretch, List.mem_replicate]

/-- Requests that are not repeated stay as they are. -/
theorem stretch_replicate (h : a.failsFirst url = 0) (n : Nat) :
    a.stretch (List.replicate n url) = List.replicate n url := by
  rw [stretch, List.flatMap_replicate, h]
  exact List.flatten_replicate_singleton

/-- A silent URL is answered by silence, which is no text. -/
theorem answer_of_silent (h : url ∈ a.silent) : a.answer url = .silent := if_pos h

/-! ## One fetch -/

/-- The reply to a request that comes after `k` others of its URL, and after some of other URLs. -/
theorem reply_replicate (hnew : url ∉ asked) (k : Nat) :
    (fetch (fetch.after (fetch.after a asked) (List.replicate k url)) url).reply =
      if url ∉ a.silent ∧ k < a.remaining url then .refused (.network url "injected failure")
      else a.answer url := by
  rw [← Fetcher.after_append, reply_after, List.count_append, List.count_eq_zero.mpr hnew,
    List.count_replicate_self, Nat.zero_add]

/-- A text behind a URL comes after the failures of the URL, if they leave an attempt for it. -/
theorem run_of_text {text : Text} (hnew : url ∉ asked) (hfew : a.remaining url < options.attempts)
    (htext : (a.answer url).text? = some text) :
    (Fetch.run fetch options (fetch.after a asked) url).result = .ok (some text) ∧
      (Fetch.run fetch options (fetch.after a asked) url).state =
        fetch.after a (asked ++ List.replicate (a.remaining url + 1) url) := by
  have hsilent : url ∉ a.silent := by
    intro hsilent
    rw [answer_of_silent hsilent] at htext
    cases htext
  -- The requests of the URL fail first as often as it has failures left, and then get the text.
  have hfirst : fetch.FirstText (fetch.after a asked) url (a.remaining url) text := by
    constructor
    · refine Fetcher.fruitless_replicate_iff.mpr fun k hk => ?_
      rw [reply_replicate hnew, if_pos ⟨hsilent, hk⟩]
      rfl
    · rw [reply_replicate hnew, if_neg fun h => Nat.lt_irrefl _ h.2]
      exact htext
  rw [Fetcher.after_append]
  exact Fetch.run_of_firstText hfirst hfew

/-- Without a text behind a URL all attempts are in vain, and the last one comes after all failures. -/
theorem run_of_no_text (hnew : url ∉ asked) (hfew : a.remaining url < options.attempts)
    (htext : (a.answer url).text? = none) :
    (∃ e, (a.answer url).Fails options url e ∧
        (Fetch.run fetch options (fetch.after a asked) url).result =
          if options.graceful then .ok none else .error (.exhausted url options.attempts e)) ∧
      (Fetch.run fetch options (fetch.after a asked) url).state =
        fetch.after a (asked ++ List.replicate options.attempts url) := by
  have hnone : fetch.Fruitless (fetch.after a asked) (List.replicate options.attempts url) := by
    refine Fetcher.fruitless_replicate_iff.mpr fun k _ => ?_
    rw [reply_replicate hnew]
    split
    · rfl
    · exact htext
  obtain ⟨hstate, e, hfails, hresult⟩ := Fetch.run_of_fruitless hnone
  rw [reply_replicate hnew, if_neg fun h => by omega] at hfails
  rw [Fetcher.after_append]
  exact ⟨⟨e, hfails, hresult⟩, hstate⟩

/-- With fewer failures of a new URL than attempts, its fetch comes to the same as without failures. -/
theorem run_stretch (hnew : url ∉ asked) (hfew : a.remaining url < options.attempts) :
    (Fetch.run fetch options (fetch.after a (a.stretch asked)) url).result =
        (Fetch.run fetch options (fetch.after a.settled asked) url).result ∧
      ∃ n, (Fetch.run fetch options (fetch.after a.settled asked) url).state =
          fetch.after a.settled (asked ++ List.replicate n url) ∧
        (Fetch.run fetch options (fetch.after a (a.stretch asked)) url).state =
          fetch.after a (a.stretch (asked ++ List.replicate n url)) := by
  have hnew' : url ∉ a.stretch asked := mt mem_stretch.mp hnew
  have hsettled : a.settled.remaining url < options.attempts := Fetch.attempts_pos options
  cases htext : (a.answer url).text? with
  | some text =>
    -- Without failures the first attempt gets the text, with them the first one behind them.
    obtain ⟨hresult, hstate⟩ := run_of_text hnew' hfew htext
    obtain ⟨hresult', hstate'⟩ := run_of_text (a := a.settled) hnew hsettled htext
    refine ⟨hresult.trans hresult'.symm, 1, hstate', ?_⟩
    have hfails : a.failsFirst url = a.remaining url := by simp [failsFirst, htext]
    have hone : a.stretch (List.replicate 1 url) = List.replicate (a.remaining url + 1) url := by
      simp [stretch, hfails]
    rw [hstate, stretch_append, hone]
  | none =>
    -- All attempts are made in both, and a failure never is the last of them.
    obtain ⟨⟨e, hfails, hresult⟩, hstate⟩ := run_of_no_text hnew' hfew htext
    obtain ⟨⟨e', hfails', hresult'⟩, hstate'⟩ := run_of_no_text (a := a.settled) hnew hsettled htext
    obtain rfl : e = e' := hfails.unique hfails'
    refine ⟨hresult.trans hresult'.symm, options.attempts, hstate', ?_⟩
    have hnever : a.failsFirst url = 0 := by simp [failsFirst, htext]
    rw [hstate, stretch_append, stretch_replicate hnever]

end Archive

namespace Walk

variable {options : InlineOptions} {a : Archive}

/-- A file that is not fetched any more. -/
def Shared.Taken {σ : Type} (s : Shared σ) (url : String) : Prop := url ∈ s.failed ∨ url ∈ s.visited

/-- A file that could not be fetched is taken. -/
theorem Shared.taken_withFailure {σ : Type} {s : Shared σ} {source : σ} {url other : String} :
    (s.withFailure url source).Taken other ↔ other = url ∨ s.Taken other :=
  (or_congr_left List.mem_cons).trans or_assoc

/-- A file that is put in is taken. -/
theorem Shared.taken_withFile {σ : Type} {s : Shared σ} {source : σ} {text : Text}
    {url other : String} : (s.withFile url text source).Taken other ↔ other = url ∨ s.Taken other :=
  (or_congr_right List.mem_cons).trans or_left_comm

/-- The archives of two walks, without and with failures, after the same requests but for those that are
repeated since they failed. -/
def Stretched (a clean faulty : Archive) : Prop :=
  ∃ asked, clean = Archive.fetch.after a.settled asked ∧
    faulty = Archive.fetch.after a (a.stretch asked)

/-- So it is while the walks are under way. Only files that were taken were asked for. -/
def StretchedSoFar (a : Archive) (s : Shared Archive) (faulty : Archive) : Prop :=
  ∃ asked, (∀ url ∈ asked, s.Taken url) ∧
    s.source = Archive.fetch.after a.settled asked ∧
    faulty = Archive.fetch.after a (a.stretch asked)

/-- A fetch of a new file is in step, and asks for nothing else. -/
theorem StretchedSoFar.run {s : Shared Archive} {faulty : Archive} {url : String}
    (h : StretchedSoFar a s faulty) (hfew : a.remaining url < options.fetch.attempts)
    (hfailed : url ∉ s.failed) (hvisited : url ∉ s.visited) :
    (Fetch.run Archive.fetch options.fetchOptions faulty url).result =
        (Fetch.run Archive.fetch options.fetchOptions s.source url).result ∧
      ∃ asked, (∀ other ∈ asked, other = url ∨ s.Taken other) ∧
        (Fetch.run Archive.fetch options.fetchOptions s.source url).state =
          Archive.fetch.after a.settled asked ∧
        (Fetch.run Archive.fetch options.fetchOptions faulty url).state =
          Archive.fetch.after a (a.stretch asked) := by
  obtain ⟨asked, htaken, hclean, rfl⟩ := h
  -- The URL is new to the walk, so none of its failures is used up yet.
  have hnew : url ∉ asked := fun hasked => (htaken url hasked).elim hfailed hvisited
  rw [← attempts_fetchOptions] at hfew
  obtain ⟨hresult, n, hcleanState, hfaultyState⟩ := Archive.run_stretch hnew hfew
  rw [hclean]
  refine ⟨hresult, asked ++ List.replicate n url, fun other hother => ?_, hcleanState, hfaultyState⟩
  rcases List.mem_append.mp hother with hold | hnow
  · exact Or.inr (htaken other hold)
  · exact Or.inl (List.eq_of_mem_replicate hnow)

/-- The two walks stay in step if no URL has as many failures as a fetch makes attempts. -/
theorem stretched_keptInStep (options : InlineOptions)
    (hfew : ∀ url, a.remaining url < options.fetch.attempts) :
    KeptInStep Archive.fetch Archive.fetch options (StretchedSoFar a) (Stretched a) where
  pass _ _ _ h := h
  result _ _ url h hfailed hvisited := (h.run (hfew url) hfailed hvisited).1
  fail _ _ url h hfailed hvisited := by
    obtain ⟨-, asked, htaken, hstates⟩ := h.run (hfew url) hfailed hvisited
    exact ⟨asked, fun other hother => Shared.taken_withFailure.mpr (htaken other hother), hstates⟩
  enter _ _ url _ h hfailed hvisited := by
    obtain ⟨-, asked, htaken, hstates⟩ := h.run (hfew url) hfailed hvisited
    exact ⟨asked, fun other hother => Shared.taken_withFile.mpr (htaken other hother), hstates⟩
  gaveUp _ _ url h hfailed hvisited := by
    obtain ⟨-, asked, -, hstates⟩ := h.run (hfew url) hfailed hvisited
    exact ⟨asked, hstates⟩
  finished _ _ h := by
    obtain ⟨asked, -, hstates⟩ := h
    exact ⟨asked, hstates⟩

/-- A walk over an archive with failures, `faulty`, against the one without: both end in the same way, and
the requests are the same but for those that failed before their text came. -/
structure Undisturbed (a : Archive) (clean faulty : Result Archive) : Prop where
  ending : faulty.ending = clean.ending
  requests : ∃ asked, clean.source.requests = a.requests ++ asked ∧
    faulty.source.requests = a.requests ++ a.stretch asked

/-- Failures that leave an attempt for each file change nothing but the requests of a walk. The walk ends,
as the one without failures does, after as many steps and in the same way, be it with an object or an
error. Its requests are those of the walk without failures, where each one of a URL that has a text is
repeated in its place as often as it fails first. -/
theorem transient_failures_invisible (options : InlineOptions) (content : Option Text) (entry : String)
    (a : Archive) (hfew : ∀ url, a.remaining url < max options.fetch.retries 1) :
    (∃ steps faulty, inline? Archive.fetch options steps content entry a = some faulty) ∧
      ∀ steps, Option.Rel (Undisturbed a)
        (inline? Archive.fetch options steps content entry a.settled)
        (inline? Archive.fetch options steps content entry a) := by
  constructor
  · rcases inline?_eq_some_or Archive.fetch options content entry a with hnothing | ⟨text, -, hwalk⟩
    · exact ⟨0, hnothing 0⟩
    · obtain ⟨steps, faulty, hrun⟩ :
          ∃ steps faulty, run? Archive.fetch options entry steps (start text entry a) = some faulty :=
        exists_run? a.finite_available.toFinset options entry _ (by simp [start])
      exact ⟨steps, faulty, by rw [hwalk, hrun]⟩
  -- Both walks start alike, and each step keeps them alike, with the same deeds.
  · intro steps
    have hstart : Stretched a a.settled a := ⟨[], rfl, rfl⟩
    have hends := (stretched_keptInStep options hfew).inline? steps content entry hstart
      fun text => ⟨[], List.forall_mem_nil _, rfl, rfl⟩
    generalize inline? Archive.fetch options steps content entry a.settled = clean at hends ⊢
    generalize inline? Archive.fetch options steps content entry a = faulty at hends ⊢
    cases hends with
    | none => exact .none
    | some h =>
      obtain ⟨hending, asked, hclean, hfaulty⟩ := h
      refine .some ⟨hending, asked, ?_, ?_⟩
      · rw [hclean, Archive.requests_after]
        rfl
      · rw [hfaulty, Archive.requests_after]

/-- Of three files the first fails once before it arrives, the second is missing and fails once as well, and
the third is silent: the walk gives the same object as without failures, and asks for the first file twice. -/
theorem transient_failures_invisible_flaky :
    ∃ clean faulty,
      inline? Archive.fetch {} 9
          (some "import {a} from './b'\nimport {x} from './c'\nimport {y} from './d'\n{a}".toList) "/p"
          ⟨[("/b", "function a(){}".toList)], ["/d"], [], []⟩ = some clean ∧
        inline? Archive.fetch {} 9
          (some "import {a} from './b'\nimport {x} from './c'\nimport {y} from './d'\n{a}".toList) "/p"
          ⟨[("/b", "function a(){}".toList)], ["/d"], [("/b", 1), ("/c", 1)], []⟩ = some faulty ∧
        faulty.ending = clean.ending ∧
        clean.source.requests = ["/b", "/c", "/c", "/d", "/d"] ∧
        faulty.source.requests = ["/b", "/b", "/c", "/c", "/d", "/d"] := by
  have hfew : ∀ url, Archive.remaining
      ⟨[("/b", "function a(){}".toList)], ["/d"], [("/b", 1), ("/c", 1)], []⟩ url < 2 := by
    intro url
    by_cases hb : "/b" = url
    · simp [Archive.remaining, hb]
    · by_cases hc : "/c" = url <;> simp [Archive.remaining, hb, hc]
  have hends := (transient_failures_invisible {}
    (some "import {a} from './b'\nimport {x} from './c'\nimport {y} from './d'\n{a}".toList) "/p"
    ⟨[("/b", "function a(){}".toList)], ["/d"], [("/b", 1), ("/c", 1)], []⟩ hfew).2 9
  have hrequests : (inline? Archive.fetch {} 9
      (some "import {a} from './b'\nimport {x} from './c'\nimport {y} from './d'\n{a}".toList) "/p"
      ⟨[("/b", "function a(){}".toList)], ["/d"], [], []⟩).map (fun clean => clean.source.requests) =
      some ["/b", "/c", "/c", "/d", "/d"] := by
    decide +kernel
  obtain ⟨clean, hclean, hasked⟩ := Option.map_eq_some_iff.mp hrequests
  rw [Archive.settled, hclean] at hends
  generalize inline? Archive.fetch {} 9 _ "/p" _ = faulty? at hends ⊢
  cases hends with
  | @some _ faulty h =>
    obtain ⟨hending, asked, hcleanAsked, hfaultyAsked⟩ := h
    obtain rfl : asked = ["/b", "/c", "/c", "/d", "/d"] := hcleanAsked.symm.trans hasked
    exact ⟨clean, faulty, hclean, rfl, hending, hasked, hfaultyAsked.trans (by decide +kernel)⟩

end Walk

end Graft
