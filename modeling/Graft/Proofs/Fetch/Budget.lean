import Graft.Proofs.Fetch.Outcome

/-!
# The failures that an archive has left

Each request of a URL uses up one of the failures that are to come for it, and no other request does
(`Archive.remaining_after`). So the archive's reply to a request is told by the archive at the start and by
how often the URL was requested since (`Archive.reply_after`). With that, both parts of a fetch are known:
which attempt it takes, and what it leaves of the failures (`Fetch.first_text_and_budget`).
-/

namespace Graft

variable {σ : Type} {url other : String}

namespace Archive

variable {a : Archive}

/-- What a request of a URL comes to when no failure is to come. -/
def answer (a : Archive) (url : String) : Reply :=
  if url ∈ a.silent then .silent
  else
    match a.find? url with
    | some t => .text t
    | none => .refused (.notFound url)

/-- The archive with one more request. -/
def noting (a : Archive) (url : String) : Archive := { a with requests := a.requests ++ [url] }

/-! ## One request -/

/-- A request is answered, or fails and uses up a failure. -/
theorem fetch_cases (a : Archive) (url : String) :
    ((url ∈ a.silent ∨ a.remaining url = 0) ∧ fetch a url = ⟨a.answer url, a.noting url, []⟩) ∨
      (url ∉ a.silent ∧ 0 < a.remaining url ∧ fetch a url =
        ⟨.refused (.network url "injected failure"), (a.noting url).useFailure url, []⟩) := by
  have hremaining : (a.noting url).remaining url = a.remaining url := rfl
  have hfind : (a.noting url).find? url = a.find? url := rfl
  -- A silent URL has no failures to use up, and neither has one whose failures are all used up.
  by_cases hsilent : url ∈ a.silent
  · refine Or.inl ⟨Or.inl hsilent, ?_⟩
    simp [fetch, answer, noting, hsilent]
  · rcases Nat.eq_zero_or_pos (a.remaining url) with hzero | hpos
    · refine Or.inl ⟨Or.inr hzero, ?_⟩
      unfold noting at hremaining hfind
      simp only [fetch, answer, hsilent, hremaining, hfind, hzero, List.contains_eq_mem, decide_false,
        Bool.false_eq_true, if_false, Nat.lt_irrefl]
      cases a.find? url <;> rfl
    · refine Or.inr ⟨hsilent, hpos, ?_⟩
      unfold noting at hremaining
      simp [fetch, noting, hsilent, hremaining, hpos]

/-- A request leaves the URLs that never answer. -/
theorem silent_fetch (a : Archive) (url : String) : (fetch a url).state.silent = a.silent := by
  rcases fetch_cases a url with ⟨-, h⟩ | ⟨-, -, h⟩ <;> rw [h] <;> rfl

/-- A request is remembered behind those before it. -/
theorem requests_fetch (a : Archive) (url : String) :
    (fetch a url).state.requests = a.requests ++ [url] := by
  rcases fetch_cases a url with ⟨-, h⟩ | ⟨-, -, h⟩ <;> rw [h] <;> rfl

/-- A failure that is used up is one of its URL. -/
theorem remaining_useFailure (a : Archive) (other url : String) :
    (a.useFailure other).remaining url =
      if other = url then a.remaining url - 1 else a.remaining url := by
  -- Only the list of failures changes on the way, so the induction is on any such list.
  have hlist : ∀ failures : List (String × Nat),
      ({ a with failures }.useFailure other).remaining url =
        if other = url then { a with failures }.remaining url - 1
        else { a with failures }.remaining url := by
    intro failures
    induction failures with
    | nil => simp [useFailure, remaining]
    | cons failure failures ih =>
      simp only [useFailure, remaining, List.map_cons, List.find?_cons] at ih ⊢
      by_cases hurl : failure.1 = url
      · by_cases hother : other = url
        · subst hother
          simp [hurl]
        · simp [hurl, hother, Ne.symm hother]
      · by_cases hother : failure.1 = other
        · simp only [hother, if_true] at hurl ⊢
          simpa [hurl] using ih
        · simpa [hurl, hother] using ih
  exact hlist a.failures

/-- A request uses up one failure of its URL, if that is not silent. -/
theorem remaining_fetch (h : url ∉ a.silent) :
    (fetch a url).state.remaining url = a.remaining url - 1 := by
  rcases fetch_cases a url with ⟨hnone, hfetch⟩ | ⟨-, -, hfetch⟩
  · -- There was none left to use up.
    have hzero := hnone.resolve_left h
    rw [hfetch]
    exact hzero.trans (by rw [hzero])
  · rw [hfetch]
    exact (remaining_useFailure _ url url).trans (if_pos rfl)

/-- It uses up no failure of another URL. -/
theorem remaining_fetch_of_ne (a : Archive) (h : other ≠ url) :
    (fetch a other).state.remaining url = a.remaining url := by
  rcases fetch_cases a other with ⟨-, hfetch⟩ | ⟨-, -, hfetch⟩
  · rw [hfetch]
    rfl
  · rw [hfetch]
    exact (remaining_useFailure _ other url).trans (if_neg h)

/-! ## Some requests -/

/-- Requests in a row leave the files. -/
theorem files_after (a : Archive) (urls : List String) : (fetch.after a urls).files = a.files := by
  induction urls generalizing a with
  | nil => rfl
  | cons url urls ih => exact (ih _).trans (files_fetch a url)

/-- They leave the URLs that never answer, too. -/
theorem silent_after (a : Archive) (urls : List String) : (fetch.after a urls).silent = a.silent := by
  induction urls generalizing a with
  | nil => rfl
  | cons url urls ih => exact (ih _).trans (silent_fetch a url)

/-- An archive remembers all requests, in order. -/
theorem requests_after (a : Archive) (urls : List String) :
    (fetch.after a urls).requests = a.requests ++ urls := by
  induction urls generalizing a with
  | nil => exact (List.append_nil _).symm
  | cons url urls ih =>
    have hrest := ih (fetch a url).state
    rw [requests_fetch, List.append_assoc] at hrest
    exact hrest

/-- Requests use up as many failures of a URL as there are requests of it among them. -/
theorem remaining_after (h : url ∉ a.silent) (urls : List String) :
    (fetch.after a urls).remaining url = a.remaining url - urls.count url := by
  induction urls generalizing a with
  | nil => rfl
  | cons first urls ih =>
    have hrest := ih (a := (fetch a first).state) (by rwa [silent_fetch])
    have hafter : fetch.after a (first :: urls) = fetch.after (fetch a first).state urls := rfl
    rw [hafter, hrest]
    by_cases hfirst : first = url
    · subst hfirst
      rw [remaining_fetch h, List.count_cons_self]
      omega
    · rw [remaining_fetch_of_ne a hfirst, List.count_cons_of_ne hfirst]

/-- After some requests, one of a URL fails as long as there were not enough of them, and is answered
otherwise. -/
theorem reply_after (a : Archive) (urls : List String) (url : String) :
    (fetch (fetch.after a urls) url).reply =
      if url ∉ a.silent ∧ urls.count url < a.remaining url then
        .refused (.network url "injected failure")
      else a.answer url := by
  have hanswer : (fetch.after a urls).answer url = a.answer url := by
    simp only [answer, find?, silent_after, files_after]
  rcases fetch_cases (fetch.after a urls) url with ⟨hnone, hfetch⟩ | ⟨hsilent, hpos, hfetch⟩
  · rw [silent_after] at hnone
    rw [hfetch, if_neg]
    · exact hanswer
    · rintro ⟨hsilent, hcount⟩
      have hzero := hnone.resolve_left hsilent
      rw [remaining_after hsilent] at hzero
      omega
  · rw [silent_after] at hsilent
    rw [remaining_after hsilent] at hpos
    rw [hfetch, if_pos ⟨hsilent, by omega⟩]

end Archive

/-! ## Fetches one after the other -/

namespace Fetch

/-- The fetcher's state after these fetches, in order. -/
def runAll (fetcher : Fetcher σ) (calls : List (FetchOptions × String)) (source : σ) : σ :=
  calls.foldl (fun s call => (run fetcher call.1 s call.2).state) source

/-- Fetches one after the other do nothing but make attempts. -/
theorem runAll_leads (fetcher : Fetcher σ) (calls : List (FetchOptions × String)) (source : σ) :
    fetcher.Leads source (runAll fetcher calls source) := by
  induction calls generalizing source with
  | nil => exact .refl
  | cons call calls ih => exact (run_leads fetcher call.1 source call.2).trans (ih _)

/-- A fetch takes the first attempt that gets text, and makes no other after it. If none of the attempts
that the options allow gets text, it makes all of them; then it gives nothing if the options are graceful,
and otherwise the error of the last attempt. After any fetches from an archive, each request of a URL that
is not silent has used up one of its failures, as long as there were any, and no other request has. -/
theorem first_text_and_budget (options : FetchOptions) (url : String) :
    (∀ {σ : Type} (fetcher : Fetcher σ) (source : σ),
      (∀ k text, k < max options.retries 1 → fetcher.FirstText source url k text →
        (run fetcher options source url).result = .ok (some text) ∧
          requests fetcher options source url = List.replicate (k + 1) url) ∧
      ((¬ ∃ k < max options.retries 1, ∃ text, fetcher.FirstText source url k text) →
        requests fetcher options source url = List.replicate (max options.retries 1) url ∧
          (options.graceful = true → (run fetcher options source url).result = .ok none) ∧
          (options.graceful = false → ∃ last,
            (fetcher (fetcher.after source (List.replicate (max options.retries 1 - 1) url))
              url).reply.Fails options url last ∧
            (run fetcher options source url).result =
              .error (.exhausted url (max options.retries 1) last)))) ∧
    ∀ (a : Archive) (calls : List (FetchOptions × String)), url ∉ a.silent →
      ∃ asked, (runAll Archive.fetch calls a).requests = a.requests ++ asked ∧
        (runAll Archive.fetch calls a).remaining url = a.remaining url - asked.count url := by
  constructor
  · intro σ fetcher source
    constructor
    · intro k text hk htext
      exact ⟨(run_of_firstText htext hk).1, requests_of_firstText htext hk⟩
    · intro hnone
      -- No attempt gets text, so that the last error decides.
      have hfruitless :=
        (fetcher.firstText_or_fruitless source url options.attempts).resolve_left hnone
      obtain ⟨-, e, hfails, hresult⟩ := run_of_fruitless hfruitless
      refine ⟨requests_of_fruitless hfruitless, fun hgraceful => ?_, fun hplain => ⟨e, hfails, ?_⟩⟩
      · rw [hresult, if_pos hgraceful]
      · rw [hresult, if_neg (by simp [hplain])]
        rfl
  -- What is left of the budget only depends on the requests, and not on which fetches made them.
  · intro a calls hsilent
    obtain ⟨asked, hasked⟩ := (runAll_leads Archive.fetch calls a).exists_after
    refine ⟨asked, ?_, ?_⟩
    · rw [hasked, Archive.requests_after]
    · rw [hasked, Archive.remaining_after hsilent]

/-- A file that fails once arrives with the second attempt, also after one request of a missing file, and
then no failure of it is left. The missing file is asked for twice, and comes to nothing if that may be. -/
theorem first_text_and_budget_flaky :
    (run Archive.fetch {} ⟨[("/a", "x".toList)], [], [("/a", 1)], []⟩ "/a").result =
        .ok (some "x".toList) ∧
      requests Archive.fetch {} ⟨[("/a", "x".toList)], [], [("/a", 1)], []⟩ "/a" = ["/a", "/a"] ∧
      requests Archive.fetch {} ⟨[], [], [], []⟩ "/b" = ["/b", "/b"] ∧
      (∃ last, (run Archive.fetch {} ⟨[], [], [], []⟩ "/b").result =
        .error (.exhausted "/b" 2 last)) ∧
      (run Archive.fetch ⟨2, .ofSeconds 30, true⟩ ⟨[], [], [], []⟩ "/b").result = .ok none ∧
      (runAll Archive.fetch [({}, "/b"), ({}, "/a")]
        ⟨[("/a", "x".toList)], [], [("/a", 1)], []⟩).remaining "/a" = 0 := by
  have hfirst := ((first_text_and_budget {} "/a").1 Archive.fetch
    ⟨[("/a", "x".toList)], [], [("/a", 1)], []⟩).1 1 "x".toList (by decide) ⟨⟨rfl, trivial⟩, rfl⟩
  -- Neither attempt at the missing file gets text.
  have hnone : ¬ ∃ k < 2, ∃ text, Archive.fetch.FirstText ⟨[], [], [], []⟩ "/b" k text := by
    rintro ⟨k, hk, text, htext⟩
    obtain rfl | rfl : k = 0 ∨ k = 1 := by omega
    · cases htext.text
    · cases htext.text
  have hplain := ((first_text_and_budget {} "/b").1 Archive.fetch ⟨[], [], [], []⟩).2 hnone
  have hgraceful := ((first_text_and_budget ⟨2, .ofSeconds 30, true⟩ "/b").1 Archive.fetch
    ⟨[], [], [], []⟩).2 hnone
  obtain ⟨last, -, hlast⟩ := hplain.2.2 rfl
  obtain ⟨asked, hasked, hremaining⟩ := (first_text_and_budget {} "/a").2
    ⟨[("/a", "x".toList)], [], [("/a", 1)], []⟩ [({}, "/b"), ({}, "/a")] (by decide)
  refine ⟨hfirst.1, hfirst.2, hplain.1, ⟨last, hlast⟩, hgraceful.2.1 rfl, ?_⟩
  have hrequests : asked = ["/b", "/b", "/a", "/a"] := hasked.symm.trans (by decide +kernel)
  rw [hremaining, hrequests]
  rfl

end Fetch

end Graft
