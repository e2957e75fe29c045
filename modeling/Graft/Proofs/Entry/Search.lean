import Graft.Entry
import Graft.Fetch.Archive
import Graft.Proofs.Fetch.Outcome

/-!
# The first candidate with text

The candidates of a reference are asked for one after the other, and each as often as the options allow,
until one of them gets text (`Entry.FirstLive`). That one is the entry, and nothing is asked for after it
(`Entry.search_of_firstLive`). If none gets text, all of them were asked for in vain
(`Entry.search_of_fruitless`). As candidates are fetched gracefully, no search ends with the error of a
fetch (`Entry.resolve_first_live`).
-/

namespace Graft.Entry

open Fetcher (after_append fruitless_append firstText_or_fruitless)

variable {σ : Type} {fetcher : Fetcher σ} {options : FetchOptions} {r : Reference} {source : σ}
  {before urls : List String} {url first : String} {text : Text} {k most : Nat}

/-- All attempts at some URLs in turn, `most` at each of them. -/
def inTurn (most : Nat) (urls : List String) : List String := urls.flatMap (List.replicate most)

/-- After all attempts at the URLs in `before` were in vain, `url` gets text, in the attempt that has `k`
others at this URL before it. -/
structure FirstLive (fetcher : Fetcher σ) (most : Nat) (source : σ) (before : List String) (url : String)
    (k : Nat) (text : Text) : Prop where
  fruitless : fetcher.Fruitless source (inTurn most before)
  within : k < most
  first : fetcher.FirstText (fetcher.after source (inTurn most before)) url k text

/-! ## Candidates in turn -/

/-- The attempts at the first URL come before those at the others. -/
theorem inTurn_cons (most : Nat) (url : String) (urls : List String) :
    inTurn most (url :: urls) = List.replicate most url ++ inTurn most urls :=
  List.flatMap_cons

/-- The first of the candidates that are in vain comes before the others. -/
theorem firstLive_cons :
    FirstLive fetcher most source (first :: before) url k text ↔
      fetcher.Fruitless source (List.replicate most first) ∧
        FirstLive fetcher most (fetcher.after source (List.replicate most first)) before url k text := by
  constructor
  · rintro ⟨hfruitless, hwithin, hfirst⟩
    rw [inTurn_cons, fruitless_append] at hfruitless
    rw [inTurn_cons, after_append] at hfirst
    exact ⟨hfruitless.1, hfruitless.2, hwithin, hfirst⟩
  · rintro ⟨hnone, hfruitless, hwithin, hfirst⟩
    rw [← after_append, ← inTurn_cons] at hfirst
    refine ⟨?_, hwithin, hfirst⟩
    rw [inTurn_cons]
    exact fruitless_append.mpr ⟨hnone, hfruitless⟩

/-- Some candidate gets text before the others, or all attempts at all of them are in vain. -/
theorem firstLive_or_fruitless (fetcher : Fetcher σ) (most : Nat) (source : σ) (urls : List String) :
    (∃ before url after k text, urls = before ++ url :: after ∧
        FirstLive fetcher most source before url k text) ∨
      fetcher.Fruitless source (inTurn most urls) := by
  induction urls generalizing source with
  | nil => exact Or.inr trivial
  | cons first urls ih =>
    rcases firstText_or_fruitless fetcher source first most with ⟨k, hk, text, hfirst⟩ | hnone
    · exact Or.inl ⟨[], first, urls, k, text, rfl, trivial, hk, hfirst⟩
    · rcases ih (fetcher.after source (List.replicate most first)) with
        ⟨before, url, after, k, text, rfl, hlive⟩ | hothers
      · exact Or.inl ⟨first :: before, url, after, k, text, rfl, firstLive_cons.mpr ⟨hnone, hlive⟩⟩
      · rw [inTurn_cons]
        exact Or.inr (fruitless_append.mpr ⟨hnone, hothers⟩)

/-- Noting the requests does not change which candidate gets text first. -/
theorem firstLive_recorded {s : σ × List String}
    (h : FirstLive fetcher most s.1 before url k text) :
    FirstLive fetcher.recorded most s before url k text where
  fruitless := Fetcher.fruitless_recorded.mpr h.fruitless
  within := h.within
  first := by
    rw [Fetcher.after_recorded]
    exact Fetcher.firstText_recorded.mpr h.first

/-! ## The search -/

/-- A candidate is fetched gracefully, so attempts in vain give nothing. -/
theorem run_gracefully_of_fruitless
    (h : fetcher.Fruitless source (List.replicate options.attempts url)) :
    (Fetch.run fetcher options.gracefully source url).result = .ok none ∧
      (Fetch.run fetcher options.gracefully source url).state =
        fetcher.after source (List.replicate options.attempts url) := by
  have hgraceful : fetcher.Fruitless source (List.replicate options.gracefully.attempts url) := h
  obtain ⟨hstate, e, -, hresult⟩ := Fetch.run_of_fruitless hgraceful
  exact ⟨hresult, hstate⟩

/-- The search ends with the first candidate that gets text. -/
theorem search_of_firstLive (h : FirstLive fetcher options.attempts source before url k text)
    (r : Reference) (tried after : List String) :
    (search fetcher options r tried (before ++ url :: after) source).result = .ok (url, text) ∧
      (search fetcher options r tried (before ++ url :: after) source).state =
        fetcher.after source (inTurn options.attempts before ++ List.replicate (k + 1) url) := by
  induction before generalizing source with
  | nil =>
    have hfirst : fetcher.FirstText source url k text := h.first
    have hwithin : k < options.gracefully.attempts := h.within
    obtain ⟨hresult, hstate⟩ := Fetch.run_of_firstText hfirst hwithin
    rw [List.nil_append, search]
    simp only [hresult, true_and]
    exact hstate
  | cons first before ih =>
    -- The others are searched from the state that the attempts at the first one lead to.
    obtain ⟨hnone, hlive⟩ := firstLive_cons.mp h
    obtain ⟨hresult, hstate⟩ := run_gracefully_of_fruitless hnone
    rw [List.cons_append, search]
    simp only [hresult, hstate]
    rw [inTurn_cons, List.append_assoc, after_append]
    exact ih hlive

/-- Without a text, the search asks for all candidates and lists all that it was to try. -/
theorem search_of_fruitless (h : fetcher.Fruitless source (inTurn options.attempts urls))
    (r : Reference) (tried : List String) :
    (search fetcher options r tried urls source).result = .error (.notFound r.display tried) ∧
      (search fetcher options r tried urls source).state =
        fetcher.after source (inTurn options.attempts urls) := by
  induction urls generalizing source with
  | nil => exact ⟨rfl, rfl⟩
  | cons first urls ih =>
    rw [inTurn_cons] at h
    obtain ⟨hnone, hothers⟩ := fruitless_append.mp h
    obtain ⟨hresult, hstate⟩ := run_gracefully_of_fruitless hnone
    rw [search]
    simp only [hresult, hstate]
    rw [inTurn_cons, after_append]
    exact ih hothers

/-! ## Whole references -/

section

variable {settings : EntrySettings}

/-- The requests that finding the entry of a reference makes, in order. -/
def requests (fetcher : Fetcher σ) (settings : EntrySettings) (options : FetchOptions) (r : Reference)
    (source : σ) : List String :=
  (resolve fetcher.recorded settings options r (source, [])).state.2

/-- A reference without candidates is refused by its text. -/
theorem candidates_eq_error {e : EntryError} (h : candidates settings r = .error e) :
    e = .invalidReference r.display := by
  unfold candidates at h
  split at h
  · cases h
  · exact (Except.error.inj h).symm

/-- Without candidates nothing is asked for. -/
theorem resolve_of_error {e : EntryError} (h : candidates settings r = .error e)
    (fetcher : Fetcher σ) (options : FetchOptions) (source : σ) :
    resolve fetcher settings options r source = ⟨.error (.invalidReference r.display), source, []⟩ := by
  rw [resolve, h, candidates_eq_error h]

/-- The candidates are searched in their order. -/
theorem resolve_of_ok (h : candidates settings r = .ok urls) (fetcher : Fetcher σ)
    (options : FetchOptions) (source : σ) :
    resolve fetcher settings options r source = search fetcher options r urls urls source := by
  rw [resolve, h]

/-- The entry is the first candidate that gets text, and the last that is asked for. -/
theorem resolve_of_firstLive {after : List String}
    (h : candidates settings r = .ok (before ++ url :: after))
    (hlive : FirstLive fetcher options.attempts source before url k text) :
    (resolve fetcher settings options r source).result = .ok (url, text) ∧
      requests fetcher settings options r source =
        inTurn options.attempts before ++ List.replicate (k + 1) url := by
  have hrecorded : FirstLive fetcher.recorded options.attempts (source, []) before url k text :=
    firstLive_recorded hlive
  rw [requests, resolve_of_ok h, resolve_of_ok h, (search_of_firstLive hrecorded r _ after).2,
    Fetcher.after_recorded]
  exact ⟨(search_of_firstLive hlive r _ after).1, rfl⟩

/-- Without a text, all candidates are asked for and listed. -/
theorem resolve_of_fruitless (h : candidates settings r = .ok urls)
    (hnone : fetcher.Fruitless source (inTurn options.attempts urls)) :
    (resolve fetcher settings options r source).result = .error (.notFound r.display urls) ∧
      requests fetcher settings options r source = inTurn options.attempts urls := by
  have hrecorded : fetcher.recorded.Fruitless (source, []) (inTurn options.attempts urls) :=
    Fetcher.fruitless_recorded.mpr hnone
  rw [requests, resolve_of_ok h, resolve_of_ok h, (search_of_fruitless hrecorded r urls).2,
    Fetcher.after_recorded]
  exact ⟨(search_of_fruitless hnone r urls).1, rfl⟩

/-- Finding an entry ends with a text or with the list of what was tried, or there are no candidates and
the reference is refused. -/
theorem resolve_ends (fetcher : Fetcher σ) (settings : EntrySettings) (options : FetchOptions)
    (r : Reference) (source : σ) :
    (∃ found, (resolve fetcher settings options r source).result = .ok found) ∨
      (∃ tried, (resolve fetcher settings options r source).result =
        .error (.notFound r.display tried)) ∨
      ((∃ e, candidates settings r = .error e) ∧
        (resolve fetcher settings options r source).result = .error (.invalidReference r.display)) := by
  cases hcandidates : candidates settings r with
  | error e => exact Or.inr (Or.inr ⟨⟨e, rfl⟩, by rw [resolve_of_error hcandidates]⟩)
  | ok urls =>
    rcases firstLive_or_fruitless fetcher options.attempts source urls with
      ⟨before, url, after, k, text, rfl, hlive⟩ | hnone
    · exact Or.inl ⟨_, (resolve_of_firstLive hcandidates hlive).1⟩
    · exact Or.inr (Or.inl ⟨urls, (resolve_of_fruitless hcandidates hnone).1⟩)

end

/-- Without candidates the reference is refused, and nothing is asked for. Otherwise the candidates are
asked for in their order. The first one that gets text is the entry, after all attempts at each of those
before it were in vain; nothing is asked for after its text. If none gets text, the error lists all of
them, and each was asked for as often as the options allow. A search never ends with the error of a
fetch. -/
theorem resolve_first_live (fetcher : Fetcher σ) (settings : EntrySettings) (options : FetchOptions)
    (r : Reference) (source : σ) :
    ((∃ shown, (resolve fetcher settings options r source).result = .error (.invalidReference shown)) ↔
        ∃ e, candidates settings r = .error e) ∧
      (∀ e, candidates settings r = .error e →
        (resolve fetcher settings options r source).result = .error (.invalidReference r.display) ∧
          requests fetcher settings options r source = []) ∧
      (∀ urls, candidates settings r = .ok urls →
        (∀ before url after k text, urls = before ++ url :: after →
          FirstLive fetcher (max options.retries 1) source before url k text →
          (resolve fetcher settings options r source).result = .ok (url, text) ∧
            requests fetcher settings options r source =
              inTurn (max options.retries 1) before ++ List.replicate (k + 1) url) ∧
        ((¬ ∃ before url after k text, urls = before ++ url :: after ∧
            FirstLive fetcher (max options.retries 1) source before url k text) →
          (resolve fetcher settings options r source).result = .error (.notFound r.display urls) ∧
            requests fetcher settings options r source = inTurn (max options.retries 1) urls)) ∧
      ∀ e, (resolve fetcher settings options r source).result ≠ .error (.fetch e) := by
  refine ⟨⟨?_, ?_⟩, ?_, ?_, ?_⟩
  -- Of the three ways in which a search ends, only that without candidates refuses the reference.
  · rintro ⟨shown, hrefused⟩
    rcases resolve_ends fetcher settings options r source with
      ⟨found, hfound⟩ | ⟨tried, hnone⟩ | ⟨hcandidates, -⟩
    · rw [hfound] at hrefused
      cases hrefused
    · rw [hnone] at hrefused
      cases hrefused
    · exact hcandidates
  · rintro ⟨e, h⟩
    exact ⟨r.display, by rw [resolve_of_error h]⟩
  · intro e h
    rw [requests, resolve_of_error h, resolve_of_error h]
    exact ⟨rfl, rfl⟩
  · intro urls h
    constructor
    · rintro before url after k text rfl hlive
      exact resolve_of_firstLive h hlive
    -- Either one candidate is the first that gets text, or the search is fruitless.
    · intro hnone
      exact resolve_of_fruitless h
        ((firstLive_or_fruitless fetcher options.attempts source urls).resolve_left hnone)
  · intro e hfetch
    rcases resolve_ends fetcher settings options r source with
      ⟨found, hends⟩ | ⟨tried, hends⟩ | ⟨-, hends⟩
    all_goals
      rw [hends] at hfetch
      cases hfetch

/-- The first place of a repository has no text, the second one fails once before its text comes, and the
third one is not asked for. Without a file behind any of them all are asked for, and a name alone refers
to nothing. -/
theorem resolve_first_live_flaky :
    (resolve Archive.fetch ⟨"h", "m", ["a", "b", "c"]⟩ {} (.repository "o" "r")
        ⟨[("h/o/r/blob/m/b", "x".toList), ("h/o/r/blob/m/c", "y".toList)], [],
          [("h/o/r/blob/m/b", 1)], []⟩).result = .ok ("h/o/r/blob/m/b", "x".toList) ∧
      requests Archive.fetch ⟨"h", "m", ["a", "b", "c"]⟩ {} (.repository "o" "r")
        ⟨[("h/o/r/blob/m/b", "x".toList), ("h/o/r/blob/m/c", "y".toList)], [],
          [("h/o/r/blob/m/b", 1)], []⟩ =
        ["h/o/r/blob/m/a", "h/o/r/blob/m/a", "h/o/r/blob/m/b", "h/o/r/blob/m/b"] ∧
      (resolve Archive.fetch ⟨"h", "m", ["a"]⟩ {} (.repository "o" "r") ⟨[], [], [], []⟩).result =
        .error (.notFound "o/r" ["h/o/r/blob/m/a"]) ∧
      (resolve Archive.fetch {} {} (.file "o") ⟨[], [], [], []⟩).result =
        .error (.invalidReference "o") := by
  have hfound := ((resolve_first_live Archive.fetch ⟨"h", "m", ["a", "b", "c"]⟩ {} (.repository "o" "r")
      ⟨[("h/o/r/blob/m/b", "x".toList), ("h/o/r/blob/m/c", "y".toList)], [],
        [("h/o/r/blob/m/b", 1)], []⟩).2.2.1
      ["h/o/r/blob/m/a", "h/o/r/blob/m/b", "h/o/r/blob/m/c"] (by decide +kernel)).1
    ["h/o/r/blob/m/a"] "h/o/r/blob/m/b" ["h/o/r/blob/m/c"] 1 "x".toList rfl
    ⟨⟨rfl, rfl, trivial⟩, by decide, ⟨rfl, trivial⟩, rfl⟩
  have hnone := ((resolve_first_live Archive.fetch ⟨"h", "m", ["a"]⟩ {} (.repository "o" "r")
      ⟨[], [], [], []⟩).2.2.1 ["h/o/r/blob/m/a"] (by decide +kernel)).2 ?_
  · have hrefused := (resolve_first_live Archive.fetch {} {} (.file "o") ⟨[], [], [], []⟩).2.1 _ rfl
    exact ⟨hfound.1, hfound.2, hnone.1, hrefused.1⟩
  · rintro ⟨before, url, after, k, text, hurls, hlive⟩
    -- The only candidate is the first one, and neither of its two attempts gets text.
    obtain ⟨rfl, hrest⟩ | ⟨-, hmore⟩ := List.singleton_eq_append_iff.mp hurls
    · cases hrest
      have hk : k < 2 := hlive.within
      obtain rfl | rfl : k = 0 ∨ k = 1 := by omega
      · cases hlive.first.text
      · cases hlive.first.text
    · cases hmore

end Graft.Entry
