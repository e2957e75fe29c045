import Graft.Proofs.Fetch.Attempts
import Graft.Proofs.Fetch.Available

/-!
# What a fetch comes to

A fetch is told by the replies that its attempts get. The first of them that has text ends it, and its
text is what the fetch gives (`Fetch.run_of_firstText`). If none has text, all attempts are made, and the
last reply tells the error (`Fetch.run_of_fruitless`). One of the two is always so
(`Fetcher.firstText_or_fruitless`). As each attempt may change the fetcher, replies are those after the
attempts before (`Fetcher.after`).
-/

namespace Graft

variable {σ : Type} {fetcher : Fetcher σ} {options : FetchOptions} {url : String} {text : Text}

/-- The text of a reply. An empty one counts as none. -/
def Reply.text? : Reply → Option Text
  | .text (c :: t) => some (c :: t)
  | _ => none

/-- In what way a reply without text fails. -/
inductive Reply.Fails (options : FetchOptions) (url : String) : Reply → FetchError → Prop
  | empty : Fails options url (.text []) (.empty url)
  | refused (e : FetchError) : Fails options url (.refused e) e
  | silent : Fails options url .silent (.timeout url options.allowed)

/-- A reply fails in one way. -/
theorem Reply.Fails.unique {reply : Reply} {e e' : FetchError} (h : reply.Fails options url e)
    (h' : reply.Fails options url e') : e = e' := by
  cases h <;> cases h' <;> rfl

namespace Fetcher

/-- The fetcher's state after attempts at these URLs, in order. -/
def after (fetcher : Fetcher σ) (source : σ) (urls : List String) : σ :=
  urls.foldl (fun s url => (fetcher s url).state) source

/-- None of some attempts, in order, gets text. -/
def Fruitless (fetcher : Fetcher σ) : σ → List String → Prop
  | _, [] => True
  | s, url :: urls => (fetcher s url).reply.text? = none ∧ Fruitless fetcher (fetcher s url).state urls

/-- Of attempts at a URL in a row, the first one that gets text has this many before it. -/
structure FirstText (fetcher : Fetcher σ) (source : σ) (url : String) (before : Nat) (text : Text) :
    Prop where
  fruitless : fetcher.Fruitless source (List.replicate before url)
  text : (fetcher (fetcher.after source (List.replicate before url)) url).reply.text? = some text

/-! ## Attempts in a row -/

/-- Attempts after attempts start in the state that the first ones leave. -/
theorem after_append (fetcher : Fetcher σ) (source : σ) (urls more : List String) :
    fetcher.after source (urls ++ more) = fetcher.after (fetcher.after source urls) more :=
  List.foldl_append

/-- The last attempt is made in the state that those before it leave. -/
theorem after_concat (fetcher : Fetcher σ) (source : σ) (urls : List String) (url : String) :
    fetcher.after source (urls ++ [url]) = (fetcher (fetcher.after source urls) url).state :=
  fetcher.after_append source urls [url]

/-- Attempts are in vain if the first ones are, and then the others. -/
theorem fruitless_append {source : σ} {urls more : List String} :
    fetcher.Fruitless source (urls ++ more) ↔
      fetcher.Fruitless source urls ∧ fetcher.Fruitless (fetcher.after source urls) more := by
  induction urls generalizing source with
  | nil => exact (iff_of_eq (true_and _)).symm
  | cons url urls ih => exact (and_congr_right fun _ => ih).trans and_assoc.symm

/-- Attempts at one URL are in vain if each of them is. -/
theorem fruitless_replicate_iff {source : σ} {n : Nat} :
    fetcher.Fruitless source (List.replicate n url) ↔
      ∀ i < n, (fetcher (fetcher.after source (List.replicate i url)) url).reply.text? = none := by
  induction n with
  | zero => simp [Fruitless]
  | succ n ih =>
    rw [List.replicate_succ', fruitless_append, ih, Nat.forall_lt_succ_right]
    exact and_congr_right fun _ => and_iff_left trivial

/-- Some attempt gets text before the others, or none of them does. -/
theorem firstText_or_fruitless (fetcher : Fetcher σ) (source : σ) (url : String) (n : Nat) :
    (∃ k < n, ∃ text, fetcher.FirstText source url k text) ∨
      fetcher.Fruitless source (List.replicate n url) := by
  induction n with
  | zero => exact Or.inr trivial
  | succ n ih =>
    rcases ih with ⟨k, hk, htext⟩ | hnone
    · exact Or.inl ⟨k, Nat.lt_succ_of_lt hk, htext⟩
    · cases hlast : (fetcher (fetcher.after source (List.replicate n url)) url).reply.text? with
      | some text => exact Or.inl ⟨n, Nat.lt_succ_self n, text, hnone, hlast⟩
      | none =>
        rw [List.replicate_succ']
        exact Or.inr (fruitless_append.mpr ⟨hnone, hlast, trivial⟩)

/-- A fetcher that notes what it is asked for has made a note of all of it. -/
theorem after_recorded (fetcher : Fetcher σ) (s : σ × List String) (urls : List String) :
    fetcher.recorded.after s urls = (fetcher.after s.1 urls, s.2 ++ urls) := by
  induction urls generalizing s with
  | nil => exact Prod.ext rfl (List.append_nil s.2).symm
  | cons url urls ih => exact (ih _).trans (Prod.ext rfl (List.append_assoc s.2 [url] urls))

/-- It gets the same replies. -/
theorem fruitless_recorded {s : σ × List String} {urls : List String} :
    fetcher.recorded.Fruitless s urls ↔ fetcher.Fruitless s.1 urls := by
  induction urls generalizing s with
  | nil => exact Iff.rfl
  | cons url urls ih => exact and_congr_right fun _ => ih

/-- Noting the requests does not change which attempt gets the first text. -/
theorem firstText_recorded {s : σ × List String} {k : Nat} :
    fetcher.recorded.FirstText s url k text ↔ fetcher.FirstText s.1 url k text := by
  have hreply : (fetcher.recorded (fetcher.recorded.after s (List.replicate k url)) url).reply =
      (fetcher (fetcher.after s.1 (List.replicate k url)) url).reply := by
    rw [after_recorded]
    rfl
  constructor
  · exact fun h => ⟨fruitless_recorded.mp h.fruitless, hreply ▸ h.text⟩
  · exact fun h => ⟨fruitless_recorded.mpr h.fruitless, hreply ▸ h.text⟩

/-- What attempts lead to is what some of them, in order, lead to. -/
theorem Leads.exists_after {s t : σ} (h : fetcher.Leads s t) : ∃ urls, t = fetcher.after s urls := by
  induction h with
  | refl => exact ⟨[], rfl⟩
  | attempt _ url ih =>
    obtain ⟨urls, rfl⟩ := ih
    exact ⟨urls ++ [url], (fetcher.after_concat s urls url).symm⟩

end Fetcher

namespace Fetch

variable {source : σ} {left attempt k : Nat} {last : FetchError}

/-! ## One reply -/

/-- An attempt that gets text succeeds with it. -/
theorem judge_of_text {reply : Reply} (h : reply.text? = some text) :
    judge options url reply = .ok text := by
  unfold Reply.text? at h
  split at h
  · cases h
    rfl
  · cases h

/-- An attempt that gets no text fails in the way its reply says. -/
theorem judge_of_no_text {reply : Reply} (h : reply.text? = none) (options : FetchOptions)
    (url : String) : ∃ e, reply.Fails options url e ∧ judge options url reply = .error e := by
  cases reply with
  | text t =>
    cases t with
    | nil => exact ⟨_, .empty, rfl⟩
    | cons c t => cases h
  | refused e => exact ⟨e, .refused e, rfl⟩
  | silent => exact ⟨_, .silent, rfl⟩

/-! ## Some attempts -/

/-- The first text ends the attempts. -/
theorem tryFrom_of_firstText (h : fetcher.FirstText source url k text) (hk : k < left) (attempt : Nat)
    (last : FetchError) :
    (tryFrom fetcher options url left attempt last source).result = .ok (some text) ∧
      (tryFrom fetcher options url left attempt last source).state =
        fetcher.after source (List.replicate (k + 1) url) := by
  induction left generalizing k attempt last source with
  | zero => omega
  | succ left ih =>
    rw [tryFrom]
    cases k with
    | zero =>
      have hfirst : (fetcher source url).reply.text? = some text := h.text
      rw [judge_of_text hfirst]
      exact ⟨rfl, rfl⟩
    | succ k =>
      -- The first attempt is in vain, and the text comes after `k` others.
      obtain ⟨hfirst, hothers⟩ := h.fruitless
      obtain ⟨e, -, hjudge⟩ := judge_of_no_text hfirst options url
      rw [hjudge]
      exact ih ⟨hothers, h.text⟩ (by omega) (attempt + 1) e

/-- Attempts in vain are all made; the last of them tells the error. -/
theorem tryFrom_of_fruitless (h : fetcher.Fruitless source (List.replicate left url))
    (options : FetchOptions) (attempt : Nat) (last : FetchError) :
    (tryFrom fetcher options url left attempt last source).state =
        fetcher.after source (List.replicate left url) ∧
      ∃ e, (∀ n, left = n + 1 →
          (fetcher (fetcher.after source (List.replicate n url)) url).reply.Fails options url e) ∧
        (left = 0 → e = last) ∧
        (tryFrom fetcher options url left attempt last source).result =
          if options.graceful then .ok none else .error (.exhausted url options.attempts e) := by
  induction left generalizing attempt last source with
  | zero => exact ⟨rfl, last, fun n hn => by omega, fun _ => rfl, rfl⟩
  | succ left ih =>
    obtain ⟨hfirst, hothers⟩ := h
    obtain ⟨e, hfails, hjudge⟩ := judge_of_no_text hfirst options url
    obtain ⟨hstate, e', hlater, hnow, hresult⟩ := ih hothers (attempt + 1) e
    rw [tryFrom, hjudge]
    refine ⟨hstate, e', fun n hn => ?_, fun hzero => by omega, hresult⟩
    -- The last attempt is this one, or it comes after this one.
    cases n with
    | zero =>
      obtain rfl : left = 0 := by omega
      rw [hnow rfl]
      exact hfails
    | succ n => exact hlater n (by omega)

/-! ## All attempts -/

/-- At least one attempt is made, even with no retries. -/
theorem attempts_pos (options : FetchOptions) : 0 < options.attempts :=
  Nat.lt_of_lt_of_le Nat.one_pos (Nat.le_max_right _ _)

/-- A fetch gives the first text, and makes no attempt after it. -/
theorem run_of_firstText (h : fetcher.FirstText source url k text) (hk : k < options.attempts) :
    (run fetcher options source url).result = .ok (some text) ∧
      (run fetcher options source url).state = fetcher.after source (List.replicate (k + 1) url) :=
  tryFrom_of_firstText h hk 1 (.empty url)

/-- A fetch that gets no text makes all attempts, and fails as the last of them did. -/
theorem run_of_fruitless (h : fetcher.Fruitless source (List.replicate options.attempts url)) :
    (run fetcher options source url).state =
        fetcher.after source (List.replicate options.attempts url) ∧
      ∃ e, (fetcher (fetcher.after source (List.replicate (options.attempts - 1) url)) url).reply.Fails
          options url e ∧
        (run fetcher options source url).result =
          if options.graceful then .ok none else .error (.exhausted url options.attempts e) := by
  obtain ⟨hstate, e, hlast, -, hresult⟩ := tryFrom_of_fruitless h options 1 (.empty url)
  have hpos := attempts_pos options
  exact ⟨hstate, e, hlast (options.attempts - 1) (by omega), hresult⟩

/-- The requests that a fetch makes, in order. -/
def requests (fetcher : Fetcher σ) (options : FetchOptions) (source : σ) (url : String) :
    List String :=
  (run fetcher.recorded options (source, []) url).state.2

/-- The first text is the last that is asked for. -/
theorem requests_of_firstText (h : fetcher.FirstText source url k text) (hk : k < options.attempts) :
    requests fetcher options source url = List.replicate (k + 1) url := by
  have hrecorded : fetcher.recorded.FirstText (source, []) url k text :=
    Fetcher.firstText_recorded.mpr h
  rw [requests, (run_of_firstText hrecorded hk).2, Fetcher.after_recorded]
  rfl

/-- Without a text, all attempts are requests. -/
theorem requests_of_fruitless
    (h : fetcher.Fruitless source (List.replicate options.attempts url)) :
    requests fetcher options source url = List.replicate options.attempts url := by
  have hrecorded : fetcher.recorded.Fruitless (source, []) (List.replicate options.attempts url) :=
    Fetcher.fruitless_recorded.mpr h
  rw [requests, (run_of_fruitless hrecorded).1, Fetcher.after_recorded]
  rfl

end Fetch

end Graft
