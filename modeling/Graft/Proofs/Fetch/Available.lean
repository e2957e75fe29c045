import Mathlib.Data.Set.Finite.Lattice
import Graft.Fetch.Archive

/-!
# Files that can be fetched

What a fetcher answers may depend on what it was asked before, so a file is available from a state if it
is answered in some state that attempts lead to (`Fetcher.available`). A fetch gives only text that is
available, and leads to a state from which nothing new is (`Fetch.run_leads`, `Fetch.exists_attempt`). An
archive has no other files available than those it holds (`Archive.finite_available`).
-/

namespace Graft

variable {σ : Type} {fetcher : Fetcher σ} {source s t u : σ} {url : String} {text : Text}

/-- Attempts lead from one state of a fetcher to another. -/
inductive Fetcher.Leads (fetcher : Fetcher σ) (source : σ) : σ → Prop
  | refl : Leads fetcher source source
  | attempt {s : σ} (h : Leads fetcher source s) (url : String) :
    Leads fetcher source (fetcher s url).state

/-- The URLs that a fetcher in some state will ever give text for. Text that is empty does not count. -/
def Fetcher.available (fetcher : Fetcher σ) (source : σ) : Set String :=
  {url | ∃ s text, fetcher.Leads source s ∧ (fetcher s url).reply = .text text ∧ text ≠ []}

/-- Attempts after attempts. -/
theorem Fetcher.Leads.trans (h : fetcher.Leads s t) (h' : fetcher.Leads t u) : fetcher.Leads s u := by
  induction h' with
  | refl => exact h
  | attempt _ url ih => exact ih.attempt url

/-- Attempts make nothing available. -/
theorem Fetcher.Leads.available_subset (h : fetcher.Leads s t) :
    fetcher.available t ⊆ fetcher.available s := by
  rintro url ⟨u, text, hleads, hreply, hne⟩
  exact ⟨u, text, h.trans hleads, hreply, hne⟩

namespace Fetch

variable {options : FetchOptions}

/-- An attempt that succeeds gives text that is not empty. -/
theorem judge_eq_ok_iff {reply : Reply} :
    judge options url reply = .ok text ↔ reply = .text text ∧ text ≠ [] := by
  cases reply with
  | text t => cases t <;> simp +contextual [judge, eq_comm]
  | refused e => simp [judge]
  | silent => simp [judge]

/-- A fetch does nothing but make attempts. -/
theorem tryFrom_leads (fetcher : Fetcher σ) (options : FetchOptions) (url : String)
    (left attempt : Nat) (last : FetchError) (s : σ) :
    fetcher.Leads s (tryFrom fetcher options url left attempt last s).state := by
  induction left generalizing attempt last s with
  | zero => exact .refl
  | succ left ih =>
    have hfirst : fetcher.Leads s (fetcher s url).state := .attempt .refl url
    rw [tryFrom]
    cases judge options url (fetcher s url).reply with
    | ok t => exact hfirst
    | error e => exact hfirst.trans (ih (attempt + 1) e _)

/-- A whole fetch does nothing but make attempts, either. -/
theorem run_leads (fetcher : Fetcher σ) (options : FetchOptions) (s : σ) (url : String) :
    fetcher.Leads s (run fetcher options s url).state :=
  tryFrom_leads fetcher options url options.attempts 1 (.empty url) s

/-- The text that some attempts come to is what one of them gives. -/
theorem exists_attempt_of_tryFrom {left attempt : Nat} {last : FetchError}
    (h : (tryFrom fetcher options url left attempt last source).result = .ok (some text)) :
    ∃ s, fetcher.Leads source s ∧ (fetcher s url).reply = .text text ∧ text ≠ [] := by
  induction left generalizing attempt last source with
  | zero =>
    rw [tryFrom] at h
    simp only at h
    split at h <;> cases h
  | succ left ih =>
    rw [tryFrom] at h
    cases hjudge : judge options url (fetcher source url).reply with
    | ok t =>
      rw [hjudge] at h
      cases h
      exact ⟨source, .refl, judge_eq_ok_iff.mp hjudge⟩
    | error e =>
      rw [hjudge] at h
      obtain ⟨s, hleads, hreply⟩ := ih h
      exact ⟨s, (Fetcher.Leads.attempt .refl url).trans hleads, hreply⟩

/-- The text that a fetch comes to is what one of its attempts gives. -/
theorem exists_attempt (h : (run fetcher options source url).result = .ok (some text)) :
    ∃ s, fetcher.Leads source s ∧ (fetcher s url).reply = .text text ∧ text ≠ [] :=
  exists_attempt_of_tryFrom h

/-- What is fetched was available. -/
theorem mem_available (h : (run fetcher options source url).result = .ok (some text)) :
    url ∈ fetcher.available source := by
  obtain ⟨s, hleads, hreply, hne⟩ := exists_attempt h
  exact ⟨s, text, hleads, hreply, hne⟩

end Fetch

namespace Archive

variable {a b : Archive}

/-- A request leaves the files of an archive as they are. -/
theorem files_fetch (a : Archive) (url : String) : (fetch a url).state.files = a.files := by
  unfold fetch
  simp only
  split
  · rfl
  · split
    · rfl
    · split <;> rfl

/-- No requests change the files of an archive. -/
theorem files_of_leads (h : fetch.Leads a b) : b.files = a.files := by
  induction h with
  | refl => rfl
  | @attempt s _ url ih => rw [files_fetch, ih]

/-- An archive answers with one of its files. -/
theorem mem_of_reply (h : (fetch a url).reply = .text text) : (url, text) ∈ a.files := by
  unfold fetch at h
  simp only at h
  split at h
  · cases h
  · split at h
    · cases h
    · split at h
      · next t hfind =>
        cases h
        obtain ⟨⟨url', text'⟩, hfile, rfl⟩ := Option.map_eq_some_iff.mp hfind
        have hurl : url' = url := by simpa using List.find?_some hfile
        exact hurl ▸ List.mem_of_find?_eq_some hfile
      · cases h

/-- What a fetch from an archive comes to is one of its files, and the archive keeps its files. -/
theorem mem_of_run {options : FetchOptions}
    (h : (Fetch.run fetch options a url).result = .ok (some text)) : (url, text) ∈ a.files := by
  obtain ⟨b, hleads, hreply, -⟩ := Fetch.exists_attempt h
  rw [← files_of_leads hleads]
  exact mem_of_reply hreply

/-- An archive has finitely many files to give, whatever it is asked. -/
theorem finite_available (a : Archive) : (fetch.available a).Finite := by
  refine (List.finite_toSet (a.files.map Prod.fst)).subset ?_
  rintro url ⟨b, text, hleads, hreply, -⟩
  have hfile := mem_of_reply hreply
  rw [files_of_leads hleads] at hfile
  show url ∈ a.files.map Prod.fst
  exact List.mem_map.mpr ⟨(url, text), hfile, rfl⟩

end Archive

end Graft
