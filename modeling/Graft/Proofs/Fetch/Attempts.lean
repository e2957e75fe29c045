import Graft.Fetch

/-!
# Attempts

A fetch makes some attempts at one URL and no others. `Fetcher.recorded` notes each of them in its
state and is the same fetcher otherwise, so what a computation asks for can be read off its state
(`Fetch.run_recorded`). Being graceful changes only what a fetch gives when all attempts failed
(`Fetch.run_gracefully`).
-/

namespace Graft

variable {σ : Type}

/-- A fetcher that also notes each URL that it is asked for. -/
def Fetcher.recorded (fetcher : Fetcher σ) : Fetcher (σ × List String) := fun s url =>
  let made := fetcher s.1 url
  ⟨made.reply, (made.state, s.2 ++ [url]), made.events⟩

namespace Fetch

/-- Recording some attempts changes nothing else about them; all of them ask for the same URL, and if
any are left, one is made. -/
theorem tryFrom_recorded (fetcher : Fetcher σ) (options : FetchOptions) (url : String)
    (left attempt : Nat) (last : FetchError) (s : σ × List String) :
    ∃ n, n ≤ left ∧ (0 < left → 0 < n) ∧
      tryFrom fetcher.recorded options url left attempt last s =
        ⟨(tryFrom fetcher options url left attempt last s.1).result,
          ((tryFrom fetcher options url left attempt last s.1).state, s.2 ++ List.replicate n url),
          (tryFrom fetcher options url left attempt last s.1).events⟩ := by
  induction left generalizing attempt last s with
  | zero => exact ⟨0, Nat.le_refl 0, id, by simp [tryFrom]⟩
  | succ left ih =>
    rw [tryFrom, tryFrom]
    have hreply : (fetcher.recorded s url).reply = (fetcher s.1 url).reply := rfl
    rw [hreply]
    cases hjudge : judge options url (fetcher s.1 url).reply with
    | ok t => exact ⟨1, by omega, fun _ => Nat.one_pos, rfl⟩
    | error e =>
      -- The attempts that are left are made after the URL was noted once.
      obtain ⟨n, hn, -, hrest⟩ := ih (attempt + 1) e (fetcher.recorded s url).state
      refine ⟨n + 1, by omega, fun _ => Nat.succ_pos n, ?_⟩
      simp only
      rw [hrest]
      simp [Fetcher.recorded, List.replicate_succ]

/-- With its attempts recorded, a fetch gives the same; it asks for nothing but its URL, at least once
and not more often than allowed. -/
theorem run_recorded (fetcher : Fetcher σ) (options : FetchOptions) (s : σ × List String)
    (url : String) :
    ∃ n, 0 < n ∧ n ≤ options.attempts ∧
      run fetcher.recorded options s url =
        ⟨(run fetcher options s.1 url).result,
          ((run fetcher options s.1 url).state, s.2 ++ List.replicate n url),
          (run fetcher options s.1 url).events⟩ := by
  have hattempts : 0 < options.attempts := Nat.lt_of_lt_of_le Nat.one_pos (Nat.le_max_right _ _)
  obtain ⟨n, hn, hpos, hrun⟩ :=
    tryFrom_recorded fetcher options url options.attempts 1 (.empty url) s
  exact ⟨n, hpos hattempts, hn, hrun⟩

/-- Some attempts that are made gracefully are the same, and come to the same text or, in place of an
error, to no text. -/
theorem tryFrom_gracefully (fetcher : Fetcher σ) {options : FetchOptions}
    (hplain : options.graceful = false) (url : String) (left attempt : Nat) (last : FetchError)
    (s : σ) :
    (tryFrom fetcher options.gracefully url left attempt last s).state =
        (tryFrom fetcher options url left attempt last s).state ∧
      ((∃ text, (tryFrom fetcher options url left attempt last s).result = .ok (some text) ∧
          (tryFrom fetcher options.gracefully url left attempt last s).result = .ok (some text)) ∨
        ∃ e, (tryFrom fetcher options url left attempt last s).result = .error e ∧
          (tryFrom fetcher options.gracefully url left attempt last s).result = .ok none) := by
  -- The two runs judge each reply alike, and differ only when no attempt is left.
  induction left generalizing attempt last s with
  | zero => simp [tryFrom, FetchOptions.gracefully, hplain]
  | succ left ih =>
    rw [tryFrom, tryFrom]
    have hjudge : judge options.gracefully url (fetcher s url).reply =
        judge options url (fetcher s url).reply := rfl
    rw [hjudge]
    cases judge options url (fetcher s url).reply with
    | ok text => exact ⟨rfl, Or.inl ⟨text, rfl, rfl⟩⟩
    | error e => exact ih (attempt + 1) e (fetcher s url).state

/-- Fetching gracefully makes the same attempts. It gives the same text, and no text in place of an
error. -/
theorem run_gracefully (fetcher : Fetcher σ) {options : FetchOptions}
    (hplain : options.graceful = false) (s : σ) (url : String) :
    (run fetcher options.gracefully s url).state = (run fetcher options s url).state ∧
      ((∃ text, (run fetcher options s url).result = .ok (some text) ∧
          (run fetcher options.gracefully s url).result = .ok (some text)) ∨
        ∃ e, (run fetcher options s url).result = .error e ∧
          (run fetcher options.gracefully s url).result = .ok none) :=
  tryFrom_gracefully fetcher hplain url options.attempts 1 (.empty url) s

/-- A graceful fetch never fails. -/
theorem run_ne_error (fetcher : Fetcher σ) {options : FetchOptions}
    (hgraceful : options.graceful = true) (s : σ) (url : String) (e : FetchError) :
    (run fetcher options s url).result ≠ .error e := by
  have htry : ∀ left attempt last s,
      (tryFrom fetcher options url left attempt last s).result ≠ .error e := by
    intro left
    induction left with
    | zero => simp [tryFrom, hgraceful]
    | succ left ih =>
      intro attempt last s
      rw [tryFrom]
      cases judge options url (fetcher s url).reply with
      | ok text => simp
      | error e' => exact ih (attempt + 1) e' (fetcher s url).state
  exact htry options.attempts 1 (.empty url) s

end Fetch

end Graft
