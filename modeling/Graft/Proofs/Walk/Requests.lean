import Graft.Proofs.Fetch.Attempts
import Graft.Proofs.Walk.History

/-!
# What a walk asks for

A walk with a recorded fetcher is the same walk (`inline?_bare`), and the list that it ends with are
the requests that the walk made, attempt by attempt (`requests`). As the walk goes on the list only
grows (`run?_requests`).
-/

namespace Graft.Walk

variable {σ : Type} {fetcher : Fetcher σ} {options : InlineOptions} {entry : String} {steps : Nat}

/-! ## A walk with its requests recorded -/

/-- A state without the requests that led to it. -/
def State.bare (s : State (σ × List String)) : State σ :=
  ⟨s.draft, s.scopes, s.visited, s.failed, s.skipped, s.stack, s.source.1, s.log⟩

/-- A step without the requests. -/
def Step.bare : Step (σ × List String) → Step σ
  | .continues s => .continues s.bare
  | .ends ending source log => .ends ending source.1 log

/-- A finished walk without its requests. -/
def Result.bare (result : Result (σ × List String)) : Result σ :=
  ⟨result.ending, result.source.1, result.log⟩

/-- Recording the requests changes nothing else about putting a file in. -/
theorem State.enter_bare (s : State (σ × List String)) (importer url : String) (text : Text) :
    (s.enter importer url text).bare = s.bare.enter importer url text := by
  unfold enter bare
  simp only
  cases (s.draft.inlineFile (s.scopes.record url (Import.all text url)) url
      (Declaration.byName ((Declaration.attempts text).filterMap
        Declaration.Attempt.declaration?))).result? with
  | none => rfl
  | some count => rfl

/-- Recording the requests changes nothing else about taking an import. -/
theorem State.take_bare (s : State (σ × List String)) (importer url : String) :
    (s.take fetcher.recorded options importer url).bare =
      s.bare.take fetcher options importer url := by
  -- Passing over a file asks for nothing, and a fetch with records gives what the one without them gives.
  unfold take
  have hsets : (s.bare.visited.contains url || s.bare.failed.contains url) =
      (s.visited.contains url || s.failed.contains url) := rfl
  rw [hsets]
  split
  · rfl
  · obtain ⟨n, -, -, hrun⟩ := Fetch.run_recorded fetcher options.fetchOptions s.source url
    have hbare : s.bare.source = s.source.1 := rfl
    simp only [hrun, hbare]
    cases (Fetch.run fetcher options.fetchOptions s.source.1 url).result with
    | error e => rfl
    | ok text? =>
      cases text? with
      | none => rfl
      | some text => exact State.enter_bare _ importer url text

/-- Recording the requests changes nothing else about a step. -/
theorem State.step_bare (s : State (σ × List String)) :
    (s.step fetcher.recorded options entry).bare = s.bare.step fetcher options entry := by
  unfold step
  have hstack : s.bare.stack = s.stack := rfl
  rw [hstack]
  cases s.stack with
  | nil => rfl
  | cons file stack =>
    obtain ⟨importer, imports⟩ := file
    cases imports with
    | nil => rfl
    | cons i imports => exact State.take_bare _ importer i.url

/-- Recording the requests changes nothing else about some steps. -/
theorem run?_bare (s : State (σ × List String)) :
    (run? fetcher.recorded options entry steps s).map Result.bare =
      run? fetcher options entry steps s.bare := by
  induction steps generalizing s with
  | zero => rfl
  | succ steps ih =>
    rw [run?, run?, ← State.step_bare]
    cases s.step fetcher.recorded options entry with
    | continues s' => exact ih s'
    | ends ending source log => rfl

/-- Recording the requests changes nothing else about a walk. -/
theorem inline?_bare (fetcher : Fetcher σ) (options : InlineOptions) (steps : Nat)
    (content : Option Text) (entry : String) (source : σ) (asked : List String) :
    (inline? fetcher.recorded options steps content entry (source, asked)).map Result.bare =
      inline? fetcher options steps content entry source := by
  unfold inline?
  cases content.filter fun t => !isBlank t with
  | none => rfl
  | some content =>
    simp only
    have hplace : (start content entry (source, asked)).stack = (start content entry source).stack ∧
        (start content entry (source, asked)).draft = (start content entry source).draft :=
      ⟨rfl, rfl⟩
    rw [hplace.1, hplace.2]
    split
    · rfl
    · exact run?_bare (start content entry (source, asked))

/-- The requests that a walk from an entry makes, in order. -/
def requests (fetcher : Fetcher σ) (options : InlineOptions) (steps : Nat) (content : Option Text)
    (entry : String) (source : σ) : List String :=
  match inline? fetcher.recorded options steps content entry (source, []) with
  | some result => result.source.2
  | none => []

/-- A finished walk is one with its requests recorded. -/
theorem exists_recorded {content : Option Text} {source : σ} {result : Result σ}
    (h : inline? fetcher options steps content entry source = some result) :
    ∃ recorded, inline? fetcher.recorded options steps content entry (source, []) = some recorded ∧
      recorded.ending = result.ending ∧
      recorded.source = (result.source, requests fetcher options steps content entry source) := by
  rw [← inline?_bare fetcher options steps content entry source []] at h
  obtain ⟨recorded, hrecorded, rfl⟩ := Option.map_eq_some_iff.mp h
  refine ⟨recorded, hrecorded, rfl, ?_⟩
  unfold requests
  rw [hrecorded]
  rfl

/-- A walk with its requests recorded is a finished walk. -/
theorem of_recorded {content : Option Text} {source : σ} {recorded : Result (σ × List String)}
    (h : inline? fetcher.recorded options steps content entry (source, []) = some recorded) :
    inline? fetcher options steps content entry source = some recorded.bare ∧
      requests fetcher options steps content entry source = recorded.source.2 := by
  constructor
  · rw [← inline?_bare fetcher options steps content entry source [], h]
    rfl
  · unfold requests
    rw [h]

/-! ## Requests grow -/

/-- The fetcher's state after a visit. -/
def Visit.source : Visit σ → σ
  | .passed s => s.source
  | .entered s _ => s.source
  | .gaveUp _ source _ => source

/-- A visit leaves the fetcher alone, or makes one fetch. -/
theorem Shared.visit_source (fetcher : Fetcher σ) (options : InlineOptions) (s : Shared σ)
    (importer url : String) :
    (s.visit fetcher options importer url).source = s.source ∨
      (s.visit fetcher options importer url).source =
        (Fetch.run fetcher options.fetchOptions s.source url).state := by
  have hcomes := s.visit_comes fetcher options importer url
  generalize s.visit fetcher options importer url = visit at hcomes ⊢
  cases hcomes with
  | failedBefore _ => exact Or.inl rfl
  | visitedBefore _ _ => exact Or.inl rfl
  | refused _ _ _ => exact Or.inr rfl
  | missing _ _ _ => exact Or.inr rfl
  | unplaced _ _ _ _ => exact Or.inr rfl
  | arrived _ _ _ _ => exact Or.inr rfl

/-- A visit only adds requests. -/
theorem Shared.visit_requests (fetcher : Fetcher σ) (options : InlineOptions)
    (s : Shared (σ × List String)) (importer url : String) :
    s.source.2 <+: (s.visit fetcher.recorded options importer url).source.2 := by
  rcases s.visit_source fetcher.recorded options importer url with hsource | hsource
  · exact hsource ▸ List.prefix_refl s.source.2
  · obtain ⟨n, -, -, hrun⟩ := Fetch.run_recorded fetcher options.fetchOptions s.source url
    rw [hsource, hrun]
    exact List.prefix_append _ _

/-- The rest of a walk only adds requests. -/
theorem run?_requests {s : State (σ × List String)} {result : Result (σ × List String)}
    (h : run? fetcher.recorded options entry steps s = some result) :
    s.source.2 <+: result.source.2 := by
  -- The induction is on the steps, and each step adds to the requests what its visit asks for.
  induction steps generalizing s with
  | zero => cases h
  | succ steps ih =>
    rw [run?] at h
    have hgrows : ∀ {importer url visit},
        (s.shared []).visit fetcher.recorded options importer url = visit →
          s.source.2 <+: visit.source.2 := by
      rintro importer url _ rfl
      exact (s.shared []).visit_requests fetcher options importer url
    cases hstep : s.step fetcher.recorded options entry with
    | continues s' =>
      rw [hstep] at h
      refine List.IsPrefix.trans ?_ (ih h)
      rcases State.step_continues hstep [] with
        ⟨file, stack, -, -, rfl, -⟩ |
        ⟨importer, i, imports, stack, -, ⟨hvisit, -⟩ | ⟨own, hvisit, -⟩⟩
      · exact List.prefix_refl _
      · exact hgrows hvisit
      · exact hgrows hvisit
    | ends ending source log =>
      rw [hstep] at h
      cases h
      rcases State.step_ends hstep [] with
        ⟨-, -, rfl, -⟩ | ⟨importer, i, imports, stack, e, -, hvisit, -⟩
      · exact List.prefix_refl _
      · exact hgrows hvisit

end Graft.Walk
