import Graft.Proofs.Walk.History

/-!
# Two walks in step

Two walks over the same entry may have fetchers of their own. They stay in step as long as every fetch of a
new file comes to the same in both: `KeptInStep` lists what this asks of the fetchers, with a relation
between what is shared in one walk and the state of the other one's fetcher. Then each visit comes to the
same in both (`KeptInStep.visit`), and so does each step (`KeptInStep.step`) and the whole walk
(`KeptInStep.inline?`).
-/

namespace Graft.Walk

variable {σ τ : Type}

/-- What is shared, with the state of another fetcher. -/
def Shared.withSource (s : Shared σ) (source : τ) : Shared τ :=
  ⟨s.draft, s.scopes, s.visited, s.failed, s.skipped, source, s.deeds⟩

/-- What two walks keep while they are in step: `R` relates what is shared in the first one to the fetcher's
state of the second one, and `Q` the fetchers' states when both are over. -/
structure KeptInStep (fetcher : Fetcher σ) (fetcher' : Fetcher τ) (options : InlineOptions)
    (R : Shared σ → τ → Prop) (Q : σ → τ → Prop) : Prop where
  pass : ∀ s source skipped, R s source → R (s.pass skipped) source
  result : ∀ s source url, R s source → url ∉ s.failed → url ∉ s.visited →
    (Fetch.run fetcher' options.fetchOptions source url).result =
      (Fetch.run fetcher options.fetchOptions s.source url).result
  fail : ∀ s source url, R s source → url ∉ s.failed → url ∉ s.visited →
    R (s.withFailure url (Fetch.run fetcher options.fetchOptions s.source url).state)
      (Fetch.run fetcher' options.fetchOptions source url).state
  enter : ∀ s source url text, R s source → url ∉ s.failed → url ∉ s.visited →
    R (s.withFile url text (Fetch.run fetcher options.fetchOptions s.source url).state)
      (Fetch.run fetcher' options.fetchOptions source url).state
  gaveUp : ∀ s source url, R s source → url ∉ s.failed → url ∉ s.visited →
    Q (Fetch.run fetcher options.fetchOptions s.source url).state
      (Fetch.run fetcher' options.fetchOptions source url).state
  finished : ∀ s source, R s source → Q s.source source

/-- Visits that come to the same, with related states of the fetchers. -/
inductive Visit.InStep (R : Shared σ → τ → Prop) (Q : σ → τ → Prop) : Visit σ → Visit τ → Prop
  | passed {s : Shared σ} {source : τ} (h : R s source) :
    InStep R Q (.passed s) (.passed (s.withSource source))
  | entered {s : Shared σ} {source : τ} (h : R s source) (imports : List Import) :
    InStep R Q (.entered s imports) (.entered (s.withSource source) imports)
  | gaveUp {source : σ} {source' : τ} (h : Q source source') (e : InlineError) (deeds : List Deed) :
    InStep R Q (.gaveUp e source deeds) (.gaveUp e source' deeds)

/-- States of two walks that are in step. -/
structure State.InStep (R : Shared σ → τ → Prop) (s : State σ) (t : State τ) : Prop where
  stack : t.stack = s.stack
  shared : ∃ deeds, t.shared deeds = (s.shared deeds).withSource t.source ∧ R (s.shared deeds) t.source

/-- Steps to states that are in step, or to the same ending. -/
inductive Step.InStep (R : Shared σ → τ → Prop) (Q : σ → τ → Prop) : Step σ → Step τ → Prop
  | continues {s : State σ} {t : State τ} (h : s.InStep R t) : InStep R Q (.continues s) (.continues t)
  | ends {source : σ} {source' : τ} (h : Q source source') (ending : Ending) (log log' : List Event) :
    InStep R Q (.ends ending source log) (.ends ending source' log')

/-- Finished walks with the same ending and related states of the fetchers. -/
structure Result.InStep (Q : σ → τ → Prop) (result : Result σ) (result' : Result τ) : Prop where
  ending : result'.ending = result.ending
  source : Q result.source result'.source

/-- States that share the same after their steps are in step. -/
theorem State.InStep.of_shared {R : Shared σ → τ → Prop} {s : State σ} {t : State τ}
    {next : Shared σ} {source : τ} {deeds deeds' : List Deed} (hstack : t.stack = s.stack)
    (hs : s.shared deeds = next) (ht : t.shared deeds' = next.withSource source)
    (hR : R next source) : s.InStep R t := by
  subst hs
  -- Both made the same deeds.
  obtain rfl : deeds' = deeds := congrArg Shared.deeds ht
  obtain rfl : t.source = source := congrArg Shared.source ht
  exact ⟨hstack, deeds', ht, hR⟩

namespace KeptInStep

variable {fetcher : Fetcher σ} {fetcher' : Fetcher τ} {options : InlineOptions}
  {R : Shared σ → τ → Prop} {Q : σ → τ → Prop} {shared : Shared σ} {source : τ} {s : State σ}
  {t : State τ} {entry : String}

/-- Each visit comes to the same in both walks. -/
theorem visit (h : KeptInStep fetcher fetcher' options R Q) (hR : R shared source)
    (importer url : String) :
    (shared.visit fetcher options importer url).InStep R Q
      ((shared.withSource source).visit fetcher' options importer url) := by
  have hsets : (shared.withSource source).failed = shared.failed ∧
      (shared.withSource source).visited = shared.visited ∧
      (shared.withSource source).source = source := ⟨rfl, rfl, rfl⟩
  unfold Shared.visit
  rw [hsets.1, hsets.2.1, hsets.2.2]
  by_cases hfailed : url ∈ shared.failed
  · rw [if_pos hfailed, if_pos hfailed]
    exact .passed (h.pass shared source _ hR)
  · by_cases hvisited : url ∈ shared.visited
    · rw [if_neg hfailed, if_neg hfailed, if_pos hvisited, if_pos hvisited]
      exact .passed (h.pass shared source _ hR)
    · -- The file is new in both walks, and its fetch comes to the same.
      rw [if_neg hfailed, if_neg hfailed, if_neg hvisited, if_neg hvisited]
      simp only [h.result shared source url hR hfailed hvisited]
      cases (Fetch.run fetcher options.fetchOptions shared.source url).result with
      | error e => exact .gaveUp (h.gaveUp shared source url hR hfailed hvisited) _ _
      | ok text? =>
        cases text? with
        | none => exact .passed (h.pass _ _ _ (h.fail shared source url hR hfailed hvisited))
        | some text =>
          have hentered := h.enter shared source url text hR hfailed hvisited
          simp only [Shared.enter, Shared.withSource, List.append_assoc, List.cons_append,
            List.nil_append]
          cases (shared.draft.inlineFile (shared.scopes.record url (Import.all text url)) url
              (Declaration.extract text)).result? with
          | none => exact .gaveUp (h.gaveUp shared source url hR hfailed hvisited) _ _
          | some count => exact .entered hentered _

/-- Two walks take their steps alike. -/
theorem step (h : KeptInStep fetcher fetcher' options R Q) (hs : s.InStep R t) :
    (s.step fetcher options entry).InStep R Q (t.step fetcher' options entry) := by
  obtain ⟨deeds, hshared, hR⟩ := hs.shared
  cases hstack : s.stack with
  | nil =>
    -- Both walks are over, with the same object.
    obtain ⟨⟨log, hsends⟩, -⟩ := State.step_nil fetcher options entry hstack
    obtain ⟨⟨log', htends⟩, -⟩ := State.step_nil fetcher' options entry (hs.stack.trans hstack)
    have houtput : t.output = s.output :=
      congrArg (fun shared : Shared τ =>
        (⟨shared.draft.buffer.text, shared.draft.renamings, shared.skipped⟩ : Output)) hshared
    rw [hsends, htends, houtput]
    exact .ends (h.finished _ _ hR) _ _ _
  | cons file stack =>
    obtain ⟨importer, imports⟩ := file
    cases imports with
    | nil =>
      rw [(State.step_leave fetcher options entry hstack rfl).1,
        (State.step_leave fetcher' options entry (hs.stack.trans hstack) rfl).1]
      exact .continues ⟨rfl, deeds, hshared, hR⟩
    | cons i imports =>
      have hsstep := State.step_visit fetcher options entry deeds hstack
      have htstep := State.step_visit fetcher' options entry deeds (hs.stack.trans hstack)
      have hvisits := h.visit hR importer i.url
      rw [hshared] at htstep
      generalize (s.shared deeds).visit fetcher options importer i.url = visit at hsstep hvisits
      generalize ((s.shared deeds).withSource t.source).visit fetcher' options importer i.url =
        visit' at htstep hvisits
      cases hvisits with
      | @passed next source hnext =>
        obtain ⟨s', hs', hsstack, hsshared⟩ := hsstep
        obtain ⟨t', ht', htstack, htshared⟩ := htstep
        rw [hs', ht']
        exact .continues (.of_shared (htstack.trans hsstack.symm) hsshared htshared hnext)
      | @entered next source hnext own =>
        obtain ⟨s', hs', hsstack, hsshared⟩ := hsstep
        obtain ⟨t', ht', htstack, htshared⟩ := htstep
        rw [hs', ht']
        exact .continues (.of_shared (htstack.trans hsstack.symm) hsshared htshared hnext)
      | gaveUp hQ e done =>
        obtain ⟨⟨log, hsends⟩, -⟩ := hsstep
        obtain ⟨⟨log', htends⟩, -⟩ := htstep
        rw [hsends, htends]
        exact .ends hQ _ _ _

/-- So do their runs, and one is over when the other is. -/
theorem run? (h : KeptInStep fetcher fetcher' options R Q) (steps : Nat) (hs : s.InStep R t) :
    Option.Rel (Result.InStep Q) (run? fetcher options entry steps s)
      (run? fetcher' options entry steps t) := by
  induction steps generalizing s t with
  | zero => exact .none
  | succ steps ih =>
    rw [Walk.run?, Walk.run?]
    have hstep : (s.step fetcher options entry).InStep R Q (t.step fetcher' options entry) := h.step hs
    generalize s.step fetcher options entry = next at hstep ⊢
    generalize t.step fetcher' options entry = next' at hstep ⊢
    cases hstep with
    | continues hnext => exact ih hnext
    | ends hQ ending log log' => exact .some ⟨rfl, hQ⟩

/-- Two walks over one entry end alike, if they start with related states of their fetchers. -/
theorem inline? (h : KeptInStep fetcher fetcher' options R Q) (steps : Nat) (content : Option Text)
    (entry : String) {source : σ} {source' : τ} (hQ : Q source source')
    (hR : ∀ text, R ((start text entry source).shared []) source') :
    Option.Rel (Result.InStep Q) (inline? fetcher options steps content entry source)
      (inline? fetcher' options steps content entry source') := by
  unfold Walk.inline?
  cases content.filter fun t => !isBlank t with
  | none => exact .some ⟨rfl, hQ⟩
  | some text =>
    have hplace : (start text entry source').stack = (start text entry source).stack ∧
        (start text entry source').draft = (start text entry source).draft := ⟨rfl, rfl⟩
    simp only [hplace.1, hplace.2]
    split
    · exact .some ⟨rfl, hQ⟩
    · exact h.run? steps ⟨rfl, [], rfl, hR text⟩

end KeptInStep

end Graft.Walk
