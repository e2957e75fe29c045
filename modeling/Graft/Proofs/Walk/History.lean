import Graft.Proofs.Text.Cut
import Graft.Walk

/-!
# What a walk does

The deeds of a walk are the fetches that it makes, the files that it puts in and the imports that it
passes over, in order. `Shared.visit` takes one import without any stack: it says what becomes of the
draft, the scopes and the sets of files, and which imports are to be followed next. A step of the
machine that takes an import does the same to its state and changes only the top of its stack
(`State.step_visit`), so whatever a visit keeps holds in every state of a walk
(`Kept.reaches`).
-/

namespace Graft.Walk

/-- Something that a walk does. -/
inductive Deed where
  /-- It asks for the text behind a URL and gets an answer. -/
  | fetch (url : String) (answer : Except FetchError (Option Text))
  /-- It puts in the declarations of a file. -/
  | inline (url : String) (declarations : List Declaration)
  /-- It passes over an import. -/
  | skip (skipped : Skipped)

variable {σ : Type}

/-! ## Deeds of the machine -/

/-- What the next step of a walk does. -/
def State.deeds (fetcher : Fetcher σ) (options : InlineOptions) (s : State σ) : List Deed :=
  match s.stack with
  | [] => []
  | file :: _ =>
    match file.imports with
    | [] => []
    | i :: _ =>
      if s.visited.contains i.url || s.failed.contains i.url then
        -- A file that failed and one that was put in are both passed over, for different reasons.
        let reason := if s.failed.contains i.url then SkipReason.fetchFailed else .alreadyInlined
        [.skip ⟨i.url, file.url, reason⟩]
      else
        let answer := (Fetch.run fetcher options.fetchOptions s.source i.url).result
        .fetch i.url answer ::
          match answer with
          | .error _ => []
          | .ok none => [.skip ⟨i.url, file.url, .fetchFailed⟩]
          | .ok (some text) => [.inline i.url (Declaration.extract text)]

/-- What up to `steps` steps from a state do, in order. -/
def history (fetcher : Fetcher σ) (options : InlineOptions) (entry : String) :
    (steps : Nat) → State σ → List Deed
  | 0, _ => []
  | steps + 1, s =>
    s.deeds fetcher options ++
      match s.step fetcher options entry with
      | .ends _ _ _ => []
      | .continues s => history fetcher options entry steps s

/-- The deeds of inlining an entry in up to `steps` steps. -/
def inlineHistory (fetcher : Fetcher σ) (options : InlineOptions) (steps : Nat)
    (content : Option Text) (entry : String) (source : σ) : List Deed :=
  match content.filter fun t => !isBlank t with
  | none => []
  | some content =>
    let s := start content entry source
    if s.stack.any (fun file => !file.imports.isEmpty) && s.draft.buffer.lastBrace?.isNone then []
    else history fetcher options entry steps s

/-- Some steps lead from one state to another and do some deeds. -/
inductive Reaches (fetcher : Fetcher σ) (options : InlineOptions) (entry : String) :
    (steps : Nat) → State σ → List Deed → State σ → Prop
  | refl (s : State σ) : Reaches fetcher options entry 0 s [] s
  | step {steps : Nat} {s s' t : State σ} {deeds : List Deed}
      (h : s.step fetcher options entry = .continues s')
      (hs : Reaches fetcher options entry steps s' deeds t) :
      Reaches fetcher options entry (steps + 1) s (s.deeds fetcher options ++ deeds) t

/-! ## Visits -/

/-- What all open files of a walk share: everything but the stack and the log, and the deeds so far. -/
structure Shared (σ : Type) where
  draft : Draft
  scopes : Scopes
  visited : List String
  failed : List String
  skipped : List Skipped
  source : σ
  deeds : List Deed

/-- What comes of taking an import. -/
inductive Visit (σ : Type) where
  /-- It is passed over. -/
  | passed (s : Shared σ)
  /-- The file behind it is put in, and has imports of its own. -/
  | entered (s : Shared σ) (imports : List Import)
  /-- The walk is given up. -/
  | gaveUp (e : InlineError) (source : σ) (deeds : List Deed)

/-- What is shared after a visit, unless the walk is given up. -/
def Visit.shared? : Visit σ → Option (Shared σ)
  | .passed s => some s
  | .entered s _ => some s
  | .gaveUp _ _ _ => none

namespace Shared

/-- Passes over an import. -/
def pass (s : Shared σ) (skipped : Skipped) : Shared σ :=
  { s with skipped := s.skipped ++ [skipped], deeds := s.deeds ++ [.skip skipped] }

/-- Puts in the declarations of a file. -/
def enter (s : Shared σ) (url : String) (text : Text) : Visit σ :=
  let declarations := Declaration.extract text
  let imports := Import.all text url
  let scopes := s.scopes.record url imports
  let done := s.draft.inlineFile scopes url declarations
  let deeds := s.deeds ++ [.inline url declarations]
  match done.result? with
  | none => .gaveUp (.missingClosingBrace s.draft.buffer.origin) s.source deeds
  | some _ =>
    .entered { s with draft := done.draft, scopes, visited := url :: s.visited, deeds } imports

/-- Takes an import of the file `importer`: passes over a file that was taken before, and otherwise
fetches it and puts it in. -/
def visit (fetcher : Fetcher σ) (options : InlineOptions) (s : Shared σ) (importer url : String) :
    Visit σ :=
  if url ∈ s.failed then .passed (s.pass ⟨url, importer, .fetchFailed⟩)
  else if url ∈ s.visited then .passed (s.pass ⟨url, importer, .alreadyInlined⟩)
  else
    let fetched := Fetch.run fetcher options.fetchOptions s.source url
    let s : Shared σ :=
      { s with source := fetched.state, deeds := s.deeds ++ [.fetch url fetched.result] }
    match fetched.result with
    | .error e => .gaveUp (.importUnavailable url importer (some e)) s.source s.deeds
    | .ok none => .passed ({ s with failed := url :: s.failed }.pass ⟨url, importer, .fetchFailed⟩)
    | .ok (some text) => s.enter url text

end Shared

/-- A state without its stack and log, after some deeds. -/
def State.shared (s : State σ) (deeds : List Deed) : Shared σ :=
  ⟨s.draft, s.scopes, s.visited, s.failed, s.skipped, s.source, deeds⟩

variable {fetcher : Fetcher σ} {options : InlineOptions} {entry : String} {s s' t : State σ}
  {result : Result σ} {steps more : Nat} {deeds later : List Deed}

/-! ## One step -/

/-- A walk with no open file ends. -/
theorem State.step_nil (fetcher : Fetcher σ) (options : InlineOptions) (entry : String)
    (hstack : s.stack = []) :
    (∃ log, s.step fetcher options entry = .ends (.ok s.output) s.source log) ∧
      s.deeds fetcher options = [] := by
  simp [step, deeds, finish, hstack]

/-- A file whose imports are all taken is left. -/
theorem State.step_leave (fetcher : Fetcher σ) (options : InlineOptions) (entry : String)
    {file : Pending} {stack : List Pending} (hstack : s.stack = file :: stack)
    (himports : file.imports = []) :
    s.step fetcher options entry = .continues { s with stack := stack } ∧
      s.deeds fetcher options = [] := by
  simp [step, deeds, hstack, himports]

/-- A step that takes an import is a visit; it takes the import off the top of the stack, and puts on
the file that it opens. -/
theorem State.step_visit (fetcher : Fetcher σ) (options : InlineOptions) (entry : String)
    (deeds : List Deed) {importer : String} {i : Import} {imports : List Import}
    {stack : List Pending} (hstack : s.stack = ⟨importer, i :: imports⟩ :: stack) :
    match (s.shared deeds).visit fetcher options importer i.url with
    | .passed next => ∃ s', s.step fetcher options entry = .continues s' ∧
        s'.stack = ⟨importer, imports⟩ :: stack ∧
        s'.shared (deeds ++ s.deeds fetcher options) = next
    | .entered next own => ∃ s', s.step fetcher options entry = .continues s' ∧
        s'.stack = ⟨i.url, own⟩ :: ⟨importer, imports⟩ :: stack ∧
        s'.shared (deeds ++ s.deeds fetcher options) = next
    | .gaveUp e source done => (∃ log, s.step fetcher options entry = .ends (.error e) source log) ∧
            deeds ++ s.deeds fetcher options = done := by
  have hstep : s.step fetcher options entry =
      { s with stack := ⟨importer, imports⟩ :: stack }.take fetcher options importer i.url := by
    unfold step
    rw [hstack]
  unfold Shared.visit State.deeds
  rw [hstep, hstack]
  -- The machine looks whether the file was taken before, and only then why; the visit asks the
  -- other way.
  by_cases hfailed : i.url ∈ s.failed
  · simp [shared, take, skip, hfailed, Shared.pass]
  · by_cases hvisited : i.url ∈ s.visited
    · simp [shared, take, skip, hfailed, hvisited, Shared.pass]
    · -- The import is new, so all depends on the answer of the fetch.
      simp only [shared, take, hfailed, hvisited, if_false, List.contains_eq_mem, decide_false,
        Bool.or_false, Bool.false_eq_true]
      cases hresult : (Fetch.run fetcher options.fetchOptions s.source i.url).result with
      | error e => simp
      | ok text? =>
        cases text? with
        | none => simp [fail, Shared.pass]
        | some text =>
          simp only [enter, Shared.enter, Declaration.extract]
          cases (s.draft.inlineFile (s.scopes.record i.url (Import.all text i.url)) i.url
            (Declaration.byName ((Declaration.attempts text).filterMap
              Declaration.Attempt.declaration?))).result? with
          | none => simp
          | some count => simp

/-- A step that goes on leaves a file, or is a visit that passes over the import or opens its file. -/
theorem State.step_continues (h : s.step fetcher options entry = .continues s')
    (before : List Deed) :
    (∃ file stack, s.stack = file :: stack ∧ file.imports = [] ∧ s' = { s with stack := stack } ∧
      s.deeds fetcher options = []) ∨
    ∃ importer i imports stack, s.stack = ⟨importer, i :: imports⟩ :: stack ∧
      (((s.shared before).visit fetcher options importer i.url =
            .passed (s'.shared (before ++ s.deeds fetcher options)) ∧
          s'.stack = ⟨importer, imports⟩ :: stack) ∨
        ∃ own, (s.shared before).visit fetcher options importer i.url =
            .entered (s'.shared (before ++ s.deeds fetcher options)) own ∧
          s'.stack = ⟨i.url, own⟩ :: ⟨importer, imports⟩ :: stack) := by
  -- The cases are those of the machine: no file open, no import left in the file, or an import to
  -- take.
  cases hstack : s.stack with
  | nil =>
    obtain ⟨⟨log, hstep⟩, -⟩ := State.step_nil fetcher options entry hstack
    rw [hstep] at h
    cases h
  | cons file stack =>
    obtain ⟨importer, imports⟩ := file
    cases imports with
    | nil =>
      obtain ⟨hstep, hdeeds⟩ := State.step_leave fetcher options entry hstack rfl
      rw [hstep] at h
      cases h
      exact Or.inl ⟨_, stack, rfl, rfl, rfl, hdeeds⟩
    | cons i imports =>
      refine Or.inr ⟨importer, i, imports, stack, rfl, ?_⟩
      have hstep := State.step_visit fetcher options entry before hstack
      cases hvisit : (s.shared before).visit fetcher options importer i.url with
      | passed next =>
        rw [hvisit] at hstep
        obtain ⟨t, ht, hstack', rfl⟩ := hstep
        rw [h] at ht
        cases ht
        exact Or.inl ⟨rfl, hstack'⟩
      | entered next own =>
        rw [hvisit] at hstep
        obtain ⟨t, ht, hstack', rfl⟩ := hstep
        rw [h] at ht
        cases ht
        exact Or.inr ⟨own, rfl, hstack'⟩
      | gaveUp e source done =>
        rw [hvisit] at hstep
        obtain ⟨⟨log, hends⟩, -⟩ := hstep
        rw [h] at hends
        cases hends

/-- What is shared after a step that takes an import is what its visit leaves. -/
theorem State.step_shared (h : s.step fetcher options entry = .continues s') (before : List Deed)
    {importer : String} {i : Import} {imports : List Import} {stack : List Pending}
    (hstack : s.stack = ⟨importer, i :: imports⟩ :: stack) :
    ((s.shared before).visit fetcher options importer i.url).shared? =
      some (s'.shared (before ++ s.deeds fetcher options)) := by
  rcases State.step_continues h before with
    ⟨file, rest, hfile, himports, -, -⟩ |
    ⟨importer', j, imports', rest, hfile, ⟨hvisit, -⟩ | ⟨own, hvisit, -⟩⟩
  -- Leaving a file takes no import.
  · rw [hstack] at hfile
    cases hfile
    cases himports
  · rw [hstack] at hfile
    cases hfile
    rw [hvisit]
    rfl
  · rw [hstack] at hfile
    cases hfile
    rw [hvisit]
    rfl

/-- A step that ends the walk finds no file open and gives the object, or is a visit that gives up. -/
theorem State.step_ends {ending : Ending} {source : σ} {log : List Event}
    (h : s.step fetcher options entry = .ends ending source log) (before : List Deed) :
    (s.stack = [] ∧ ending = .ok s.output ∧ source = s.source ∧ s.deeds fetcher options = []) ∨
    ∃ importer i imports stack e, s.stack = ⟨importer, i :: imports⟩ :: stack ∧
      (s.shared before).visit fetcher options importer i.url =
        .gaveUp e source (before ++ s.deeds fetcher options) ∧ ending = .error e := by
  -- The step is at the end of the walk, at the end of a file, or at an import, and the last one goes on
  -- unless the visit gives up.
  cases hstack : s.stack with
  | nil =>
    obtain ⟨⟨log', hstep⟩, hdeeds⟩ := State.step_nil fetcher options entry hstack
    rw [hstep] at h
    cases h
    exact Or.inl ⟨rfl, rfl, rfl, hdeeds⟩
  | cons file stack =>
    obtain ⟨importer, imports⟩ := file
    cases imports with
    | nil =>
      rw [(State.step_leave fetcher options entry hstack rfl).1] at h
      cases h
    | cons i imports =>
      have hstep := State.step_visit fetcher options entry before hstack
      cases hvisit : (s.shared before).visit fetcher options importer i.url with
      | passed next =>
        rw [hvisit] at hstep
        obtain ⟨t, ht, -⟩ := hstep
        rw [h] at ht
        cases ht
      | entered next own =>
        rw [hvisit] at hstep
        obtain ⟨t, ht, -⟩ := hstep
        rw [h] at ht
        cases ht
      | gaveUp e source' done =>
        rw [hvisit] at hstep
        obtain ⟨⟨log', hends⟩, rfl⟩ := hstep
        rw [h] at hends
        cases hends
        exact Or.inr ⟨importer, i, imports, stack, e, rfl, hvisit, rfl⟩

/-! ## Some steps -/

/-- Steps that reach a state may be taken off a run. -/
theorem Reaches.run?_add (h : Reaches fetcher options entry steps s deeds t) (more : Nat) :
    run? fetcher options entry (steps + more) s = run? fetcher options entry more t := by
  induction h with
  | refl s => rw [Nat.zero_add]
  | @step steps s s' t deeds h hs ih =>
    have hsum : steps + 1 + more = steps + more + 1 := by omega
    rw [hsum, run?, h]
    exact ih

/-- The deeds of a run begin with those of the steps that reach a state. -/
theorem Reaches.history_add (h : Reaches fetcher options entry steps s deeds t) (more : Nat) :
    history fetcher options entry (steps + more) s =
      deeds ++ history fetcher options entry more t := by
  induction h with
  | refl s => rw [Nat.zero_add, List.nil_append]
  | @step steps s s' t deeds h hs ih =>
    have hsum : steps + 1 + more = steps + more + 1 := by omega
    rw [hsum, history, h, List.append_assoc]
    exact congrArg _ ih

/-- Steps from a state that steps reach. -/
theorem Reaches.trans {u : State σ} (h : Reaches fetcher options entry steps s deeds t)
    (h' : Reaches fetcher options entry more t later u) :
    Reaches fetcher options entry (steps + more) s (deeds ++ later) u := by
  induction h with
  | refl s => rwa [Nat.zero_add, List.nil_append]
  | @step steps s s' t deeds h hs ih =>
    have hsum : steps + 1 + more = steps + more + 1 := by omega
    rw [hsum, List.append_assoc]
    exact .step h (ih h')

/-! ## What a walk keeps -/

/-- What is shared after a file that was fetched is put in. -/
def Shared.withFile (s : Shared σ) (url : String) (text : Text) (source : σ) : Shared σ :=
  let scopes := s.scopes.record url (Import.all text url)
  { s with
    draft := (s.draft.inlineFile scopes url (Declaration.extract text)).draft
    scopes := scopes
    visited := url :: s.visited
    source := source
    deeds := s.deeds ++ [.fetch url (.ok (some text)), .inline url (Declaration.extract text)] }

/-- What is shared after a file could not be fetched. -/
def Shared.withFailure (s : Shared σ) (url : String) (source : σ) : Shared σ :=
  { s with
    failed := url :: s.failed
    source := source
    deeds := s.deeds ++ [.fetch url (.ok none)] }

/-- How a visit may come out, and when it comes out that way. -/
inductive Comes (fetcher : Fetcher σ) (options : InlineOptions) (s : Shared σ)
    (importer url : String) : Visit σ → Prop
  /-- The file could not be fetched before. -/
  | failedBefore (h : url ∈ s.failed) :
    Comes fetcher options s importer url (.passed (s.pass ⟨url, importer, .fetchFailed⟩))
  /-- The file was put in before, or it is the entry. -/
  | visitedBefore (hfailed : url ∉ s.failed) (h : url ∈ s.visited) :
    Comes fetcher options s importer url (.passed (s.pass ⟨url, importer, .alreadyInlined⟩))
  /-- The file cannot be fetched, and it must be there. -/
  | refused (hfailed : url ∉ s.failed) (hvisited : url ∉ s.visited) {e : FetchError}
    (h : (Fetch.run fetcher options.fetchOptions s.source url).result = .error e) :
    Comes fetcher options s importer url
      (.gaveUp (.importUnavailable url importer (some e))
        (Fetch.run fetcher options.fetchOptions s.source url).state
        (s.deeds ++ [.fetch url (.error e)]))
  /-- The file cannot be fetched, and it may be left out. -/
  | missing (hfailed : url ∉ s.failed) (hvisited : url ∉ s.visited)
    (h : (Fetch.run fetcher options.fetchOptions s.source url).result = .ok none) :
    Comes fetcher options s importer url
      (.passed ((s.withFailure url (Fetch.run fetcher options.fetchOptions s.source url).state).pass
        ⟨url, importer, .fetchFailed⟩))
  /-- The file is fetched, and there is no place for its members. -/
  | unplaced (hfailed : url ∉ s.failed) (hvisited : url ∉ s.visited) {text : Text}
    (h : (Fetch.run fetcher options.fetchOptions s.source url).result = .ok (some text))
    (hresult : (s.draft.inlineFile (s.scopes.record url (Import.all text url)) url
      (Declaration.extract text)).result? = none) :
    Comes fetcher options s importer url
      (.gaveUp (.missingClosingBrace s.draft.buffer.origin)
        (Fetch.run fetcher options.fetchOptions s.source url).state
        (s.deeds ++ [.fetch url (.ok (some text)), .inline url (Declaration.extract text)]))
  /-- The file is fetched and put in. -/
  | arrived (hfailed : url ∉ s.failed) (hvisited : url ∉ s.visited) {text : Text}
    (h : (Fetch.run fetcher options.fetchOptions s.source url).result = .ok (some text))
    (hresult : (s.draft.inlineFile (s.scopes.record url (Import.all text url)) url
      (Declaration.extract text)).result? ≠ none) :
    Comes fetcher options s importer url
      (.entered (s.withFile url text (Fetch.run fetcher options.fetchOptions s.source url).state)
        (Import.all text url))

/-- An import that was visited is passed over. -/
theorem Shared.visit_of_visited {shared : Shared σ} {importer url : String}
    (hfailed : url ∉ shared.failed) (hvisited : url ∈ shared.visited) (fetcher : Fetcher σ)
    (options : InlineOptions) :
    shared.visit fetcher options importer url =
      .passed (shared.pass ⟨url, importer, .alreadyInlined⟩) := by
  unfold visit
  rw [if_neg hfailed, if_pos hvisited]

/-- A walk ends with an import whose fetch gives an error. -/
theorem Shared.visit_of_error {shared : Shared σ} {importer url : String} {e : FetchError}
    (hfailed : url ∉ shared.failed) (hvisited : url ∉ shared.visited)
    (h : (Fetch.run fetcher options.fetchOptions shared.source url).result = .error e) :
    shared.visit fetcher options importer url =
      .gaveUp (.importUnavailable url importer (some e))
        (Fetch.run fetcher options.fetchOptions shared.source url).state
        (shared.deeds ++ [.fetch url (.error e)]) := by
  unfold visit
  rw [if_neg hfailed, if_neg hvisited]
  simp only [h]

/-- Each visit comes out in one of these ways. -/
theorem Shared.visit_comes (fetcher : Fetcher σ) (options : InlineOptions) (s : Shared σ)
    (importer url : String) :
    Comes fetcher options s importer url (s.visit fetcher options importer url) := by
  by_cases hfailed : url ∈ s.failed
  · have hvisit : s.visit fetcher options importer url =
        .passed (s.pass ⟨url, importer, .fetchFailed⟩) := if_pos hfailed
    rw [hvisit]
    exact .failedBefore hfailed
  · by_cases hvisited : url ∈ s.visited
    · rw [Shared.visit_of_visited hfailed hvisited]
      exact .visitedBefore hfailed hvisited
    · -- The import is new, so all depends on the answer of the fetch.
      cases hresult : (Fetch.run fetcher options.fetchOptions s.source url).result with
      | error e =>
        rw [Shared.visit_of_error hfailed hvisited hresult]
        exact .refused hfailed hvisited hresult
      | ok text? =>
        unfold visit
        rw [if_neg hfailed, if_neg hvisited]
        cases text? with
        | none =>
          have hcomes : Comes fetcher options s importer url _ := .missing hfailed hvisited hresult
          simpa only [hresult, withFailure, pass] using hcomes
        | some text =>
          simp only [hresult, enter]
          cases hplaced : (s.draft.inlineFile (s.scopes.record url (Import.all text url)) url
              (Declaration.extract text)).result? with
          | none =>
            have hcomes : Comes fetcher options s importer url _ :=
              .unplaced hfailed hvisited hresult hplaced
            simpa only [List.append_assoc, List.cons_append, List.nil_append] using hcomes
          | some count =>
            have hcomes : Comes fetcher options s importer url _ :=
              .arrived hfailed hvisited hresult (by simp [hplaced])
            simpa only [withFile, List.append_assoc, List.cons_append, List.nil_append] using hcomes

/-- A property of what is shared that a walk keeps: it is kept when an import is passed over, when a
file cannot be fetched, and when a file that was not visited is put in. -/
structure Kept (P : Shared σ → Prop) : Prop where
  pass : ∀ s skipped, P s → P (s.pass skipped)
  fail : ∀ s url source, P s → P (s.withFailure url source)
  enter : ∀ s url text source, P s → url ∉ s.visited →
    (s.draft.inlineFile (s.scopes.record url (Import.all text url)) url
      (Declaration.extract text)).result? ≠ none → P (s.withFile url text source)

/-- A visit keeps what a walk keeps. -/
theorem Kept.visit {P : Shared σ → Prop} (hP : Kept P) {s next : Shared σ} (hs : P s)
    {importer url : String}
    (h : (s.visit fetcher options importer url).shared? = some next) : P next := by
  have hcomes := s.visit_comes fetcher options importer url
  generalize s.visit fetcher options importer url = visit at h hcomes
  cases hcomes with
  | failedBefore _ =>
    cases h
    exact hP.pass _ _ hs
  | visitedBefore _ _ =>
    cases h
    exact hP.pass _ _ hs
  | refused _ _ _ => cases h
  | missing _ _ _ =>
    cases h
    exact hP.pass _ _ (hP.fail s url _ hs)
  | unplaced _ _ _ _ => cases h
  | arrived _ hvisited _ hresult =>
    cases h
    exact hP.enter s url _ _ hs hvisited hresult

/-- What a walk keeps holds in each state that it reaches, with the deeds up to it. -/
theorem Kept.reaches {P : Shared σ → Prop} (hP : Kept P) {before : List Deed}
    (h : Reaches fetcher options entry steps s deeds t) (hs : P (s.shared before)) :
    P (t.shared (before ++ deeds)) := by
  induction h generalizing before with
  | refl s => rwa [List.append_nil]
  | @step steps s s' t deeds h _ ih =>
    rw [← List.append_assoc]
    apply ih
    rcases State.step_continues h before with
      ⟨file, stack, -, -, rfl, hdeeds⟩ |
      ⟨importer, i, imports, stack, -, ⟨hvisit, -⟩ | ⟨own, hvisit, -⟩⟩
    · rwa [hdeeds, List.append_nil]
    · exact hP.visit hs (congrArg Visit.shared? hvisit)
    · exact hP.visit hs (congrArg Visit.shared? hvisit)

/-! ## Runs that end -/

/-- More steps than a walk needs change nothing. -/
theorem run?_add (h : run? fetcher options entry steps s = some result) (more : Nat) :
    run? fetcher options entry (steps + more) s = some result ∧
      history fetcher options entry (steps + more) s = history fetcher options entry steps s := by
  induction steps generalizing s with
  | zero => simp [run?] at h
  | succ steps ih =>
    -- One step is taken off both runs.
    have hsum : steps + 1 + more = steps + more + 1 := by omega
    unfold run? at h
    rw [hsum, run?, history, history]
    cases hstep : s.step fetcher options entry with
    | ends ending source log =>
      rw [hstep] at h
      exact ⟨h, rfl⟩
    | continues s' =>
      rw [hstep] at h
      obtain ⟨hrun, hhistory⟩ := ih h
      exact ⟨hrun, congrArg (s.deeds fetcher options ++ ·) hhistory⟩

/-- A walk that ends does so after the states that it reaches on the way. -/
theorem Reaches.exists_rest (h : Reaches fetcher options entry steps s deeds t)
    (hrun : run? fetcher options entry more s = some result) :
    ∃ rest, more = steps + rest ∧ run? fetcher options entry rest t = some result := by
  induction h generalizing more with
  | refl s => exact ⟨more, by omega, hrun⟩
  | @step steps s s' t deeds h _ ih =>
    cases more with
    | zero => simp [run?] at hrun
    | succ more =>
      rw [run?, h] at hrun
      obtain ⟨rest, rfl, hrest⟩ := ih hrun
      exact ⟨rest, by omega, hrest⟩

/-- A walk that ends does so with the last step from a state that it reaches. -/
theorem exists_reaches_of_run? (h : run? fetcher options entry steps s = some result) :
    ∃ inside deeds t ending source log, Reaches fetcher options entry inside s deeds t ∧
      t.step fetcher options entry = .ends ending source log ∧
      result = ⟨ending.map some, source, log⟩ ∧
      history fetcher options entry steps s = deeds ++ t.deeds fetcher options := by
  induction steps generalizing s with
  | zero => simp [run?] at h
  | succ steps ih =>
    rw [run?] at h
    rw [history]
    cases hstep : s.step fetcher options entry with
    | ends ending source log =>
      rw [hstep] at h
      cases h
      exact ⟨0, [], s, ending, source, log, .refl s, hstep, rfl, by simp⟩
    | continues s' =>
      rw [hstep] at h
      obtain ⟨inside, deeds, t, ending, source, log, hreaches, hends, hresult, hhistory⟩ := ih h
      refine ⟨inside + 1, _, t, ending, source, log, .step hstep hreaches, hends, hresult, ?_⟩
      rw [List.append_assoc, ← hhistory]

/-- An object is that of a state with no file open, and the last step does nothing else. -/
theorem State.ends_ok {output : Output} {source : σ} {log : List Event}
    (h : s.step fetcher options entry = .ends (.ok output) source log) :
    s.stack = [] ∧ output = s.output ∧ s.deeds fetcher options = [] := by
  rcases State.step_ends h [] with ⟨hstack, houtput, -, hdeeds⟩ | ⟨_, _, _, _, e, -, -, herror⟩
  · exact ⟨hstack, Except.ok.inj houtput, hdeeds⟩
  · cases herror

/-! ## The whole walk -/

/-- Whether the entry imports something and has no place to put members. -/
def Unplaced (content : Text) (entry : String) : Prop :=
  Import.all content entry ≠ [] ∧ '}' ∉ Import.objectBody content

/-- This is what is looked for before the first import is taken. -/
theorem unplaced_iff (content : Text) (entry : String) (source : σ) :
    ((start content entry source).stack.any (fun file => !file.imports.isEmpty) &&
        (start content entry source).draft.buffer.lastBrace?.isNone) = true ↔
      Unplaced content entry := by
  have hnone : (start content entry source).draft.buffer.lastBrace?.isNone = true ↔
      '}' ∉ Import.objectBody content := by
    rw [Buffer.lastBrace?, Option.isNone_map, Option.isNone_iff_eq_none, Buffer.atLastBrace?,
      Text.splitAtLast_eq_none_iff]
    rfl
  rw [Bool.and_eq_true, hnone]
  simp [start, Unplaced]

/-- Without a place for members the walk is over before it begins. -/
theorem inline?_unplaced {content : Text} (hblank : isBlank content = false)
    (h : Unplaced content entry) (fetcher : Fetcher σ) (options : InlineOptions) (steps : Nat)
    (source : σ) :
    inline? fetcher options steps (some content) entry source =
      some ⟨.error (.missingClosingBrace entry), source, []⟩ := by
  have hfilter : (some content).filter (fun t => !isBlank t) = some content := by simp [hblank]
  unfold inline?
  rw [hfilter]
  exact if_pos ((unplaced_iff content entry source).mpr h)

/-- A finished walk had no content, or no place for members, or it is a run from the start. -/
theorem inline?_cases {content : Option Text} {source : σ}
    (h : inline? fetcher options steps content entry source = some result) :
    (result.ending = .ok none ∧ result.source = source ∧
      inlineHistory fetcher options steps content entry source = []) ∨
    ∃ text, content = some text ∧ isBlank text = false ∧
      ((Unplaced text entry ∧ result = ⟨.error (.missingClosingBrace entry), source, []⟩ ∧
          inlineHistory fetcher options steps content entry source = []) ∨
        (¬ Unplaced text entry ∧
          run? fetcher options entry steps (start text entry source) = some result ∧
          inlineHistory fetcher options steps content entry source =
            history fetcher options entry steps (start text entry source))) := by
  unfold inline? at h
  unfold inlineHistory
  -- A blank text counts as no content.
  cases hfilter : content.filter fun t => !isBlank t with
  | none =>
    rw [hfilter] at h
    cases h
    exact Or.inl ⟨rfl, rfl, rfl⟩
  | some text =>
    rw [hfilter] at h
    obtain ⟨hcontent, hblank⟩ := Option.filter_eq_some_iff.mp hfilter
    refine Or.inr ⟨text, hcontent, by simpa using hblank, ?_⟩
    have hplace := unplaced_iff text entry source
    simp only at h ⊢
    by_cases hunplaced : Unplaced text entry
    · rw [if_pos (hplace.mpr hunplaced)] at h ⊢
      exact Or.inl ⟨hunplaced, (Option.some.inj h).symm, rfl⟩
    · rw [if_neg fun hlook => hunplaced (hplace.mp hlook)] at h ⊢
      exact Or.inr ⟨hunplaced, h, rfl⟩

/-- An object comes from a state that the walk from the entry reaches, with no file open any more. -/
theorem exists_last_of_inline? {content : Text} {source : σ} {output : Output}
    (h : inline? fetcher options steps (some content) entry source = some result)
    (hending : result.ending = .ok (some output)) :
    ∃ inside deeds t, Reaches fetcher options entry inside (start content entry source) deeds t ∧
      t.stack = [] ∧ output = t.output ∧
      inlineHistory fetcher options steps (some content) entry source = deeds := by
  -- Without content, and without a place for members, there is no object.
  rcases inline?_cases h with
    ⟨hnothing, -, -⟩ | ⟨text, htext, -, ⟨-, rfl, -⟩ | ⟨-, hrun, hhistory⟩⟩
  · rw [hnothing] at hending
    cases hending
  · cases hending
  · cases htext
    obtain ⟨inside, deeds, t, ending, source', log, hreaches, hends, rfl, hdeeds⟩ :=
      exists_reaches_of_run? hrun
    cases ending with
    | error e => cases hending
    | ok output' =>
      cases hending
      obtain ⟨hstack, houtput, hlast⟩ := State.ends_ok hends
      exact ⟨inside, deeds, t, hreaches, hstack, houtput,
        by rw [hhistory, hdeeds, hlast, List.append_nil]⟩

/-- An object comes from a state that the walk from the entry reaches. -/
theorem exists_reaches_of_inline? {content : Text} {source : σ} {output : Output}
    (h : inline? fetcher options steps (some content) entry source = some result)
    (hending : result.ending = .ok (some output)) :
    ∃ inside deeds t, Reaches fetcher options entry inside (start content entry source) deeds t ∧
      output = t.output ∧
      inlineHistory fetcher options steps (some content) entry source = deeds := by
  obtain ⟨inside, deeds, t, hreaches, -, houtput, hhistory⟩ := exists_last_of_inline? h hending
  exact ⟨inside, deeds, t, hreaches, houtput, hhistory⟩

end Graft.Walk
