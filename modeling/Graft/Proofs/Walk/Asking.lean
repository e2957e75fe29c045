import Graft.Proofs.Walk.Accounts
import Graft.Proofs.Walk.Requests

/-!
# Each file is asked for at most once

A walk fetches no file twice, and never the entry, so its requests are those for one file after the
other (`asked_once`). A fetch makes its attempts in a row (`Fetch.run_recorded`), and only a file that
was neither visited nor asked for in vain is fetched (`Recalled.fresh`). A visit keeps both
(`Asked.visit`), also one that ends the walk; so they hold in every state that the walk reaches, and
when it is over.
-/

namespace Graft.Walk

variable {σ : Type}

/-- Requests for files in turn: for each file one or more requests in a row, but not more than `most`. -/
inductive InTurn (most : Nat) : (urls requests : List String) → Prop
  | nil : InTurn most [] []
  | cons {urls requests : List String} (url : String) {n : Nat} (hpos : 0 < n) (hmost : n ≤ most)
      (h : InTurn most urls requests) : InTurn most (url :: urls) (List.replicate n url ++ requests)

/-- What a walk from the entry asks for, against its deeds. -/
structure Asked (entry : String) (most : Nat) (deeds : List Deed) (requests : List String) :
    Prop where
  /-- No file is fetched twice, and the entry is not fetched. -/
  once : (entry :: (fetches deeds).map Prod.fst).Nodup
  /-- The requests are those for the fetched files in turn. -/
  inTurn : InTurn most ((fetches deeds).map Prod.fst) requests
  /-- So are those up to any of them, while a fetch is under way. -/
  underway : ∀ early, early <+: requests →
    ∃ begun, begun <+: (fetches deeds).map Prod.fst ∧ InTurn most begun early

namespace InTurn

variable {most n : Nat} {url : String} {urls requests early : List String}

/-- Another file's requests come after those for the files before it. -/
theorem concat (h : InTurn most urls requests) (hpos : 0 < n) (hmost : n ≤ most) :
    InTurn most (urls ++ [url]) (requests ++ List.replicate n url) := by
  induction h with
  | nil => simpa using InTurn.cons url hpos hmost .nil
  | cons first hfirst hfirstMost _ ih =>
    rw [List.append_assoc, List.cons_append]
    exact .cons first hfirst hfirstMost ih

/-- Up to any of them, the requests are those for the first files in turn; the last of these may have
more to come. -/
theorem take (h : InTurn most urls requests) (hearly : early <+: requests) :
    ∃ begun, begun <+: urls ∧ InTurn most begun early := by
  induction h generalizing early with
  | nil =>
    obtain rfl := List.prefix_nil.mp hearly
    exact ⟨[], List.nil_prefix, .nil⟩
  | @cons urls requests url n hpos hmost h ih =>
    rcases List.prefix_or_prefix_of_prefix hearly (List.prefix_append _ requests) with
      hwithin | ⟨rest, rfl⟩
    · -- The first file may still be asked for, or not be asked for yet.
      obtain ⟨hle, hall⟩ := List.prefix_replicate_iff.mp hwithin
      rcases Nat.eq_zero_or_pos early.length with hnone | hsome
      · obtain rfl := List.eq_nil_of_length_eq_zero hnone
        exact ⟨[], List.nil_prefix, .nil⟩
      · have hfirst := InTurn.cons url hsome (Nat.le_trans hle hmost) .nil
        rw [List.append_nil, ← hall] at hfirst
        exact ⟨[url], List.prefix_append [url] urls, hfirst⟩
    · obtain ⟨begun, hbegun, hturn⟩ := ih ((List.prefix_append_right_inj _).mp hearly)
      exact ⟨url :: begun, List.cons_prefix_cons.mpr ⟨rfl, hbegun⟩, .cons url hpos hmost hturn⟩

end InTurn

/-- The deeds up to the end of a visit. -/
def Visit.deeds : Visit σ → List Deed
  | .passed s => s.deeds
  | .entered s _ => s.deeds
  | .gaveUp _ _ deeds => deeds

/-- A strict walk and a lenient one make as many attempts. -/
theorem attempts_fetchOptions (options : InlineOptions) :
    options.fetchOptions.attempts = options.fetch.attempts := by
  unfold InlineOptions.fetchOptions
  split <;> rfl

section

variable {fetcher : Fetcher σ} {options : InlineOptions} {entry : String} {steps most n : Nat}
  {deeds before later : List Deed} {requests : List String} {url : String}
  {s t : State (σ × List String)} {shared : Shared (σ × List String)}

/-! ## One visit -/

/-- Where the files are asked for in turn, so are those that were asked for at any time before. -/
theorem Asked.of_inTurn (honce : (entry :: (fetches deeds).map Prod.fst).Nodup)
    (h : InTurn most ((fetches deeds).map Prod.fst) requests) : Asked entry most deeds requests :=
  ⟨honce, h, fun _ hearly => h.take hearly⟩

/-- A walk fetches only a file that it did not fetch before. -/
theorem Asked.fetch (h : Asked entry most deeds requests)
    (hnew : url ≠ entry ∧ url ∉ (fetches deeds).map Prod.fst) (hpos : 0 < n) (hmost : n ≤ most)
    (answer : Except FetchError (Option Text)) (hlater : fetches later = []) :
    Asked entry most (deeds ++ .fetch url answer :: later) (requests ++ List.replicate n url) := by
  have hfetches : (fetches (deeds ++ .fetch url answer :: later)).map Prod.fst =
      (fetches deeds).map Prod.fst ++ [url] := by
    have hone : fetches (.fetch url answer :: later) = [(url, answer)] := by
      rw [← List.singleton_append, fetches_append, hlater]
      rfl
    rw [fetches_append, hone, List.map_append]
    rfl
  -- The new URL comes last, and it is none of those before it.
  apply Asked.of_inTurn
  · rw [hfetches, ← List.cons_append]
    refine List.nodup_append.mpr ⟨h.once, List.nodup_singleton url, ?_⟩
    intro old hold new hsame
    rw [List.mem_singleton.mp hsame]
    rintro rfl
    rcases List.mem_cons.mp hold with hentry | hfetched
    · exact hnew.1 hentry
    · exact hnew.2 hfetched
  · rw [hfetches]
    exact h.inTurn.concat hpos hmost

/-- Passing over an import asks for nothing. -/
theorem Asked.pass (h : Asked entry most deeds requests) (skipped : Skipped) :
    Asked entry most (deeds ++ [.skip skipped]) requests := by
  have hfetches : fetches (deeds ++ [.skip skipped]) = fetches deeds := by
    rw [fetches_append]
    exact List.append_nil _
  exact .of_inTurn (hfetches ▸ h.once) (hfetches ▸ h.inTurn)

/-- A visit makes the requests for its file in a row, if that is new, and else none. -/
theorem Asked.visit (h : Asked entry options.fetch.attempts shared.deeds shared.source.2)
    (hrecalled : Recalled entry shared) (fetcher : Fetcher σ) (importer url : String) :
    Asked entry options.fetch.attempts
      (shared.visit fetcher.recorded options importer url).deeds
      (shared.visit fetcher.recorded options importer url).source.2 := by
  obtain ⟨n, hpos, hmost, hrun⟩ :=
    Fetch.run_recorded fetcher options.fetchOptions shared.source url
  rw [attempts_fetchOptions] at hmost
  have hsource : (Fetch.run fetcher.recorded options.fetchOptions shared.source url).state.2 =
      shared.source.2 ++ List.replicate n url := by rw [hrun]
  -- A file that is fetched is in neither set.
  have hfetch : url ∉ shared.failed → url ∉ shared.visited →
      ∀ answer later, fetches later = [] →
      Asked entry options.fetch.attempts (shared.deeds ++ .fetch url answer :: later)
        (Fetch.run fetcher.recorded options.fetchOptions shared.source url).state.2 := by
    intro hfailed hvisited answer later hlater
    rw [hsource]
    exact h.fetch (hrecalled.fresh hfailed hvisited) hpos hmost answer hlater
  have hcomes := shared.visit_comes fetcher.recorded options importer url
  generalize shared.visit fetcher.recorded options importer url = visit at hcomes ⊢
  cases hcomes with
  | failedBefore _ => exact h.pass _
  | visitedBefore _ _ => exact h.pass _
  | refused hfailed hvisited _ => exact hfetch hfailed hvisited _ [] rfl
  | missing hfailed hvisited _ => exact (hfetch hfailed hvisited (.ok none) [] rfl).pass _
  | unplaced hfailed hvisited _ _ => exact hfetch hfailed hvisited _ [.inline _ _] rfl
  | arrived hfailed hvisited _ _ => exact hfetch hfailed hvisited _ [.inline _ _] rfl

/-! ## Some steps -/

/-- A step that goes on keeps what was asked for in order. -/
theorem Asked.step (hstep : s.step fetcher.recorded options entry = .continues t)
    (h : Asked entry options.fetch.attempts before s.source.2)
    (hrecalled : Recalled entry (s.shared before)) :
    Asked entry options.fetch.attempts (before ++ s.deeds fetcher.recorded options) t.source.2 := by
  rcases State.step_continues hstep before with
    ⟨file, stack, -, -, rfl, hdeeds⟩ |
    ⟨importer, i, imports, stack, -, ⟨hvisit, -⟩ | ⟨own, hvisit, -⟩⟩
  · rw [hdeeds, List.append_nil]
    exact h
  · have hasked := Asked.visit h hrecalled fetcher importer i.url
    rwa [hvisit] at hasked
  · have hasked := Asked.visit h hrecalled fetcher importer i.url
    rwa [hvisit] at hasked

/-- So does the step that ends the walk. -/
theorem Asked.last {ending : Ending} {source : σ × List String} {log : List Event}
    (hstep : s.step fetcher.recorded options entry = .ends ending source log)
    (h : Asked entry options.fetch.attempts before s.source.2)
    (hrecalled : Recalled entry (s.shared before)) :
    Asked entry options.fetch.attempts (before ++ s.deeds fetcher.recorded options) source.2 := by
  rcases State.step_ends hstep before with
    ⟨-, -, rfl, hdeeds⟩ | ⟨importer, i, imports, stack, e, -, hvisit, -⟩
  · rw [hdeeds, List.append_nil]
    exact h
  · have hasked := Asked.visit h hrecalled fetcher importer i.url
    rwa [hvisit] at hasked

/-- In each state that a walk reaches, what was asked for is in order. -/
theorem Asked.reaches (hreaches : Reaches fetcher.recorded options entry steps s deeds t)
    (h : Asked entry options.fetch.attempts before s.source.2)
    (hrecalled : Recalled entry (s.shared before)) :
    Asked entry options.fetch.attempts (before ++ deeds) t.source.2 := by
  induction hreaches generalizing before with
  | refl s => rwa [List.append_nil]
  | @step steps s s' t deeds hstep _ ih =>
    have hnext := (recalled_kept entry).reaches (.step hstep (.refl s')) hrecalled
    rw [List.append_nil] at hnext
    rw [← List.append_assoc]
    exact ih (h.step hstep hrecalled) hnext

end

/-! ## The whole walk -/

/-- Nothing is asked for before the first step. -/
theorem asked_nil (entry : String) (most : Nat) : Asked entry most [] [] :=
  .of_inTurn (List.nodup_singleton entry) .nil

/-- A walk fetches no file twice and never the entry, and its requests are one or more in a row for
each fetched file, never more than the attempts that the options allow. So it is in each state that
the walk reaches, and when it is over, in whatever way. -/
theorem asked_once (fetcher : Fetcher σ) (options : InlineOptions) (entry : String) (source : σ) :
    (∀ content steps deeds s,
      Reaches fetcher.recorded options entry steps (start content entry (source, [])) deeds s →
      Asked entry (max options.fetch.retries 1) deeds s.source.2) ∧
    (∀ content steps result,
      inline? fetcher.recorded options steps content entry (source, []) = some result →
      Asked entry (max options.fetch.retries 1)
        (inlineHistory fetcher.recorded options steps content entry (source, []))
        result.source.2) := by
  constructor
  · intro content steps deeds s hreaches
    exact Asked.reaches hreaches (asked_nil entry _) (recalled_start content entry _)
  · intro content steps result hinline
    rcases inline?_cases hinline with
      ⟨-, hsource, hhistory⟩ | ⟨text, -, -, ⟨-, rfl, hhistory⟩ | ⟨-, hrun, hhistory⟩⟩
    · rw [hhistory, hsource]
      exact asked_nil entry _
    · rw [hhistory]
      exact asked_nil entry _
    · -- The last step may make a fetch that ends the walk.
      obtain ⟨inside, deeds, t, ending, source', log, hreaches, hends, rfl, hdeeds⟩ :=
        exists_reaches_of_run? hrun
      have hrecalled := (recalled_kept entry).reaches hreaches (recalled_start text entry _)
      rw [hhistory, hdeeds]
      exact Asked.last hends
        (Asked.reaches hreaches (asked_nil entry _) (recalled_start text entry _)) hrecalled

/-- A file that is imported twice and imports the entry is asked for once; one that is missing is asked
for twice in a row, as often as the options allow, and not again when it is imported again. The state
is that after the first import. -/
theorem asked_once_repeats :
    (∃ deeds, ∃ s : State (Archive × List String),
      s.visited = ["/b", "/p"] ∧ Asked "/p" 2 deeds s.source.2) ∧
    ∃ deeds, Asked "/p" 2 deeds ["/b", "/c", "/c"] := by
  have honce := asked_once Archive.fetch {} "/p"
    ⟨[("/b", "import {p} from './p'\nfunction a(){}".toList)], [], [], []⟩
  constructor
  · exact ⟨_, _, rfl, honce.1 "import {a} from './b'\n{a}".toList 1 _ _ (.step rfl (.refl _))⟩
  · have hrun : (inline? Archive.fetch.recorded {} 9
        (some ("import {a} from './b'\nimport {x} from './c'\nimport {d} from './b'\n" ++
          "import {y} from './c'\n{a}").toList)
        "/p" (⟨[("/b", "import {p} from './p'\nfunction a(){}".toList)], [], [], []⟩, [])).map
          (fun result => result.source.2) = some ["/b", "/c", "/c"] := by
      decide +kernel
    obtain ⟨result, hresult, hsource⟩ := Option.map_eq_some_iff.mp hrun
    exact ⟨_, hsource ▸ honce.2 _ _ result hresult⟩

end Graft.Walk
