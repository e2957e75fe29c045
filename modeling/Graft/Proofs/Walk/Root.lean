import Graft.Fetch.Archive
import Graft.Proofs.Specifier.Root
import Graft.Proofs.Text.Pieces
import Graft.Proofs.Walk.Requests

/-!
# Walks stay below the root

A walk from an entry below the root of its repository asks only for files below that root, and passes
over no others (`below_root`). It asks for what is imported, so this is a case of something that holds
of any property of URLs that goes over from a file to what it imports (`Spreads`): all pending imports
have it, all requests, and all imports that were passed over (`Confined`).
-/

namespace Graft

/-- An import names what its specifier does in the file that it stands in. -/
theorem Import.exists_specifier {text : Text} {url : String} {i : Import} (h : i ∈ all text url) :
    ∃ specifier, i.url = Specifier.resolve specifier url := by
  rw [all, List.mem_map] at h
  obtain ⟨clause, -, hclause⟩ := h
  refine ⟨String.ofList clause.specifier, ?_⟩
  rw [← hclause, ofClause]

namespace Walk

variable {σ : Type} {fetcher : Fetcher σ} {options : InlineOptions} {entry url : String} {steps : Nat}
  {P : String → Prop}

/-- A property of URLs that goes over from a file to what it imports. -/
def Spreads (P : String → Prop) : Prop :=
  ∀ text url, P url → ∀ i ∈ Import.all text url, P i.url

/-- All that a walk is going to ask for, did ask for, and passed over, has a property. -/
structure Confined (P : String → Prop) (s : State (σ × List String)) : Prop where
  pending : ∀ file ∈ s.stack, ∀ i ∈ file.imports, P i.url
  requests : ∀ asked ∈ s.source.2, P asked
  skipped : ∀ skipped ∈ s.skipped, P skipped.url

/-! ## One visit -/

/-- A visit asks for nothing but its import. -/
theorem Shared.visit_confined {s : Shared (σ × List String)} (hurl : P url)
    (hrequests : ∀ asked ∈ s.source.2, P asked) (fetcher : Fetcher σ) (options : InlineOptions)
    (importer : String) :
    ∀ asked ∈ (s.visit fetcher.recorded options importer url).source.2, P asked := by
  rcases s.visit_source fetcher.recorded options importer url with hsource | hsource
  · rwa [hsource]
  · obtain ⟨n, -, -, hrun⟩ := Fetch.run_recorded fetcher options.fetchOptions s.source url
    rw [hsource, hrun]
    intro asked hasked
    rcases List.mem_append.mp hasked with hbefore | hnow
    · exact hrequests asked hbefore
    · exact List.eq_of_mem_replicate hnow ▸ hurl

/-- A visit passes over nothing but its import. -/
theorem Shared.visit_skipped {s next : Shared σ} (hurl : P url)
    (hskipped : ∀ skipped ∈ s.skipped, P skipped.url) {importer : String}
    (h : (s.visit fetcher options importer url).shared? = some next) :
    ∀ skipped ∈ next.skipped, P skipped.url := by
  have hpass : ∀ s' : Shared σ, s'.skipped = s.skipped → ∀ reason,
      ∀ skipped ∈ (s'.pass ⟨url, importer, reason⟩).skipped, P skipped.url := by
    intro s' hsame reason skipped hmem
    rcases List.mem_append.mp hmem with hbefore | hnow
    · exact hskipped skipped (hsame ▸ hbefore)
    · exact List.mem_singleton.mp hnow ▸ hurl
  have hcomes := s.visit_comes fetcher options importer url
  generalize s.visit fetcher options importer url = visit at h hcomes
  -- Three of the outcomes record something, and it is this import.
  cases hcomes with
  | failedBefore _ =>
    cases h
    exact hpass s rfl _
  | visitedBefore _ _ =>
    cases h
    exact hpass s rfl _
  | refused _ _ _ => cases h
  | missing _ _ _ =>
    cases h
    exact hpass (s.withFailure url _) rfl _
  | unplaced _ _ _ _ => cases h
  | arrived _ _ _ _ =>
    cases h
    exact hskipped

/-! ## Some steps -/

/-- A step that goes on stays with what has the property. -/
theorem Confined.step (hspreads : Spreads P) {s t : State (σ × List String)} (h : Confined P s)
    (hstep : s.step fetcher.recorded options entry = .continues t) : Confined P t := by
  rcases State.step_continues hstep [] with
    ⟨file, stack, hstack, -, rfl, -⟩ | ⟨importer, i, imports, stack, hstack, hvisit⟩
  · -- What is pending is what was, without the file that is left.
    refine ⟨fun file' hfile => h.pending file' ?_, h.requests, h.skipped⟩
    rw [hstack]
    exact List.mem_cons_of_mem file hfile
  · have hpending := h.pending
    rw [hstack, List.forall_mem_cons] at hpending
    have hurl : P i.url := hpending.1 i List.mem_cons_self
    have hsiblings : ∀ j ∈ imports, P j.url := fun j hj =>
      hpending.1 j (List.mem_cons_of_mem i hj)
    have hrequests := Shared.visit_confined (s := s.shared []) hurl h.requests fetcher options importer
    have hskipped := Shared.visit_skipped (s := s.shared []) hurl h.skipped
      (State.step_shared hstep [] hstack)
    rcases hvisit with ⟨hpassed, hstack'⟩ | ⟨own, hentered, hstack'⟩
    · rw [hpassed] at hrequests
      refine ⟨?_, hrequests, hskipped⟩
      rw [hstack', List.forall_mem_cons]
      exact ⟨hsiblings, hpending.2⟩
    · rw [hentered] at hrequests
      have hcomes := (s.shared []).visit_comes fetcher.recorded options importer i.url
      rw [hentered] at hcomes
      refine ⟨?_, hrequests, hskipped⟩
      rw [hstack', List.forall_mem_cons, List.forall_mem_cons]
      refine ⟨?_, hsiblings, hpending.2⟩
      -- The file has the property, and so has what it imports.
      generalize t.shared ([] ++ s.deeds fetcher.recorded options) = next at hcomes
      cases hcomes with
      | arrived _ _ _ _ => exact hspreads _ i.url hurl

/-- All steps keep to the files with the property. -/
theorem Confined.reaches (hspreads : Spreads P) {s t : State (σ × List String)} {deeds : List Deed}
    (h : Confined P s) (hreaches : Reaches fetcher.recorded options entry steps s deeds t) :
    Confined P t := by
  induction hreaches with
  | refl s => exact h
  | step hstep _ ih => exact ih (h.step hspreads hstep)

/-- The step that ends a walk asks for nothing else either. -/
theorem Confined.last {s : State (σ × List String)} (h : Confined P s) {ending : Ending}
    {source : σ × List String} {log : List Event}
    (hstep : s.step fetcher.recorded options entry = .ends ending source log) :
    (∀ asked ∈ source.2, P asked) ∧
      ∀ output, ending = .ok output → ∀ skipped ∈ output.skipped, P skipped.url := by
  rcases State.step_ends hstep [] with
    ⟨-, rfl, rfl, -⟩ | ⟨importer, i, imports, stack, e, hstack, hvisit, rfl⟩
  · refine ⟨h.requests, ?_⟩
    rintro output houtput
    cases houtput
    exact h.skipped
  -- The step is a fetch that was given up, and what it asked for is the import it took.
  · have hurl : P i.url := h.pending ⟨importer, i :: imports⟩ (hstack ▸ List.mem_cons_self) i
      List.mem_cons_self
    have hrequests := Shared.visit_confined (s := s.shared []) hurl h.requests fetcher options importer
    rw [hvisit] at hrequests
    refine ⟨hrequests, ?_⟩
    rintro output houtput
    cases houtput

/-! ## The whole walk -/

/-- A walk starts with the imports of the entry and with no request. -/
theorem confined_start (hspreads : Spreads P) (hentry : P entry) (content : Text) (source : σ) :
    Confined P (start content entry (source, [])) where
  pending := by
    show ∀ file ∈ [⟨entry, Import.all content entry⟩], ∀ i ∈ Pending.imports file, P i.url
    rw [List.forall_mem_singleton]
    exact hspreads content entry hentry
  requests := fun _ hasked => absurd hasked List.not_mem_nil
  skipped := fun _ hskipped => absurd hskipped List.not_mem_nil

/-- A finished walk asked for nothing, and passed over nothing, that does not have the property. -/
theorem confined_inline? (hspreads : Spreads P) (hentry : P entry) {content : Option Text} {source : σ}
    {result : Result (σ × List String)}
    (h : inline? fetcher.recorded options steps content entry (source, []) = some result) :
    (∀ asked ∈ result.source.2, P asked) ∧
      ∀ output, result.ending = .ok (some output) → ∀ skipped ∈ output.skipped, P skipped.url := by
  -- A walk that does not start asks for nothing.
  rcases inline?_cases h with
    ⟨hending, hsource, -⟩ | ⟨text, -, -, ⟨-, rfl, -⟩ | ⟨-, hrun, -⟩⟩
  · rw [hending, hsource]
    exact ⟨fun _ hasked => absurd hasked List.not_mem_nil, fun _ houtput => by cases houtput⟩
  · exact ⟨fun _ hasked => absurd hasked List.not_mem_nil, fun _ houtput => by cases houtput⟩
  · obtain ⟨inside, deeds, t, ending, source', log, hreaches, hends, rfl, -⟩ :=
      exists_reaches_of_run? hrun
    have hstart := confined_start hspreads hentry text source
    obtain ⟨hrequests, hskipped⟩ := (hstart.reaches hspreads hreaches).last hends
    refine ⟨hrequests, ?_⟩
    intro output houtput
    cases ending with
    | error e => cases houtput
    | ok output' =>
      cases houtput
      exact hskipped output rfl

/-- To lie below a root goes over from a file to what it imports. -/
theorem spreads_below {segments : List String} (hroot : Specifier.IsRoot segments) :
    Spreads (Specifier.Below (Word.joinWith "/" segments)) := by
  intro text url hurl i hi
  obtain ⟨specifier, hi⟩ := Import.exists_specifier hi
  rw [hi]
  exact hurl.resolve hroot specifier

/-- A walk from an entry with more segments than a root has, whatever it and the imported files say, asks
only for URLs that start with the entry's root and a slash, and passes over no others. So it is in each
state that the walk reaches, and when it is over, in whatever way. -/
theorem below_root (fetcher : Fetcher σ) (options : InlineOptions) (entry : String) (source : σ)
    (hentry : Specifier.rootSegments < (Word.splitOn '/' entry).length) :
    (∀ content steps deeds s,
      Reaches fetcher.recorded options entry steps (start content entry (source, [])) deeds s →
      (∀ url ∈ s.source.2, Specifier.Below (Specifier.root entry) url) ∧
        ∀ skipped ∈ s.skipped, Specifier.Below (Specifier.root entry) skipped.url) ∧
    (∀ content steps result,
      inline? fetcher.recorded options steps content entry (source, []) = some result →
      (∀ url ∈ result.source.2, Specifier.Below (Specifier.root entry) url) ∧
        ∀ output, result.ending = .ok (some output) →
          ∀ skipped ∈ output.skipped, Specifier.Below (Specifier.root entry) skipped.url) := by
  obtain ⟨hroot, hbelow⟩ := Specifier.isRoot_of_lt hentry
  have hspreads := spreads_below hroot
  constructor
  · intro content steps deeds s hreaches
    have hconfined := (confined_start hspreads hbelow content source).reaches hspreads hreaches
    exact ⟨hconfined.requests, hconfined.skipped⟩
  · intro content steps result hinline
    exact confined_inline? hspreads hbelow hinline

/-- Steps up beyond the root, at the entry and in a file that it imports, and a specifier that is the
URL of another place all lead to files below the root. -/
theorem below_root_climbing :
    Specifier.rootSegments <
        (Word.splitOn '/' "https://github.com/org/repo/blob/main/lib/plugin.js").length ∧
      ∀ asked ∈ ["https://github.com/org/repo/blob/main/a.js",
          "https://github.com/org/repo/blob/main/c.js",
          "https://github.com/org/repo/blob/main/https://x.test/b.js"],
        Specifier.Below
          (Specifier.root "https://github.com/org/repo/blob/main/lib/plugin.js") asked := by
  have hentry : Specifier.rootSegments <
      (Word.splitOn '/' "https://github.com/org/repo/blob/main/lib/plugin.js").length := by
    decide +kernel
  refine ⟨hentry, ?_⟩
  have hbelow := below_root Archive.fetch { fetch := { retries := 1 } }
    "https://github.com/org/repo/blob/main/lib/plugin.js"
    ⟨[("https://github.com/org/repo/blob/main/a.js", "import {c} from '.././../../c'".toList)],
      [], [], []⟩ hentry
  have hrun : (inline? Archive.fetch.recorded { fetch := { retries := 1 } } 9
      (some "import {a} from '../../.././a'\nimport {b} from 'https://x.test/b'\n{a}".toList)
      "https://github.com/org/repo/blob/main/lib/plugin.js"
      (⟨[("https://github.com/org/repo/blob/main/a.js", "import {c} from '.././../../c'".toList)],
        [], [], []⟩, [])).map (fun result => result.source.2) =
        some ["https://github.com/org/repo/blob/main/a.js",
          "https://github.com/org/repo/blob/main/c.js",
          "https://github.com/org/repo/blob/main/https://x.test/b.js"] := by
    decide +kernel
  obtain ⟨result, hresult, hrequests⟩ := Option.map_eq_some_iff.mp hrun
  rw [← hrequests]
  exact (hbelow.2 _ 9 result hresult).1

end Walk

end Graft
