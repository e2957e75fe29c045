import Graft.Fetch.Archive
import Graft.Proofs.Walk.Brace

/-!
# Strict and lenient walks

A strict and a lenient walk with the same fetch options take the same steps until a file cannot be
fetched for the first time (`State.step_strict`). There the strict walk ends, and the lenient one
records the import and goes on; it asks for more after that, but takes no record back. So the strict
walk can be told from what the lenient one gives (`strict_of_lenient`).
-/

namespace Graft.Walk

variable {σ : Type} {fetcher : Fetcher σ} {fetch : FetchOptions} {importer url entry : String}
  {steps : Nat}

/-- The first record of an import that could not be fetched. -/
def firstFailed? (skipped : List Skipped) : Option Skipped :=
  skipped.find? fun r => r.reason = .fetchFailed

/-- The first import that a finished walk passed over because it could not be fetched. -/
def firstFailure? : Except InlineError (Option Output) → Option Skipped
  | .ok (some output) => firstFailed? output.skipped
  | _ => none

/-- A record that is added comes after all others. -/
theorem firstFailed?_concat (skipped : List Skipped) (r : Skipped) :
    firstFailed? (skipped ++ [r]) = (firstFailed? skipped).or (firstFailed? [r]) :=
  List.find?_append

/-! ## One import -/

/-- What is shared as long as no file failed to be fetched. -/
structure Shared.Unfailed (s : Shared σ) : Prop where
  failed : s.failed = []
  skipped : firstFailed? s.skipped = none

/-- A visit depends on the options only through the fetch that it makes. -/
theorem Shared.visit_congr {options options' : InlineOptions} {s : Shared σ}
    (h : (Fetch.run fetcher options.fetchOptions s.source url).result =
        (Fetch.run fetcher options'.fetchOptions s.source url).result ∧
      (Fetch.run fetcher options.fetchOptions s.source url).state =
        (Fetch.run fetcher options'.fetchOptions s.source url).state) :
    s.visit fetcher options importer url = s.visit fetcher options' importer url := by
  unfold visit
  simp only [h.1, h.2]

/-- As long as no file failed, a strict visit is the lenient one, or the lenient one records that its
file cannot be fetched and the strict one ends the walk there. -/
theorem Shared.visit_strict (hplain : fetch.graceful = false) {s : Shared σ} (hs : s.Unfailed)
    (importer url : String) :
    (s.visit fetcher ⟨fetch, true⟩ importer url = s.visit fetcher ⟨fetch, false⟩ importer url ∧
        ∀ next, (s.visit fetcher ⟨fetch, false⟩ importer url).shared? = some next → next.Unfailed) ∨
      ∃ next e done, s.visit fetcher ⟨fetch, false⟩ importer url = .passed next ∧
        next.skipped = s.skipped ++ [⟨url, importer, .fetchFailed⟩] ∧
        s.visit fetcher ⟨fetch, true⟩ importer url =
          .gaveUp (.importUnavailable url importer (some e)) next.source done := by
  have hlenient : (⟨fetch, false⟩ : InlineOptions).fetchOptions = fetch.gracefully := rfl
  have hstrict : (⟨fetch, true⟩ : InlineOptions).fetchOptions = fetch := rfl
  have hsame := Fetch.run_gracefully fetcher hplain s.source url
  -- A text that the lenient fetch gives is what the strict one gives.
  have hcongr : ∀ {text}, (Fetch.run fetcher fetch.gracefully s.source url).result =
        .ok (some text) →
      s.visit fetcher ⟨fetch, true⟩ importer url = s.visit fetcher ⟨fetch, false⟩ importer url := by
    intro text htext
    refine Shared.visit_congr ⟨?_, hsame.1.symm⟩
    rcases hsame.2 with ⟨text', hfirst, hsecond⟩ | ⟨e, -, hnone⟩
    · rw [hstrict, hlenient, hfirst, hsecond]
    · rw [htext] at hnone
      cases hnone
  have hcomes := s.visit_comes fetcher ⟨fetch, false⟩ importer url
  generalize hvisit : s.visit fetcher ⟨fetch, false⟩ importer url = visit at hcomes
  cases hcomes with
  | failedBefore hfailed =>
    rw [hs.failed] at hfailed
    cases hfailed
  | visitedBefore hfailed hvisited =>
    refine Or.inl ⟨Shared.visit_of_visited hfailed hvisited _ _, fun next hnext => ?_⟩
    cases hnext
    refine ⟨hs.failed, ?_⟩
    have hrecords : (s.pass ⟨url, importer, .alreadyInlined⟩).skipped =
        s.skipped ++ [⟨url, importer, .alreadyInlined⟩] := rfl
    rw [hrecords, firstFailed?_concat, hs.skipped]
    rfl
  | refused _ _ herror => exact absurd herror (Fetch.run_ne_error fetcher rfl s.source url _)
  | missing hfailed hvisited hnone =>
    rcases hsame.2 with ⟨text, -, htext⟩ | ⟨e, herror, -⟩
    · rw [hlenient, htext] at hnone
      cases hnone
    · refine Or.inr ⟨_, e, s.deeds ++ [.fetch url (.error e)], rfl, rfl, ?_⟩
      rw [Shared.visit_of_error hfailed hvisited herror]
      exact congrArg (Visit.gaveUp _ · _) hsame.1.symm
  | unplaced _ _ htext _ => exact Or.inl ⟨(hcongr htext).trans hvisit, fun next hnext => by cases hnext⟩
  | arrived _ _ htext _ =>
    refine Or.inl ⟨(hcongr htext).trans hvisit, fun next hnext => ?_⟩
    cases hnext
    exact ⟨hs.failed, hs.skipped⟩

/-! ## Steps and runs -/

/-- States that differ in nothing but what they logged. -/
structure State.Alike (s t : State σ) : Prop where
  stack : s.stack = t.stack
  shared : s.shared [] = t.shared []

/-- Steps that lead to states that are alike, or end in the same way. -/
def Step.Alike : Step σ → Step σ → Prop
  | .continues s, .continues t => s.Alike t
  | .ends ending source _, .ends ending' source' _ => ending = ending' ∧ source = source'
  | _, _ => False

section

variable {s t : State σ}

/-- A state is like itself. -/
theorem State.Alike.refl (s : State σ) : s.Alike s := ⟨rfl, rfl⟩

/-- States that are alike give the same object. -/
theorem State.Alike.output (h : s.Alike t) : s.output = t.output :=
  congrArg (fun shared : Shared σ =>
    (⟨shared.draft.buffer.text, shared.draft.renamings, shared.skipped⟩ : Output)) h.shared

/-- States with the same stack are alike if they share the same, whatever the deeds that led there. -/
theorem State.Alike.of_shared {deeds deeds' : List Deed} (hstack : s.stack = t.stack)
    (hshared : s.shared deeds = t.shared deeds') : s.Alike t :=
  ⟨hstack, congrArg (fun shared : Shared σ => { shared with deeds := [] }) hshared⟩

/-- Two walks take a step alike from states that are alike, if the import that they take comes to the
same in both. -/
theorem State.step_congr {options options' : InlineOptions} {i : Import} {imports : List Import}
    {stack : List Pending} (halike : s.Alike t) (hstack : t.stack = ⟨importer, i :: imports⟩ :: stack)
    (hsame : (t.shared []).visit fetcher options importer i.url =
      (t.shared []).visit fetcher options' importer i.url) :
    (s.step fetcher options entry).Alike (t.step fetcher options' entry) := by
  have hs := State.step_visit fetcher options entry [] (halike.stack.trans hstack)
  have ht := State.step_visit fetcher options' entry [] hstack
  rw [halike.shared, hsame] at hs
  -- Both steps are told by the same visit, and so by one case analysis.
  cases hvisit : (t.shared []).visit fetcher options' importer i.url with
  | passed next =>
    rw [hvisit] at hs ht
    obtain ⟨s', hs', hsstack, hsshared⟩ := hs
    obtain ⟨t', ht', htstack, htshared⟩ := ht
    rw [hs', ht']
    exact .of_shared (hsstack.trans htstack.symm) (hsshared.trans htshared.symm)
  | entered next own =>
    rw [hvisit] at hs ht
    obtain ⟨s', hs', hsstack, hsshared⟩ := hs
    obtain ⟨t', ht', htstack, htshared⟩ := ht
    rw [hs', ht']
    exact .of_shared (hsstack.trans htstack.symm) (hsshared.trans htshared.symm)
  | gaveUp e source done =>
    rw [hvisit] at hs ht
    obtain ⟨⟨log, hs'⟩, -⟩ := hs
    obtain ⟨⟨log', ht'⟩, -⟩ := ht
    rw [hs', ht']
    exact ⟨rfl, rfl⟩

/-- As long as no file failed, a strict walk takes the same step as the lenient one, or it ends there
and the import is the first one that the lenient walk records as a failure. -/
theorem State.step_strict (entry : String) (hplain : fetch.graceful = false) (halike : s.Alike t)
    (ht : (t.shared []).Unfailed) :
    ((s.step fetcher ⟨fetch, true⟩ entry).Alike (t.step fetcher ⟨fetch, false⟩ entry) ∧
        ∀ t', t.step fetcher ⟨fetch, false⟩ entry = .continues t' → (t'.shared []).Unfailed) ∨
      ∃ t' url importer e log, t.step fetcher ⟨fetch, false⟩ entry = .continues t' ∧
        s.step fetcher ⟨fetch, true⟩ entry =
          .ends (.error (.importUnavailable url importer (some e))) t'.source log ∧
        firstFailed? t'.skipped = some ⟨url, importer, .fetchFailed⟩ := by
  -- Only an import can set the two walks apart: ending the walk or leaving a file does not look at
  -- strictness.
  cases hstack : t.stack with
  | nil =>
    obtain ⟨⟨log, hs⟩, -⟩ := State.step_nil fetcher ⟨fetch, true⟩ entry (halike.stack.trans hstack)
    obtain ⟨⟨log', ht⟩, -⟩ := State.step_nil fetcher ⟨fetch, false⟩ entry hstack
    rw [hs, ht]
    refine Or.inl ⟨⟨congrArg Except.ok halike.output, congrArg Shared.source halike.shared⟩, ?_⟩
    intro t' hcontinues
    cases hcontinues
  | cons file stack =>
    obtain ⟨importer, imports⟩ := file
    cases imports with
    | nil =>
      obtain ⟨hsleave, -⟩ :=
        State.step_leave fetcher ⟨fetch, true⟩ entry (halike.stack.trans hstack) rfl
      obtain ⟨htleave, -⟩ := State.step_leave fetcher ⟨fetch, false⟩ entry hstack rfl
      rw [hsleave, htleave]
      refine Or.inl ⟨⟨rfl, halike.shared⟩, ?_⟩
      intro t' hcontinues
      cases hcontinues
      exact ht
    | cons i imports =>
      rcases Shared.visit_strict hplain ht importer i.url with
        ⟨hsame, hnext⟩ | ⟨next, e, done, hpassed, hskipped, hgaveUp⟩
      · refine Or.inl ⟨State.step_congr halike hstack hsame, fun t' hcontinues => ?_⟩
        have hunfailed := hnext _ (State.step_shared hcontinues [] hstack)
        exact ⟨hunfailed.failed, hunfailed.skipped⟩
      -- The lenient walk passes the file that failed, and the strict one gives up on it.
      · have hs := State.step_visit fetcher ⟨fetch, true⟩ entry [] (halike.stack.trans hstack)
        have ht' := State.step_visit fetcher ⟨fetch, false⟩ entry [] hstack
        rw [halike.shared, hgaveUp] at hs
        rw [hpassed] at ht'
        obtain ⟨⟨log, hends⟩, -⟩ := hs
        obtain ⟨t', hcontinues, -, rfl⟩ := ht'
        have hrecords : t'.skipped = t.skipped ++ [⟨i.url, importer, .fetchFailed⟩] := hskipped
        have hnone : firstFailed? t.skipped = none := ht.skipped
        refine Or.inr ⟨t', i.url, importer, e, log, hcontinues, hends, ?_⟩
        rw [hrecords, firstFailed?_concat, hnone]
        rfl

/-- A lenient walk that ends without a failure so far records none. -/
theorem State.firstFailure?_of_ends {options : InlineOptions} (ht : (t.shared []).Unfailed)
    {ending : Ending} {source : σ} {log : List Event}
    (h : t.step fetcher options entry = .ends ending source log) :
    firstFailure? (ending.map some) = none := by
  cases ending with
  | error e => rfl
  | ok output =>
    obtain ⟨-, rfl, -⟩ := State.ends_ok h
    exact ht.skipped

/-- What a run records stays recorded. -/
theorem run?_skipped {options : InlineOptions} {result : Result σ} {output : Output}
    (h : run? fetcher options entry steps s = some result) (hending : result.ending = .ok (some output)) :
    s.skipped <+: output.skipped := by
  have hkept : Kept fun shared : Shared σ => s.skipped <+: shared.skipped :=
    { pass := fun _ _ h => h.trans (List.prefix_append _ _)
      fail := fun _ _ _ h => h
      enter := fun _ _ _ _ h _ _ => h }
  obtain ⟨inside, deeds, t, ending, source, log, hreaches, hends, rfl, -⟩ := exists_reaches_of_run? h
  have hstart : s.skipped <+: (s.shared []).skipped := List.prefix_refl _
  have hskipped : s.skipped <+: t.skipped := hkept.reaches hreaches hstart
  cases ending with
  | error e => cases hending
  | ok output' =>
    cases hending
    obtain ⟨-, rfl, -⟩ := State.ends_ok hends
    exact hskipped

/-- A strict run gives what a lenient one gives, or ends at the first failure that the lenient run
records. -/
theorem run?_strict (hplain : fetch.graceful = false) (halike : s.Alike t)
    (ht : (t.shared []).Unfailed) {lenient : Result σ}
    (h : run? fetcher ⟨fetch, false⟩ entry steps t = some lenient) :
    ∃ strict, run? fetcher ⟨fetch, true⟩ entry steps s = some strict ∧
      ((strict.ending = lenient.ending ∧ strict.source = lenient.source ∧
          firstFailure? lenient.ending = none) ∨
        ∃ url importer e more u,
          strict.ending = .error (.importUnavailable url importer (some e)) ∧
          strict.source = u.source ∧ run? fetcher ⟨fetch, false⟩ entry more u = some lenient ∧
          firstFailed? u.skipped = some ⟨url, importer, .fetchFailed⟩) := by
  induction steps generalizing s t with
  | zero => cases h
  | succ steps ih =>
    rw [run?] at h
    rw [run?]
    rcases State.step_strict entry hplain halike ht with
      ⟨hsteps, hnext⟩ | ⟨t', url, importer, e, log, hcontinues, hends, hfirst⟩
    · -- Both walks go on from states that are alike, or end in the same way.
      cases hlenient : t.step fetcher ⟨fetch, false⟩ entry with
      | continues t' =>
        rw [hlenient] at h hsteps
        cases hstrict : s.step fetcher ⟨fetch, true⟩ entry with
        | continues s' =>
          rw [hstrict] at hsteps
          exact ih hsteps (hnext t' hlenient) h
        | ends ending source log =>
          rw [hstrict] at hsteps
          exact hsteps.elim
      | ends ending source log =>
        rw [hlenient] at h hsteps
        cases h
        cases hstrict : s.step fetcher ⟨fetch, true⟩ entry with
        | continues s' =>
          rw [hstrict] at hsteps
          exact hsteps.elim
        | ends ending' source' log' =>
          rw [hstrict] at hsteps
          obtain ⟨rfl, rfl⟩ := hsteps
          exact ⟨_, rfl, Or.inl ⟨rfl, rfl, State.firstFailure?_of_ends ht hlenient⟩⟩
    · rw [hcontinues] at h
      rw [hends]
      exact ⟨_, rfl, Or.inr ⟨url, importer, e, steps, t', rfl, rfl, h, hfirst⟩⟩

end

/-! ## Whole walks -/

/-- A strict walk gives what a lenient one gives, or ends at the first failure that the lenient walk
records, which asks for more from there. -/
theorem inline?_strict (hplain : fetch.graceful = false) {content : Option Text} {source : σ}
    {lenient : Result σ}
    (h : inline? fetcher ⟨fetch, false⟩ steps content entry source = some lenient) :
    ∃ strict, inline? fetcher ⟨fetch, true⟩ steps content entry source = some strict ∧
      ((strict.ending = lenient.ending ∧ strict.source = lenient.source ∧
          firstFailure? lenient.ending = none) ∨
        ∃ r e more u, firstFailure? lenient.ending = some r ∧
          strict.ending = .error (.importUnavailable r.url r.importer (some e)) ∧
          strict.source = u.source ∧ run? fetcher ⟨fetch, false⟩ entry more u = some lenient) := by
  unfold inline? at h ⊢
  cases hfilter : content.filter fun t => !isBlank t with
  | none =>
    rw [hfilter] at h
    cases h
    exact ⟨_, rfl, Or.inl ⟨rfl, rfl, rfl⟩⟩
  | some text =>
    rw [hfilter] at h
    simp only at h ⊢
    -- Both walks look for a place for members first, and find the same.
    by_cases hunplaced : Unplaced text entry
    · have hlook := (unplaced_iff text entry source).mpr hunplaced
      rw [if_pos hlook] at h ⊢
      cases h
      exact ⟨_, rfl, Or.inl ⟨rfl, rfl, rfl⟩⟩
    · have hlook := mt (unplaced_iff text entry source).mp hunplaced
      rw [if_neg hlook] at h ⊢
      obtain ⟨strict, hrun, hsame | ⟨url, importer, e, more, u, herror, hsource, hrest, hfirst⟩⟩ :=
        run?_strict hplain (.refl _) ⟨rfl, rfl⟩ h
      · exact ⟨strict, hrun, Or.inl hsame⟩
      · -- The lenient walk ends with an object, which has this record before all later ones.
        obtain ⟨output, houtput⟩ := ending_of_lenient rfl hunplaced h
        have hrecord : firstFailure? lenient.ending = some ⟨url, importer, .fetchFailed⟩ := by
          rw [houtput]
          exact (run?_skipped hrest houtput).find?_eq_some hfirst
        exact ⟨strict, hrun, Or.inr ⟨_, e, more, u, hrecord, herror, hsource, hrest⟩⟩

/-- A lenient walk tells what the strict one gives. If the lenient one gives no object, or records no
failure, the strict one gives the same and asks for the same. Otherwise the strict one fails for the
first import that the lenient one records as a failure, and has asked for what the lenient one asks for
first. -/
theorem strict_of_lenient (fetcher : Fetcher σ) (fetch : FetchOptions)
    (hplain : fetch.graceful = false) (steps : Nat) (content : Option Text) (entry : String)
    (source : σ) (lenient : Result σ)
    (h : inline? fetcher ⟨fetch, false⟩ steps content entry source = some lenient) :
    ∃ strict, inline? fetcher ⟨fetch, true⟩ steps content entry source = some strict ∧
      match firstFailure? lenient.ending with
      | none =>
        strict.ending = lenient.ending ∧ strict.source = lenient.source ∧
          requests fetcher ⟨fetch, true⟩ steps content entry source =
            requests fetcher ⟨fetch, false⟩ steps content entry source
      | some r =>
        (∃ e, strict.ending = .error (.importUnavailable r.url r.importer (some e))) ∧
          requests fetcher ⟨fetch, true⟩ steps content entry source <+:
            requests fetcher ⟨fetch, false⟩ steps content entry source := by
  -- Both walks are compared with their requests recorded.
  obtain ⟨recorded, hrecorded, hending, hsource⟩ := exists_recorded h
  obtain ⟨strict, hstrict, hcases⟩ := inline?_strict hplain hrecorded
  obtain ⟨hinline, hrequests⟩ := of_recorded hstrict
  refine ⟨strict.bare, hinline, ?_⟩
  rw [hrequests]
  rcases hcases with
    ⟨hsame, hsources, hnone⟩ | ⟨r, e, more, u, hsome, herror, hsources, hrest⟩
  · rw [hending] at hsame hnone
    rw [hsource] at hsources
    rw [hnone]
    exact ⟨hsame, congrArg Prod.fst hsources, congrArg Prod.snd hsources⟩
  · have hgrows := run?_requests hrest
    rw [← hsources, hsource] at hgrows
    rw [hending] at hsome
    rw [hsome]
    exact ⟨⟨e, herror⟩, hgrows⟩

/-- Of three files the second and the third are missing: the strict walk ends at the second. -/
theorem strict_of_lenient_missing :
    ∃ strict e,
      inline? Archive.fetch ⟨{}, true⟩ 9
          (some "import {a} from './b'\nimport {x} from './c'\nimport {y} from './d'\n{a}".toList) "/p"
          ⟨[("/b", "function a(){}".toList)], [], [], []⟩ = some strict ∧
        strict.ending = .error (.importUnavailable "/c" "/p" (some e)) ∧
        requests Archive.fetch ⟨{}, true⟩ 9
            (some "import {a} from './b'\nimport {x} from './c'\nimport {y} from './d'\n{a}".toList) "/p"
            ⟨[("/b", "function a(){}".toList)], [], [], []⟩ <+:
          requests Archive.fetch ⟨{}, false⟩ 9
            (some "import {a} from './b'\nimport {x} from './c'\nimport {y} from './d'\n{a}".toList) "/p"
            ⟨[("/b", "function a(){}".toList)], [], [], []⟩ := by
  have hrun : (inline? Archive.fetch ⟨{}, false⟩ 9
      (some "import {a} from './b'\nimport {x} from './c'\nimport {y} from './d'\n{a}".toList) "/p"
      ⟨[("/b", "function a(){}".toList)], [], [], []⟩).map Result.ending =
      some (.ok (some ⟨"\x7bthis._inlined_b_a,\n  _inlined_b_a() \x7b\x7d,\n\x7d".toList,
        [Renaming.of "/b" "a"],
        [⟨"/c", "/p", .fetchFailed⟩, ⟨"/d", "/p", .fetchFailed⟩]⟩)) := by
    decide +kernel
  obtain ⟨lenient, hlenient, hending⟩ := Option.map_eq_some_iff.mp hrun
  have hstrict := strict_of_lenient Archive.fetch {} rfl 9 _ "/p" _ lenient hlenient
  rw [hending] at hstrict
  obtain ⟨strict, hinline, ⟨e, herror⟩, hrequests⟩ := hstrict
  exact ⟨strict, e, hinline, herror, hrequests⟩

end Graft.Walk
