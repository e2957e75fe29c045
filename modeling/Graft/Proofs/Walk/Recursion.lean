import Graft.Proofs.Walk.History

/-!
# The walk as a recursion

`Recursion.follow` says what a walk is meant to be, without steps and without a stack: it takes the
imports of a file one after the other, and when one of them opens a file it follows that file's own
imports to the end before it takes the next one. All that is shared is handed on from one import to
the next. A walk need not end, so the depth of the calls is given; more depth changes nothing
(`follow_succ`). The machine ends exactly if some depth is enough, and then it has done the same deeds
in the same order and ends in the same way (`inline?_iff_recursion`).

While the machine follows the imports of the file on top of its stack, the files below stay as they
are. This is what ties the stack to the calls that are open in the recursion (`Follows`).
-/

namespace Graft.Walk

variable {σ : Type}

namespace Recursion

/-- What comes of following imports. -/
inductive Outcome (σ : Type) where
  /-- All of them are taken. -/
  | went (s : Shared σ)
  /-- The walk is given up. -/
  | gaveUp (e : InlineError) (source : σ) (deeds : List Deed)

/-- Follows the imports of the file `importer` in their order: each is visited, and if that opens a
file, the imports of that file come first. There is no result if the calls go deeper than `depth`. -/
def follow (fetcher : Fetcher σ) (options : InlineOptions) :
    (depth : Nat) → (importer : String) → (imports : List Import) → Shared σ → Option (Outcome σ)
  | 0, _, _, _ => none
  | _ + 1, _, [], s => some (.went s)
  | depth + 1, importer, i :: imports, s =>
    match s.visit fetcher options importer i.url with
    | .gaveUp e source deeds => some (.gaveUp e source deeds)
    | .passed s => follow fetcher options depth importer imports s
    | .entered s own =>
      match follow fetcher options depth i.url own s with
      | none => none
      | some (.gaveUp e source deeds) => some (.gaveUp e source deeds)
      | some (.went s) => follow fetcher options depth importer imports s

/-- A finished walk: how it ended, the fetcher's state after it, and all its deeds. -/
structure Ended (σ : Type) where
  ending : Except InlineError (Option Output)
  source : σ
  deeds : List Deed

/-- The end of a walk that followed all imports of the entry, or gave up. -/
def Outcome.ended : Outcome σ → Ended σ
  | .went s => ⟨.ok (some ⟨s.draft.buffer.text, s.draft.renamings, s.skipped⟩), s.source, s.deeds⟩
  | .gaveUp e source deeds => ⟨.error e, source, deeds⟩

/-- Inlines everything that the entry at `entry` imports, directly or through others, with calls up to
`depth` deep. -/
def inline? (fetcher : Fetcher σ) (options : InlineOptions) (depth : Nat) (content : Option Text)
    (entry : String) (source : σ) : Option (Ended σ) :=
  match content.filter fun t => !isBlank t with
  | none => some ⟨.ok none, source, []⟩
  | some content =>
    let imports := Import.all content entry
    let body := Import.objectBody content
    -- An entry that imports nothing needs no place for members.
    if imports ≠ [] ∧ '}' ∉ body then some ⟨.error (.missingClosingBrace entry), source, []⟩
    else
      (follow fetcher options depth entry imports
        { draft := ⟨Buffer.ofText body entry, []⟩
          scopes := Scopes.record [] entry imports
          visited := [entry]
          failed := []
          skipped := []
          source := source
          deeds := [] }).map Outcome.ended

end Recursion

open Recursion (Outcome Ended follow)

variable {fetcher : Fetcher σ} {options : InlineOptions} {entry importer : String}
  {s t : State σ} {result : Result σ} {steps more depth : Nat} {deeds before : List Deed}
  {stack : List Pending} {imports : List Import} {outcome : Outcome σ}

/-- More depth than is needed changes nothing. -/
theorem follow_succ {shared : Shared σ}
    (h : follow fetcher options depth importer imports shared = some outcome) :
    follow fetcher options (depth + 1) importer imports shared = some outcome := by
  -- The induction is on the depth, which every import uses up, be it for the next one or for the files below
  -- it.
  induction depth generalizing importer imports shared outcome with
  | zero => cases h
  | succ depth ih =>
    cases imports with
    | nil => exact h
    | cons i imports =>
      rw [follow] at h ⊢
      cases hvisit : shared.visit fetcher options importer i.url with
      | gaveUp e source done =>
        rw [hvisit] at h
        exact h
      | passed next =>
        rw [hvisit] at h
        exact ih h
      | entered next own =>
        rw [hvisit] at h
        simp only at h ⊢
        cases hinner : follow fetcher options depth i.url own next with
        | none =>
          rw [hinner] at h
          cases h
        | some inner =>
          rw [hinner] at h
          rw [ih hinner]
          cases inner with
          | gaveUp e source done => exact h
          | went after => exact ih h

/-! ## From the recursion to the machine -/

/-- What the machine does with the file on top of its stack, where `stack` is what lies below: it comes
down to `stack` with the same things shared as the recursion, or it gives up like the recursion. -/
def Follows (fetcher : Fetcher σ) (options : InlineOptions) (entry : String) (s : State σ)
    (stack : List Pending) (before : List Deed) : Outcome σ → Prop
  | .went next => ∃ steps deeds t, Reaches fetcher options entry steps s deeds t ∧
      t.stack = stack ∧ t.shared (before ++ deeds) = next
  | .gaveUp e source done => ∃ steps deeds t log, Reaches fetcher options entry steps s deeds t ∧
      t.step fetcher options entry = .ends (.error e) source log ∧
      before ++ (deeds ++ t.deeds fetcher options) = done

/-- Steps to a state that follows its imports are part of following them. -/
theorem Reaches.follows (h : Reaches fetcher options entry steps s deeds t)
    (hfollows : Follows fetcher options entry t stack (before ++ deeds) outcome) :
    Follows fetcher options entry s stack before outcome := by
  cases outcome with
  | went next =>
    obtain ⟨more, later, u, hreaches, hstack, hshared⟩ := hfollows
    exact ⟨_, _, u, h.trans hreaches, hstack, by rwa [← List.append_assoc]⟩
  | gaveUp e source done =>
    obtain ⟨more, later, u, log, hreaches, hends, hdone⟩ := hfollows
    refine ⟨_, _, u, log, h.trans hreaches, hends, ?_⟩
    rwa [List.append_assoc, ← List.append_assoc]

/-- One step leads to the state after it. -/
theorem Reaches.one {s' : State σ} (h : s.step fetcher options entry = .continues s') :
    Reaches fetcher options entry 1 s (s.deeds fetcher options) s' := by
  have := Reaches.step h (.refl s')
  rwa [List.append_nil] at this

/-- The machine follows the imports on top of its stack as the recursion does. -/
theorem follows_of_follow (entry : String)
    (h : follow fetcher options depth importer imports (s.shared before) = some outcome)
    (hstack : s.stack = ⟨importer, imports⟩ :: stack) :
    Follows fetcher options entry s stack before outcome := by
  -- The induction is on the depth: each inner call gives the steps for its stretch of the walk.
  induction depth generalizing s importer imports stack before outcome with
  | zero => cases h
  | succ depth ih =>
    cases imports with
    | nil =>
      cases h
      obtain ⟨hstep, hdeeds⟩ := State.step_leave fetcher options entry hstack rfl
      exact ⟨_, _, _, Reaches.one hstep, rfl, by rw [hdeeds, List.append_nil]; rfl⟩
    | cons i imports =>
      have hstep := State.step_visit fetcher options entry before hstack
      rw [follow] at h
      cases hvisit : (s.shared before).visit fetcher options importer i.url with
      | gaveUp e source done =>
        rw [hvisit] at h hstep
        obtain ⟨⟨log, hends⟩, hdone⟩ := hstep
        cases h
        exact ⟨_, _, s, log, .refl s, hends, hdone⟩
      | passed next =>
        rw [hvisit] at h hstep
        obtain ⟨s', hcontinues, hstack', rfl⟩ := hstep
        exact (Reaches.one hcontinues).follows (ih h hstack')
      | entered next own =>
        rw [hvisit] at h hstep
        obtain ⟨s', hcontinues, hstack', rfl⟩ := hstep
        simp only at h
        cases hinner : follow fetcher options depth i.url own
            (s'.shared (before ++ s.deeds fetcher options)) with
        | none =>
          rw [hinner] at h
          cases h
        | some inner =>
          rw [hinner] at h
          have hfirst := ih hinner hstack'
          cases inner with
          | gaveUp e source done =>
            cases h
            exact (Reaches.one hcontinues).follows hfirst
          | went after =>
            -- The file that was opened is left, and its importer is on top again.
            obtain ⟨steps, deeds, t, hreaches, hstack'', rfl⟩ := hfirst
            exact (Reaches.one hcontinues).follows (hreaches.follows (ih h hstack''))

/-! ## From the machine to the recursion -/

/-- If the machine ends, so does following the imports on top of its stack, with calls that are no
deeper than there are steps. -/
theorem exists_follow (before : List Deed) (hstack : s.stack = ⟨importer, imports⟩ :: stack)
    (h : run? fetcher options entry steps s = some result) (hdepth : steps ≤ depth) :
    ∃ outcome, follow fetcher options depth importer imports (s.shared before) = some outcome := by
  -- The induction is on the steps that are left, since a file that is opened takes many of them.
  induction hn : steps using Nat.strongRecOn
    generalizing steps depth s importer imports stack before with
  | _ n ih =>
    subst hn
    cases steps with
    | zero => cases h
    | succ steps =>
      obtain ⟨depth, rfl⟩ : ∃ inner, depth = inner + 1 := ⟨depth - 1, by omega⟩
      cases imports with
      | nil => exact ⟨.went (s.shared before), rfl⟩
      | cons i imports =>
        have hstep := State.step_visit fetcher options entry before hstack
        rw [follow]
        cases hvisit : (s.shared before).visit fetcher options importer i.url with
        | gaveUp e source done => exact ⟨.gaveUp e source done, rfl⟩
        | passed next =>
          rw [hvisit] at hstep
          obtain ⟨s', hcontinues, hstack', rfl⟩ := hstep
          obtain ⟨rest, hrest, hrun⟩ := (Reaches.one hcontinues).exists_rest h
          exact ih rest (by omega) _ hstack' hrun (by omega) rfl
        | entered next own =>
          rw [hvisit] at hstep
          obtain ⟨s', hcontinues, hstack', rfl⟩ := hstep
          obtain ⟨rest, hrest, hrun⟩ := (Reaches.one hcontinues).exists_rest h
          obtain ⟨inner, hinner⟩ := ih rest (by omega) (before ++ s.deeds fetcher options) hstack'
            hrun (show rest ≤ depth by omega) rfl
          simp only [hinner]
          cases inner with
          | gaveUp e source done => exact ⟨.gaveUp e source done, rfl⟩
          | went after =>
            obtain ⟨inside, deeds, t, hreaches, hstack'', rfl⟩ :=
              follows_of_follow entry hinner hstack'
            obtain ⟨last, hlast, hrun'⟩ := hreaches.exists_rest hrun
            exact ih last (by omega) _ hstack'' hrun' (by omega) rfl

/-! ## The whole walk -/

/-- A machine that has one file on its stack and follows it ends like the recursion. -/
theorem Follows.run? (h : Follows fetcher options entry s [] [] outcome) :
    ∃ steps result, Walk.run? fetcher options entry steps s = some result ∧
      result.ending = outcome.ended.ending ∧ result.source = outcome.ended.source ∧
      history fetcher options entry steps s = outcome.ended.deeds := by
  cases outcome with
  | went next =>
    obtain ⟨steps, deeds, t, hreaches, hstack, rfl⟩ := h
    -- No file is open any more, so the next step ends the walk.
    obtain ⟨⟨log, hstep⟩, hdeeds⟩ := State.step_nil fetcher options entry hstack
    refine ⟨steps + 1, ⟨.ok (some t.output), t.source, log⟩, ?_, rfl, rfl, ?_⟩
    · rw [hreaches.run?_add, Walk.run?, hstep]
      rfl
    · rw [hreaches.history_add, history, hstep, hdeeds]
      simp [Outcome.ended, State.shared]
  | gaveUp e source done =>
    obtain ⟨steps, deeds, t, log, hreaches, hends, rfl⟩ := h
    refine ⟨steps + 1, ⟨.error e, source, log⟩, ?_, rfl, rfl, ?_⟩
    · rw [hreaches.run?_add, Walk.run?, hends]
      rfl
    · rw [hreaches.history_add, history, hends]
      simp [Outcome.ended]

/-- A machine with one file on its stack ends exactly as following that file's imports does. -/
theorem run?_iff_follow (hstack : s.stack = [⟨importer, imports⟩]) (ended : Ended σ) :
    (∃ steps result, run? fetcher options entry steps s = some result ∧
      result.ending = ended.ending ∧ result.source = ended.source ∧
      history fetcher options entry steps s = ended.deeds) ↔
    ∃ depth, (follow fetcher options depth importer imports (s.shared [])).map Outcome.ended =
      some ended := by
  constructor
  · rintro ⟨steps, result, hrun, hending, hsource, hdeeds⟩
    obtain ⟨outcome, hfollow⟩ := exists_follow [] hstack hrun (Nat.le_refl steps)
    obtain ⟨steps', result', hrun', hending', hsource', hdeeds'⟩ :=
      (follows_of_follow entry hfollow hstack).run?
    -- Both runs are that of the machine with steps to spare, so they are one.
    have hleft := run?_add hrun steps'
    have hright := run?_add hrun' steps
    rw [Nat.add_comm steps' steps] at hright
    have hresult : result = result' := Option.some.inj (hleft.1.symm.trans hright.1)
    have hhistory : ended.deeds = outcome.ended.deeds := by
      rw [← hdeeds, ← hdeeds', ← hleft.2, ← hright.2]
    refine ⟨steps, ?_⟩
    rw [hfollow, Option.map_some]
    congr 1
    obtain ⟨ending, source, deeds⟩ := ended
    simp only at hending hsource hhistory
    rw [← hending, ← hsource, hhistory, hresult, hending', hsource']
  · rintro ⟨depth, h⟩
    obtain ⟨outcome, hfollow, rfl⟩ := Option.map_eq_some_iff.mp h
    exact (follows_of_follow entry hfollow hstack).run?

/-- Inlining an entry ends exactly if the recursion does with calls of some depth, and then with the
same result, the same state of the fetcher, and the same fetches, files and skipped imports in the
same order. -/
theorem inline?_iff_recursion (fetcher : Fetcher σ) (options : InlineOptions)
    (content : Option Text) (entry : String) (source : σ) (ended : Ended σ) :
    (∃ steps result, inline? fetcher options steps content entry source = some result ∧
      result.ending = ended.ending ∧ result.source = ended.source ∧
      inlineHistory fetcher options steps content entry source = ended.deeds) ↔
    ∃ depth, Recursion.inline? fetcher options depth content entry source = some ended := by
  unfold inline? Recursion.inline? inlineHistory
  cases content.filter fun t => !isBlank t with
  | none =>
    obtain ⟨ending, source', deeds⟩ := ended
    simp
  | some content =>
    -- Both look for a place to put members before the first import is taken.
    have hbrace : ((start content entry source).stack.any (fun file => !file.imports.isEmpty) &&
        (start content entry source).draft.buffer.lastBrace?.isNone) = true ↔
        Import.all content entry ≠ [] ∧ '}' ∉ Import.objectBody content :=
      unplaced_iff content entry source
    have hstack : (start content entry source).stack = [⟨entry, Import.all content entry⟩] := rfl
    by_cases hplace : Import.all content entry ≠ [] ∧ '}' ∉ Import.objectBody content
    · obtain ⟨ending, source', deeds⟩ := ended
      simp [hbrace, hplace]
    · simp only [hbrace, hplace, if_false]
      exact run?_iff_follow hstack ended

end Graft.Walk
