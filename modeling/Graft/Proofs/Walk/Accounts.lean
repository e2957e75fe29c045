import Graft.Fetch.Archive
import Graft.Proofs.Walk.History
import Graft.Proofs.Walk.Once

/-!
# Every import is accounted for

A step that takes an import makes one use of it: its file arrives, or is asked for in vain, or it is
passed over without asking (`Fate`). The uses made so far and the imports that the open files have left
are together the references of the entry and of all files that arrived (`Accounts.balance`), so at the
end, when no file is open, the uses are exactly those references. Each use fits the fetches that were
made before it (`Orderly`), and from that alone follows what is passed over and why
(`Orderly.reasons`).
-/

namespace Graft.Walk

variable {σ : Type}

/-! ## References and uses -/

/-- The fetch that a deed makes. -/
def Deed.fetched? : Deed → Option (String × Except FetchError (Option Text))
  | .fetch url answer => some (url, answer)
  | _ => none

/-- The fetches among some deeds, each with its URL and its answer. -/
def fetches (deeds : List Deed) : List (String × Except FetchError (Option Text)) :=
  deeds.filterMap Deed.fetched?

/-- The imports that an open file has left, each with the file's URL. -/
def Pending.references (file : Pending) : List (String × Import) :=
  file.imports.map fun i => (file.url, i)

/-- The imports of files, each with the URL of its file. -/
def references (files : List (String × Text)) : List (String × Import) :=
  files.flatMap fun file => Pending.references ⟨file.1, Import.all file.2 file.1⟩

/-- What becomes of an import. -/
inductive Fate where
  /-- Its file is fetched and put in. -/
  | arrives (text : Text)
  /-- Its file is asked for in vain, and it is passed over. -/
  | fails
  /-- It is passed over without asking. -/
  | repeats (reason : SkipReason)

/-- What a walk makes of an import. -/
structure Use where
  /-- The file that has the import. -/
  importer : String
  target : Import
  fate : Fate

namespace Use

/-- The import, with the URL of its file. -/
def reference (u : Use) : String × Import := (u.importer, u.target)

/-- What the walk does for it. -/
def deeds (u : Use) : List Deed :=
  match u.fate with
  | .arrives text =>
    [.fetch u.target.url (.ok (some text)), .inline u.target.url (Declaration.extract text)]
  | .fails => [.fetch u.target.url (.ok none), .skip ⟨u.target.url, u.importer, .fetchFailed⟩]
  | .repeats reason => [.skip ⟨u.target.url, u.importer, reason⟩]

/-- The record of an import that is passed over. -/
def record? (u : Use) : Option Skipped :=
  match u.fate with
  | .arrives _ => none
  | .fails => some ⟨u.target.url, u.importer, .fetchFailed⟩
  | .repeats reason => some ⟨u.target.url, u.importer, reason⟩

/-- Whether a use is one that a walk makes after some fetches: only a new file is asked for, and what
is passed over without asking is passed over for a reason. -/
def Fits (entry : String) (made : List (String × Except FetchError (Option Text))) (u : Use) : Prop :=
  match u.fate with
  | .arrives _ => u.target.url ≠ entry ∧ u.target.url ∉ made.map Prod.fst
  | .fails => u.target.url ≠ entry ∧ u.target.url ∉ made.map Prod.fst
  | .repeats .alreadyInlined =>
    u.target.url = entry ∨ ∃ text, (u.target.url, .ok (some text)) ∈ made
  | .repeats .fetchFailed => (u.target.url, .ok none) ∈ made

end Use

/-- The fetches that some uses make. -/
def made (uses : List Use) : List (String × Except FetchError (Option Text)) :=
  fetches (uses.flatMap Use.deeds)

/-- Each use fits the fetches made for those before it. -/
inductive Orderly (entry : String) : List Use → Prop
  | nil : Orderly entry []
  | concat {uses : List Use} {u : Use} (h : Orderly entry uses) (hu : u.Fits entry (made uses)) :
      Orderly entry (uses ++ [u])

/-- What a walk made of the imports, against its deeds and the records of what it passed over. -/
structure Accounting (content : Text) (entry : String) (deeds : List Deed) (skipped : List Skipped)
    (uses : List Use) : Prop where
  /-- The walk does nothing but for these uses. -/
  did : uses.flatMap Use.deeds = deeds
  /-- They take each import of the entry and of each file that arrived, and each of them once. -/
  taken : (uses.map Use.reference).Perm (references ((entry, content) :: arrivals deeds))
  /-- The records are those of the imports that are passed over, in order. -/
  recorded : uses.filterMap Use.record? = skipped
  /-- There are as many imports as files that arrived and records. -/
  balance : (references ((entry, content) :: arrivals deeds)).length =
    (arrivals deeds).length + skipped.length
  /-- No file is asked for twice. -/
  once : ((fetches deeds).map Prod.fst).Nodup
  /-- A record says that its file was put in before exactly if that is the entry, or it was fetched for
  an earlier use. -/
  inlinedBefore : ∀ before u after r, uses = before ++ u :: after → u.record? = some r →
    (r.reason = .alreadyInlined ↔ r.url = entry ∨ ∃ text, (r.url, .ok (some text)) ∈ made before)
  /-- A record says that its file could not be fetched exactly if that was so for this use or an earlier
  one. -/
  failedBefore : ∀ before u after r, uses = before ++ u :: after → u.record? = some r →
    (r.reason = .fetchFailed ↔ (r.url, .ok none) ∈ made (before ++ [u]))
  /-- All records of a URL have one reason. -/
  oneReason : ∀ r ∈ skipped, ∀ r' ∈ skipped, r.url = r'.url → r.reason = r'.reason

/-! ## Orderly uses -/

section

variable {entry : String} {uses : List Use} {u : Use}

/-- The fetches among deeds follow each other. -/
theorem fetches_append (deeds later : List Deed) :
    fetches (deeds ++ later) = fetches deeds ++ fetches later := List.filterMap_append

/-- The fetches that uses make follow each other. -/
theorem made_append (uses later : List Use) : made (uses ++ later) = made uses ++ made later := by
  unfold made
  rw [List.flatMap_append, fetches_append]

/-- A use makes a fetch of its own URL or none. -/
theorem made_singleton (u : Use) :
    made [u] = match u.fate with
      | .arrives text => [(u.target.url, .ok (some text))]
      | .fails => [(u.target.url, .ok none)]
      | .repeats _ => [] := by
  obtain ⟨importer, target, fate⟩ := u
  cases fate <;> rfl

/-- A use makes a file arrive or leaves a record. -/
theorem Use.arrival_or_record (u : Use) :
    (arrivals u.deeds).length + u.record?.toList.length = 1 := by
  obtain ⟨importer, target, fate⟩ := u
  cases fate <;> rfl

/-- There are as many uses as files that arrive and records. -/
theorem length_uses (uses : List Use) :
    uses.length =
      (arrivals (uses.flatMap Use.deeds)).length + (uses.filterMap Use.record?).length := by
  induction uses with
  | nil => rfl
  | cons u uses ih =>
    have harrivals : arrivals ((u :: uses).flatMap Use.deeds) =
        arrivals u.deeds ++ arrivals (uses.flatMap Use.deeds) := by
      rw [List.flatMap_cons]
      exact List.filterMap_append
    have hrecords : (u :: uses).filterMap Use.record? =
        u.record?.toList ++ uses.filterMap Use.record? := by
      cases hrecord : u.record? <;> simp [hrecord]
    have hone := u.arrival_or_record
    rw [harrivals, hrecords, List.length_append, List.length_append, List.length_cons, ih]
    omega

namespace Orderly

/-- The entry is never asked for, and no file is asked for twice. -/
theorem nodup (h : Orderly entry uses) : (entry :: (made uses).map Prod.fst).Nodup := by
  induction h with
  | nil => simp [made, fetches]
  | @concat uses u _ hu ih =>
    rw [made_append, made_singleton, List.map_append, ← List.cons_append]
    obtain ⟨importer, target, fate⟩ := u
    have hfresh : target.url ≠ entry ∧ target.url ∉ (made uses).map Prod.fst →
        (entry :: (made uses).map Prod.fst ++ [target.url]).Nodup := by
      rintro ⟨hentry, hnew⟩
      refine List.nodup_append.mpr ⟨ih, List.nodup_singleton _, ?_⟩
      intro url hurl url' hurl' hsame
      rw [List.mem_singleton.mp hurl'] at hsame
      rcases List.mem_cons.mp (hsame ▸ hurl) with h | h
      · exact hentry h
      · exact hnew h
    -- Only a fetch adds a URL, and it is of a file that was not asked for before.
    cases fate with
    | arrives text => exact hfresh hu
    | fails => exact hfresh hu
    | repeats reason => simpa using ih

/-- A file that could not be fetched is not the entry and never arrived. -/
theorem of_failed (h : Orderly entry uses) {url : String} (hfailed : (url, .ok none) ∈ made uses) :
    url ≠ entry ∧ ∀ text, (url, .ok (some text)) ∉ made uses := by
  obtain ⟨hentry, hnodup⟩ := List.nodup_cons.mp h.nodup
  constructor
  · rintro rfl
    exact hentry (List.mem_map_of_mem hfailed)
  · intro text harrived
    have hsame := List.inj_on_of_nodup_map hnodup harrived hfailed rfl
    simp at hsame

/-- Each use fits what was before it. -/
theorem fits (h : Orderly entry uses) {before after : List Use} (hsplit : uses = before ++ u :: after) :
    Orderly entry before ∧ u.Fits entry (made before) := by
  induction h generalizing after with
  | nil => simp at hsplit
  | @concat uses last hbefore hlast ih =>
    rcases List.eq_nil_or_concat' after with rfl | ⟨rest, final, rfl⟩
    · obtain ⟨rfl, hsame⟩ := List.append_inj' hsplit rfl
      cases hsame
      exact ⟨hbefore, hlast⟩
    · rw [← List.cons_append, ← List.append_assoc] at hsplit
      exact ih (List.append_inj' hsplit rfl).1

/-- Uses up to one of them are orderly. -/
theorem through (h : Orderly entry uses) {before after : List Use}
    (hsplit : uses = before ++ u :: after) : Orderly entry (before ++ [u]) :=
  .concat (h.fits hsplit).1 (h.fits hsplit).2

/-- Why an import is passed over: its file is the entry, or it arrived before, and it was not asked for
in vain so far; or it was. -/
theorem reasons (h : Orderly entry uses) {before after : List Use} {r : Skipped}
    (hsplit : uses = before ++ u :: after) (hr : u.record? = some r) :
    (r.reason = .alreadyInlined ∧
        (r.url = entry ∨ ∃ text, (r.url, .ok (some text)) ∈ made before) ∧
        (r.url, .ok none) ∉ made (before ++ [u])) ∨
      (r.reason = .fetchFailed ∧
        ¬ (r.url = entry ∨ ∃ text, (r.url, .ok (some text)) ∈ made before) ∧
        (r.url, .ok none) ∈ made (before ++ [u])) := by
  obtain ⟨hbefore, hfits⟩ := h.fits hsplit
  have hthrough := h.through hsplit
  have hmade := made_append before [u]
  rw [made_singleton] at hmade
  -- What failed up to here is not the entry and did not arrive.
  have hexclusive : (r.url, .ok none) ∈ made (before ++ [u]) →
      ¬ (r.url = entry ∨ ∃ text, (r.url, .ok (some text)) ∈ made before) := by
    rintro hfailed (hentry | ⟨text, harrived⟩)
    · exact (hthrough.of_failed hfailed).1 hentry
    · refine (hthrough.of_failed hfailed).2 text ?_
      rw [made_append]
      exact List.mem_append_left _ harrived
  obtain ⟨importer, target, fate⟩ := u
  cases fate with
  | arrives text => cases hr
  | fails =>
    cases hr
    have hfailed : (target.url, .ok none) ∈ made (before ++ [⟨importer, target, .fails⟩]) := by
      rw [hmade]
      exact List.mem_append_right _ (List.mem_singleton_self _)
    exact Or.inr ⟨rfl, hexclusive hfailed, hfailed⟩
  | repeats reason =>
    cases hr
    cases reason with
    | alreadyInlined => exact Or.inl ⟨rfl, hfits, fun hfailed => hexclusive hfailed hfits⟩
    | fetchFailed =>
      have hfailed : (target.url, .ok none) ∈
          made (before ++ [⟨importer, target, .repeats .fetchFailed⟩]) := by
        rw [hmade]
        exact List.mem_append_left _ hfits
      exact Or.inr ⟨rfl, hexclusive hfailed, hfailed⟩

/-- All records of a URL have one reason. -/
theorem reason_unique (h : Orderly entry uses) {r r' : Skipped}
    (hr : r ∈ uses.filterMap Use.record?) (hr' : r' ∈ uses.filterMap Use.record?)
    (hurl : r.url = r'.url) : r.reason = r'.reason := by
  -- Over the whole walk, a record tells whether the file was asked for in vain.
  have hreason : ∀ {r : Skipped}, r ∈ uses.filterMap Use.record? →
      (r.reason = .fetchFailed ↔ (r.url, .ok none) ∈ made uses) := by
    intro r hr
    obtain ⟨u, hu, hr⟩ := List.mem_filterMap.mp hr
    obtain ⟨before, after, hsplit⟩ := List.append_of_mem hu
    have hmade : made uses = made (before ++ [u]) ++ made after := by
      rw [hsplit, ← made_append, List.append_assoc, List.singleton_append]
    rcases h.reasons hsplit hr with ⟨hreason, hinlined, -⟩ | ⟨hreason, -, hfailed⟩
    · refine ⟨fun hother => absurd (hreason.symm.trans hother) (by simp), fun hfailed => ?_⟩
      rcases hinlined with hentry | ⟨text, harrived⟩
      · exact absurd hentry (h.of_failed hfailed).1
      · refine absurd ?_ ((h.of_failed hfailed).2 text)
        rw [hmade, made_append]
        exact List.mem_append_left _ (List.mem_append_left _ harrived)
    · refine ⟨fun _ => ?_, fun _ => hreason⟩
      rw [hmade]
      exact List.mem_append_left _ hfailed
  have hiff : r.reason = .fetchFailed ↔ r'.reason = .fetchFailed := by
    rw [hreason hr, hreason hr', hurl]
  cases hfirst : r.reason with
  | fetchFailed => exact (hiff.mp hfirst).symm
  | alreadyInlined =>
    cases hsecond : r'.reason with
    | alreadyInlined => rfl
    | fetchFailed =>
      rw [hiff.mpr hsecond] at hfirst
      cases hfirst

end Orderly

end

/-! ## Uses of a walk -/

section

variable {fetcher : Fetcher σ} {options : InlineOptions} {content : Text} {entry : String}
  {steps : Nat} {s t : State σ} {shared : Shared σ} {uses : List Use} {deeds before : List Deed}
  {importer : String} {i : Import} {imports : List Import} {stack : List Pending}

/-- Passing over a file is no fetch. -/
@[simp]
theorem fetches_pass (s : Shared σ) (skipped : Skipped) :
    fetches (s.pass skipped).deeds = fetches s.deeds := by
  simp [Shared.pass, fetches, Deed.fetched?]

/-- A failure is the last fetch. -/
@[simp]
theorem fetches_withFailure (s : Shared σ) (url : String) (source : σ) :
    fetches (s.withFailure url source).deeds = fetches s.deeds ++ [(url, .ok none)] := by
  simp [Shared.withFailure, fetches, Deed.fetched?]

/-- A file that is put in was the last fetch. -/
@[simp]
theorem fetches_withFile (s : Shared σ) (url : String) (text : Text) (source : σ) :
    fetches (s.withFile url text source).deeds = fetches s.deeds ++ [(url, .ok (some text))] := by
  simp [Shared.withFile, fetches, Deed.fetched?]

/-- The sets of files are what the fetches so far came to. -/
structure Recalled (entry : String) (s : Shared σ) : Prop where
  visited : ∀ url, url ∈ s.visited ↔ url = entry ∨ ∃ text, (url, .ok (some text)) ∈ fetches s.deeds
  failed : ∀ url, url ∈ s.failed ↔ (url, .ok none) ∈ fetches s.deeds
  fetched : ∀ url ∈ (fetches s.deeds).map Prod.fst, url ∈ s.visited ∨ url ∈ s.failed

/-- A walk keeps this. -/
theorem recalled_kept (entry : String) : Kept (Recalled (σ := σ) entry) where
  -- An import that is passed fetches nothing, a failure adds to the failed files, and an arrival to the
  -- visited ones.
  pass s skipped h := by
    constructor
    · rw [fetches_pass]
      exact h.visited
    · rw [fetches_pass]
      exact h.failed
    · rw [fetches_pass]
      exact h.fetched
  fail s url source h := by
    have hvisited : (s.withFailure url source).visited = s.visited := rfl
    have hfailed : (s.withFailure url source).failed = url :: s.failed := rfl
    constructor
    · intro u
      rw [fetches_withFailure, hvisited, h.visited u]
      simp
    · intro u
      rw [fetches_withFailure, hfailed, List.mem_cons, h.failed u]
      simp [or_comm]
    · intro u hu
      rw [fetches_withFailure, List.map_append, List.mem_append] at hu
      rw [hvisited, hfailed, List.mem_cons]
      rcases hu with hu | hu
      · exact (h.fetched u hu).imp_right Or.inr
      · exact Or.inr (Or.inl (List.mem_singleton.mp hu))
  enter s url text source h _ _ := by
    have hvisited : (s.withFile url text source).visited = url :: s.visited := rfl
    have hfailed : (s.withFile url text source).failed = s.failed := rfl
    constructor
    · intro u
      rw [fetches_withFile, hvisited, List.mem_cons, h.visited u]
      constructor
      · rintro (rfl | rfl | ⟨text', htext⟩)
        · exact Or.inr ⟨text, by simp⟩
        · exact Or.inl rfl
        · exact Or.inr ⟨text', List.mem_append_left _ htext⟩
      · rintro (rfl | ⟨text', htext⟩)
        · exact Or.inr (Or.inl rfl)
        · rcases List.mem_append.mp htext with htext | htext
          · exact Or.inr (Or.inr ⟨text', htext⟩)
          · exact Or.inl (Prod.mk.inj (List.mem_singleton.mp htext)).1
    · intro u
      rw [fetches_withFile, hfailed, h.failed u]
      simp
    · intro u hu
      rw [fetches_withFile, List.map_append, List.mem_append] at hu
      rw [hvisited, hfailed, List.mem_cons]
      rcases hu with hu | hu
      · exact (h.fetched u hu).imp_left Or.inr
      · exact Or.inl (Or.inl (List.mem_singleton.mp hu))

/-- At the start nothing was fetched. -/
theorem recalled_start (content : Text) (entry : String) (source : σ) :
    Recalled entry ((start content entry source).shared []) := by
  constructor <;> simp [State.shared, start, fetches]

/-- A file that is in neither set is not the entry and was not asked for. -/
theorem Recalled.fresh (h : Recalled entry shared) {url : String} (hfailed : url ∉ shared.failed)
    (hvisited : url ∉ shared.visited) :
    url ≠ entry ∧ url ∉ (fetches shared.deeds).map Prod.fst :=
  ⟨fun hentry => hvisited ((h.visited url).mpr (Or.inl hentry)),
    fun hfetched => (h.fetched url hfetched).elim hvisited hfailed⟩

/-- The uses of the imports taken so far. -/
structure Accounts (content : Text) (entry : String) (uses : List Use) (stack : List Pending)
    (s : Shared σ) : Prop where
  /-- The walk did nothing else. -/
  did : uses.flatMap Use.deeds = s.deeds
  /-- Each import of the files so far was taken once, or is left in an open file. -/
  balance : (uses.map Use.reference ++ stack.flatMap Pending.references).Perm
    (references ((entry, content) :: arrivals s.deeds))
  /-- Each import that was passed over was recorded. -/
  recorded : uses.filterMap Use.record? = s.skipped
  orderly : Orderly entry uses

/-- A use takes an import off the file on top and may open a file with imports of its own. -/
theorem Accounts.use (h : Accounts content entry uses (⟨importer, i :: imports⟩ :: stack) shared)
    {u : Use} (opened : List Pending) {next : Shared σ} (hu : u.reference = (importer, i))
    (hdeeds : next.deeds = shared.deeds ++ u.deeds)
    (hopened : opened.flatMap Pending.references = references (arrivals u.deeds))
    (hskipped : next.skipped = shared.skipped ++ u.record?.toList)
    (hfits : u.Fits entry (fetches shared.deeds)) :
    Accounts content entry (uses ++ [u]) (opened ++ ⟨importer, imports⟩ :: stack) next := by
  constructor
  · rw [List.flatMap_append, h.did, hdeeds]
    simp
  · -- The import moves from the file to the uses; the file that is opened brings its own on both sides.
    have harrivals : references ((entry, content) :: arrivals next.deeds) =
        references ((entry, content) :: arrivals shared.deeds) ++ references (arrivals u.deeds) := by
      rw [hdeeds, arrivals, List.filterMap_append, ← List.cons_append]
      exact List.flatMap_append
    have hleft : (uses ++ [u]).map Use.reference ++
        (⟨importer, imports⟩ :: stack : List Pending).flatMap Pending.references =
        uses.map Use.reference ++
          (⟨importer, i :: imports⟩ :: stack : List Pending).flatMap Pending.references := by
      simp [hu, Pending.references]
    rw [harrivals, List.flatMap_append, hopened]
    refine (List.perm_append_comm_assoc _ _ _).trans ?_
    refine List.perm_append_comm.trans ?_
    rw [hleft]
    exact h.balance.append_right _
  · rw [List.filterMap_append, h.recorded, hskipped]
    cases hrecord : u.record? <;> simp [hrecord]
  · refine h.orderly.concat ?_
    rw [made, h.did]
    exact hfits

/-- A visit makes one use of its import. -/
theorem Accounts.visit (h : Accounts content entry uses (⟨importer, i :: imports⟩ :: stack) shared)
    (hrecalled : Recalled entry shared) {visit : Visit σ}
    (hvisit : Comes fetcher options shared importer i.url visit) :
    match visit with
    | .passed next => ∃ u, Accounts content entry (uses ++ [u]) (⟨importer, imports⟩ :: stack) next
    | .entered next own =>
      ∃ u, Accounts content entry (uses ++ [u]) (⟨i.url, own⟩ :: ⟨importer, imports⟩ :: stack) next
    | .gaveUp _ _ _ => True := by
  -- What comes of the visit is what is recorded of the import, and the memory of the walk is what the fetches
  -- say.
  cases hvisit with
  | failedBefore hfailed =>
    exact ⟨⟨importer, i, .repeats .fetchFailed⟩,
      h.use [] rfl rfl rfl rfl ((hrecalled.failed i.url).mp hfailed)⟩
  | visitedBefore _ hvisited =>
    exact ⟨⟨importer, i, .repeats .alreadyInlined⟩,
      h.use [] rfl rfl rfl rfl ((hrecalled.visited i.url).mp hvisited)⟩
  | refused _ _ _ => trivial
  | missing hfailed hvisited _ =>
    refine ⟨⟨importer, i, .fails⟩, h.use [] rfl ?_ rfl rfl (hrecalled.fresh hfailed hvisited)⟩
    simp [Shared.pass, Shared.withFailure, Use.deeds]
  | unplaced _ _ _ _ => trivial
  | @arrived hfailed hvisited text _ _ =>
    refine ⟨⟨importer, i, .arrives text⟩, h.use [⟨i.url, Import.all text i.url⟩] rfl rfl
      rfl ?_ (hrecalled.fresh hfailed hvisited)⟩
    simp [Shared.withFile, Use.record?]

/-- A step makes one use or none. -/
theorem Accounts.step {s' : State σ} (h : s.step fetcher options entry = .continues s')
    (hs : Accounts content entry uses s.stack (s.shared before))
    (hrecalled : Recalled entry (s.shared before)) :
    ∃ more, Accounts content entry (uses ++ more) s'.stack
      (s'.shared (before ++ s.deeds fetcher options)) := by
  rcases State.step_continues h before with
    ⟨file, stack, hstack, himports, rfl, hdeeds⟩ |
    ⟨importer, i, imports, stack, hstack, ⟨hvisit, hstack'⟩ | ⟨own, hvisit, hstack'⟩⟩
  · -- The file that is left has no import left.
    have hrest : (file :: stack).flatMap Pending.references = stack.flatMap Pending.references := by
      simp [Pending.references, himports]
    have hbalance := hs.balance
    rw [hstack, hrest] at hbalance
    rw [hdeeds, List.append_nil]
    exact ⟨[], by rw [List.append_nil]; exact ⟨hs.did, hbalance, hs.recorded, hs.orderly⟩⟩
  · have hcomes := (s.shared before).visit_comes fetcher options importer i.url
    rw [hvisit] at hcomes
    rw [hstack] at hs
    rw [hstack']
    obtain ⟨u, hu⟩ := hs.visit hrecalled hcomes
    exact ⟨[u], hu⟩
  · have hcomes := (s.shared before).visit_comes fetcher options importer i.url
    rw [hvisit] at hcomes
    rw [hstack] at hs
    rw [hstack']
    obtain ⟨u, hu⟩ := hs.visit hrecalled hcomes
    exact ⟨[u], hu⟩

/-- Some steps make some uses. -/
theorem Accounts.reaches (h : Reaches fetcher options entry steps s deeds t)
    (hs : Accounts content entry uses s.stack (s.shared before))
    (hrecalled : Recalled entry (s.shared before)) :
    ∃ more, Accounts content entry (uses ++ more) t.stack (t.shared (before ++ deeds)) := by
  induction h generalizing uses before with
  | refl s => exact ⟨[], by rwa [List.append_nil, List.append_nil]⟩
  | @step steps s s' t deeds h _ ih =>
    obtain ⟨first, hfirst⟩ := hs.step h hrecalled
    have hnext := (recalled_kept entry).reaches (.step h (.refl s')) hrecalled
    rw [List.append_nil] at hnext
    obtain ⟨more, hmore⟩ := ih hfirst hnext
    exact ⟨first ++ more, by rwa [← List.append_assoc, ← List.append_assoc]⟩

/-- Nothing is taken at the start, and the entry is open. -/
theorem accounts_start (content : Text) (entry : String) (source : σ) :
    Accounts content entry [] (start content entry source).stack
      ((start content entry source).shared []) where
  did := rfl
  balance := List.Perm.refl _
  recorded := rfl
  orderly := .nil

end

/-- When no file is open any more, the imports taken are all that there are. -/
theorem Accounts.accounting {content : Text} {entry : String} {uses : List Use} {s : Shared σ}
    (h : Accounts content entry uses [] s) : Accounting content entry s.deeds s.skipped uses := by
  have htaken : (uses.map Use.reference).Perm (references ((entry, content) :: arrivals s.deeds)) := by
    simpa using h.balance
  have hfetches : made uses = fetches s.deeds := by rw [made, h.did]
  constructor
  · exact h.did
  · exact htaken
  · exact h.recorded
  · rw [← htaken.length_eq, List.length_map, length_uses, h.did, h.recorded]
  · rw [← hfetches]
    exact (List.nodup_cons.mp h.orderly.nodup).2
  -- Why a use is skipped is what became of the file before: it arrived, or it failed.
  · intro before u after r hsplit hr
    rcases h.orderly.reasons hsplit hr with ⟨hreason, hbefore, -⟩ | ⟨hreason, hbefore, -⟩
    · exact iff_of_true hreason hbefore
    · exact iff_of_false (by simp [hreason]) hbefore
  · intro before u after r hsplit hr
    rcases h.orderly.reasons hsplit hr with ⟨hreason, -, hfailed⟩ | ⟨hreason, -, hfailed⟩
    · exact iff_of_false (by simp [hreason]) hfailed
    · exact iff_of_true hreason hfailed
  · intro r hr r' hr' hurl
    rw [← h.recorded] at hr hr'
    exact h.orderly.reason_unique hr hr' hurl

/-- A walk that gives an object made one use of each import of the entry and of each file that it
fetched. -/
theorem every_import_accounted (fetcher : Fetcher σ) (options : InlineOptions) (steps : Nat)
    (content : Text) (entry : String) (source : σ) (result : Result σ) (output : Output)
    (h : inline? fetcher options steps (some content) entry source = some result)
    (hending : result.ending = .ok (some output)) :
    ∃ uses, Accounting content entry
      (inlineHistory fetcher options steps (some content) entry source) output.skipped uses := by
  obtain ⟨inside, deeds, t, hreaches, hstack, rfl, hhistory⟩ := exists_last_of_inline? h hending
  obtain ⟨uses, huses⟩ := Accounts.reaches hreaches (accounts_start content entry source)
    (recalled_start content entry source)
  rw [hstack] at huses
  rw [hhistory]
  exact ⟨_, huses.accounting⟩

/-- A file that is imported twice and imports the entry, and a file that is missing twice. -/
theorem every_import_accounted_repeats :
    ∃ deeds uses,
      Accounting
        ("import {a} from './b'\nimport {x} from './c'\nimport {d} from './b'\n" ++
          "import {y} from './c'\n{a}").toList
        "/p" deeds
        [⟨"/p", "/b", .alreadyInlined⟩, ⟨"/c", "/p", .fetchFailed⟩, ⟨"/b", "/p", .alreadyInlined⟩,
          ⟨"/c", "/p", .fetchFailed⟩]
        uses := by
  have hrun : (inline? Archive.fetch {} 9
      (some ("import {a} from './b'\nimport {x} from './c'\nimport {d} from './b'\n" ++
        "import {y} from './c'\n{a}").toList)
      "/p" ⟨[("/b", "import {p} from './p'\nfunction a(){}".toList)], [], [], []⟩).map Result.ending =
      some (.ok (some ⟨"\x7bthis._inlined_b_a,\n  _inlined_b_a() \x7b\x7d,\n\x7d".toList,
        [Renaming.of "/b" "a"],
        [⟨"/p", "/b", .alreadyInlined⟩, ⟨"/c", "/p", .fetchFailed⟩, ⟨"/b", "/p", .alreadyInlined⟩,
          ⟨"/c", "/p", .fetchFailed⟩]⟩)) := by
    decide +kernel
  obtain ⟨result, hresult, hending⟩ := Option.map_eq_some_iff.mp hrun
  obtain ⟨uses, huses⟩ := every_import_accounted _ _ _ _ _ _ result _ hresult hending
  exact ⟨_, uses, huses⟩

end Graft.Walk
