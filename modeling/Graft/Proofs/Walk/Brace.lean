import Graft.Proofs.Draft.Brace
import Graft.Proofs.Import.Reading
import Graft.Proofs.Text.Pieces
import Graft.Proofs.Walk.Requests

/-!
# A missing brace is found before anything is fetched

An entry that imports something needs a closing brace. It is looked for once, before the first import
is taken; after that it is never missed, whatever the imported files hold (`braced_kept`). So the error
for it comes exactly from such entries and before any request, and a walk that may leave out imports
never fails once it has asked for one (`missingClosingBrace_iff`).
-/

namespace Graft

/-- The list of a named import has no closing brace in it. -/
theorem Import.brace_notMem_list {clause : Import.Clause} {text rest : Text}
    (h : Import.Clause.read? text = some (clause, rest)) : '}' ∉ clause.list := by
  unfold Import.Clause.read? at h
  simp only [Option.bind_eq_bind, Option.bind_eq_some_iff] at h
  obtain ⟨_, -, _, -, ⟨list, tail⟩, hlist, _, -, _, -, _, -, ⟨specifier, last⟩, -, hclause⟩ := h
  cases hclause
  exact (Import.readBraces?_eq_some_iff.mp hlist).2.1

/-- The names that a file imports have no closing brace in them. -/
theorem Import.brace_notMem_name {text : Text} {url name : String} {i : Import}
    (hi : i ∈ Import.all text url) (hname : name ∈ i.names) : '}' ∉ name.toList := by
  obtain ⟨clause, hclause, rfl⟩ := List.mem_map.mp hi
  obtain ⟨lineStart, rest, length, hfound⟩ := Scan.exists_of_mem_all hclause
  obtain ⟨⟨read, tail⟩, hread, hsame⟩ := Option.map_eq_some_iff.mp hfound
  cases hsame
  -- A name is a piece of the list between the braces, trimmed.
  obtain ⟨trimmed, htrimmed, rfl⟩ := List.mem_map.mp hname
  obtain ⟨piece, hpiece, rfl⟩ := List.mem_map.mp (List.mem_of_mem_filter htrimmed)
  intro hbrace
  rw [String.toList_ofList] at hbrace
  exact Import.brace_notMem_list hread
    (Text.mem_of_mem_splitOn hpiece (Text.mem_of_mem_trim hbrace))

/-- The names that imports bind have no closing brace in them. -/
theorem Scopes.brace_notMem_name {text : Text} {url : String} {b : Binding}
    (h : b ∈ Scopes.bindingsOf url (Import.all text url)) : '}' ∉ b.name.toList := by
  obtain ⟨i, hi, hb⟩ := List.mem_flatMap.mp h
  obtain ⟨entry, hentry, hb⟩ := List.mem_filterMap.mp hb
  obtain ⟨⟨declared, name⟩, hnames, rfl⟩ := Option.map_eq_some_iff.mp hb
  -- The local name is a word of what is imported.
  have hword : ∃ word ∈ Text.words entry.toList, String.ofList word = name := by
    unfold Scopes.namesOf? at hnames
    split at hnames
    · next word hwords =>
      cases hnames
      exact List.mem_map.mp (by rw [hwords]; exact List.mem_singleton_self _)
    · next declared' keyword word hwords =>
      split at hnames
      · cases hnames
        exact List.mem_map.mp (by rw [hwords]; simp)
      · cases hnames
    · cases hnames
  obtain ⟨word, hword, rfl⟩ := hword
  intro hbrace
  rw [String.toList_ofList] at hbrace
  exact Import.brace_notMem_name hi hentry (Text.mem_of_mem_words hword hbrace)

namespace Walk

variable {σ : Type} {fetcher : Fetcher σ} {options : InlineOptions} {content : Text}
  {entry : String} {steps : Nat} {result : Result σ}

/-- The imports of a file bind no name with a brace in it. -/
theorem braced_record {draft : Draft} {scopes : Scopes} (h : draft.Braced scopes) (url : String)
    (text : Text) : draft.Braced (scopes.record url (Import.all text url)) := by
  refine ⟨h.brace, h.members, fun b hb => ?_⟩
  rcases Scopes.mem_record hb with hb | hb
  · exact h.locals b hb
  · exact Scopes.brace_notMem_name hb

/-- A walk keeps a closing brace in its object. -/
theorem braced_kept : Kept fun s : Shared σ => s.draft.Braced s.scopes where
  pass _ _ h := h
  fail _ _ _ h := h
  enter _ url text _ h _ _ :=
    ((braced_record h url text).inlineFile url (Declaration.extract text)).2

/-- An entry with a closing brace starts with it. -/
theorem braced_start (hbody : '}' ∈ Import.objectBody content) (entry : String) (source : σ) :
    (start content entry source).draft.Braced (start content entry source).scopes := by
  refine ⟨hbody, ?_, ?_⟩
  · intro r hr
    exact absurd hr List.not_mem_nil
  · intro b hb
    exact Scopes.brace_notMem_name ((Scopes.mem_record hb).resolve_left List.not_mem_nil)

/-- As long as the object has a closing brace, a visit gives up only if a file cannot be fetched that
must be there. -/
theorem Comes.error_of_braced {s : Shared σ} {importer url : String} {visit : Visit σ}
    (h : Comes fetcher options s importer url visit) (hs : s.draft.Braced s.scopes)
    {e : InlineError} {source : σ} {done : List Deed} (hvisit : visit = .gaveUp e source done) :
    ∃ cause, e = .importUnavailable url importer (some cause) ∧
      (Fetch.run fetcher options.fetchOptions s.source url).result = .error cause := by
  cases h with
  | failedBefore _ => cases hvisit
  | visitedBefore _ _ => cases hvisit
  | refused _ _ hresult =>
    cases hvisit
    exact ⟨_, rfl, hresult⟩
  | missing _ _ _ => cases hvisit
  | unplaced _ _ _ hresult =>
    exact absurd hresult ((braced_record hs url _).inlineFile url _).1
  | arrived _ _ _ _ => cases hvisit

/-- A run from a state whose object has a closing brace ends with the object, or with a file that
cannot be fetched and must be there. -/
theorem ending_of_braced {s : State σ} (hs : s.draft.Braced s.scopes)
    (h : run? fetcher options entry steps s = some result) :
    (∃ output, result.ending = .ok (some output)) ∨
      ∃ url importer cause source, result.ending = .error (.importUnavailable url importer cause) ∧
        ∃ e, (Fetch.run fetcher options.fetchOptions source url).result = .error e := by
  obtain ⟨inside, deeds, t, ending, source, log, hreaches, hends, rfl, -⟩ := exists_reaches_of_run? h
  have hstart : (s.shared []).draft.Braced (s.shared []).scopes := hs
  have hbraced : t.draft.Braced t.scopes := braced_kept.reaches hreaches hstart
  rcases State.step_ends hends [] with
    ⟨-, rfl, -, -⟩ | ⟨importer, i, imports, stack, e, -, hvisit, rfl⟩
  · exact Or.inl ⟨_, rfl⟩
  · have hcomes := (t.shared []).visit_comes fetcher options importer i.url
    obtain ⟨cause, rfl, hresult⟩ := hcomes.error_of_braced hbraced hvisit
    exact Or.inr ⟨i.url, importer, some cause, t.source, rfl, cause, hresult⟩

/-- A walk from an entry that imports nothing ends with its object. -/
theorem ending_of_no_imports {source : σ} (himports : Import.all content entry = [])
    (h : run? fetcher options entry steps (start content entry source) = some result) :
    ∃ output, result.ending = .ok (some output) := by
  -- The first step leaves the entry and the second one ends the walk.
  have hstack : (start content entry source).stack = [⟨entry, Import.all content entry⟩] := rfl
  obtain ⟨hleave, -⟩ := State.step_leave fetcher options entry hstack himports
  obtain ⟨⟨log, hends⟩, -⟩ := State.step_nil (s := { start content entry source with stack := [] })
    fetcher options entry rfl
  obtain ⟨rest, -, hrest⟩ := (Reaches.step hleave (.refl _)).exists_rest h
  cases rest with
  | zero => cases hrest
  | succ rest =>
    rw [run?, hends] at hrest
    cases hrest
    exact ⟨_, rfl⟩

/-- A walk from an entry that has a place for members, or needs none, ends with its object, or with a
file that cannot be fetched and must be there. -/
theorem ending_of_placed {source : σ} (hplaced : ¬ Unplaced content entry)
    (h : run? fetcher options entry steps (start content entry source) = some result) :
    (∃ output, result.ending = .ok (some output)) ∨
      ∃ url importer cause source, result.ending = .error (.importUnavailable url importer cause) ∧
        ∃ e, (Fetch.run fetcher options.fetchOptions source url).result = .error e := by
  by_cases himports : Import.all content entry = []
  · exact Or.inl (ending_of_no_imports himports h)
  · have hbody : '}' ∈ Import.objectBody content := by
      by_contra hbody
      exact hplaced ⟨himports, hbody⟩
    exact ending_of_braced (braced_start hbody entry source) h

/-- A walk from an entry that has a place for members, or needs none, does not fail for want of one. -/
theorem ending_ne_missing {source : σ} (hplaced : ¬ Unplaced content entry)
    (h : run? fetcher options entry steps (start content entry source) = some result) (url : String) :
    result.ending ≠ .error (.missingClosingBrace url) := by
  intro hmissing
  rcases ending_of_placed hplaced h with ⟨output, hok⟩ | ⟨_, _, _, _, herror, -⟩
  · rw [hok] at hmissing
    cases hmissing
  · rw [herror] at hmissing
    cases hmissing

/-- A lenient walk that gets past the look for a place ends with an object. -/
theorem ending_of_lenient {source : σ} (hlenient : options.isStrict = false)
    (hplaced : ¬ Unplaced content entry)
    (h : run? fetcher options entry steps (start content entry source) = some result) :
    ∃ output, result.ending = .ok (some output) := by
  have hgraceful : options.fetchOptions.graceful = true := by
    simp [InlineOptions.fetchOptions, FetchOptions.gracefully, hlenient]
  rcases ending_of_placed hplaced h with houtput | ⟨url, importer, cause, source', -, e, hresult⟩
  · exact houtput
  · exact absurd hresult (Fetch.run_ne_error fetcher hgraceful source' url e)

/-- A walk fails for want of a closing brace exactly if its entry is not blank, imports something and
has no closing brace in its object. Then it does so in any number of steps, names the entry, and has
asked for nothing. So a walk that has asked for something does not fail for that, and a lenient one
does not fail at all. -/
theorem missingClosingBrace_iff (fetcher : Fetcher σ) (options : InlineOptions)
    (content : Option Text) (entry : String) (source : σ) :
    ((∃ steps result url, inline? fetcher options steps content entry source = some result ∧
        result.ending = .error (.missingClosingBrace url)) ↔
      ∃ text, content = some text ∧ isBlank text = false ∧ Import.all text entry ≠ [] ∧
        '}' ∉ Import.objectBody text) ∧
    ((∃ text, content = some text ∧ isBlank text = false ∧ Import.all text entry ≠ [] ∧
        '}' ∉ Import.objectBody text) → ∀ steps,
      inline? fetcher options steps content entry source =
          some ⟨.error (.missingClosingBrace entry), source, []⟩ ∧
        requests fetcher options steps content entry source = []) ∧
    ∀ steps result, inline? fetcher options steps content entry source = some result →
      requests fetcher options steps content entry source ≠ [] →
      (∀ url, result.ending ≠ .error (.missingClosingBrace url)) ∧
        (options.isStrict = false → ∃ output, result.ending = .ok (some output)) := by
  have hfails : (∃ text, content = some text ∧ isBlank text = false ∧ Import.all text entry ≠ [] ∧
      '}' ∉ Import.objectBody text) → ∀ steps,
      inline? fetcher options steps content entry source =
          some ⟨.error (.missingClosingBrace entry), source, []⟩ ∧
        requests fetcher options steps content entry source = [] := by
    rintro ⟨text, rfl, hblank, hunplaced⟩ steps
    refine ⟨inline?_unplaced hblank hunplaced fetcher options steps source, ?_⟩
    unfold requests
    rw [inline?_unplaced hblank hunplaced fetcher.recorded options steps (source, [])]
  refine ⟨⟨?_, fun hentry => ⟨0, _, entry, (hfails hentry 0).1, rfl⟩⟩, hfails, ?_⟩
  · rintro ⟨steps, result, url, hrun, hending⟩
    rcases inline?_cases hrun with
      ⟨hnothing, -, -⟩ | ⟨text, hcontent, hblank, ⟨hunplaced, -, -⟩ | ⟨hplaced, hrun, -⟩⟩
    · rw [hnothing] at hending
      cases hending
    · exact ⟨text, hcontent, hblank, hunplaced⟩
    · exact absurd hending (ending_ne_missing hplaced hrun url)
  -- The requests are recorded in the source, and a walk whose source was asked got past the check of the
  -- brace.
  · intro steps result hrun hasked
    obtain ⟨recorded, hrecorded, hending, hsource⟩ := exists_recorded hrun
    rw [← hending]
    have hrequests : recorded.source.2 ≠ [] := by rwa [hsource]
    rcases inline?_cases hrecorded with
      ⟨-, hnone, -⟩ | ⟨text, -, -, ⟨-, rfl, -⟩ | ⟨hplaced, hrun, -⟩⟩
    · exact absurd (congrArg Prod.snd hnone) hrequests
    · exact absurd rfl hrequests
    · exact ⟨ending_ne_missing hplaced hrun, fun hlenient => ending_of_lenient hlenient hplaced hrun⟩

end Walk

end Graft
