import Graft.Proofs.Draft.Brace

/-!
# A file goes in as a whole or not at all

Putting in a file may fail at any of its declarations, but it fails only at the first one that is missing:
a buffer without a closing brace takes none of them and stays as it is (`inlineEach_refused`), and one with
a closing brace takes all of them, since neither members nor redirected names take the last brace away
(`Braced.splices`). So a file either changes nothing, or all its missing declarations are put in and counted
(`inlineFile_atomic`).
-/

namespace Graft.Draft

open Buffer (Seat separator)

/-- The declarations of the file `source` that are not recorded. -/
def missing (table : List Renaming) (source : String) (ds : List Declaration) : List Declaration :=
  ds.filter fun d => (Renaming.find? table source d.name).isNone

/-- Declarations go in one after the other. Each one finds a place for members, becomes a member there,
behind the separator, and is recorded; then all names are redirected. -/
inductive Splices (scopes : Scopes) (planned : List Renaming) (source : String) :
    Draft → List Declaration → Draft → Prop
  | nil (draft : Draft) : Splices scopes planned source draft [] draft
  | cons {draft done : Draft} {d : Declaration} {ds : List Declaration} {kept blank rest : Text}
      {made : Renaming} {buffer : Buffer} (hmade : made = Renaming.of source d.name)
      (hseat : Seat draft.buffer.text kept blank rest)
      (hbuffer : buffer = (draft.buffer.spliced kept (separator kept) (blank ++ '}' :: rest)).withMember
        (kept ++ (separator kept ++ blank)) (Member.render d made.member) ('}' :: rest) source)
      (hrest : Splices scopes planned source
        ⟨(redirectAll buffer (draft.renamings ++ [made]) scopes planned).1, draft.renamings ++ [made]⟩
        ds done) :
      Splices scopes planned source draft (d :: ds) done

variable {draft done : Draft} {scopes : Scopes} {planned table : List Renaming} {source : String}
  {d : Declaration} {ds : List Declaration}

/-! ## Missing declarations -/

/-- A declaration that is recorded is not missing. -/
theorem missing_cons_of_isSome (h : (Renaming.find? table source d.name).isSome) (ds : List Declaration) :
    missing table source (d :: ds) = missing table source ds :=
  List.filter_cons_of_neg (by simpa [Option.isSome_iff_ne_none] using h)

/-- A declaration that is not recorded is missing. -/
theorem missing_cons_of_none (h : Renaming.find? table source d.name = none) (ds : List Declaration) :
    missing table source (d :: ds) = d :: missing table source ds :=
  List.filter_cons_of_pos (by simp [h])

/-- Recording a declaration of another name leaves the others missing. -/
theorem missing_concat (h : d.name ∉ ds.map Declaration.name) (table : List Renaming) (source : String) :
    missing (table ++ [Renaming.of source d.name]) source ds = missing table source ds := by
  refine List.filter_congr fun e he => ?_
  have hne : d.name ≠ e.name := fun hsame => h (hsame ▸ List.mem_map_of_mem he)
  have hother : Renaming.find? [Renaming.of source d.name] source e.name = none := by
    rw [Renaming.find?_eq_none_iff]
    intro r hr _
    rw [List.mem_singleton.mp hr]
    exact hne
  rw [Renaming.find?_concat, hother, Option.or_none]

/-- Once the missing declarations are recorded, all of them are. -/
theorem recorded_append_missing (hd : d ∈ ds) :
    (Renaming.find? (table ++ (missing table source ds).map fun e => Renaming.of source e.name) source
      d.name).isSome := by
  cases hfind : Renaming.find? table source d.name with
  | some r =>
    unfold Renaming.find? at hfind ⊢
    rw [List.find?_append, hfind]
    rfl
  | none =>
    have hmissing : d ∈ missing table source ds := List.mem_filter.mpr ⟨hd, by rw [hfind]; rfl⟩
    by_contra hnone
    rw [Option.not_isSome_iff_eq_none, Renaming.find?_eq_none_iff] at hnone
    exact hnone (Renaming.of source d.name)
      (List.mem_append_right _ (List.mem_map_of_mem hmissing)) rfl rfl

/-! ## What a file that goes in leaves -/

/-- Each declaration that goes in is recorded, in order. -/
theorem Splices.renamings (h : Splices scopes planned source draft ds done) :
    done.renamings = draft.renamings ++ ds.map fun d => Renaming.of source d.name := by
  induction h with
  | nil draft => rw [List.map_nil, List.append_nil]
  | cons hmade _ _ _ ih => rw [ih, hmade, List.append_assoc, List.map_cons, List.singleton_append]

/-- Each declaration that goes in has a span of its file, behind all others. -/
theorem Splices.sources (h : Splices scopes planned source draft ds done) :
    done.buffer.members.map Span.source =
      draft.buffer.members.map Span.source ++ ds.map fun _ => source := by
  induction h with
  | nil draft => rw [List.map_nil, List.append_nil]
  | @cons draft done d ds kept blank rest made buffer _ hseat hbuffer _ ih =>
    have hinsert : draft.buffer.insert? (Member.render d made.member) source = some buffer := by
      rw [hbuffer]
      exact hseat.insert?_eq _ source
    rw [ih, redirectAll_sources, Buffer.insert?_sources hinsert, List.append_assoc, List.map_cons,
      List.singleton_append]

/-- Spans and renamings still belong together, since each declaration that goes in has one of both. -/
theorem Splices.synced (h : Splices scopes planned source draft ds done) (hdraft : Synced draft) :
    Synced done := by
  unfold Synced at hdraft ⊢
  rw [h.sources, h.renamings, hdraft, List.map_append, List.map_map]
  rfl

/-! ## With and without a closing brace -/

/-- A buffer without a closing brace takes nothing: with a declaration missing that is an error, and in
any case the draft stays as it is. -/
theorem inlineEach_refused (hbrace : '}' ∉ draft.buffer.text) (ds : List Declaration) :
    (draft.inlineEach scopes planned source ds).draft = draft ∧
      (draft.inlineEach scopes planned source ds).result? =
        if missing draft.renamings source ds = [] then some 0 else none := by
  induction ds with
  | nil => exact ⟨rfl, rfl⟩
  | cons d ds ih =>
    rcases inlinePlanned_cases draft scopes planned source d with
      ⟨hrecorded, hdraft, hresult⟩ | ⟨hnew, -, hdraft, hresult⟩ | ⟨-, buffer, hinsert, -⟩
    · rw [(inlineEach_cons_some hresult ds).1, inlineEach_cons_result hresult ds, hdraft, ih.1, ih.2,
        missing_cons_of_isSome hrecorded]
      exact ⟨rfl, Option.map_id'⟩
    · rw [(inlineEach_cons_none hresult ds).1, (inlineEach_cons_none hresult ds).2, hdraft,
        missing_cons_of_none hnew, if_neg (List.cons_ne_nil _ _)]
      exact ⟨rfl, rfl⟩
    · rw [Buffer.insert?_eq_none hbrace] at hinsert
      cases hinsert

/-- A draft with a closing brace takes all declarations that are missing and counts them. -/
theorem Braced.splices (h : Braced scopes draft) (hplanned : ∀ r ∈ planned, r.KeepsBrace)
    (hnames : (ds.map Declaration.name).Nodup) :
    (draft.inlineEach scopes planned source ds).result? =
        some (missing draft.renamings source ds).length ∧
      Splices scopes planned source draft (missing draft.renamings source ds)
        (draft.inlineEach scopes planned source ds).draft := by
  induction ds generalizing draft with
  | nil => exact ⟨rfl, .nil draft⟩
  | cons d ds ih =>
    rw [List.map_cons, List.nodup_cons] at hnames
    obtain ⟨-, hbraced⟩ := h.inlinePlanned hplanned source d
    obtain ⟨hcount, hsplices⟩ := ih hbraced hnames.2
    rcases inlinePlanned_cases draft scopes planned source d with
      ⟨hrecorded, hdraft, hresult⟩ | ⟨-, hinsert, -⟩ | ⟨hnew, buffer, hinsert, hdraft, hresult⟩
    · rw [hdraft] at hcount hsplices
      rw [(inlineEach_cons_some hresult ds).1, inlineEach_cons_result hresult ds, hdraft, hcount,
        missing_cons_of_isSome hrecorded]
      exact ⟨rfl, hsplices⟩
    · obtain ⟨b', hb', -⟩ := Buffer.exists_insert? _ source h.brace
      rw [hb'] at hinsert
      cases hinsert
    · -- The others are missing afterwards as they were before.
      rw [hdraft, missing_concat hnames.1] at hcount hsplices
      obtain ⟨kept, blank, rest, hseat⟩ := Seat.exists_of_mem h.brace
      rw [hseat.insert?_eq] at hinsert
      rw [(inlineEach_cons_some hresult ds).1, inlineEach_cons_result hresult ds, hdraft, hcount,
        missing_cons_of_none hnew]
      exact ⟨rfl, .cons rfl hseat (Option.some.inj hinsert).symm hsplices⟩

/-- Putting in a file fails exactly if the buffer has no closing brace and a declaration is missing, and then
it changes nothing. Otherwise all declarations that were missing go in, their number is the result, and all
declarations of the file are recorded. The names that imports bind have no closing brace, and recorded
members keep the ones of their names, of which there are none as a rule. -/
theorem inlineFile_atomic (draft : Draft) (scopes : Scopes) (source : String) (ds : List Declaration)
    (hmembers : ∀ r ∈ draft.renamings, r.KeepsBrace)
    (hlocals : ∀ binding ∈ scopes, '}' ∉ binding.name.toList)
    (hnames : (ds.map Declaration.name).Nodup) :
    let step := draft.inlineFile scopes source ds
    let fresh := missing draft.renamings source ds
    (step.result? = none ↔ '}' ∉ draft.buffer.text ∧ fresh ≠ []) ∧
    (step.result? = none → step.draft = draft) ∧
    (step.result? ≠ none →
      step.result? = some fresh.length ∧
      Splices scopes (ds.map fun d => Renaming.of source d.name) source draft fresh step.draft ∧
      (∀ d ∈ ds, (Renaming.find? step.draft.renamings source d.name).isSome) ∧
      (Synced draft → Synced step.draft)) := by
  intro step fresh
  have hrecorded : Splices scopes (ds.map fun d => Renaming.of source d.name) source draft fresh
      step.draft → ∀ d ∈ ds, (Renaming.find? step.draft.renamings source d.name).isSome := by
    intro hsplices d hd
    rw [hsplices.renamings]
    exact recorded_append_missing hd
  -- With a brace nothing is refused; without one the first missing declaration is refused, and so it only
  -- matters if any is missing.
  by_cases hbrace : '}' ∈ draft.buffer.text
  · obtain ⟨hcount, hsplices⟩ : step.result? = some fresh.length ∧ _ :=
      Braced.splices ⟨hbrace, hmembers, hlocals⟩ (keepsBrace_planned source ds) hnames
    refine ⟨⟨fun hnone => ?_, fun h => absurd hbrace h.1⟩, fun hnone => ?_, fun _ =>
      ⟨hcount, hsplices, hrecorded hsplices, hsplices.synced⟩⟩
    · rw [hcount] at hnone
      cases hnone
    · rw [hcount] at hnone
      cases hnone
  · obtain ⟨hdraft, hresult⟩ : step.draft = draft ∧
        step.result? = if fresh = [] then some 0 else none := inlineEach_refused hbrace ds
    by_cases hfresh : fresh = []
    · rw [if_pos hfresh] at hresult
      have hsplices : Splices scopes (ds.map fun d => Renaming.of source d.name) source draft fresh
          step.draft := by
        rw [hdraft, hfresh]
        exact .nil draft
      refine ⟨⟨fun hnone => ?_, fun h => absurd hfresh h.2⟩, fun _ => hdraft, fun _ =>
        ⟨by rw [hresult, hfresh]; rfl, hsplices, hrecorded hsplices, hsplices.synced⟩⟩
      rw [hresult] at hnone
      cases hnone
    · rw [if_neg hfresh] at hresult
      exact ⟨⟨fun _ => ⟨hbrace, hfresh⟩, fun _ => hresult⟩, fun _ => hdraft,
        fun hsome => absurd hresult hsome⟩

/-- Of two declarations one is recorded already. With a closing brace the other one goes in, and without one
nothing does. -/
theorem inlineFile_atomic_trim :
    let pad : Declaration := ⟨"pad", "const pad = () => 1".toList, false, false, [], .expression ['1']⟩
    let trim : Declaration := ⟨"trim", "const trim = () => 2".toList, false, false, [], .expression ['2']⟩
    let braced : Draft := ⟨Buffer.ofText "\x7b run() \x7b trim() \x7d \x7d".toList "/p", [Renaming.of "/a" "pad"]⟩
    let bare : Draft := ⟨Buffer.ofText "trim()".toList "/p", [Renaming.of "/a" "pad"]⟩
    (braced.inlineFile [] "/a" [pad, trim]).result? = some 1 ∧
      Splices [] [Renaming.of "/a" "pad", Renaming.of "/a" "trim"] "/a" braced [trim]
        (braced.inlineFile [] "/a" [pad, trim]).draft ∧
      (bare.inlineFile [] "/a" [pad, trim]).result? = none ∧
      (bare.inlineFile [] "/a" [pad, trim]).draft = bare := by
  intro pad trim braced bare
  have hkeeps : ∀ r ∈ [Renaming.of "/a" "pad"], r.KeepsBrace := fun r hr => by
    rw [List.mem_singleton.mp hr]
    exact Renaming.keepsBrace_of "/a" "pad"
  have hfresh : missing [Renaming.of "/a" "pad"] "/a" [pad, trim] = [trim] := by decide +kernel
  obtain ⟨hfails, -, hdone⟩ := inlineFile_atomic braced [] "/a" [pad, trim] hkeeps (by simp) (by decide)
  obtain ⟨hrefused, hstays, -⟩ := inlineFile_atomic bare [] "/a" [pad, trim] hkeeps (by simp) (by decide)
  have hbraced : (braced.inlineFile [] "/a" [pad, trim]).result? ≠ none := fun hnone =>
    (hfails.mp hnone).1 (by decide)
  have hbare : (bare.inlineFile [] "/a" [pad, trim]).result? = none :=
    hrefused.mpr ⟨by decide, by
      rw [hfresh]
      exact List.cons_ne_nil _ _⟩
  obtain ⟨hcount, hsplices, -⟩ := hdone hbraced
  rw [hfresh] at hcount hsplices
  exact ⟨hcount, hsplices, hbare, hstays hbare⟩

end Graft.Draft
