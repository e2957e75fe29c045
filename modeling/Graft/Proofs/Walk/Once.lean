import Mathlib.Data.List.Nodup
import Graft.Fetch.Archive
import Graft.Proofs.Draft.Inlining
import Graft.Proofs.Walk.History

/-!
# Every declaration once

The renamings of a walk are those of the files that it fetched, file by file in the order of the
fetches and within a file in the order of its declarations; and the buffer has one span for each of
them, in the same order (`each_declaration_once`). The table finds none of them recorded before, since
no file arrives twice: what is visited are the entry and the files that arrived, each of them once
(`Once`).
-/

namespace Graft.Walk

variable {σ : Type}

/-- The file that a deed fetched, with its text. -/
def Deed.arrival? : Deed → Option (String × Text)
  | .fetch url (.ok (some text)) => some (url, text)
  | _ => none

/-- The files that were fetched, with their texts, in the order of the fetches. -/
def arrivals (deeds : List Deed) : List (String × Text) := deeds.filterMap Deed.arrival?

/-- The renamings that files make: one for each of their declarations, in order. -/
def renamingsOf (files : List (String × Text)) : List Renaming :=
  files.flatMap fun file => (Declaration.extract file.2).map fun d => Renaming.of file.1 d.name

/-- What a walk from the entry keeps. -/
structure Once (entry : String) (s : Shared σ) : Prop where
  /-- The table is that of the files that arrived. -/
  renamings : s.draft.renamings = renamingsOf (arrivals s.deeds)
  /-- The entry and the files that arrived are what was visited. -/
  visited : s.visited = ((arrivals s.deeds).map Prod.fst).reverse ++ [entry]
  /-- No file was visited twice. -/
  nodup : s.visited.Nodup
  /-- The buffer's spans belong to the renamings. -/
  synced : s.draft.Synced

variable {files : List (String × Text)}

/-- No file arrives when one is passed over. -/
@[simp]
theorem arrivals_pass (s : Shared σ) (skipped : Skipped) :
    arrivals (s.pass skipped).deeds = arrivals s.deeds := by
  simp [Shared.pass, arrivals, Deed.arrival?]

/-- No file arrives when one could not be fetched. -/
@[simp]
theorem arrivals_withFailure (s : Shared σ) (url : String) (source : σ) :
    arrivals (s.withFailure url source).deeds = arrivals s.deeds := by
  simp [Shared.withFailure, arrivals, Deed.arrival?]

/-- A file that is put in is the last one that arrived. -/
@[simp]
theorem arrivals_withFile (s : Shared σ) (url : String) (text : Text) (source : σ) :
    arrivals (s.withFile url text source).deeds = arrivals s.deeds ++ [(url, text)] := by
  simp [Shared.withFile, arrivals, Deed.arrival?]

/-- Each renaming of files is of a declaration of one of them. -/
theorem mem_renamingsOf {r : Renaming} :
    r ∈ renamingsOf files ↔
      ∃ file ∈ files, ∃ d ∈ Declaration.extract file.2, Renaming.of file.1 d.name = r := by
  unfold renamingsOf
  simp only [List.mem_flatMap, List.mem_map]

/-- Its file is among them. -/
theorem source_mem_of_mem {r : Renaming} (h : r ∈ renamingsOf files) :
    r.source ∈ files.map Prod.fst := by
  obtain ⟨file, hfile, d, -, rfl⟩ := mem_renamingsOf.mp h
  exact List.mem_map_of_mem hfile

/-- Files of different URLs make renamings of different pairs of file and name. -/
theorem nodup_renamingsOf (h : (files.map Prod.fst).Nodup) :
    ((renamingsOf files).map fun r => (r.source, r.name)).Nodup := by
  have hpairs : ((renamingsOf files).map fun r => (r.source, r.name)) =
      files.flatMap fun file =>
        ((Declaration.extract file.2).map Declaration.name).map fun name => (file.1, name) := by
    unfold renamingsOf
    rw [List.map_flatMap]
    apply List.flatMap_congr
    intro file _
    rw [List.map_map, List.map_map]
    rfl
  rw [hpairs, List.nodup_flatMap]
  constructor
  · -- Within a file the names differ.
    intro file _
    exact (Declaration.nodup_byName _).map fun _ _ hsame => (Prod.mk.inj hsame).2
  · -- Between files the URLs do.
    rw [List.Nodup, List.pairwise_map] at h
    refine h.imp fun hne => ?_
    intro pair hpair hpair'
    obtain ⟨name, -, rfl⟩ := List.mem_map.mp hpair
    obtain ⟨name', -, hsame⟩ := List.mem_map.mp hpair'
    exact hne (Prod.mk.inj hsame).1.symm

/-- No file arrived twice, and the entry never did. -/
theorem Once.nodup_urls {entry : String} {s : Shared σ} (h : Once entry s) :
    ((arrivals s.deeds).map Prod.fst ++ [entry]).Nodup := by
  have hnodup := h.nodup
  rw [h.visited, List.nodup_append] at hnodup
  rw [List.nodup_append]
  simpa using hnodup

/-- The files of the table were visited. -/
theorem Once.source_mem_visited {entry : String} {s : Shared σ} (h : Once entry s) {r : Renaming}
    (hr : r ∈ s.draft.renamings) : r.source ∈ s.visited := by
  rw [h.renamings] at hr
  rw [h.visited, List.mem_append, List.mem_reverse]
  exact Or.inl (source_mem_of_mem hr)

/-- A walk keeps this: passing over an import and failing to fetch a file change none of it, and a
file that is put in was not visited before. -/
theorem once_kept (entry : String) : Kept (Once (σ := σ) entry) where
  pass s skipped h := by
    constructor
    · rw [arrivals_pass]
      exact h.renamings
    · rw [arrivals_pass]
      exact h.visited
    · exact h.nodup
    · exact h.synced
  fail s url source h := by
    constructor
    · rw [arrivals_withFailure]
      exact h.renamings
    · rw [arrivals_withFailure]
      exact h.visited
    · exact h.nodup
    · exact h.synced
  enter s url text source h hnew hresult := by
    -- No renaming is of the file yet, so each of its declarations makes one.
    have hfirst : ∀ r ∈ s.draft.renamings, r.source ≠ url :=
      fun r hr hsource => hnew (hsource ▸ h.source_mem_visited hr)
    constructor
    · show (s.draft.inlineFile _ url _).draft.renamings = _
      rw [Draft.inlineFile_renamings text hfirst hresult, arrivals_withFile, h.renamings]
      simp [renamingsOf]
    · show url :: s.visited = _
      rw [arrivals_withFile, h.visited]
      simp
    · exact List.nodup_cons.mpr ⟨hnew, h.nodup⟩
    · exact h.synced.inlineFile _

/-- A walk starts with nothing but the entry visited, and with no renaming and no member. -/
theorem once_start (content : Text) (entry : String) (source : σ) :
    Once entry ((start content entry source).shared []) where
  renamings := rfl
  visited := rfl
  nodup := List.nodup_singleton entry
  synced := rfl

/-- A walk that gives an object has made one renaming for each declaration of each file that it
fetched, file by file in the order of the fetches; no pair of file and name comes twice, and none is
of the entry. On the way, also while the declarations of a file are put in one after the other, the
buffer's spans name the files of the renamings made so far, one by one. -/
theorem each_declaration_once (fetcher : Fetcher σ) (options : InlineOptions) (content : Text)
    (entry : String) (source : σ) :
    (∀ steps result output,
      inline? fetcher options steps (some content) entry source = some result →
      result.ending = .ok (some output) →
      output.renamings =
          renamingsOf (arrivals (inlineHistory fetcher options steps (some content) entry source)) ∧
        (output.renamings.map fun r => (r.source, r.name)).Nodup ∧
        ∀ r ∈ output.renamings, r.source ≠ entry) ∧
    (∀ steps deeds s,
      Reaches fetcher options entry steps (start content entry source) deeds s →
      ∀ scopes planned file declarations,
        (s.draft.inlineEach scopes planned file declarations).draft.Synced) := by
  constructor
  · intro steps result output hinline hending
    obtain ⟨inside, deeds, t, hreaches, rfl, hhistory⟩ := exists_reaches_of_inline? hinline hending
    -- The invariant at the end of the walk gives the table, and that no file came twice.
    have honce := (once_kept entry).reaches hreaches (once_start content entry source)
    rw [List.nil_append] at honce
    have hrenamings : t.output.renamings = renamingsOf (arrivals deeds) := honce.renamings
    obtain ⟨hfiles, -, hentry⟩ := List.nodup_append.mp honce.nodup_urls
    rw [hhistory, hrenamings]
    exact ⟨rfl, nodup_renamingsOf hfiles, fun r hr =>
      hentry r.source (source_mem_of_mem hr) entry (List.mem_singleton_self entry)⟩
  · intro steps deeds s hreaches scopes planned file declarations
    have honce := (once_kept entry).reaches hreaches (once_start content entry source)
    exact honce.synced.inlineEach

/-- A file with one declaration. -/
theorem each_declaration_once_single :
    ∃ output : Output, output.renamings = [Renaming.of "/b" "a"] ∧
      (output.renamings.map fun r => (r.source, r.name)).Nodup ∧
      ∀ r ∈ output.renamings, r.source ≠ "/p" := by
  have honce := (each_declaration_once Archive.fetch {} "import {a} from './b'\n{a}".toList "/p"
    ⟨[("/b", "function a(){}".toList)], [], [], []⟩).1 9 _ _ rfl rfl
  exact ⟨_, honce.1, honce.2⟩

end Graft.Walk
