import Mathlib.Data.List.Basic
import Graft.Disk
import Graft.Proofs.Lookup
import Graft.Proofs.Text.Pieces

/-!
# Writing to a disk

A text that is written is the text of one file from then on, and nothing else on the disk is different
(`Written`). Paths are followed as before, but for those that lead to this file: its own path does
(`locate_of_write`), so that what was written is what is read (`read_of_write`).
-/

namespace Graft.Disk

variable {d d' : Disk} {parts others more : List String} {path : String} {text : Text}
  {place reached : Place}

/-! ## Folders -/

/-- A folder is there if it leads to the working folder, to a folder of its own, or to a file inside it. -/
theorem hasFolder_iff (d : Disk) (parts : List String) :
    d.hasFolder parts = true ↔ parts <+: partsOf d.working ∨ (∃ f ∈ d.folders, parts <+: f) ∨
      ∃ f ∈ d.files.map Prod.fst, parts <+: f ∧ parts.length < f.length := by
  simp [hasFolder, or_assoc]

/-- What leads to a folder is a folder. -/
theorem hasFolder_above (h : parts <+: others) (hfolder : d.hasFolder others = true) :
    d.hasFolder parts = true := by
  rw [hasFolder_iff] at hfolder ⊢
  rcases hfolder with hworking | ⟨f, hf, hothers⟩ | ⟨f, hf, hothers, hlength⟩
  · exact Or.inl (h.trans hworking)
  · exact Or.inr (Or.inl ⟨f, hf, h.trans hothers⟩)
  · exact Or.inr (Or.inr ⟨f, hf, h.trans hothers, Nat.lt_of_le_of_lt h.length_le hlength⟩)

/-! ## Putting a text -/

/-- A disk after a text was put where a file is or may be: nothing else on it is different. -/
structure Written (d d' : Disk) (parts : List String) (text : Text) : Prop where
  /-- The file has the text. -/
  file : d'.file? parts = some text
  /-- All other files are as they were. -/
  others : ∀ {others : List String}, others ≠ parts → d'.file? others = d.file? others
  /-- No folder came or went. -/
  folders : ∀ others, d'.hasFolder others = d.hasFolder others
  /-- The file does not stand where there was a folder only. -/
  vacant : d.file? parts = none → d.hasFolder parts = false
  working : d'.working = d.working
  locked : d'.locked = d.locked

/-- The files after a text was put. -/
theorem files_put (d : Disk) (parts : List String) (text : Text) :
    (d.put parts text).files =
      if (d.files.lookup parts).isSome then
        d.files.map fun f => if f.1 = parts then (parts, text) else f
      else d.files ++ [(parts, text)] := by
  unfold put file?
  split <;> rfl

/-- The keys of the files after a text was put. -/
theorem keys_put (d : Disk) (parts : List String) (text : Text) :
    (d.put parts text).files.map Prod.fst =
      if (d.file? parts).isSome then d.files.map Prod.fst else d.files.map Prod.fst ++ [parts] := by
  rw [files_put]
  exact Lookup.keys_set parts text d.files

/-- What is found after a text was put. -/
theorem file?_put (d : Disk) (parts others : List String) (text : Text) :
    (d.put parts text).file? others = if others = parts then some text else d.file? others := by
  rw [file?, files_put]
  exact Lookup.lookup_set parts others text d.files

/-- Putting a text where a file is, or in a folder where nothing is, makes no folder. -/
theorem hasFolder_put (hvacant : d.file? parts = none → d.hasFolder parts.dropLast = true)
    (others : List String) : (d.put parts text).hasFolder others = d.hasFolder others := by
  have hsame : (d.put parts text).working = d.working ∧ (d.put parts text).folders = d.folders := by
    unfold put
    split <;> exact ⟨rfl, rfl⟩
  rw [Bool.eq_iff_iff, hasFolder_iff, hasFolder_iff, keys_put, hsame.1, hsame.2]
  split
  · rfl
  · next hnone =>
    rw [Option.not_isSome_iff_eq_none] at hnone
    have hfolder := hvacant hnone
    constructor
    · rintro (hworking | hothers | ⟨f, hf, hprefix, hlength⟩)
      · exact Or.inl hworking
      · exact Or.inr (Or.inl hothers)
      · rcases List.mem_append.mp hf with hf | hf
        · exact Or.inr (Or.inr ⟨f, hf, hprefix, hlength⟩)
        · -- What leads to the new file leads to the folder that it is in.
          rw [List.mem_singleton] at hf
          rw [hf] at hprefix hlength
          have hinside : others <+: parts.dropLast := by
            have hne : parts ≠ [] := List.ne_nil_of_length_pos (Nat.zero_lt_of_lt hlength)
            rw [← List.dropLast_append_getLast hne] at hprefix
            refine (List.prefix_concat_iff.mp hprefix).resolve_left ?_
            rintro rfl
            rw [List.dropLast_append_getLast hne] at hlength
            exact Nat.lt_irrefl _ hlength
          exact (hasFolder_iff d others).mp (hasFolder_above hinside hfolder)
    · rintro (hworking | hothers | ⟨f, hf, hprefix⟩)
      · exact Or.inl hworking
      · exact Or.inr (Or.inl hothers)
      · exact Or.inr (Or.inr ⟨f, List.mem_append_left _ hf, hprefix⟩)

/-- A text is written where a file is, or where nothing is inside a folder. -/
theorem written_put (hfolder : d.file? parts = none → d.hasFolder parts.dropLast = true)
    (hvacant : d.file? parts = none → d.hasFolder parts = false) :
    Written d (d.put parts text) parts text where
  file := by rw [file?_put, if_pos rfl]
  others hne := by rw [file?_put, if_neg hne]
  folders := hasFolder_put hfolder
  vacant := hvacant
  working := by
    unfold put
    split <;> rfl
  locked := by
    unfold put
    split <;> rfl

/-! ## Following paths -/

/-- A place is what the disk says is there. -/
def Place.Stands (d : Disk) : Place → Prop
  | .file parts text => d.file? parts = some text
  | .folder parts => d.hasFolder parts = true
  | .vacant parts =>
    d.file? parts = none ∧ d.hasFolder parts = false ∧ d.hasFolder parts.dropLast = true

/-- What is found inside a folder stands there. -/
theorem stands_look (h : d.hasFolder parts = true) (part : String) :
    (d.look (parts ++ [part])).Stands d := by
  unfold look
  split
  · next text hfile => exact hfile
  · next hnone =>
    split
    · next hfolder => exact hfolder
    · next hfolder => exact ⟨hnone, by simpa using hfolder, by rwa [List.dropLast_concat]⟩

/-- Behind a place where nothing is, only empty parts are passed over. -/
theorem follow_vacant (d : Disk) (parts : List String) (part : String) (more : List String) :
    d.follow (.vacant parts) (part :: more) =
      if (part :: more).all String.isEmpty then .ok (.vacant parts) else .error .missing := by
  rw [Disk.follow]
  exact List.cons_ne_nil part more

/-- What a path leads to stands there. -/
theorem stands_of_follow (hplace : place.Stands d) (h : d.follow place more = .ok reached) :
    reached.Stands d := by
  -- The induction is on the parts of the path; the place that was reached so far stands.
  induction more generalizing place with
  | nil =>
    cases h
    exact hplace
  | cons part more ih =>
    cases place with
    | file parts text => cases h
    | vacant parts =>
      rw [follow_vacant] at h
      split at h
      · cases h
        exact hplace
      · cases h
    | folder parts =>
      rw [follow] at h
      split at h
      · exact ih hplace h
      · split at h
        · have habove : (Place.folder parts.dropLast).Stands d :=
            hasFolder_above parts.dropLast_prefix hplace
          exact ih habove h
        · exact ih (stands_look hplace part) h

/-- The folder that a path starts from is there. -/
theorem stands_start (d : Disk) (path : String) :
    (Place.folder (if isAbsolute path then [] else partsOf d.working)).Stands d := by
  rw [Place.Stands, hasFolder_iff]
  split
  · exact Or.inl List.nil_prefix
  · exact Or.inl List.prefix_rfl

/-- The place once the file with these parts has a text. -/
def Place.onWrite (parts : List String) (text : Text) : Place → Place
  | .file others old => .file others (if others = parts then text else old)
  | .folder others => .folder others
  | .vacant others => if others = parts then .file others text else .vacant others

namespace Written

variable (h : Written d d' parts text)

include h

/-- Looking finds what was there before, with the new text in the file that was written. -/
theorem look (others : List String) : d'.look others = (d.look others).onWrite parts text := by
  unfold Disk.look
  by_cases hothers : others = parts
  · rw [hothers, h.file]
    cases hfile : d.file? parts with
    | some old => simp [Place.onWrite]
    | none => simp [h.vacant hfile, Place.onWrite]
  · rw [h.others hothers, h.folders]
    cases d.file? others with
    | some old => simp [Place.onWrite, hothers]
    | none =>
      simp only
      split <;> simp [Place.onWrite, hothers]

/-- A path that leads to a place leads there after the writing, too, unless it takes a new file for a
folder. -/
theorem follow (hplace : place.Stands d)
    (hlast : d.file? parts = none → more.getLast? ≠ some "")
    (hfollow : d.follow place more = .ok reached) :
    d'.follow (place.onWrite parts text) more = .ok (reached.onWrite parts text) := by
  induction more generalizing place with
  | nil =>
    cases hfollow
    rfl
  | cons part more ih =>
    have hrest : d.file? parts = none → more.getLast? ≠ some "" := by
      intro hnone hempty
      apply hlast hnone
      rw [List.getLast?_cons, hempty]
      rfl
    cases place with
    | file others old => cases hfollow
    | vacant others =>
      rw [follow_vacant] at hfollow
      split at hfollow
      · next hall =>
        cases hfollow
        have hothers : others ≠ parts := by
          rintro rfl
          -- Only empty parts follow, so the last one is empty.
          have hempty := List.all_eq_true.mp hall _ (List.getLast_mem (List.cons_ne_nil part more))
          refine hlast hplace.1 ?_
          rw [List.getLast?_eq_some_getLast (List.cons_ne_nil part more)]
          simpa using hempty
        rw [Place.onWrite, if_neg hothers, follow_vacant, if_pos hall]
      · cases hfollow
    | folder others =>
      rw [Disk.follow] at hfollow
      rw [Place.onWrite, Disk.follow]
      split
      · next hidle =>
        rw [if_pos hidle] at hfollow
        exact ih hplace hrest hfollow
      · next hidle =>
        rw [if_neg hidle] at hfollow
        split
        · next hup =>
          rw [if_pos hup] at hfollow
          have habove : (Place.folder others.dropLast).Stands d :=
            hasFolder_above others.dropLast_prefix hplace
          exact ih habove hrest hfollow
        · next hup =>
          rw [if_neg hup] at hfollow
          rw [h.look]
          exact ih (stands_look hplace part) hrest hfollow

end Written

/-! ## Reading and writing -/

/-- A text is read where a path leads to a file with it. -/
theorem read_eq_ok_iff : d.read path = .ok text ↔ ∃ parts, d.locate path = .ok (.file parts text) := by
  have hread : d.read path =
      match d.locate path with
      | .error e => .error e
      | .ok (.file _ text) => .ok text
      | .ok (.folder _) => .error .isFolder
      | .ok (.vacant _) => .error .missing := by
    unfold read
    cases d.locate path with
    | error e => rfl
    | ok place => cases place <;> rfl
  rw [hread]
  split <;> simp_all

/-- The parts that lead to a place. -/
def Place.trail : Place → List String
  | .file parts _ => parts
  | .folder parts => parts
  | .vacant parts => parts

/-- A path that is followed to something vacant and does not end with a slash has a last part. -/
theorem getLast?_of_vacant (h : d.locate path = .ok (.vacant parts))
    (hslash : Text.endsWith '/' path.toList = false) :
    (Word.splitOn '/' path).getLast? ≠ some "" := by
  intro hempty
  rw [Word.splitOn, List.getLast?_map, Option.map_eq_some_iff] at hempty
  obtain ⟨piece, hlast, hpiece⟩ := hempty
  have hnil : piece = [] := by simpa using hpiece
  rw [hnil] at hlast
  rcases Text.eq_nil_or_getLast?_of_splitOn hlast with hpath | hend
  · -- The empty path leads to the working folder.
    rw [locate, Word.splitOn, hpath] at h
    cases h
  · simp [Text.endsWith, hend] at hslash

/-- A text is written where a path leads to a file, or to nothing in a folder and has a last part. -/
theorem write_cases (h : d.write path text = .ok d') :
    ∃ place, d.locate path = .ok place ∧ d' = d.put place.trail text ∧
      ((∃ old, place = .file place.trail old) ∨
        place = .vacant place.trail ∧ (Word.splitOn '/' path).getLast? ≠ some "") := by
  unfold write at h
  -- Whatever else a path leads to, writing fails.
  cases hlocate : d.locate path with
  | error e =>
    rw [hlocate] at h
    cases h
  | ok place =>
    rw [hlocate] at h
    refine ⟨place, rfl, ?_⟩
    cases place with
    | file parts old =>
      simp only [bind, Except.bind] at h
      split at h
      · cases h
      · cases h
        exact ⟨rfl, Or.inl ⟨old, rfl⟩⟩
    | folder parts => cases h
    | vacant parts =>
      simp only [bind, Except.bind] at h
      split at h
      · cases h
      · next hslash =>
        split at h
        · cases h
        · cases h
          exact ⟨rfl, Or.inr ⟨rfl, getLast?_of_vacant hlocate (by simpa using hslash)⟩⟩

/-- A path at which a text was written leads to a file with this text, and nothing else is different. -/
theorem locate_of_write (h : d.write path text = .ok d') :
    ∃ place, d.locate path = .ok place ∧ Written d d' place.trail text ∧
      d'.locate path = .ok (.file place.trail text) := by
  -- What stands at the place is a file, or nothing in a folder, and so the text can stand there.
  obtain ⟨place, hlocate, rfl, hplace⟩ := write_cases h
  have hstands := stands_of_follow (stands_start d path) hlocate
  have hwritten : Written d (d.put place.trail text) place.trail text := by
    rcases hplace with ⟨old, hfile⟩ | ⟨hvacant, -⟩
    · rw [hfile] at hstands
      exact written_put (fun hnone => absurd (hstands.symm.trans hnone) (Option.some_ne_none old))
        (fun hnone => absurd (hstands.symm.trans hnone) (Option.some_ne_none old))
    · rw [hvacant] at hstands
      exact written_put (fun _ => hstands.2.2) (fun _ => hstands.2.1)
  refine ⟨place, hlocate, hwritten, ?_⟩
  -- Where no file was, the path does not end with a slash, and so it leads to the same place now.
  have hlast : d.file? place.trail = none → (Word.splitOn '/' path).getLast? ≠ some "" := by
    intro hnone
    rcases hplace with ⟨old, hfile⟩ | ⟨-, hlast⟩
    · rw [hfile] at hstands
      exact absurd (hstands.symm.trans hnone) (Option.some_ne_none old)
    · exact hlast
  have hfollow := hwritten.follow (stands_start d path) hlast hlocate
  rw [locate, hwritten.working]
  refine hfollow.trans ?_
  rcases hplace with ⟨old, hfile⟩ | ⟨hvacant, -⟩
  · rw [hfile]
    simp [Place.onWrite, Place.trail]
  · rw [hvacant]
    simp [Place.onWrite, Place.trail]

/-- What was written is what is read. -/
theorem read_of_write (h : d.write path text = .ok d') : d'.read path = .ok text := by
  obtain ⟨place, -, -, hlocate⟩ := locate_of_write h
  exact read_eq_ok_iff.mpr ⟨place.trail, hlocate⟩

end Graft.Disk
