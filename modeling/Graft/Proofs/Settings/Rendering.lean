import Mathlib.Algebra.Group.Nat.Defs
import Mathlib.Data.List.Basic
import Graft.Proofs.Disk.Writing
import Graft.Proofs.Settings.Layers
import Graft.Proofs.Toml.Document

/-!
# Settings are loaded as they were written

Settings that make sense and whose numbers fit in a settings file are written, and loading the file gives
the same settings (`load_toToml`), if neither a variable nor the command line sets anything. The file
has the entry without a section first, so its table has the entries in another order; but they are found
under their keys all the same (`assigns_of_mem`).
-/

namespace Graft.Settings

variable {s : Settings} {text : Text}

/-! ## The table of settings in a file -/

/-- The sections of the table of settings. -/
theorem tablesOf_entries (s : Settings) : Toml.tablesOf s.entries =
    [("fetch", [("retries", number s.fetch.retries.toNat),
        ("timeout_seconds", number s.fetch.timeoutSeconds.toNat)] ++
        optionalEntry "proxy_url" s.fetch.proxyUrl),
      ("entry", [("host", .text s.entry.host), ("default_branch", .text s.entry.branch),
        ("locations", .list (s.entry.locations.map Tree.text))]),
      ("output", ("max_chars", number s.output.maxChars.toNat) ::
        optionalEntry "heading" s.output.heading)] := rfl

/-- The keys of an optional value. -/
theorem mem_optionalEntry {key : String} {o : Option String} {e : String × Tree}
    (h : e ∈ optionalEntry key o) : ∃ s, e = (key, .text s) := by
  cases o with
  | none => cases h
  | some s => exact ⟨s, List.mem_singleton.mp h⟩

/-- A property of all entries of the sections. -/
theorem forall_mem_tablesOf {p : String × Tree → Prop}
    (hretries : p ("retries", number s.fetch.retries.toNat))
    (htimeout : p ("timeout_seconds", number s.fetch.timeoutSeconds.toNat))
    (hproxy : ∀ t, p ("proxy_url", .text t)) (hhost : p ("host", .text s.entry.host))
    (hbranch : p ("default_branch", .text s.entry.branch))
    (hlocations : p ("locations", .list (s.entry.locations.map Tree.text)))
    (hmax : p ("max_chars", number s.output.maxChars.toNat)) (hheading : ∀ t, p ("heading", .text t)) :
    ∀ table ∈ Toml.tablesOf s.entries, ∀ e ∈ table.2, p e := by
  intro table htable e he
  rw [tablesOf_entries] at htable
  simp only [List.mem_cons, List.not_mem_nil, or_false] at htable
  rcases htable with rfl | rfl | rfl
  · simp only [List.mem_append, List.mem_cons, List.not_mem_nil, or_false] at he
    rcases he with (rfl | rfl) | he
    · exact hretries
    · exact htimeout
    · obtain ⟨t, rfl⟩ := mem_optionalEntry he
      exact hproxy t
  · simp only [List.mem_cons, List.not_mem_nil, or_false] at he
    rcases he with rfl | rfl | rfl
    · exact hhost
    · exact hbranch
    · exact hlocations
  · rcases List.mem_cons.mp he with rfl | he
    · exact hmax
    · obtain ⟨t, rfl⟩ := mem_optionalEntry he
      exact hheading t

/-- The keys of settings can stand in a settings file. -/
theorem orderly_entries (s : Settings) : Toml.Orderly s.entries where
  bare e he := by
    have hkeys : ∀ key ∈ ["fetch", "entry", "output", "strict"], Toml.Bare key := by decide +kernel
    exact hkeys e.1 (List.mem_map_of_mem he)
  nodup := nodup_entries s
  bareInner :=
    forall_mem_tablesOf (by decide +kernel : Toml.Bare "retries")
      (by decide +kernel : Toml.Bare "timeout_seconds")
      (fun _ => (by decide +kernel : Toml.Bare "proxy_url")) (by decide +kernel : Toml.Bare "host")
      (by decide +kernel : Toml.Bare "default_branch") (by decide +kernel : Toml.Bare "locations")
      (by decide +kernel : Toml.Bare "max_chars") fun _ => (by decide +kernel : Toml.Bare "heading")
  nodupInner table htable := by
    rw [tablesOf_entries] at htable
    simp only [List.mem_cons, List.not_mem_nil, or_false] at htable
    -- An optional key is there or not, and the keys are different either way.
    rcases htable with rfl | rfl | rfl
    · cases s.fetch.proxyUrl with
      | none => exact (by decide : ["retries", "timeout_seconds"].Nodup)
      | some _ => exact (by decide : ["retries", "timeout_seconds", "proxy_url"].Nodup)
    · exact (by decide : ["host", "default_branch", "locations"].Nodup)
    · cases s.output.heading with
      | none => exact (by decide : ["max_chars"].Nodup)
      | some _ => exact (by decide : ["max_chars", "heading"].Nodup)

/-! ## Writing them -/

/-- A number of settings that is not too large can be written in TOML. -/
theorem plain?_number {n : Nat} (h : n ≤ 2 ^ 63 - 1) : ∃ text, Toml.plain? (number n) = some text := by
  have hword : Tree.isWord n = true := by
    simp only [Tree.isWord, Bool.and_eq_true, decide_eq_true_eq]
    omega
  refine ⟨(toString (n : Int)).toList, ?_⟩
  show (if Tree.isWord n then some (toString (n : Int)).toList else none) = _
  rw [hword]
  rfl

/-- A list of texts can be written in TOML. -/
theorem plain?_texts (texts : List String) :
    ∃ text, Toml.plain? (.list (texts.map Tree.text)) = some text := by
  obtain ⟨spelled, hspelled⟩ := Toml.exists_mapM (f := Toml.spell?) (l := texts.map Tree.text) fun t ht => by
    obtain ⟨s, -, rfl⟩ := List.mem_map.mp ht
    exact ⟨_, rfl⟩
  exact ⟨Toml.list spelled, by rw [Toml.plain?, hspelled]; rfl⟩

/-- Settings whose numbers fit are written. -/
theorem exists_toToml (htimeout : s.fetch.timeoutSeconds.toNat ≤ 2 ^ 63 - 1)
    (hmax : s.output.maxChars.toNat ≤ 2 ^ 63 - 1) : ∃ text, s.toToml = .ok text := by
  have hplain : ∀ e ∈ Toml.plainOf s.entries, ∃ text, Toml.plain? e.2 = some text := by
    intro e he
    have hstrict : Toml.plainOf s.entries = [("strict", .flag s.isStrict)] := rfl
    rw [hstrict] at he
    rw [List.mem_singleton.mp he]
    cases s.isStrict <;> exact ⟨_, rfl⟩
  have hretries : s.fetch.retries.toNat ≤ 2 ^ 63 - 1 := by
    have hlt := s.fetch.retries.toNat_lt
    omega
  have htables : ∀ table ∈ Toml.tablesOf s.entries, ∀ e ∈ table.2,
      ∃ text, Toml.plain? e.2 = some text :=
    forall_mem_tablesOf (plain?_number hretries) (plain?_number htimeout) (fun _ => ⟨_, rfl⟩)
      ⟨_, rfl⟩ ⟨_, rfl⟩ (plain?_texts _) (plain?_number hmax) fun _ => ⟨_, rfl⟩
  obtain ⟨text, htext⟩ := Toml.exists_write? hplain htables
  exact ⟨text, by rw [toToml, htext]⟩

/-- What was written assigns the values of all keys. -/
theorem exists_tree?_toToml (h : s.toToml = .ok text) :
    ∃ tree, Toml.tree? text = some tree ∧ Assigns tree s.value := by
  unfold toToml at h
  split at h
  · next hwrite =>
    cases h
    have horderly := orderly_entries s
    refine ⟨_, Toml.tree?_write? hwrite horderly, assigns_of_mem s ?_ (Toml.mem_parts s.entries)⟩
    have hnodup := Toml.nodup_parts horderly.nodup
    rw [List.map_append, List.map_map]
    exact hnodup
  · cases h

end Graft.Settings

namespace Graft.SettingsSource

open Settings

variable {s : Settings} {text : Text} {path : String} {source : SettingsSource} {disk : Disk}
  {environment : Environment}

/-- Without variables that set something nothing is given by them. -/
theorem givenBy_empty {start : String}
    (h : ∀ name value, (name, value) ∈ environment → Variables.path? start name = none) :
    GivenBy start environment .empty where
  known name value path hmem hpath := by
    rw [h name value hmem] at hpath
    cases hpath
  values k := by
    refine List.findSome?_eq_none_iff.mpr ?_
    rintro ⟨name, value⟩ hmem
    exact if_neg (by simp [h name value (List.mem_reverse.mp hmem)])

/-- If only the file gives values, and all of them, these are the settings. -/
theorem firstOf_file (s : Settings) : (Assignment.firstOf
    [({} : Overrides).value, .empty, s.value, ({} : Settings).value]).settings = s := by
  have hfirst : Assignment.firstOf
      [({} : Overrides).value, .empty, s.value, ({} : Settings).value] = s.value := by
    simp only [Assignment.firstOf_cons, Assignment.empty_above]
    funext k
    cases k with
    | proxyUrl => exact Option.or_none
    | heading => exact Option.or_none
    | _ => rfl
  rw [hfirst, settings_value]

/-- Settings that make sense and whose numbers fit in a settings file are written, and loading them from the
file gives them back, if no variable and nothing on the command line sets anything. -/
theorem load_toToml (hsense : s.check = .ok s) (htimeout : s.fetch.timeoutSeconds.toNat ≤ 2 ^ 63 - 1)
    (hmax : s.output.maxChars.toNat ≤ 2 ^ 63 - 1) :
    ∃ text, s.toToml = .ok text ∧
      ∀ (source : SettingsSource) (disk : Disk) (environment : Environment) (path : String),
        source.file? disk = .ok (some path) → disk.read path = .ok text →
        (∀ name value, (name, value) ∈ environment →
          Variables.path? source.variableStart name = none) →
        source.overrides = {} → (source.load disk environment).1 = .ok s := by
  obtain ⟨text, htext⟩ := exists_toToml htimeout hmax
  refine ⟨text, htext, fun source disk environment path hpath hread hnone hoverrides => ?_⟩
  obtain ⟨tree, htree, hassigns⟩ := exists_tree?_toToml htext
  have hfile : FileGives disk (some path) s.value := ⟨text, tree, hread, htree, hassigns⟩
  rw [load_eq_check hpath hfile (givenBy_empty hnone), hoverrides, firstOf_file, hsense]

/-- Texts with quotation marks of both kinds, backslashes, line ends, a control character and the largest
number are loaded as they were written. -/
theorem load_toToml_marks :
    let s : Settings := {
      fetch := ⟨1, 9223372036854775807, some "http://p\\'\""⟩
      entry := ⟨"https://h/\"\"\"\n'''", "\x7f", ["a\\b", "\r\n\t'", "ä"]⟩
      output := { heading := some "" }
      isStrict := true }
    let source : SettingsSource := { file := some "/s.toml" }
    ∃ text, s.toToml = .ok text ∧
      (source.load ⟨"/", [(["s.toml"], text)], [], []⟩ [("HOME", "/")]).1 = .ok s := by
  intro s source
  obtain ⟨text, htext, hload⟩ := load_toToml (s := s) (by decide +kernel) (by decide) (by decide)
  have hread : Disk.read ⟨"/", [(["s.toml"], text)], [], []⟩ "/s.toml" = .ok text := rfl
  have hfile : Disk.isFile ⟨"/", [(["s.toml"], text)], [], []⟩ "/s.toml" = true := by
    obtain ⟨parts, hparts⟩ := Disk.read_eq_ok_iff.mp hread
    rw [Disk.isFile, hparts]
  have hunset : ∀ v ∈ [("HOME", "/")],
      Variables.path? source.variableStart v.1 = none := by
    decide +kernel
  have hpath : source.file? ⟨"/", [(["s.toml"], text)], [], []⟩ = .ok (some "/s.toml") := by
    simp only [source, SettingsSource.file?, hfile, if_true]
  have hloaded := hload source _ [("HOME", "/")] "/s.toml" hpath hread
    (fun name value hmem => hunset (name, value) hmem) rfl
  exact ⟨text, htext, hloaded⟩

end Graft.SettingsSource
