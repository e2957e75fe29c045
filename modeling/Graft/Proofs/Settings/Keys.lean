import Mathlib.Data.List.Basic
import Graft.Proofs.Tree.Merging
import Graft.Settings.Shape

/-!
# Settings key by key

There are nine keys, each with values of its own kind (`Key.Value`). An assignment gives values to some
of them, and a tree stands for an assignment if it has these values at the paths of their keys and
nothing else but the tables around them (`Assigns`). Laying trees over each other lays their assignments
over each other, key by key (`Assigns.cover`), and the settings read from a tree are those of its
assignment, with the defaults for the rest (`Assigns.ofTree?`).
-/

namespace Graft.Settings

/-- What can be set by a key of its own. -/
inductive Key where
  | retries | timeoutSeconds | proxyUrl
  | host | branch | locations
  | maxChars | heading
  | isStrict
  deriving DecidableEq, Repr

namespace Key

/-- The values of a key. -/
abbrev Value : Key → Type
  | .retries => UInt32
  | .timeoutSeconds => UInt64
  | .proxyUrl => String
  | .host => String
  | .branch => String
  | .locations => List String
  | .maxChars => UInt64
  | .heading => String
  | .isStrict => Bool

/-- Where a key stands in a tree. -/
def path : Key → List String
  | .retries => ["fetch", "retries"]
  | .timeoutSeconds => ["fetch", "timeout_seconds"]
  | .proxyUrl => ["fetch", "proxy_url"]
  | .host => ["entry", "host"]
  | .branch => ["entry", "default_branch"]
  | .locations => ["entry", "locations"]
  | .maxChars => ["output", "max_chars"]
  | .heading => ["output", "heading"]
  | .isStrict => ["strict"]

/-- A value in a tree. -/
def tree : (k : Key) → k.Value → Tree
  | .retries, n => number n.toNat
  | .timeoutSeconds, n => number n.toNat
  | .proxyUrl, s => .text s
  | .host, s => .text s
  | .branch, s => .text s
  | .locations, texts => .list (texts.map Tree.text)
  | .maxChars, n => number n.toNat
  | .heading, s => .text s
  | .isStrict, b => .flag b

/-- The value of a key is no table. -/
theorem isTable_tree (k : Key) (v : k.Value) : (k.tree v).isTable = false := by
  cases k <;> rfl

/-- No key stands on the way to another one. -/
theorem eq_of_prefix {k k' : Key} (h : k.path <+: k'.path) : k = k' := by
  revert h
  cases k <;> cases k' <;> decide

end Key

/-- Values for some of the keys. -/
abbrev Assignment := ∀ k : Key, Option k.Value

namespace Assignment

/-- No values. -/
def empty : Assignment := fun _ => none

/-- The value of one key, if there is one. -/
def only (k : Key) (v : Option k.Value) : Assignment := fun k' => if h : k = k' then h ▸ v else none

/-- For each key the upper value, or else the lower one. -/
def above (upper lower : Assignment) : Assignment := fun k => (upper k).or (lower k)

/-- Settings with the defaults for the keys that have no value. -/
def settings (a : Assignment) : Settings where
  fetch := {
    retries := (a .retries).getD ({} : FetchSettings).retries
    timeoutSeconds := (a .timeoutSeconds).getD ({} : FetchSettings).timeoutSeconds
    proxyUrl := a .proxyUrl }
  entry := {
    host := (a .host).getD ({} : EntrySettings).host
    branch := (a .branch).getD ({} : EntrySettings).branch
    locations := (a .locations).getD ({} : EntrySettings).locations }
  output := {
    maxChars := (a .maxChars).getD ({} : OutputSettings).maxChars
    heading := a .heading }
  isStrict := (a .isStrict).getD ({} : Settings).isStrict

end Assignment

/-- The value that settings have for a key; only the proxy and the heading may have none. -/
def value (s : Settings) : Assignment
  | .retries => some s.fetch.retries
  | .timeoutSeconds => some s.fetch.timeoutSeconds
  | .proxyUrl => s.fetch.proxyUrl
  | .host => some s.entry.host
  | .branch => some s.entry.branch
  | .locations => some s.entry.locations
  | .maxChars => some s.output.maxChars
  | .heading => s.output.heading
  | .isStrict => some s.isStrict

variable {a b : Assignment} {t upper lower : Tree} {path : List String} {k : Key}

/-- Settings are the values of all keys. -/
theorem settings_value (s : Settings) : Assignment.settings s.value = s := rfl

/-- The settings of an assignment have its values, and the defaults for the other keys. -/
theorem value_settings (a : Assignment) (k : Key) :
    a.settings.value k = (a k).or (({} : Settings).value k) := by
  have hgiven : ∀ {α : Type} (o : Option α) (v : α), some (o.getD v) = o.or (some v) := by
    intro α o v
    cases o <;> rfl
  cases k with
  | proxyUrl => exact (Option.or_none).symm
  | heading => exact (Option.or_none).symm
  | _ => exact hgiven _ _

/-- No values on top change nothing. -/
theorem Assignment.empty_above (a : Assignment) : Assignment.empty.above a = a :=
  funext fun _ => Option.none_or

/-- For each key the value of the first assignment that has one. -/
def Assignment.firstOf (layers : List Assignment) : Assignment :=
  fun k => layers.findSome? fun a => a k

/-- The first layer that sets a key is the top one, or else the first one below it. -/
theorem Assignment.firstOf_cons (a : Assignment) (layers : List Assignment) :
    firstOf (a :: layers) = a.above (firstOf layers) := by
  funext k
  unfold firstOf above
  rw [List.findSome?_cons]
  cases a k <;> rfl

/-! ## Trees of assignments -/

/-- What may stand at a path: the value of a key, or a table on the way to one. -/
def Fits (path : List String) (t : Tree) : Prop :=
  (∃ (k : Key) (v : k.Value), path = k.path ∧ t = k.tree v) ∨
    t.isTable = true ∧ ∃ k : Key, path <+: k.path ∧ path ≠ k.path

/-- A tree that gives the values of an assignment and says nothing else. -/
structure Assigns (t : Tree) (a : Assignment) : Prop where
  /-- At the path of a key stands its value, if it has one. -/
  values : ∀ k : Key, t.find? k.path = (a k).map k.tree
  /-- Nothing stands anywhere else. -/
  known : ∀ path found, t.find? path = some found → Fits path found

/-- A key has a value and no table. -/
theorem Assigns.isTable_of_path (h : Assigns t a) {found : Tree} (hfound : t.find? k.path = some found) :
    found.isTable = false := by
  rw [h.values k] at hfound
  obtain ⟨v, -, rfl⟩ := Option.map_eq_some_iff.mp hfound
  exact k.isTable_tree v

/-- There are only tables on the way to a key. -/
theorem Assigns.isOpen (h : Assigns t a) (k : Key) : Tree.Open k.path t := by
  intro way hway hne found hfound
  rcases h.known way found hfound with ⟨k', v, rfl, -⟩ | ⟨htable, -⟩
  · exact absurd (congrArg Key.path (Key.eq_of_prefix hway)) hne
  · exact htable

/-- Laying a tree over another one lays its assignment over the other one, key by key. -/
theorem Assigns.cover (hupper : Assigns upper a) (hlower : Assigns lower b)
    (hdistinct : Tree.Distinct upper) : Assigns (Tree.cover upper lower) (a.above b) where
  values k := by
    rw [Tree.find?_cover hdistinct (hupper.isOpen k) (hlower.isOpen k) fun _ hfound =>
      hupper.isTable_of_path hfound, hupper.values, hlower.values]
    exact Option.map_or.symm
  known path found hfound := by
    -- What is made of tables of both stands where the upper table stands, on the way to a key.
    rcases Tree.find?_cover_cases hdistinct hfound with hfound | hfound | ⟨⟨entries, hentries⟩, htable⟩
    · exact hupper.known path found hfound
    · exact hlower.known path found hfound
    · rcases hupper.known path _ hentries with ⟨k, v, -, hvalue⟩ | ⟨-, hway⟩
      · have hleaf := k.isTable_tree v
        rw [← hvalue] at hleaf
        cases hleaf
      · exact .inr ⟨htable, hway⟩

/-- An empty table assigns nothing. -/
theorem assigns_empty : Assigns (.table []) .empty where
  values k := by cases k <;> rfl
  known path found hfound := by
    cases path with
    | nil =>
      cases hfound
      exact .inr ⟨rfl, .isStrict, List.nil_prefix, by decide⟩
    | cons name path => cases hfound

/-- A value under the path of its key assigns this value only. -/
theorem assigns_nest (k : Key) (v : k.Value) : Assigns (Tree.nest k.path (k.tree v)) (.only k (some v)) where
  values k' := by
    unfold Assignment.only
    split
    · next heq =>
      subst heq
      exact Tree.find?_nest k.path (k.tree v)
    · next hne =>
      cases hfound : Tree.find? k'.path (Tree.nest k.path (k.tree v)) with
      | none => rfl
      | some found =>
        rcases Tree.find?_nest_cases hfound (k.isTable_tree v) with ⟨hpath, -⟩ | ⟨habove, -, -⟩
        · exact absurd (Key.eq_of_prefix (hpath ▸ List.prefix_rfl)).symm hne
        · exact absurd (Key.eq_of_prefix habove).symm hne
  known path found hfound := by
    rcases Tree.find?_nest_cases hfound (k.isTable_tree v) with ⟨hpath, hvalue⟩ | ⟨habove, hne, htable⟩
    · exact .inl ⟨k, v, hpath, hvalue⟩
    · exact .inr ⟨htable, k, habove, hne⟩

/-! ## Settings read from a tree -/

variable {entries inner : Tree.Entries} {name : String}

/-- The names that may stand at the top. -/
theorem Fits.mem_top (h : Fits [name] t) : name ∈ ["fetch", "entry", "output", "strict"] := by
  rcases h with ⟨k, v, hpath, -⟩ | ⟨-, k, habove, -⟩
  · cases k <;> cases hpath
    decide
  · cases k <;> simp_all [Key.path, List.cons_prefix_cons]

/-- Only keys stand in a section. -/
theorem Fits.key {key : String} (h : Fits [name, key] t) : ∃ k : Key, k.path = [name, key] := by
  rcases h with ⟨k, v, hpath, -⟩ | ⟨-, k, habove, hne⟩
  · exact ⟨k, hpath.symm⟩
  · have hlength : k.path.length ≤ 2 := by cases k <;> decide
    exact absurd (habove.eq_of_length_le hlength) hne

/-- The entries of a section give the values of its keys and nothing else. -/
structure Section (name : String) (a : Assignment) (inner : Tree.Entries) : Prop where
  names : ∀ key found, inner.lookup key = some found → ∃ k : Key, k.path = [name, key]
  values : ∀ (k : Key) (key : String), k.path = [name, key] → inner.lookup key = (a k).map k.tree

/-- A section is missing and has no values, or it is a table. -/
theorem Assigns.section_cases (h : Assigns (.table entries) a)
    (hname : ∀ k : Key, k.path ≠ [name]) : ∃ inner, Section name a inner ∧
      (entries.lookup name = none ∧ inner = [] ∨ entries.lookup name = some (.table inner)) := by
  have hfind : ∀ key, Tree.find? [name, key] (.table entries) =
      (entries.lookup name).bind (Tree.find? [key]) := fun _ => rfl
  cases hlookup : entries.lookup name with
  | none =>
    refine ⟨[], ⟨fun key found hfound => (by cases hfound), fun k key hpath => ?_⟩, .inl ⟨rfl, rfl⟩⟩
    rw [← h.values k, hpath, hfind, hlookup]
    rfl
  | some t =>
    have hfound : Tree.find? [name] (.table entries) = some t := by
      rw [Tree.find?, hlookup]
      rfl
    -- A value under the section's name would be the value of a key with this path, and there is none.
    have htable : t.isTable = true := by
      rcases h.known [name] t hfound with ⟨k, v, hpath, -⟩ | ⟨htable, -⟩
      · exact absurd hpath.symm (hname k)
      · exact htable
    obtain ⟨inner, rfl⟩ := Tree.exists_table htable
    have hinner : ∀ key, Tree.find? [name, key] (.table entries) = inner.lookup key := by
      intro key
      rw [hfind, hlookup]
      show (inner.lookup key).bind some = inner.lookup key
      exact Option.bind_fun_some _
    refine ⟨inner, ⟨fun key found hlook => ?_, fun k key hpath => ?_⟩, .inr rfl⟩
    · exact (h.known [name, key] found ((hinner key).trans hlook)).key
    · rw [← h.values k, hpath, hinner]

/-- A table without unknown keys is a section. -/
theorem section?_table {keys : List String} (strictness : Strictness)
    (h : ∀ key found, entries.lookup key = some found → key ∈ keys) : section? strictness keys
      (.table entries) = some fun key => entries.lookup key := by
  apply if_pos
  rw [List.all_eq_true]
  rintro ⟨key, t⟩ he
  cases hlookup : entries.lookup key with
  | none =>
    rw [Lookup.lookup_eq_none_iff] at hlookup
    exact absurd (List.mem_map_of_mem he) hlookup
  | some found => exact List.contains_iff_mem.mpr (h key found hlookup)

/-- A section has no other keys than those under its name. -/
theorem Section.section?_eq (h : Section name a inner) (strictness : Strictness) (keys : List String)
    (hkeys : ∀ (k : Key) (key : String), k.path = [name, key] → key ∈ keys) : section? strictness keys
      (.table inner) = some fun key => inner.lookup key := by
  have hnames : ∀ key found, inner.lookup key = some found → key ∈ keys := by
    intro key found hlookup
    obtain ⟨k, hpath⟩ := h.names key found hlookup
    exact hkeys k key hpath
  exact section?_table strictness hnames

/-! Values of each kind are read as they are. -/

/-- A number is read as itself, and none as the default. -/
theorem valueOr_number {α : Type} {toNat : α → Nat} {bound : Nat} (h : ∀ n, toNat n < bound)
    (o : Option α) (default : Nat) :
    valueOr (number? bound) default (o.map fun n => number (toNat n)) =
      some ((o.map toNat).getD default) := by
  cases o with
  | none => rfl
  | some n => exact if_pos (by simpa using h n)

/-- A text is read as itself, and none as the default. -/
theorem valueOr_text (o : Option String) (default : String) :
    valueOr text? default (o.map Tree.text) = some (o.getD default) := by
  cases o <;> rfl

/-- A text that may be missing is read as it is. -/
theorem valueOr_optionalText (o : Option String) :
    valueOr optionalText? none (o.map Tree.text) = some o := by
  cases o <;> rfl

/-- A list of texts is read as itself, and none as the default. -/
theorem valueOr_texts (o : Option (List String)) (default : List String) :
    valueOr texts? default (o.map fun texts => Tree.list (texts.map Tree.text)) =
      some (o.getD default) := by
  cases o with
  | none => rfl
  | some texts =>
    show (texts.map Tree.text).mapM text? = some texts
    induction texts with
    | nil => rfl
    | cons s texts ih => simp [List.mapM_cons, text?, ih]

/-- A truth value is read as itself, and none as the default. -/
theorem valueOr_flag (o : Option Bool) (default : Bool) :
    valueOr flag? default (o.map Tree.flag) = some (o.getD default) := by
  cases o <;> rfl

/-- A word of 32 bits is lost neither as a number nor as a default. -/
theorem getD_word32 (o : Option UInt32) (default : Nat) :
    ((o.map UInt32.toNat).getD default).toUInt32 = o.getD default.toUInt32 := by
  cases o with
  | none => rfl
  | some n => exact UInt32.ofNat_toNat

/-- A word of 64 bits is lost neither as a number nor as a default. -/
theorem getD_word64 (o : Option UInt64) (default : Nat) :
    ((o.map UInt64.toNat).getD default).toUInt64 = o.getD default.toUInt64 := by
  cases o with
  | none => rfl
  | some n => exact UInt64.ofNat_toNat

/-- The fetch settings of a section. -/
theorem Section.fetchOf? (h : Section "fetch" a inner) :
    Settings.fetchOf? .lenient (.table inner) = some a.settings.fetch := by
  have hsection := h.section?_eq .lenient ["retries", "timeout_seconds", "proxy_url"]
    (by intro k; cases k <;> simp [Key.path])
  have hretries : inner.lookup "retries" = (a .retries).map fun n => number n.toNat :=
    h.values .retries "retries" rfl
  have htimeout : inner.lookup "timeout_seconds" = (a .timeoutSeconds).map fun n => number n.toNat :=
    h.values .timeoutSeconds "timeout_seconds" rfl
  have hproxy : inner.lookup "proxy_url" = (a .proxyUrl).map Tree.text :=
    h.values .proxyUrl "proxy_url" rfl
  unfold Settings.fetchOf?
  rw [hsection]
  simp only [Option.bind_eq_bind, Option.bind_some, hretries, htimeout, hproxy,
    valueOr_number UInt32.toNat_lt_size, valueOr_number UInt64.toNat_lt_size, valueOr_optionalText,
    getD_word32, getD_word64, Option.pure_def]
  rfl

/-- The entry settings of a section. -/
theorem Section.entryOf? (h : Section "entry" a inner) :
    Settings.entryOf? .lenient (.table inner) = some a.settings.entry := by
  have hsection := h.section?_eq .lenient ["host", "default_branch", "locations"]
    (by intro k; cases k <;> simp [Key.path])
  have hhost : inner.lookup "host" = (a .host).map Tree.text := h.values .host "host" rfl
  have hbranch : inner.lookup "default_branch" = (a .branch).map Tree.text :=
    h.values .branch "default_branch" rfl
  have hlocations : inner.lookup "locations" =
      (a .locations).map fun texts => Tree.list (texts.map Tree.text) :=
    h.values .locations "locations" rfl
  unfold Settings.entryOf?
  rw [hsection]
  simp only [Option.bind_eq_bind, Option.bind_some, hhost, hbranch, hlocations, valueOr_text,
    valueOr_texts, Option.pure_def]
  rfl

/-- The output settings of a section. -/
theorem Section.outputOf? (h : Section "output" a inner) :
    Settings.outputOf? .lenient (.table inner) = some a.settings.output := by
  have hsection := h.section?_eq .lenient ["max_chars", "heading"]
    (by intro k; cases k <;> simp [Key.path])
  have hmax : inner.lookup "max_chars" = (a .maxChars).map fun n => number n.toNat :=
    h.values .maxChars "max_chars" rfl
  have hheading : inner.lookup "heading" = (a .heading).map Tree.text :=
    h.values .heading "heading" rfl
  unfold Settings.outputOf?
  rw [hsection]
  simp only [Option.bind_eq_bind, Option.bind_some, hmax, hheading,
    valueOr_number UInt64.toNat_lt_size, valueOr_optionalText, getD_word64, Option.pure_def]
  rfl

/-- A section that is missing is read as an empty one. -/
theorem Assigns.valueOr_section {α : Type} {read? : Tree → Option α} {default result : α}
    (h : Assigns (.table entries) a) (hname : ∀ k : Key, k.path ≠ [name])
    (hempty : read? (.table []) = some default)
    (hread : ∀ inner, Section name a inner → read? (.table inner) = some result) :
    valueOr read? default (entries.lookup name) = some result := by
  obtain ⟨inner, hsection, ⟨hmissing, rfl⟩ | hthere⟩ := h.section_cases hname
  · rw [hmissing, ← hread [] hsection, hempty]
    rfl
  · rw [hthere]
    exact hread inner hsection

/-- The settings of a tree are those of its assignment. -/
theorem Assigns.ofTree? (h : Assigns t a) : Settings.ofTree? .lenient t = some a.settings := by
  have htable : t.isTable = true := by
    rcases h.known [] t rfl with ⟨k, v, hpath, -⟩ | ⟨htable, -⟩
    · cases k <;> cases hpath
    · exact htable
  obtain ⟨entries, rfl⟩ := Tree.exists_table htable
  have hlookup : ∀ name, Tree.find? [name] (.table entries) = entries.lookup name :=
    fun name => Option.bind_fun_some _
  -- Only the four known names occur, so that nothing is refused.
  have hnames : ∀ name found, entries.lookup name = some found →
      name ∈ ["fetch", "entry", "output", "strict"] := fun name found hfound =>
    (h.known [name] found ((hlookup name).trans hfound)).mem_top
  have hfetch : valueOr (Settings.fetchOf? .lenient) {} (entries.lookup "fetch") =
      some a.settings.fetch :=
    h.valueOr_section (fun k => by cases k <;> decide) rfl fun _ hsection => hsection.fetchOf?
  have hentry : valueOr (Settings.entryOf? .lenient) {} (entries.lookup "entry") =
      some a.settings.entry :=
    h.valueOr_section (fun k => by cases k <;> decide) rfl fun _ hsection => hsection.entryOf?
  have houtput : valueOr (Settings.outputOf? .lenient) {} (entries.lookup "output") =
      some a.settings.output :=
    h.valueOr_section (fun k => by cases k <;> decide) rfl fun _ hsection => hsection.outputOf?
  have hstrict : entries.lookup "strict" = (a .isStrict).map Tree.flag :=
    (hlookup "strict").symm.trans (h.values .isStrict)
  unfold Settings.ofTree?
  rw [section?_table .lenient hnames]
  simp only [Option.bind_eq_bind, Option.bind_some, hfetch, hentry, houtput, hstrict, valueOr_flag,
    Option.pure_def]
  rfl

end Graft.Settings
