import Mathlib.Data.List.Induction
import Graft.Proofs.Equality
import Graft.Proofs.Settings.Keys
import Graft.Proofs.Text.Front
import Graft.Proofs.Toml.Distinct
import Graft.Settings.Layers

/-!
# Layers of settings, key by key

Each layer is a tree that gives values to some keys: the table of settings does so for the defaults
(`assigns_entries`), the variables of the environment (`GivenBy.assigns`), the settings file
(`FileGives.assigns`) and the command line (`Overrides.assigns`). Laid over each other they give each key
the value of the first layer that sets it, and settings are loaded exactly if these values make sense
(`load_key_by_key`).
-/

namespace Graft.Settings

variable {a b : Assignment} {t : Tree} {k : Key} {entries : Tree.Entries}

/-! ## The table of settings -/

/-- Whatever is found in a tree that stands at a path fits there. -/
def Within (above : List String) (t : Tree) : Prop :=
  ∀ path found, t.find? path = some found → Fits (above ++ path) found

/-- The value of a key fits at the path of the key. -/
theorem within_value (k : Key) (v : k.Value) : Within k.path (k.tree v) := by
  intro path found hfound
  cases path with
  | nil =>
    cases hfound
    exact .inl ⟨k, v, List.append_nil _, rfl⟩
  | cons name path =>
    rw [Tree.find?_value (k.isTable_tree v) (List.cons_ne_nil name path)] at hfound
    cases hfound

/-- A table on the way to a key fits if its entries fit behind their names. -/
theorem within_table {above : List String} (k : Key) (habove : above <+: k.path ∧ above ≠ k.path)
    (h : ∀ e ∈ entries, Within (above ++ [e.1]) e.2) : Within above (.table entries) := by
  intro path found hfound
  cases path with
  | nil =>
    cases hfound
    exact .inr ⟨rfl, k, (List.append_nil above).symm ▸ habove⟩
  | cons name path =>
    obtain ⟨inner, hlookup, hfound⟩ := Option.bind_eq_some_iff.mp hfound
    have hinner := h _ (Lookup.mem_of_lookup hlookup) path found hfound
    rwa [List.append_assoc] at hinner

/-- An optional value under the path of its key. -/
theorem within_optionalEntry {above : List String} {key : String} {o : Option String} (k : Key)
    (hpath : k.path = above ++ [key]) (htree : ∀ s, ∃ v, k.tree v = .text s) :
    ∀ e ∈ optionalEntry key o, Within (above ++ [e.1]) e.2 := by
  intro e he
  cases o with
  | none => cases he
  | some s =>
    obtain ⟨v, hv⟩ := htree s
    rw [List.mem_singleton.mp he, ← hpath, ← hv]
    exact within_value k v

/-- Each entry of the table of settings fits. -/
theorem within_entry (s : Settings) : ∀ e ∈ s.entries, Within [e.1] e.2 := by
  have hfetch : Within ["fetch"] (.table ([("retries", number s.fetch.retries.toNat),
      ("timeout_seconds", number s.fetch.timeoutSeconds.toNat)] ++
      optionalEntry "proxy_url" s.fetch.proxyUrl)) := by
    refine within_table .retries (by decide) fun e he => ?_
    rcases List.mem_append.mp he with he | he
    · simp only [List.mem_cons, List.not_mem_nil, or_false] at he
      rcases he with rfl | rfl
      · exact within_value .retries s.fetch.retries
      · exact within_value .timeoutSeconds s.fetch.timeoutSeconds
    · exact within_optionalEntry .proxyUrl rfl (fun s => ⟨s, rfl⟩) e he
  have hentry : Within ["entry"] (.table [("host", .text s.entry.host),
      ("default_branch", .text s.entry.branch),
      ("locations", .list (s.entry.locations.map Tree.text))]) := by
    refine within_table .host (by decide) fun e he => ?_
    simp only [List.mem_cons, List.not_mem_nil, or_false] at he
    rcases he with rfl | rfl | rfl
    · exact within_value .host s.entry.host
    · exact within_value .branch s.entry.branch
    · exact within_value .locations s.entry.locations
  have houtput : Within ["output"] (.table (("max_chars", number s.output.maxChars.toNat) ::
      optionalEntry "heading" s.output.heading)) := by
    refine within_table .maxChars (by decide) fun e he => ?_
    rcases List.mem_cons.mp he with rfl | he
    · exact within_value .maxChars s.output.maxChars
    · exact within_optionalEntry .heading rfl (fun s => ⟨s, rfl⟩) e he
  intro e he
  simp only [entries, List.mem_cons, List.not_mem_nil, or_false] at he
  rcases he with rfl | rfl | rfl | rfl
  · exact hfetch
  · exact hentry
  · exact houtput
  · exact within_value .isStrict s.isStrict

/-- The table of settings assigns the values of all keys, in whatever order its entries are. -/
theorem assigns_of_mem (s : Settings) (hkeys : (entries.map Prod.fst).Nodup)
    (hmem : ∀ e, e ∈ entries ↔ e ∈ s.entries) : Assigns (.table entries) s.value where
  values k := by
    have hlookup : ∀ name t, (name, t) ∈ s.entries → entries.lookup name = some t := fun name t h =>
      Lookup.lookup_of_mem hkeys ((hmem _).mpr h)
    have hfetch := hlookup "fetch" _ List.mem_cons_self
    have hentry := hlookup "entry" _ (List.mem_cons_of_mem _ List.mem_cons_self)
    have houtput := hlookup "output" _
      (List.mem_cons_of_mem _ (List.mem_cons_of_mem _ List.mem_cons_self))
    have hstrict := hlookup "strict" _
      (List.mem_cons_of_mem _ (List.mem_cons_of_mem _ (List.mem_cons_of_mem _ List.mem_cons_self)))
    -- A key is found under its section, except for the one that stands by itself; two may be missing.
    cases k with
    | retries => rw [Key.path, Tree.find?, hfetch]; rfl
    | timeoutSeconds => rw [Key.path, Tree.find?, hfetch]; rfl
    | proxyUrl =>
      rw [Key.path, Tree.find?, hfetch]
      show _ = s.fetch.proxyUrl.map Tree.text
      cases s.fetch.proxyUrl <;> rfl
    | host => rw [Key.path, Tree.find?, hentry]; rfl
    | branch => rw [Key.path, Tree.find?, hentry]; rfl
    | locations => rw [Key.path, Tree.find?, hentry]; rfl
    | maxChars => rw [Key.path, Tree.find?, houtput]; rfl
    | heading =>
      rw [Key.path, Tree.find?, houtput]
      show _ = s.output.heading.map Tree.text
      cases s.output.heading <;> rfl
    | isStrict => rw [Key.path, Tree.find?, hstrict]; rfl
  known path found hfound := by
    have htable : Within [] (.table entries) :=
      within_table .isStrict (by decide) fun e he => within_entry s e ((hmem e).mp he)
    exact htable path found hfound

/-- The sections of the settings have different names. -/
theorem nodup_entries (s : Settings) : (s.entries.map Prod.fst).Nodup := by
  show ["fetch", "entry", "output", "strict"].Nodup
  decide

/-- The table of settings assigns the values of all keys. -/
theorem assigns_entries (s : Settings) : Assigns (.table s.entries) s.value :=
  assigns_of_mem s (nodup_entries s) fun _ => Iff.rfl

/-- The table of the defaults has different keys, and so have its sections. -/
theorem distinct_defaults : Tree.Distinct (.table ({} : Settings).entries) := by
  have hsection : ∀ entries : Tree.Entries, (entries.map Prod.fst).Nodup →
      (∀ e ∈ entries, e.2.isTable = false) → Tree.Distinct (.table entries) :=
    fun entries hkeys hvalues => .table hkeys fun e he => .value (hvalues e he)
  refine .table (nodup_entries _) fun e he => ?_
  simp only [Settings.entries, List.mem_cons, List.not_mem_nil, or_false] at he
  rcases he with rfl | rfl | rfl | rfl
  · exact hsection _ (by decide) (by decide)
  · exact hsection _ (by decide) (by decide)
  · exact hsection _ (by decide) (by decide)
  · exact .value rfl

/-! ## Layers -/

/-- One more value on top. -/
theorem Assigns.cover_only (h : Assigns t a) (k : Key) (v : k.Value) :
    Assigns (Tree.cover (Tree.nest k.path (k.tree v)) t) ((Assignment.only k (some v)).above a) :=
  (assigns_nest k v).cover h (Tree.distinct_nest k.path (.value (k.isTable_tree v)))

/-- Values of single keys, laid one by one over what is below. -/
theorem Assigns.foldl_only (h : Assigns t a) (given : List (Σ k : Key, Option k.Value)) :
    Assigns ((given.filterMap fun g => g.2.map fun v => Tree.nest g.1.path (g.1.tree v)).foldl
        (fun lower upper => Tree.cover upper lower) t)
      (given.foldl (fun lower g => (Assignment.only g.1 g.2).above lower) a) := by
  induction given generalizing t a with
  | nil => exact h
  | cons g given ih =>
    obtain ⟨k, o⟩ := g
    -- A key that is not given leaves the tree below as it is.
    cases o with
    | none =>
      have hsame : (Assignment.only k none).above a = a := by
        funext k'
        unfold Assignment.above Assignment.only
        split
        · next heq =>
          subst heq
          exact Option.none_or
        · exact Option.none_or
      rw [List.foldl_cons, hsame]
      exact ih h
    | some v => exact ih (h.cover_only k v)

/-- Assignments that put the same into a tree are assigned by the same trees. -/
theorem Assigns.congr (h : Assigns t a) (hsame : ∀ k : Key, (a k).map k.tree = (b k).map k.tree) :
    Assigns t b where
  values k := (h.values k).trans (hsame k)
  known := h.known

/-! ## Variables -/

/-- The name of the variable for a key, after what all names of variables start with. -/
def Key.word : Key → String
  | .retries => "FETCH__RETRIES"
  | .timeoutSeconds => "FETCH__TIMEOUT_SECONDS"
  | .proxyUrl => "FETCH__PROXY_URL"
  | .host => "ENTRY__HOST"
  | .branch => "ENTRY__DEFAULT_BRANCH"
  | .locations => "ENTRY__LOCATIONS"
  | .maxChars => "OUTPUT__MAX_CHARS"
  | .heading => "OUTPUT__HEADING"
  | .isStrict => "STRICT"

/-- The variable that has a key's name sets this key. -/
theorem path?_word {start : String} (hstart : ∀ c ∈ start.toList.head?, Alphabet.isSpace c = false)
    (k : Key) : Variables.path? start (start ++ k.word) = some k.path := by
  have hhead : ∀ c ∈ (start ++ k.word).toList.head?, Alphabet.isSpace c = false := by
    rw [String.toList_append]
    cases hcases : start.toList with
    | nil =>
      have hword : ∃ c, k.word.toList.head? = some c ∧ Alphabet.isSpace c = false := by
        cases k <;> exact ⟨_, rfl, by decide +kernel⟩
      obtain ⟨c, hc, hspace⟩ := hword
      rw [List.nil_append, hc]
      simpa using hspace
    | cons c rest =>
      rw [hcases] at hstart
      exact hstart
  have hlast : ∀ c ∈ (start ++ k.word).toList.getLast?, Alphabet.isSpace c = false := by
    have hword : ∃ c, k.word.toList.getLast? = some c ∧ Alphabet.isSpace c = false := by
      cases k <;> exact ⟨_, rfl, by decide +kernel⟩
    obtain ⟨c, hc, hspace⟩ := hword
    rw [String.toList_append, List.getLast?_append, hc]
    simpa using hspace
  unfold Variables.path?
  rw [Text.trim_of_ends hhead hlast, String.toList_append,
    Text.afterAlike?_append fun c => by simp [Variables.isSameLetter]]
  cases k <;> decide +kernel

/-- The value of the last variable that sets a path. -/
def lastVariable? (start : String) (environment : Environment) (path : List String) : Option Tree :=
  environment.reverse.findSome? fun (name, s) =>
    if Variables.path? start name = some path then some (Variables.value s) else none

/-- The variables of an environment whose names start with `start` give the values of an assignment, each
to a key that it names; of several variables for a key the last one counts. -/
structure GivenBy (start : String) (environment : Environment) (a : Assignment) : Prop where
  /-- A variable gives a key a value of its kind. -/
  known : ∀ name s path, (name, s) ∈ environment → Variables.path? start name = some path →
    ∃ (k : Key) (v : k.Value), path = k.path ∧ Variables.value s = k.tree v
  values : ∀ k : Key, lastVariable? start environment k.path = (a k).map k.tree

/-- One more variable. -/
theorem tree_append (start name s : String) (environment : Environment) :
    Variables.tree start (environment ++ [(name, s)]) =
      match Variables.path? start name with
      | some path => Tree.cover (Tree.nest path (Variables.value s)) (Variables.tree start environment)
      | none => Variables.tree start environment := by
  unfold Variables.tree
  rw [List.filterMap_append]
  cases hpath : Variables.path? start name with
  | none => simp [hpath]
  | some path => simp [hpath, Tree.stack]

/-- Of the variables for a path, one that comes later takes the place of those before it. -/
theorem lastVariable?_append (start name s : String) (environment : Environment) (path : List String) :
    lastVariable? start (environment ++ [(name, s)]) path =
      if Variables.path? start name = some path then some (Variables.value s)
      else lastVariable? start environment path := by
  unfold lastVariable?
  rw [List.reverse_append, List.reverse_singleton, List.singleton_append, List.findSome?_cons]
  split <;> simp_all

/-- The tree of the variables assigns to each key the value of the last variable for it. -/
theorem exists_assigns_variables {start : String} {environment : Environment}
    (hknown : ∀ name s path, (name, s) ∈ environment → Variables.path? start name = some path →
      ∃ (k : Key) (v : k.Value), path = k.path ∧ Variables.value s = k.tree v) :
    ∃ a, Assigns (Variables.tree start environment) a ∧
      Tree.Distinct (Variables.tree start environment) ∧
      ∀ k : Key, lastVariable? start environment k.path = (a k).map k.tree := by
  -- From the end: the last variable is laid over the tree of those before it.
  induction environment using List.reverseRecOn with
  | nil => exact ⟨.empty, assigns_empty, .table List.nodup_nil fun _ he => absurd he List.not_mem_nil,
      fun _ => rfl⟩
  | append_singleton environment last ih =>
    obtain ⟨name, s⟩ := last
    obtain ⟨a, hassigns, hdistinct, hvalues⟩ := ih fun name s path hmem =>
      hknown name s path (List.mem_append_left _ hmem)
    rw [tree_append]
    cases hpath : Variables.path? start name with
    | none =>
      refine ⟨a, hassigns, hdistinct, fun k => ?_⟩
      rw [lastVariable?_append, hpath, if_neg (by simp)]
      exact hvalues k
    | some path =>
      obtain ⟨k, v, rfl, hvalue⟩ := hknown name s path
        (List.mem_append_right _ List.mem_cons_self) hpath
      have hnest := Tree.distinct_nest k.path (.value (k.isTable_tree v))
      refine ⟨(Assignment.only k (some v)).above a, ?_, ?_, fun k' => ?_⟩
      · show Assigns (Tree.cover (Tree.nest k.path (Variables.value s)) _) _
        rw [hvalue]
        exact hassigns.cover_only k v
      · show Tree.Distinct (Tree.cover (Tree.nest k.path (Variables.value s)) _)
        rw [hvalue]
        exact hnest.cover hdistinct
      · rw [lastVariable?_append, hpath, hvalue]
        by_cases hkey : k = k'
        · subst hkey
          simp [Assignment.above, Assignment.only]
        -- The path is that of one key only, so the variable says nothing of the others.
        · have hne : k.path ≠ k'.path := fun heq =>
            hkey (Key.eq_of_prefix (heq ▸ List.prefix_rfl))
          rw [if_neg (by simpa using hne), hvalues k']
          simp [Assignment.above, Assignment.only, hkey]

/-- The tree of the variables assigns what they give. -/
theorem GivenBy.assigns {start : String} {environment : Environment}
    (h : GivenBy start environment a) :
    Assigns (Variables.tree start environment) a ∧
      Tree.Distinct (Variables.tree start environment) := by
  obtain ⟨b, hassigns, hdistinct, hvalues⟩ := exists_assigns_variables h.known
  exact ⟨hassigns.congr fun k => (hvalues k).symm.trans (h.values k), hdistinct⟩

end Graft.Settings

namespace Graft

open Settings

variable {a b : Assignment} {t : Tree}

/-- The values that the command line gives. -/
def Overrides.value (o : Overrides) : Assignment
  | .retries => o.retries
  | .timeoutSeconds => o.timeoutSeconds
  | .proxyUrl => o.proxyUrl
  | .heading => o.heading
  | .isStrict => o.isStrict
  | _ => none

/-- The layers of the command line, key by key. -/
def Overrides.given (o : Overrides) : List (Σ k : Key, Option k.Value) :=
  [⟨.retries, o.retries⟩, ⟨.timeoutSeconds, o.timeoutSeconds⟩, ⟨.proxyUrl, o.proxyUrl⟩,
    ⟨.heading, o.heading⟩, ⟨.isStrict, o.isStrict⟩]

/-- The layers of the command line, laid over what is below. -/
theorem Overrides.assigns (o : Overrides) (h : Assigns t a) :
    Assigns (o.trees.foldl (fun lower upper => Tree.cover upper lower) t) (o.value.above a) := by
  have htrees : o.trees =
      o.given.filterMap fun g => g.2.map fun v => Tree.nest g.1.path (g.1.tree v) := by
    calc o.trees
      _ = (o.given.map fun g => g.2.map fun v => Tree.nest g.1.path (g.1.tree v)).filterMap id := rfl
      _ = _ := List.filterMap_map
  have hvalue : o.given.foldl (fun lower g => (Assignment.only g.1 g.2).above lower) a =
      o.value.above a := by
    funext k
    cases k <;> rfl
  rw [htrees, ← hvalue]
  exact h.foldl_only o.given

namespace SettingsSource

variable {source : SettingsSource} {disk : Disk} {environment : Environment} {path : Option String}
  {fromFile fromVariables : Assignment}

/-- The settings file gives the values of an assignment and says nothing else; without a file nothing is
given. -/
def FileGives (disk : Disk) (path : Option String) (fromFile : Assignment) : Prop :=
  match path with
  | none => fromFile = .empty
  | some path => ∃ text tree, disk.read path = .ok text ∧ Toml.tree? text = some tree ∧
      Assigns tree fromFile

/-- The layer of the settings file, laid over what is below. -/
theorem FileGives.assigns (h : FileGives disk path fromFile) (hbelow : Assigns t a) :
    ∃ layer, fileLayer disk path = .ok layer ∧
      Assigns (layer.foldl (fun lower upper => Tree.cover upper lower) t) (fromFile.above a) := by
  cases path with
  | none =>
    cases h
    refine ⟨[], rfl, ?_⟩
    rw [Assignment.empty_above]
    exact hbelow
  | some path =>
    obtain ⟨text, tree, hread, htree, hassigns⟩ := h
    refine ⟨[tree], ?_, hassigns.cover hbelow (Toml.distinct_of_tree? htree)⟩
    simp only [fileLayer, fileTree, hread, htree]
    rfl

/-- The layers make a tree together that has for each key the value of the first one that gives one. -/
theorem exists_layers (hfile : FileGives disk path fromFile)
    (hvariables : GivenBy source.variableStart environment fromVariables) :
    ∃ layers, source.layers disk environment path = .ok layers ∧ Assigns (Tree.stack layers)
      (.firstOf [source.overrides.value, fromVariables, fromFile, ({} : Settings).value]) := by
  obtain ⟨hassigns, hdistinct⟩ := hvariables.assigns
  have hdefaults : Assigns (Tree.cover (.table ({} : Settings).entries) (.table []))
      (.firstOf [({} : Settings).value]) := by
    rw [Assignment.firstOf_cons]
    exact (assigns_entries {}).cover assigns_empty distinct_defaults
  obtain ⟨layer, hlayer, hbelow⟩ := hfile.assigns hdefaults
  -- The file is laid over the defaults, the variables over both, and the command line over all of them.
  refine ⟨[.table ({} : Settings).entries] ++ layer ++
    [Variables.tree source.variableStart environment] ++ source.overrides.trees, ?_, ?_⟩
  · unfold layers
    rw [hlayer]
    rfl
  · unfold Tree.stack
    rw [List.foldl_append, List.foldl_append, List.foldl_append, Assignment.firstOf_cons,
      Assignment.firstOf_cons, Assignment.firstOf_cons]
    exact source.overrides.assigns (hassigns.cover hbelow hdistinct)

/-- What is loaded are the settings that the layers make together, if they make sense. -/
theorem load_eq_check (hpath : source.file? disk = .ok path) (hfile : FileGives disk path fromFile)
    (hvariables : GivenBy source.variableStart environment fromVariables) :
    (source.load disk environment).1 = (Assignment.firstOf
      [source.overrides.value, fromVariables, fromFile, ({} : Settings).value]).settings.check := by
  obtain ⟨layers, hlayers, hassigns⟩ := exists_layers hfile hvariables
  unfold load
  rw [hpath]
  show (source.layers disk environment path >>= ofLayers) = _
  rw [hlayers]
  show ofLayers layers = _
  unfold ofLayers
  rw [hassigns.ofTree?]

/-- The variable for a key is what the names of variables start with, followed by the word of the key: its
path in capital letters with two underscores in between. Settings are loaded exactly if the settings that the
layers make together make sense, and then each key by itself has the value of the first layer that sets it:
the command line, the variables, the settings file, the defaults. -/
theorem load_key_by_key (hpath : source.file? disk = .ok path) (hfile : FileGives disk path fromFile)
    (hvariables : GivenBy source.variableStart environment fromVariables) :
    let first := Assignment.firstOf
      [source.overrides.value, fromVariables, fromFile, ({} : Settings).value]
    ((∀ c ∈ source.variableStart.toList.head?, Alphabet.isSpace c = false) →
      ∀ k : Key, Variables.path? source.variableStart (source.variableStart ++ k.word) = some k.path) ∧
    ((∃ s, (source.load disk environment).1 = .ok s) ↔ first.settings.fault? = none) ∧
      ∀ s, (source.load disk environment).1 = .ok s → ∀ k, s.value k = first k := by
  intro first
  refine ⟨path?_word, ?_⟩
  have hload := load_eq_check hpath hfile hvariables
  -- The defaults are the last layer, so no key is left to the defaults of `settings`.
  have hvalue : ∀ k, first.settings.value k = first k := by
    intro k
    have hnone : Assignment.firstOf [] k = none := rfl
    rw [value_settings]
    simp only [first, Assignment.firstOf_cons, Assignment.above, hnone, Option.or_assoc, Option.or_none,
      Option.or_self]
  have hcheck : ∀ s, first.settings.check = .ok s ↔ first.settings.fault? = none ∧ s = first.settings := by
    intro s
    unfold check
    cases hfault : first.settings.fault? with
    | none => simp [eq_comm]
    | some fault => simp
  rw [hload]
  constructor
  · constructor
    · rintro ⟨s, hs⟩
      exact ((hcheck s).mp hs).1
    · intro hfault
      exact ⟨first.settings, (hcheck _).mpr ⟨hfault, rfl⟩⟩
  · intro s hs k
    rw [((hcheck s).mp hs).2]
    exact hvalue k

/-- The attempts are set by the file, a variable and the command line, and the last counts; the file alone
sets the time, and a variable in lower case sets the locations in place of those of the file. -/
theorem load_key_by_key_retries :
    let text := "[fetch]\nretries = 3\ntimeout_seconds = 60\n[entry]\nlocations = ['a.js']\n"
    let disk : Disk := ⟨"/w", [(["w", "splice.toml"], text.toList)], [], []⟩
    let environment := [("HOME", "/w"), ("SPLICE_FETCH__RETRIES", "5"),
      ("splice_entry__locations", "[b.js]")]
    let source : SettingsSource := { overrides := { retries := some 7 } }
    ∃ s, (source.load disk environment).1 = .ok s ∧ s.fetch.retries = 7 ∧
      s.fetch.timeoutSeconds = 60 ∧ s.entry.locations = ["b.js"] ∧
      s.entry.host = "https://github.com" ∧ s.output.heading = none := by
  intro text disk environment source
  let fromFile : Assignment
    | .retries => some 3
    | .timeoutSeconds => some 60
    | .locations => some ["a.js"]
    | _ => none
  let fromVariables : Assignment
    | .retries => some 5
    | .locations => some ["b.js"]
    | _ => none
  have hpath : source.file? disk = .ok (some "/w/splice.toml") := by decide +kernel
  have hread : disk.read "/w/splice.toml" = .ok text.toList := by decide +kernel
  have htree : Toml.tree? ("[fetch]\nretries = 3\ntimeout_seconds = 60\n[entry]\n" ++
      "locations = ['a.js']\n").toList = some (.table [
      ("fetch", .table [("retries", number 3), ("timeout_seconds", number 60)]),
      ("entry", .table [("locations", .list [.text "a.js"])])]) := by
    decide +kernel
  have hwithin : Within [] (.table [
      ("fetch", .table [("retries", number 3), ("timeout_seconds", number 60)]),
      ("entry", .table [("locations", .list [.text "a.js"])])]) := by
    refine within_table .isStrict (by decide) fun e he => ?_
    simp only [List.mem_cons, List.not_mem_nil, or_false] at he
    rcases he with rfl | rfl
    · refine within_table .retries (by decide) fun e he => ?_
      simp only [List.mem_cons, List.not_mem_nil, or_false] at he
      rcases he with rfl | rfl
      · exact within_value .retries 3
      · exact within_value .timeoutSeconds 60
    · refine within_table .locations (by decide) fun e he => ?_
      rw [List.mem_singleton.mp he]
      exact within_value .locations ["a.js"]
  have hfile : FileGives disk (some "/w/splice.toml") fromFile :=
    ⟨_, _, hread, htree, fun k => by cases k <;> rfl, hwithin⟩
  have hhome : Variables.path? "SPLICE_" "HOME" = none := by decide +kernel
  have hretries : Variables.path? "SPLICE_" "SPLICE_FETCH__RETRIES" = some Key.retries.path :=
    path?_word (fun c hc => by cases hc; decide +kernel) .retries
  have hlocations : Variables.path? "SPLICE_" "splice_entry__locations" = some Key.locations.path := by
    decide +kernel
  have hfive : Variables.value "5" = Key.retries.tree 5 := by decide +kernel
  have hlist : Variables.value "[b.js]" = Key.locations.tree ["b.js"] := by
    decide +kernel
  have hvariables : GivenBy source.variableStart environment fromVariables := by
    refine ⟨fun name s path hmem hname => ?_, fun k => ?_⟩
    · simp only [environment, List.mem_cons, Prod.mk.injEq, List.not_mem_nil, or_false] at hmem
      rcases hmem with ⟨rfl, rfl⟩ | ⟨rfl, rfl⟩ | ⟨rfl, rfl⟩
      · cases hhome.symm.trans hname
      · cases hretries.symm.trans hname
        exact ⟨.retries, 5, rfl, hfive⟩
      · cases hlocations.symm.trans hname
        exact ⟨.locations, ["b.js"], rfl, hlist⟩
    · have hstart : source.variableStart = "SPLICE_" := rfl
      cases k <;> simp [hstart, lastVariable?, environment, hhome, hretries, hlocations, hfive, hlist,
        Key.path, fromVariables]
  obtain ⟨-, hloads, hkeys⟩ := load_key_by_key hpath hfile hvariables
  obtain ⟨s, hs⟩ := hloads.mpr (by decide +kernel)
  have hkey := hkeys s hs
  exact ⟨s, hs, Option.some.inj (hkey .retries), Option.some.inj (hkey .timeoutSeconds),
    Option.some.inj (hkey .locations), Option.some.inj (hkey .host), hkey .heading⟩

end SettingsSource

end Graft
