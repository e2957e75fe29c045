import Graft.Proofs.Buffer.Composed
import Graft.Proofs.Draft.Lexicon

/-!
# Redirecting all names

A draft redirects one name after the other, each over the whole buffer. What is written for a name
starts with `this.` and goes on with a single identifier, so no later name is found in it
(`Sealed.resolve`). Hence all the passes together resolve every piece once, by what the draft says of
each name (`Composed.redirectAll`).
-/

namespace Graft

open Lexeme (IsLetter resolve resolveFrom)
open Buffer (sole only)

/-! ## Names and what is written for them -/

/-- A name of identifier characters. -/
def Lettered (name : String) : Prop := ∀ c ∈ name.toList, IsLetter id c

/-- The characters of a name are checked one by one. -/
instance (name : String) : Decidable (Lettered name) := List.decidableBAll _ _

/-- A name that can be told from others in a text: identifier characters only, and not `this`. -/
structure Plain (name : String) : Prop where
  letters : ∀ c ∈ name.toList, IsLetter id c
  ne_this : name ≠ "this"

/-- Both parts of being plain can be checked. -/
instance (name : String) : Decidable (Plain name) :=
  decidable_of_iff (Lettered name ∧ name ≠ "this")
    ⟨fun h => ⟨h.1, h.2⟩, fun h => ⟨h.letters, h.ne_this⟩⟩

/-- What is written for a name: an identifier, reached through `this`. -/
def Sealed (r : Text) : Prop :=
  ∃ member : Text, member ≠ [] ∧ (∀ c ∈ member, IsLetter id c) ∧ r = "this.".toList ++ member

/-- A character of a file name as a member name holds it belongs to an identifier. -/
theorem Member.isLetter_nameChar (c : Char) : IsLetter id (Member.nameChar c) := by
  have hunderscore : IsLetter id '_' := by decide
  unfold Member.nameChar
  split
  · next h =>
    rw [Bool.or_eq_true, decide_eq_true_eq] at h
    rcases h with h | rfl
    · exact Alphabet.isIdentifier_of_isAsciiAlphanumeric h
    · exact hunderscore
  · exact hunderscore

/-- A generated member name is an identifier, if the declared name consists of identifier characters. -/
theorem Member.letters_inlinedName {url name : String} (h : ∀ c ∈ name.toList, IsLetter id c) :
    ∀ c ∈ (Member.inlinedName url name).toList, IsLetter id c := by
  have hstart : ∀ c ∈ Member.nameStart.toList, IsLetter id c := by
    intro c hc
    have hletter : c = '_' ∨ c = 'i' ∨ c = 'n' ∨ c = 'l' ∨ c = 'e' ∨ c = 'd' := by
      simp [Member.nameStart] at hc
      tauto
    rcases hletter with rfl | rfl | rfl | rfl | rfl | rfl <;> decide
  have hseparator : ∀ c ∈ "_".toList, IsLetter id c := by
    intro c hc
    have hc : c = '_' := by simpa using hc
    rw [hc]
    decide
  intro c hc
  unfold Member.inlinedName at hc
  -- The four parts of a member name, of which only the last one is not made of fixed letters.
  simp only [String.toList_append, String.toList_ofList, List.mem_append] at hc
  rcases hc with ((hc | hc) | hc) | hc
  · exact hstart c hc
  · obtain ⟨d, -, rfl⟩ := List.mem_map.mp hc
    exact Member.isLetter_nameChar d
  · exact hseparator c hc
  · exact h c hc

/-- A generated member name is not empty. -/
theorem Member.inlinedName_ne_nil (url name : String) : (Member.inlinedName url name).toList ≠ [] := by
  unfold Member.inlinedName Member.nameStart
  simp

/-- What is written for a declaration is sealed. -/
theorem sealed_inlinedName {url name : String} (h : ∀ c ∈ name.toList, IsLetter id c) :
    Sealed ("this." ++ Member.inlinedName url name).toList :=
  ⟨_, Member.inlinedName_ne_nil url name, Member.letters_inlinedName h, String.toList_append⟩

/-- What is written for a name stays as it is, if nothing is said of `this`: the identifier in it
follows a dot. -/
theorem Sealed.resolve {r : Text} (h : Sealed r) {σ : Text → Option Text}
    (hσ : σ "this".toList = none) : resolve id σ r = r := by
  obtain ⟨member, hne, hletters, rfl⟩ := h
  have hthis : ∀ c ∈ "this".toList, IsLetter id c := by
    intro c hc
    have hletter : c = 't' ∨ c = 'h' ∨ c = 'i' ∨ c = 's' := by simpa using hc
    rcases hletter with rfl | rfl | rfl | rfl <;> decide
  have hdot : ¬ IsLetter id '.' := by decide
  have hmember : resolveFrom id σ true (member ++ []) = member := by
    rw [Lexeme.resolveFrom_run hne hletters Lexeme.startsApart_nil]
    simp
  -- The run `this` is left alone, and behind it the dot protects the member.
  rw [List.append_nil] at hmember
  show resolveFrom id σ false ("this".toList ++ '.' :: member) = "this".toList ++ '.' :: member
  rw [Lexeme.resolveFrom_run (by simp) hthis (by simpa using hdot), Lexeme.resolveFrom_mark hdot, hσ]
  simp [hmember]

/-- What is written for a name has no brace in it. -/
theorem Sealed.brace_notMem {r : Text} (h : Sealed r) : '}' ∉ r := by
  obtain ⟨member, -, hletters, rfl⟩ := h
  intro hmem
  rcases List.mem_append.mp hmem with hmem | hmem
  · revert hmem
    decide
  · exact absurd (hletters _ hmem) (by decide)

/-! ## Several names -/

/-- What the file `source` says of the names of a list, and nothing of other names. -/
def within (names : List String) (answer : String → String → Option String) (source : String)
    (run : Text) : Option Text :=
  if String.ofList run ∈ names then (answer (String.ofList run) source).map String.toList else none

namespace Buffer

variable {b : Buffer} {pieces : List Piece} {name : String} {names : List String}
  {answer : String → String → Option String}

/-- A piece in which nothing is said of any run stays as it is. -/
theorem resolveAs_eq_self {ρ : String → Text → Option Text} {origin : String} (p : Piece)
    (h : ∀ run ≠ [], ρ (p.source origin) run = none) : p.resolveAs ρ origin = p := by
  have htext : resolve id (ρ (p.source origin)) p.text = p.text :=
    (Lexeme.resolveFrom_congr fun run hrun _ => h run hrun).trans Lexeme.resolveFrom_none
  unfold Piece.resolveAs
  rw [htext]

/-- Redirecting a name, also if it is empty; then nothing is redirected. -/
theorem Composed.redirect_of_letters (h : Composed b pieces)
    (hletters : ∀ c ∈ name.toList, IsLetter id c) {answer : String → Option String}
    (hanswer : ∀ source r, answer source = some r → Sealed r.toList) :
    Composed (b.redirect name answer).1
      (pieces.map (Piece.resolveAs (sole name answer) b.origin)) := by
  -- The search does not look for an empty name at all.
  by_cases hempty : name = ""
  · have hsame : ∀ p : Piece, p.resolveAs (sole name answer) b.origin = p := by
      intro p
      apply resolveAs_eq_self
      intro run hrun
      unfold sole only
      rw [if_neg (by rwa [hempty])]
    have hbuffer : (b.redirect name answer).1 = b := by
      unfold Buffer.redirect
      rw [hempty]
      rfl
    rw [hbuffer, List.map_congr_left fun p _ => hsame p, List.map_id']
    exact h
  · apply h.redirect ⟨fun hnil => hempty (String.toList_eq_nil_iff.mp hnil), hletters⟩
    rintro source r hr rfl
    obtain ⟨member, -, -, htext⟩ := hanswer source "" hr
    simp at htext

/-- What is said of a name, and then of names, is said of all of them. -/
theorem sole_or_within (source : String) (run : Text) :
    (sole name (answer name) source run).or (within names answer source run) =
      within (name :: names) answer source run := by
  unfold sole only within
  by_cases hrun : run = name.toList
  · subst hrun
    rw [if_pos rfl, String.ofList_toList]
    by_cases hname : name ∈ names
    · simp [hname]
    · simp [hname]
  · have hne : String.ofList run ≠ name := by
      rintro rfl
      exact hrun String.toList_ofList.symm
    simp [hrun, hne]

/-- A piece in which one name is resolved and then others is one in which all of them are: the later
ones leave alone what was written for the first one. -/
theorem resolveAs_within (hthis : "this" ∉ names)
    (hanswer : ∀ source r, answer name source = some r → Sealed r.toList) (origin : String)
    (p : Piece) :
    (p.resolveAs (sole name (answer name)) origin).resolveAs (within names answer) origin =
      p.resolveAs (within (name :: names) answer) origin := by
  have hnone : within names answer (p.source origin) "this".toList = none := by
    unfold within
    rw [String.ofList_toList, if_neg hthis]
  -- What is written for the name is sealed, and nothing is written for `this`.
  have hkept : ∀ run r, sole name (answer name) (p.source origin) run = some r →
      resolve id (within names answer (p.source origin)) r = r := by
    intro run r hr
    unfold sole only at hr
    split at hr
    · obtain ⟨s, hs, rfl⟩ := Option.map_eq_some_iff.mp hr
      exact (hanswer (p.source origin) s hs).resolve hnone
    · cases hr
  have hboth : (fun run => (sole name (answer name) (p.source origin) run).or
      (within names answer (p.source origin) run)) =
        within (name :: names) answer (p.source origin) :=
    funext fun run => sole_or_within (p.source origin) run
  have htext := Lexeme.resolve_resolve hkept (t := p.text)
  rw [hboth] at htext
  exact congrArg (Piece.mk p.source?) htext

/-- Redirecting names one after the other resolves each piece once. -/
theorem Composed.redirectNames (h : Composed b pieces) (hnames : ∀ name ∈ names, Plain name)
    (hanswer : ∀ name ∈ names, ∀ source r, answer name source = some r → Sealed r.toList) :
    Composed (names.foldl (fun b name => (b.redirect name (answer name)).1) b)
      (pieces.map (Piece.resolveAs (within names answer) b.origin)) := by
  induction names generalizing b pieces with
  | nil =>
    have hsame : ∀ p : Piece, p.resolveAs (within [] answer) b.origin = p :=
      fun p => resolveAs_eq_self p fun run _ => by simp [within]
    rw [List.map_congr_left fun p _ => hsame p, List.map_id']
    exact h
  | cons name names ih =>
    have hfirst := h.redirect_of_letters (hnames name (by simp)).letters
      (hanswer name (by simp))
    have hothers := ih hfirst (fun n hn => hnames n (by simp [hn]))
      fun n hn => hanswer n (by simp [hn])
    rw [redirect_origin, List.map_map] at hothers
    -- No later name is found in what was written for the first one.
    have hthis : "this" ∉ names := fun hmem =>
      (hnames "this" (List.mem_cons_of_mem name hmem)).ne_this rfl
    have htwice : Piece.resolveAs (within names answer) b.origin ∘
          Piece.resolveAs (sole name (answer name)) b.origin =
        Piece.resolveAs (within (name :: names) answer) b.origin :=
      funext fun p => resolveAs_within hthis (hanswer name (by simp)) b.origin p
    rwa [htwice] at hothers

end Buffer

/-! ## All names -/

namespace Draft

variable {renamings planned : List Renaming} {scopes : Scopes} {name scope : String} {r : Renaming}

/-- Inserting a name in a sorted list adds that name and no other. -/
theorem mem_insertName {n : String} {names : List String} :
    n ∈ insertName name names ↔ n = name ∨ n ∈ names := by
  induction names with
  | nil => simp [insertName]
  | cons m names ih =>
    unfold insertName
    split
    · next h => simp [h]
    · split
      · simp
      · simp only [List.mem_cons, ih]
        tauto

/-- The names that are redirected are those of renamings and those that imports bind. -/
theorem mem_candidateNames :
    name ∈ candidateNames renamings scopes planned ↔
      name ∈ (renamings ++ planned).map Renaming.name ∨ name ∈ scopes.map Binding.name := by
  unfold candidateNames
  rw [← List.mem_append]
  induction (renamings ++ planned).map Renaming.name ++ scopes.map Binding.name with
  | nil => simp
  | cons n names ih => rw [List.foldr_cons, mem_insertName, ih, List.mem_cons]

/-- A name may stand for a renaming: it is the declared name, or an import binds it to that. -/
def StandsFor (scopes : Scopes) (name : String) (r : Renaming) : Prop :=
  r.name = name ∨ ∃ b ∈ scopes, b.name = name ∧ b.source = r.source ∧ b.declared = r.name

/-- A name that stands for something stands for a renaming made or planned, which it may stand for. -/
theorem resolve?_cases (h : resolve? renamings scopes planned scope name = some r) :
    r ∈ renamings ++ planned ∧ StandsFor scopes name r := by
  unfold resolve? at h
  split at h
  · next own hown =>
    -- The file declares the name itself.
    cases h
    rw [Option.orElse_eq_orElse, Option.orElse_eq_or, Option.or_eq_some_iff] at hown
    rcases hown with hplanned | ⟨-, hrecorded⟩
    · obtain ⟨hr, -, hname⟩ := Renaming.find?_eq_some hplanned
      exact ⟨by simp [hr], Or.inl hname⟩
    · obtain ⟨hr, -, hname⟩ := Renaming.find?_eq_some hrecorded
      exact ⟨by simp [hr], Or.inl hname⟩
  · split at h
    · next source declared hbinding =>
      obtain ⟨binding, hfind, hparts⟩ := Option.map_eq_some_iff.mp hbinding
      have hname : binding.name = name := by
        have := List.find?_some hfind
        simp only [Bool.and_eq_true, decide_eq_true_eq] at this
        exact this.2
      obtain ⟨hr, hsource, hdeclared⟩ := Renaming.find?_eq_some h
      obtain ⟨rfl, rfl⟩ := Prod.mk.inj hparts
      exact ⟨by simp [hr], Or.inr ⟨binding, List.mem_of_find?_eq_some hfind, hname, hsource.symm,
        hdeclared.symm⟩⟩
    · unfold Renaming.newestElsewhere? at h
      have hr : r ∈ renamings := List.mem_reverse.mp (List.mem_of_find?_eq_some h)
      have hname : r.name = name := by
        have := List.find?_some h
        simp only [Bool.and_eq_true, decide_eq_true_eq] at this
        exact this.1
      exact ⟨by simp [hr], Or.inl hname⟩

/-- A name that stands for something is redirected, and it stands for a renaming made or planned. -/
theorem resolve?_eq_some (h : resolve? renamings scopes planned scope name = some r) :
    name ∈ candidateNames renamings scopes planned ∧ r ∈ renamings ++ planned := by
  obtain ⟨hr, hname⟩ := resolve?_cases h
  refine ⟨mem_candidateNames.mpr (hname.imp ?_ ?_), hr⟩
  · rintro rfl
    exact List.mem_map_of_mem hr
  · rintro ⟨b, hb, rfl, -⟩
    exact List.mem_map_of_mem hb

/-- What is written for a name is the member of a renaming made or planned, reached through `this`. -/
theorem exists_of_written {source : String} {run target : Text}
    (h : written renamings scopes planned source run = some target) :
    ∃ r ∈ renamings ++ planned, StandsFor scopes (String.ofList run) r ∧
      String.ofList run ∈ candidateNames renamings scopes planned ∧
      target = ("this." ++ r.member).toList := by
  obtain ⟨_, htarget, rfl⟩ := Option.map_eq_some_iff.mp h
  obtain ⟨r, hr, rfl⟩ := Option.map_eq_some_iff.mp htarget
  exact ⟨r, (resolve?_cases hr).1, (resolve?_cases hr).2, (resolve?_eq_some hr).1, rfl⟩

/-- The events of redirecting names are collected beside the buffers and do not matter for them. -/
theorem foldl_redirectName_fst (names : List String) (done : Buffer × List Event) :
    (names.foldl (redirectName renamings scopes planned) done).1 =
      names.foldl (fun b name => (b.redirect name (target? renamings scopes planned name)).1) done.1 := by
  induction names generalizing done with
  | nil => rfl
  | cons name names ih =>
    rw [List.foldl_cons, List.foldl_cons, ih]
    rfl

/-- Redirecting all names is redirecting one after the other. -/
theorem redirectAll_fst (b : Buffer) (renamings : List Renaming) (scopes : Scopes)
    (planned : List Renaming) :
    (redirectAll b renamings scopes planned).1 =
      (candidateNames renamings scopes planned).foldl
        (fun b name => (b.redirect name (target? renamings scopes planned name)).1) b :=
  foldl_redirectName_fst _ (b, [])

/-- Redirecting all names keeps the file of the entry. -/
theorem redirectAll_origin (b : Buffer) (renamings : List Renaming) (scopes : Scopes)
    (planned : List Renaming) : (redirectAll b renamings scopes planned).1.origin = b.origin := by
  rw [redirectAll_fst]
  induction candidateNames renamings scopes planned generalizing b with
  | nil => rfl
  | cons name names ih => rw [List.foldl_cons, ih, Buffer.redirect_origin]

/-- What holds of the names of a draft while a file is put in. -/
structure WellNamed (scopes : Scopes) (planned renamings : List Renaming) : Prop where
  /-- All members have the generated names. -/
  generated : Lexicon.Generated (renamings ++ planned)
  /-- The names that are redirected can be told from others. -/
  plain : ∀ name ∈ candidateNames renamings scopes planned, Plain name

/-- What is written for a renaming is sealed. -/
theorem WellNamed.sealed (h : WellNamed scopes planned renamings) (hr : r ∈ renamings ++ planned) :
    Sealed ("this." ++ r.member).toList := by
  have hname : r.name ∈ candidateNames renamings scopes planned :=
    mem_candidateNames.mpr (Or.inl (List.mem_map_of_mem hr))
  rw [h.generated r hr]
  exact sealed_inlinedName (h.plain r.name hname).letters

/-- Nothing is written for `this`. -/
theorem WellNamed.written_this (h : WellNamed scopes planned renamings) (source : String) :
    written renamings scopes planned source "this".toList = none := by
  cases hthis : written renamings scopes planned source "this".toList with
  | none => rfl
  | some target =>
    obtain ⟨_, -, -, hname, -⟩ := exists_of_written hthis
    rw [String.ofList_toList] at hname
    exact absurd rfl (h.plain "this" hname).ne_this

/-- A renaming that was planned may be recorded, which brings no new name. -/
theorem WellNamed.concat (h : WellNamed scopes planned renamings) {made : Renaming}
    (hmade : made ∈ planned) : WellNamed scopes planned (renamings ++ [made]) := by
  have hmem : ∀ r ∈ renamings ++ [made] ++ planned, r ∈ renamings ++ planned := by
    intro r hr
    simp only [List.mem_append, List.mem_singleton] at hr ⊢
    rcases hr with (hr | rfl) | hr
    · exact Or.inl hr
    · exact Or.inr hmade
    · exact Or.inr hr
  constructor
  · exact fun r hr => h.generated r (hmem r hr)
  · intro name hname
    apply h.plain
    rw [mem_candidateNames] at hname ⊢
    refine hname.imp_left fun hname => ?_
    obtain ⟨r, hr, rfl⟩ := List.mem_map.mp hname
    exact List.mem_map_of_mem (hmem r hr)

end Draft

namespace Buffer

variable {b : Buffer} {pieces : List Piece} {renamings planned : List Renaming} {scopes : Scopes}

/-- Redirecting all names resolves each piece once, by what the draft says of each name in it. -/
theorem Composed.redirectAll (h : Composed b pieces)
    (hnames : Draft.WellNamed scopes planned renamings) :
    Composed (Draft.redirectAll b renamings scopes planned).1
      (pieces.map (Piece.resolveAs (Draft.written renamings scopes planned) b.origin)) := by
  have hsealed : ∀ name ∈ Draft.candidateNames renamings scopes planned, ∀ source r,
      Draft.target? renamings scopes planned name source = some r → Sealed r.toList := by
    intro name _ source r hr
    obtain ⟨made, hmade, rfl⟩ := Option.map_eq_some_iff.mp hr
    exact hnames.sealed (Draft.resolve?_eq_some hmade).2
  have hredirected := h.redirectNames hnames.plain hsealed
  rw [← Draft.redirectAll_fst] at hredirected
  -- Names that are not redirected stand for nothing.
  have hwithin : within (Draft.candidateNames renamings scopes planned)
      (Draft.target? renamings scopes planned) = Draft.written renamings scopes planned := by
    funext source run
    unfold within Draft.written
    split
    · rfl
    · next hnot =>
      cases htarget : Draft.target? renamings scopes planned (String.ofList run) source with
      | none => rfl
      | some r =>
        obtain ⟨made, hmade, -⟩ := Option.map_eq_some_iff.mp htarget
        exact absurd (Draft.resolve?_eq_some hmade).1 hnot
  rwa [hwithin] at hredirected

end Buffer

end Graft
