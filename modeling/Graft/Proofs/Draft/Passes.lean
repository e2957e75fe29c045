import Graft.Proofs.Buffer.Resolution
import Graft.Proofs.Draft.Redirection

/-!
# The passes of redirecting all names

All names are redirected one after the other, each over what the ones before it left. What is written for
a name is `this`, a dot and a member, so its only use is `this`, of which nothing is said
(`plain_use_of_written`). Hence the passes together resolve the tagged text once, by what is said of each
name (`Seamed.redirectNames`), and all that is claimed of them follows from that: no use is left of which
something is said, a second round finds nothing, and the order does not matter (`redirectAll_complete`).
-/

namespace Graft

open Lexeme (IsLetter IsUse StartsApart EndsApart resolve usesFrom)
open Buffer (Resolves Seamed)

/-- What is written for a name: a member of identifier characters, reached through `this`. -/
def Written (r : String) : Prop := ∃ member, Lettered member ∧ r = "this." ++ member

namespace Tagged

/-- What is said of a run if it is among the names of a list. -/
def answeredIn (names : List String) (answer : String → String → Option String) (run : Tagged) :
    Option Tagged :=
  if String.ofList (plain run) ∈ names then
    answered (String.ofList (plain run)) (answer (String.ofList (plain run))) run
  else none

variable {names : List String} {name source : String} {answer : String → String → Option String}
  {run r : Tagged}

/-- What is said of a name is text that its file answers, as text of that file. -/
theorem answered_eq_some {answer : String → Option String} (h : answered name answer run = some r) :
    plain run = name.toList ∧ ∃ a ∈ run, ∃ s, answer a.2 = some s ∧ r = ofText s.toList a.2 := by
  unfold answered at h
  split at h
  · next hname =>
    obtain ⟨a, ha, hr⟩ := Option.bind_eq_some_iff.mp h
    obtain ⟨s, hs, rfl⟩ := Option.map_eq_some_iff.mp hr
    exact ⟨hname, a, List.mem_of_head? ha, s, hs, rfl⟩
  · cases h

/-- What is said of a name, and then of names, is said of all of them. -/
theorem answered_or_answeredIn (name : String) (names : List String)
    (answer : String → String → Option String) (run : Tagged) :
    (answered name (answer name) run).or (answeredIn names answer run) =
      answeredIn (name :: names) answer run := by
  by_cases hrun : plain run = name.toList
  · have hname : String.ofList (plain run) = name := by rw [hrun, String.ofList_toList]
    unfold answeredIn
    rw [hname, if_pos List.mem_cons_self]
    -- If the name comes again, the same is said of it.
    split
    · exact Option.or_self
    · exact Option.or_none
  · have hne : String.ofList (plain run) ≠ name := by
      rintro rfl
      exact hrun String.toList_ofList.symm
    unfold answeredIn
    rw [answered, if_neg hrun, Option.none_or]
    simp [hne]

/-- Only which names there are matters, not their order. -/
theorem answeredIn_congr {others : List String} (h : ∀ name, name ∈ names ↔ name ∈ others) :
    answeredIn names answer = answeredIn others answer := by
  funext run
  unfold answeredIn
  rw [if_congr (h _) rfl rfl]

/-- If nothing is said of a run for all names together, nothing is said for one of them. -/
theorem answered_eq_none (hname : name ∈ names) (h : answeredIn names answer run = none) :
    answered name (answer name) run = none := by
  by_cases hrun : plain run = name.toList
  · unfold answeredIn at h
    rwa [hrun, String.ofList_toList, if_pos hname] at h
  · exact if_neg hrun

/-- The only use in what is written for a name is `this`. -/
theorem plain_use_of_written {s : String} (h : Written s) :
    ∀ use ∈ usesFrom Prod.fst false (ofText s.toList source), plain use = "this".toList := by
  obtain ⟨member, hmember, rfl⟩ := h
  have hthis : Lettered "this" := by decide
  have hdot : ¬ IsLetter id '.' := by decide
  -- Behind the dot the member is no use, and it may be empty.
  have hprotected : usesFrom id true member.toList = [] := by
    by_cases hne : member.toList = []
    · rw [hne]
      rfl
    · have hrun := Lexeme.usesFrom_run hne hmember Lexeme.startsApart_nil true
      rw [List.append_nil, if_pos rfl, List.nil_append] at hrun
      exact hrun
  have htext : usesFrom id false ("this." ++ member).toList = ["this".toList] := by
    have hsplit : ("this." ++ member).toList = "this".toList ++ '.' :: member.toList := by simp
    rw [hsplit, Lexeme.usesFrom_run (by decide) hthis (by simpa using hdot), Lexeme.usesFrom_mark hdot]
    exact congrArg (["this".toList] ++ ·) hprotected
  have huses : usesFrom Prod.fst false (ofText ("this." ++ member).toList source) =
      (usesFrom id false ("this." ++ member).toList).map (List.map fun c => (c, source)) :=
    Lexeme.usesFrom_map _ (fun _ => rfl) false _
  rw [huses, htext]
  intro use huse
  rw [List.map_singleton, List.mem_singleton] at huse
  rw [huse]
  exact plain_ofText _ source

/-- Of what is written for a name nothing is said. -/
theorem answeredIn_of_written (hthis : "this" ∉ names) {s : String} (h : Written s) :
    ∀ use ∈ usesFrom Prod.fst false (ofText s.toList source), answeredIn names answer use = none := by
  intro use huse
  rw [answeredIn, plain_use_of_written h use huse, String.ofList_toList, if_neg hthis]

end Tagged

/-- Redirecting names one after the other resolves the buffer once. -/
theorem Buffer.Seamed.redirectNames {b : Buffer} {names : List String}
    {answer : String → String → Option String} (h : Seamed b) (hnames : ∀ name ∈ names, Plain name)
    (hanswer : ∀ name ∈ names, ∀ source r, answer name source = some r → Written r) :
    Resolves (Tagged.answeredIn names answer) b
      (names.foldl (fun b name => (b.redirect name (answer name)).1) b) := by
  induction names generalizing b with
  | nil => exact h.resolves_self fun run _ _ => if_neg List.not_mem_nil
  | cons name names ih =>
    have hfirst := h.redirect_of_letters (hnames name List.mem_cons_self).letters (answer name)
    have hothers := ih (hfirst.seamed h) (fun n hn => hnames n (List.mem_cons_of_mem _ hn))
      fun n hn => hanswer n (List.mem_cons_of_mem _ hn)
    have hthis : "this" ∉ names := fun hmem =>
      (hnames "this" (List.mem_cons_of_mem name hmem)).ne_this rfl
    -- No later name is found in what was written for the first one.
    have hkept : ∀ run r, Tagged.answered name (answer name) run = some r →
        resolve Prod.fst (Tagged.answeredIn names answer) r = r := by
      intro run r hr
      obtain ⟨-, a, -, s, hs, rfl⟩ := Tagged.answered_eq_some hr
      exact Lexeme.resolveFrom_eq_self
        (Tagged.answeredIn_of_written hthis (hanswer name List.mem_cons_self _ s hs))
    have hboth := hfirst.trans hothers h hkept
    rwa [funext (Tagged.answered_or_answeredIn name names answer)] at hboth

namespace Draft

variable {b : Buffer} {renamings planned : List Renaming} {scopes : Scopes}

/-- What is known of the names of a draft: those that are redirected can be told from others, and members
are identifiers. -/
structure Identified (renamings : List Renaming) (scopes : Scopes) (planned : List Renaming) : Prop where
  renamings : ∀ r ∈ renamings ++ planned, Plain r.name ∧ Lettered r.member
  scopes : ∀ binding ∈ scopes, Plain binding.name

/-- The names that are redirected can be told from others. -/
theorem Identified.plain (h : Identified renamings scopes planned) :
    ∀ name ∈ candidateNames renamings scopes planned, Plain name := by
  intro name hname
  rcases mem_candidateNames.mp hname with hname | hname
  · obtain ⟨r, hr, rfl⟩ := List.mem_map.mp hname
    exact (h.renamings r hr).1
  · obtain ⟨binding, hbinding, rfl⟩ := List.mem_map.mp hname
    exact h.scopes binding hbinding

/-- What replaces a name is its member, reached through `this`. -/
theorem Identified.written (h : Identified renamings scopes planned) {name source r : String}
    (hr : target? renamings scopes planned name source = some r) : Written r := by
  obtain ⟨made, hmade, rfl⟩ := Option.map_eq_some_iff.mp hr
  exact ⟨made.member, (h.renamings made (resolve?_cases hmade).1).2, rfl⟩

/-- Redirecting the names in any order resolves the buffer once. -/
theorem Identified.resolves (h : Identified renamings scopes planned) (hb : Seamed b)
    {names : List String}
    (hnames : ∀ name, name ∈ names ↔ name ∈ candidateNames renamings scopes planned) :
    Resolves (Tagged.answeredIn (candidateNames renamings scopes planned)
        (target? renamings scopes planned)) b
      (names.foldl (redirectName renamings scopes planned) (b, [])).1 := by
  rw [foldl_redirectName_fst, ← Tagged.answeredIn_congr hnames]
  exact hb.redirectNames (fun name hname => h.plain name ((hnames name).mp hname))
    fun name _ source r hr => h.written hr

/-- Once all names are redirected, no use is left of which something is said. -/
theorem Identified.answeredIn_eq_none (h : Identified renamings scopes planned) (hb : Seamed b) :
    ∀ use ∈ usesFrom Prod.fst false (redirectAll b renamings scopes planned).1.tagged,
      Tagged.answeredIn (candidateNames renamings scopes planned)
        (target? renamings scopes planned) use = none := by
  have hresolves := h.resolves hb fun name => Iff.rfl
  have hthis : "this" ∉ candidateNames renamings scopes planned := fun hmem =>
    (h.plain "this" hmem).ne_this rfl
  unfold redirectAll
  rw [hresolves.tagged]
  refine Lexeme.mem_usesFrom_resolveFrom fun run r hr => ?_
  unfold Tagged.answeredIn at hr
  split at hr
  · obtain ⟨-, a, -, s, hs, rfl⟩ := Tagged.answered_eq_some hr
    exact Tagged.answeredIn_of_written hthis (h.written hs)
  · cases hr

/-- A use in the text of a buffer is a use in its tagged text, with the file that the buffer names there. -/
theorem mem_usesFrom_tagged {before run after : Text} (htext : b.text = before ++ (run ++ after))
    (huse : IsUse id before run after) :
    ∃ use ∈ usesFrom Prod.fst false b.tagged, Tagged.plain use = run ∧
      use.head?.map Prod.snd = some (b.sourceAt (Text.byteLength before)) := by
  obtain ⟨c, rest, rfl⟩ := List.exists_cons_of_ne_nil huse.ne_nil
  have hplain : ∀ position t, (b.tagsFrom position t).map Prod.fst = t := Buffer.plain_tagsFrom
  -- The three parts are tagged one by one, and tags change nothing about where a run starts or ends.
  have htagged : IsUse Prod.fst (b.tagsFrom 0 before) (b.tagsFrom (0 + Text.byteLength before) (c :: rest))
      (b.tagsFrom (0 + Text.byteLength before + Text.byteLength (c :: rest)) after) := by
    have hbefore : EndsApart id ((b.tagsFrom 0 before).map Prod.fst) := by
      rw [hplain]
      exact huse.before
    have hafter : StartsApart id ((b.tagsFrom (0 + Text.byteLength before +
        Text.byteLength (c :: rest)) after).map Prod.fst) := by
      rw [hplain]
      exact huse.after
    refine ⟨(Lexeme.endsApart_map Prod.fst fun _ => rfl).mp hbefore, List.cons_ne_nil _ _,
      fun a ha => ?_, (Lexeme.startsApart_map Prod.fst fun _ => rfl).mp hafter⟩
    have hmem : a.1 ∈ (b.tagsFrom (0 + Text.byteLength before) (c :: rest)).map Prod.fst :=
      List.mem_map_of_mem ha
    rw [hplain] at hmem
    exact huse.letters a.1 hmem
  refine ⟨b.tagsFrom (0 + Text.byteLength before) (c :: rest), ?_, Buffer.plain_tagsFrom _ _, ?_⟩
  · rw [Buffer.tagged, htext, Buffer.tagsFrom_append, Buffer.tagsFrom_append]
    exact htagged.mem_usesFrom fun _ => rfl
  · rw [Nat.zero_add]
    rfl

/-- A use of which nothing is said stands for nothing in its file. -/
theorem resolve?_eq_none {use : Tagged} {source : String}
    (hsource : use.head?.map Prod.snd = some source)
    (h : Tagged.answeredIn (candidateNames renamings scopes planned)
      (target? renamings scopes planned) use = none) :
    resolve? renamings scopes planned source (String.ofList (Tagged.plain use)) = none := by
  cases hr : resolve? renamings scopes planned source (String.ofList (Tagged.plain use)) with
  | none => rfl
  | some r =>
    obtain ⟨a, ha, rfl⟩ := Option.map_eq_some_iff.mp hsource
    have htarget : target? renamings scopes planned (String.ofList (Tagged.plain use)) a.2 =
        some ("this." ++ r.member) := congrArg (Option.map _) hr
    rw [Tagged.answeredIn, if_pos (resolve?_eq_some hr).1, Tagged.answered,
      if_pos String.toList_ofList.symm, ha, Option.bind_some, htarget] at h
    cases h

/-- Redirecting a name changes nothing where nothing is said of any use, and gives no event. -/
theorem redirectName_eq_self {name : String} {events : List Event} (hletters : Lettered name)
    (h : ∀ use ∈ usesFrom Prod.fst false b.tagged,
      Tagged.answered name (target? renamings scopes planned name) use = none) :
    redirectName renamings scopes planned (b, events) name = (b, events) := by
  have hcount : (b.redirect name (target? renamings scopes planned name)).2 = 0 := by
    by_cases hempty : name.toList = []
    · rw [Buffer.redirect_of_empty hempty]
    · rw [Buffer.redirect_count ⟨hempty, hletters⟩, List.countP_eq_zero]
      intro use huse
      rw [h use huse]
      exact Bool.false_ne_true
  unfold redirectName
  rw [Buffer.redirect_of_count hcount]
  simp

/-- Redirecting all names is complete, changes nothing the second time, and does not depend on the order of
the names. Afterwards no free use stands for anything in the file that it comes from. -/
theorem redirectAll_complete (text : Text) (origin : String) {changes : List Change}
    (hchanges : ∀ change ∈ changes, change.IsLexical) (h : Identified renamings scopes planned) :
    let b := changes.foldl Buffer.change (Buffer.ofText text origin)
    let done := (redirectAll b renamings scopes planned).1
    (∀ before run after, done.text = before ++ (run ++ after) → IsUse id before run after →
      resolve? renamings scopes planned (done.sourceAt (Text.byteLength before)) (String.ofList run) =
        none) ∧
    redirectAll done renamings scopes planned = (done, []) ∧
    ∀ names : List String,
      (∀ name, name ∈ names ↔ name ∈ candidateNames renamings scopes planned) →
        (names.foldl (redirectName renamings scopes planned) (b, [])).1 = done := by
  intro b done
  have hb : Seamed b := Buffer.seamed_changes text origin hchanges
  have hnone := h.answeredIn_eq_none hb
  refine ⟨fun before run after htext huse => ?_, ?_, fun names hnames => ?_⟩
  · obtain ⟨use, hmem, rfl, hsource⟩ := mem_usesFrom_tagged htext huse
    exact resolve?_eq_none hsource (hnone use hmem)
  · -- Each pass of the second round finds nothing.
    refine List.foldlRecOn (motive := (· = (done, []))) _ _ rfl fun result hresult name hname => ?_
    rw [hresult]
    exact redirectName_eq_self (h.plain name hname).letters fun use huse =>
      Tagged.answered_eq_none hname (hnone use huse)
  · exact (h.resolves hb hnames).unique (h.resolves hb fun name => Iff.rfl)

/-- A helper that the entry imports under another name, which means nothing in the file of the member. -/
theorem redirectAll_complete_pad :
    let renamings : List Renaming := [⟨"/a", "pad", "_pad"⟩, ⟨"/b", "trim", "_trim"⟩]
    let scopes : Scopes := [⟨"/p", "p", "/a", "pad"⟩]
    let b := List.foldl Buffer.change (Buffer.ofText "\x7b run() \x7b p(trim()) \x7d \x7d".toList "/p")
      [.insert "_pad() \x7b trim(pad.p, p) \x7d,".toList "/a"]
    let start := "\x7b run() \x7b this._pad(this._trim()) \x7d, _pad() \x7b this._trim(this._pad.p, ".toList
    ∃ done, (redirectAll b renamings scopes []).1 = done ∧
      done.text = start ++ ("p".toList ++ ") \x7d,\x7d".toList) ∧
      resolve? renamings scopes [] (done.sourceAt (Text.byteLength start)) "p" = none ∧
      redirectAll done renamings scopes [] = (done, []) ∧
      (["trim", "pad", "p"].foldl (redirectName renamings scopes []) (b, [])).1 = done := by
  intro renamings scopes b start
  have htext : (redirectAll b renamings scopes []).1.text =
      start ++ ("p".toList ++ ") \x7d,\x7d".toList) := by decide +kernel
  have huse : IsUse id start "p".toList ") \x7d,\x7d".toList :=
    ⟨by decide, by decide, (by decide : Lettered "p"), by decide⟩
  have hnames : candidateNames renamings scopes [] = ["p", "pad", "trim"] := by decide +kernel
  have hchanges : ∀ change ∈ [Change.insert "_pad() \x7b trim(pad.p, p) \x7d,".toList "/a"],
      change.IsLexical := fun change hchange => by
    rw [List.mem_singleton.mp hchange]
    trivial
  obtain ⟨hcomplete, htwice, horder⟩ :=
    redirectAll_complete "\x7b run() \x7b p(trim()) \x7d \x7d".toList "/p" hchanges
      (⟨by decide, by decide⟩ : Identified renamings scopes [])
  generalize (redirectAll b renamings scopes []).1 = done at *
  have hnone := hcomplete _ _ _ htext huse
  rw [String.ofList_toList] at hnone
  refine ⟨done, rfl, htext, hnone, htwice, horder _ fun name => ?_⟩
  rw [hnames]
  simp only [List.mem_cons, List.not_mem_nil, or_false]
  tauto

end Draft

end Graft
