import Graft.Proofs.Draft.Fragments
import Graft.Proofs.Draft.Rendering

/-!
# What is written stays

Once a use is replaced, no later call touches what was written for it, and no call touches the new name
at the head of a member (`written_stays`). The first holds since the first moment that says something of
a name decides, so a longer history says the same (`said_append_of_eq_some`). The second holds since
nothing is said of a run that starts like a generated name, as long as no name that is brought does
(`said_of_nameStart`).
-/

namespace Graft.Draft

open Lexeme (IsLetter IsUse resolve)

/-- A plain name that does not start like a generated one. -/
structure Foreign (name : String) : Prop where
  plain : Plain name
  start : ¬ Member.nameStart.toList <+: name.toList

/-- Both parts of being foreign can be checked. -/
instance (name : String) : Decidable (Foreign name) :=
  decidable_of_iff (Plain name ∧ ¬ Member.nameStart.toList <+: name.toList)
    ⟨fun h => ⟨h.1, h.2⟩, fun h => ⟨h.plain, h.start⟩⟩

variable {moments : List Moment} {origin source : String} {run r before after : Text}
  {f : Fragment} {m : Moment}

/-! ## What is said stays -/

/-- What is said of a name is said in a longer history. -/
theorem said_append_of_eq_some (h : said moments source run = some r) (later : List Moment) :
    said (moments ++ later) source run = some r := by
  rw [said_append, h, Option.some_or]

/-- Nothing is said of a run that starts like a generated name. -/
theorem said_of_nameStart (hnamed : ∀ m ∈ moments, m.Named Foreign)
    (hrun : Member.nameStart.toList <+: run) (source : String) : said moments source run = none := by
  by_contra h
  obtain ⟨r, hr⟩ := Option.ne_none_iff_exists'.mp h
  obtain ⟨m, hm, hwritten⟩ := exists_of_said hr
  obtain ⟨made, -, -, hname, -⟩ := exists_of_written hwritten
  -- The run would be one of the names that were brought.
  have hforeign := (hnamed m hm).recorded.candidateNames (hnamed m hm).names _ hname
  apply hforeign.start
  rwa [String.toList_ofList]

/-- What is written for a name is the generated name of a member, reached through `this`. -/
theorem generated_of_said (hnamed : ∀ m ∈ moments, m.Named Plain) (h : said moments source run = some r) :
    ∃ url name, r = ("this." ++ Member.inlinedName url name).toList := by
  obtain ⟨m, hm, hwritten⟩ := exists_of_said h
  obtain ⟨made, hmade, -, -, rfl⟩ := exists_of_written hwritten
  have hgenerated := (hnamed m hm).wellNamed.generated made hmade
  exact ⟨made.source, made.name, by rw [hgenerated]; rfl⟩

namespace Fragment

/-- What a fragment reads in a history it reads in a longer one. -/
theorem reading_append (h : f.reading origin moments run = some r) (later : List Moment) :
    f.reading origin (moments ++ later) run = some r := by
  unfold reading at h ⊢
  rw [List.drop_append]
  exact said_append_of_eq_some h _

/-- A fragment shows `r` between what it makes of the texts around it. -/
def Shows (origin : String) (moments : List Moment) (f : Fragment) (before r after : Text) : Prop :=
  f.shown origin moments = resolve id (f.reading origin moments) before ++ r ++
    resolve id (f.reading origin moments) after

/-- At a use, a fragment shows what it reads there. -/
theorem shows_of_isUse (htext : f.text = before ++ run ++ after) (huse : IsUse id before run after)
    (origin : String) (moments : List Moment) :
    f.Shows origin moments before ((f.reading origin moments run).getD run) after := by
  unfold Shows shown
  rw [htext]
  exact huse.resolve

/-- What was written for a use is shown in every longer history. -/
theorem shows_of_reading (htext : f.text = before ++ run ++ after) (huse : IsUse id before run after)
    (hr : f.reading origin moments run = some r) (later : List Moment) :
    f.Shows origin (moments ++ later) before r after := by
  have hshows := shows_of_isUse htext huse origin (moments ++ later)
  rwa [reading_append hr later] at hshows

/-- A use that starts like a generated name is shown as it was put in. -/
theorem shows_of_nameStart (htext : f.text = before ++ run ++ after) (huse : IsUse id before run after)
    (hrun : Member.nameStart.toList <+: run) (hnamed : ∀ m ∈ moments, m.Named Foreign)
    (origin : String) : f.Shows origin moments before run after := by
  have hreads : f.reading origin moments run = none :=
    said_of_nameStart (fun m hm => hnamed m (List.mem_of_mem_drop hm)) hrun _
  have hshows := shows_of_isUse htext huse origin moments
  rwa [hreads] at hshows

/-- The members of a history are still there in a longer one. -/
theorem members_sublist (moments later : List Moment) :
    (members moments).Sublist (members (moments ++ later)) := by
  unfold members
  rw [List.zipIdx_append, List.map_append]
  exact List.sublist_append_left _ _

/-- Each moment has its member among the fragments. -/
theorem exists_of_mem (hm : m ∈ moments) :
    ∃ f ∈ members moments, f.text = m.turn.member := by
  obtain ⟨i, hi⟩ := List.mem_iff_getElem?.mp hm
  exact ⟨_, List.mem_map_of_mem (List.mk_mem_zipIdx_iff_getElem?.mpr hi), rfl⟩

end Fragment

/-- The fragments of a history are still there in a longer one, in their order. -/
theorem fragments_sublist (text : Text) (moments later : List Moment) :
    (fragments text moments).Sublist (fragments text (moments ++ later)) := by
  unfold fragments
  split
  · exact List.Sublist.refl _
  · next front back _ =>
    have hcomma : (if moments.isEmpty then [] else
        [(⟨none, 0, Buffer.separator (Text.trimEnd front)⟩ : Fragment)]).Sublist
        (if (moments ++ later).isEmpty then [] else
          [⟨none, 0, Buffer.separator (Text.trimEnd front)⟩]) := by
      cases moments with
      | nil => exact List.nil_sublist _
      | cons m moments => exact List.Sublist.refl _
    have hmembers := (Fragment.members_sublist moments later).append_right [⟨none, 0, back⟩]
    exact (hcomma.append (hmembers.cons_cons _)).cons_cons _

/-- A history that is not empty has its members among the fragments. -/
theorem members_subset {draft : Draft} {turns : List Turn} (hm : m ∈ draft.history turns)
    (hf : f ∈ Fragment.members (draft.history turns)) :
    f ∈ fragments draft.buffer.text (draft.history turns) := by
  -- Something was put in, so there was a place for it.
  have hbrace : '}' ∈ draft.buffer.text := by
    by_contra hbrace
    rw [(history_of_no_brace hbrace turns).1] at hm
    cases hm
  obtain ⟨kept, blank, rest, hseat⟩ := Buffer.Seat.exists_of_mem hbrace
  rw [fragments_eq hseat]
  simp [hf]

/-- The head of a member is its new name, as a use that starts like a generated name. -/
theorem isUse_made (hm : m.Named Foreign) :
    ∃ before after, m.turn.member = before ++ m.turn.made.member.toList ++ after ∧
      IsUse id before m.turn.made.member.toList after ∧
      Member.nameStart.toList <+: m.turn.made.member.toList := by
  have hletters : ∀ c ∈ m.turn.made.member.toList, IsLetter id c :=
    Member.letters_inlinedName (hm.names m.turn.declaration.name List.mem_cons_self).plain.letters
  have hne : m.turn.made.member.toList ≠ [] := Member.inlinedName_ne_nil _ _
  obtain ⟨before, after, hrender, huse⟩ := Member.isUse_name hne hletters m.turn.declaration
  have hname : m.turn.made.member.toList = _ := Member.toList_inlinedName _ _
  exact ⟨before, after, hrender, huse, by rw [hname]; exact List.prefix_append _ _⟩

/-- What is written stays. The texts after any calls and after more calls are made of fragments, and those
of the first are among those of the second, in their order. Where a use was replaced in a fragment by the
first calls, the same characters are shown after all of them, and so is the new name at the head of each
member. -/
theorem written_stays (text : Text) (origin : String) (table : List Renaming) (calls later : List Call)
    (htable : Recorded Foreign table)
    (hnames : ∀ c ∈ calls ++ later, ∀ name ∈ c.names, Foreign name) :
    let start : Draft := ⟨Buffer.ofText text origin, table⟩
    let first := start.history (calls.flatMap Call.turns)
    let second := start.history ((calls ++ later).flatMap Call.turns)
    (calls.foldl call start).buffer.text = (fragments text first).flatMap (Fragment.shown origin first) ∧
      ((calls ++ later).foldl call start).buffer.text =
        (fragments text second).flatMap (Fragment.shown origin second) ∧
      (fragments text first).Sublist (fragments text second) ∧
      (∀ f ∈ fragments text first, ∀ before run after r, f.text = before ++ run ++ after →
        IsUse id before run after → f.reading origin first run = some r →
        (∃ url name, r = ("this." ++ Member.inlinedName url name).toList) ∧
          ∀ moments ∈ [first, second], f.Shows origin moments before r after) ∧
      ∀ m ∈ first, ∃ f ∈ fragments text first, ∃ before after, f.text = m.turn.member ∧
        f.text = before ++ m.turn.made.member.toList ++ after ∧
        IsUse id before m.turn.made.member.toList after ∧
        ∀ moments ∈ [first, second], f.Shows origin moments before m.turn.made.member.toList after := by
  intro start first second
  -- The second history goes on from the first.
  obtain ⟨more, hmore⟩ : ∃ more, second = first ++ more := by
    refine ⟨((calls.flatMap Call.turns).foldl turn start).history (later.flatMap Call.turns), ?_⟩
    show start.history ((calls ++ later).flatMap Call.turns) = _
    rw [List.flatMap_append, history_append]
  have hsecond : ∀ m ∈ second, m.Named Foreign := named_history htable (Call.forall_names hnames)
  have hfirst : ∀ m ∈ first, m.Named Foreign := fun m hm =>
    hsecond m (hmore ▸ List.mem_append_left more hm)
  have hplain : ∀ {moments : List Moment}, (∀ m ∈ moments, m.Named Foreign) →
      ∀ m ∈ moments, m.Named Plain := fun h m hm => (h m hm).imp fun _ hname => hname.plain
  refine ⟨?_, ?_, ?_, ?_, ?_⟩
  · rw [foldl_call]
    exact text_foldl_turn table (hplain hfirst)
  · rw [foldl_call]
    exact text_foldl_turn table (hplain hsecond)
  · rw [hmore]
    exact fragments_sublist text first more
  · intro f _ before run after r htext huse hr
    refine ⟨generated_of_said (fun m hm => hplain hfirst m (List.mem_of_mem_drop hm)) hr,
      List.forall_mem_cons.mpr ⟨?_, List.forall_mem_singleton.mpr ?_⟩⟩
    · simpa using Fragment.shows_of_reading htext huse hr []
    · rw [hmore]
      exact Fragment.shows_of_reading htext huse hr more
  · intro m hm
    obtain ⟨f, hf, htext⟩ := Fragment.exists_of_mem hm
    obtain ⟨before, after, hmember, huse, hname⟩ := isUse_made (hfirst m hm)
    have hhead := htext.trans hmember
    exact ⟨f, members_subset hm hf, before, after, htext, hhead, huse, List.forall_mem_cons.mpr
      ⟨Fragment.shows_of_nameStart hhead huse hname hfirst origin, List.forall_mem_singleton.mpr
        (Fragment.shows_of_nameStart hhead huse hname hsecond origin)⟩⟩

/-- A helper that is put in, and then one of the same name from another file, and one whose name ends the
new name of the first. -/
theorem written_stays_again :
    let start : Draft := ⟨Buffer.ofText "\x7brun() \x7bpad()\x7d\x7d".toList "/p", []⟩
    let first := start.history ([Call.file [] "/a" (Declaration.extract
      "function pad() \x7b\x7d".toList)].flatMap Call.turns)
    let second := start.history (([Call.file [] "/a" (Declaration.extract
      "function pad() \x7b\x7d".toList)] ++ [Call.file [] "/b" (Declaration.extract
      "function pad() \x7b\x7d\nfunction a_pad() \x7bpad()\x7d".toList)]).flatMap Call.turns)
    "\x7brun() \x7bthis._inlined_a_pad()\x7d,\n  _inlined_a_pad() \x7b\x7d,\n\x7d".toList =
        (fragments start.buffer.text first).flatMap (Fragment.shown "/p" first) ∧
      ("\x7brun() \x7bthis._inlined_a_pad()\x7d,\n  _inlined_a_pad() \x7b\x7d,\n" ++
        "\n  _inlined_b_pad() \x7b\x7d,\n\n  _inlined_b_a_pad() \x7bthis._inlined_b_pad()\x7d,\n\x7d").toList =
        (fragments start.buffer.text second).flatMap (Fragment.shown "/p" second) ∧
      (fragments start.buffer.text first).Sublist (fragments start.buffer.text second) := by
  intro start first second
  obtain ⟨hfirst, hsecond, hsublist, -⟩ := written_stays
    "\x7brun() \x7bpad()\x7d\x7d".toList "/p" []
    [Call.file [] "/a" (Declaration.extract "function pad() \x7b\x7d".toList)]
    [Call.file [] "/b" (Declaration.extract
      "function pad() \x7b\x7d\nfunction a_pad() \x7bpad()\x7d".toList)]
    (fun r hr => absurd hr List.not_mem_nil) (by decide +kernel)
  refine ⟨Eq.trans ?_ hfirst, Eq.trans ?_ hsecond, hsublist⟩
  · decide +kernel
  · decide +kernel

end Graft.Draft
