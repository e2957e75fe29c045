import Mathlib.Data.List.Nodup
import Graft.Fetch.Archive
import Graft.Proofs.Walk.Once

/-!
# When members get one name

The name of a member is made of the last segment of its file's URL and the declared name. What stands
before that segment is lost, and so is every character of it that no name may have; so two declarations
may get one name. `Member.Clash` says when (`Member.inlinedName_eq_iff`), and the members of a walk
have different names exactly if no two of the files that it fetched clash (`nodup_members_iff`).
Files of one name in two directories do (`members_clash`).
-/

namespace Graft

namespace Member

/-- Whether `name` of the file at `url` and `other` of the file at `url'` get one member name: what the
names keep of the files is the same and so are the declared names, or the longer one of the file names
ends with what the other declared name starts with. -/
def Clash (url name url' other : String) : Prop :=
  (fileName url = fileName url' ∧ name = other) ∨
  (∃ x, fileName url' = fileName url ++ '_' :: x ∧ name.toList = x ++ '_' :: other.toList) ∨
  (∃ x, fileName url = fileName url' ++ '_' :: x ∧ other.toList = x ++ '_' :: name.toList)

/-- Two members have one name exactly if their declarations clash. -/
theorem inlinedName_eq_iff (url name url' other : String) :
    inlinedName url name = inlinedName url' other ↔ Clash url name url' other := by
  have htext : inlinedName url name = inlinedName url' other ↔
      fileName url ++ '_' :: name.toList = fileName url' ++ '_' :: other.toList := by
    rw [← String.toList_inj, toList_inlinedName, toList_inlinedName, List.append_cancel_left_eq]
  rw [htext, List.append_eq_append_iff]
  unfold Clash
  constructor
  · -- One file name is the start of the other. What the longer one has more is nothing, or starts
    -- with the underscore that follows the shorter one.
    rintro (⟨x, hfile, hname⟩ | ⟨x, hfile, hname⟩)
    · cases x with
      | nil =>
        rw [List.append_nil] at hfile
        rw [List.nil_append, List.cons.injEq, String.toList_inj] at hname
        exact Or.inl ⟨hfile.symm, hname.2⟩
      | cons c x =>
        rw [List.cons_append, List.cons.injEq] at hname
        obtain ⟨rfl, hname⟩ := hname
        exact Or.inr (Or.inl ⟨x, hfile, hname⟩)
    · cases x with
      | nil =>
        rw [List.append_nil] at hfile
        rw [List.nil_append, List.cons.injEq, String.toList_inj] at hname
        exact Or.inl ⟨hfile, hname.2.symm⟩
      | cons c x =>
        rw [List.cons_append, List.cons.injEq] at hname
        obtain ⟨rfl, hname⟩ := hname
        exact Or.inr (Or.inr ⟨x, hfile, hname⟩)
  · rintro (⟨hfile, rfl⟩ | ⟨x, hfile, hname⟩ | ⟨x, hfile, hname⟩)
    · exact Or.inl ⟨[], by rw [hfile, List.append_nil], rfl⟩
    · exact Or.inl ⟨'_' :: x, hfile, by rw [hname, List.cons_append]⟩
    · exact Or.inr ⟨'_' :: x, hfile, by rw [hname, List.cons_append]⟩

/-- Within a file, different declarations get different names. -/
theorem inlinedName_injective (url : String) : Function.Injective (inlinedName url) := by
  intro name other h
  rw [← String.toList_inj, toList_inlinedName, toList_inlinedName, List.append_cancel_left_eq,
    List.append_cancel_left_eq, List.cons.injEq, String.toList_inj] at h
  exact h.2

end Member

namespace Walk

variable {σ : Type}

/-- The members of files have different names exactly if no two of the files clash. -/
theorem nodup_members_renamingsOf (files : List (String × Text)) :
    ((renamingsOf files).map Renaming.member).Nodup ↔
      files.Pairwise fun a b => ∀ d ∈ Declaration.extract a.2, ∀ e ∈ Declaration.extract b.2,
        ¬ Member.Clash a.1 d.name b.1 e.name := by
  have hmembers : (renamingsOf files).map Renaming.member = files.flatMap fun file =>
      (Declaration.extract file.2).map fun d => Member.inlinedName file.1 d.name := by
    unfold renamingsOf
    rw [List.map_flatMap]
    apply List.flatMap_congr
    intro file _
    rw [List.map_map]
    rfl
  have hinside : ∀ file ∈ files,
      ((Declaration.extract file.2).map fun d => Member.inlinedName file.1 d.name).Nodup := by
    intro file _
    have hnames := (Declaration.nodup_byName
      ((Declaration.attempts file.2).filterMap Declaration.Attempt.declaration?)).map
      (Member.inlinedName_injective file.1)
    rwa [List.map_map] at hnames
  rw [hmembers, List.nodup_flatMap, and_iff_right hinside]
  -- Two files share no name exactly if no declaration of the one clashes with one of the other.
  apply List.Pairwise.iff
  intro a b
  show List.Disjoint _ _ ↔ _
  rw [List.disjoint_left]
  constructor
  · intro hdisjoint d hd e he hclash
    apply hdisjoint (List.mem_map_of_mem hd)
    rw [(Member.inlinedName_eq_iff _ _ _ _).mpr hclash]
    exact List.mem_map_of_mem he
  · intro hclash member ha hb
    obtain ⟨d, hd, rfl⟩ := List.mem_map.mp ha
    obtain ⟨e, he, hsame⟩ := List.mem_map.mp hb
    exact hclash d hd e he ((Member.inlinedName_eq_iff _ _ _ _).mp hsame.symm)

/-- The members that a walk puts in have different names exactly if no declaration of a file that it
fetched clashes with one of a file that it fetched later. -/
theorem nodup_members_iff (fetcher : Fetcher σ) (options : InlineOptions) (steps : Nat)
    (content : Text) (entry : String) (source : σ) (result : Result σ) (output : Output)
    (h : inline? fetcher options steps (some content) entry source = some result)
    (hending : result.ending = .ok (some output)) :
    (output.renamings.map Renaming.member).Nodup ↔
      (arrivals (inlineHistory fetcher options steps (some content) entry source)).Pairwise
        fun a b => ∀ d ∈ Declaration.extract a.2, ∀ e ∈ Declaration.extract b.2,
          ¬ Member.Clash a.1 d.name b.1 e.name := by
  obtain ⟨inside, deeds, t, hreaches, rfl, hhistory⟩ := exists_reaches_of_inline? h hending
  have honce := (once_kept entry).reaches hreaches (once_start content entry source)
  rw [List.nil_append] at honce
  have hrenamings : t.output.renamings = renamingsOf (arrivals deeds) := honce.renamings
  rw [hhistory, hrenamings]
  exact nodup_members_renamingsOf _

/-- Two files that declare different names. -/
theorem nodup_members_iff_util :
    ∃ output : Output, output.renamings.map Renaming.member =
        ["_inlined_util_js_left", "_inlined_util_js_right"] ∧
      ((output.renamings.map Renaming.member).Nodup ↔
        [("/a/util.js", "function left(){}".toList),
          ("/b/util.js", "function right(){}".toList)].Pairwise
          fun a b => ∀ d ∈ Declaration.extract a.2, ∀ e ∈ Declaration.extract b.2,
            ¬ Member.Clash a.1 d.name b.1 e.name) := by
  have hrun : (inline? Archive.fetch {} 9
      (some "import {left} from './a/util'\nimport {right} from './b/util'\n{}".toList)
      "/p.js"
      ⟨[("/a/util.js", "function left(){}".toList),
        ("/b/util.js", "function right(){}".toList)], [], [], []⟩).map Result.ending =
      some (.ok (some ⟨("\x7b\n  _inlined_util_js_left() \x7b\x7d,\n\n" ++
          "  _inlined_util_js_right() \x7b\x7d,\n\x7d").toList,
        [⟨"/a/util.js", "left", "_inlined_util_js_left"⟩,
          ⟨"/b/util.js", "right", "_inlined_util_js_right"⟩], []⟩)) := by
    decide +kernel
  have harrivals : arrivals (inlineHistory Archive.fetch {} 9
      (some "import {left} from './a/util'\nimport {right} from './b/util'\n{}".toList)
      "/p.js"
      ⟨[("/a/util.js", "function left(){}".toList),
        ("/b/util.js", "function right(){}".toList)], [], [], []⟩) =
      [("/a/util.js", "function left(){}".toList),
        ("/b/util.js", "function right(){}".toList)] := by
    decide +kernel
  obtain ⟨result, hresult, hending⟩ := Option.map_eq_some_iff.mp hrun
  have h := nodup_members_iff _ _ _ _ _ _ result _ hresult hending
  rw [harrivals] at h
  exact ⟨_, rfl, h⟩

/-- Two files of one name in two directories declare one name each, and it is the same. Both become one
member of the object, so the later declaration takes the place of the earlier one. -/
theorem members_clash :
    ∃ result output,
      inline? Archive.fetch {} 9
          "import {pad} from './a/util'\nimport {pad as p} from './b/util'\n{run(){pad();p()}}".toList
          "https://x.test/p.js"
          ⟨[("https://x.test/a/util.js", "function pad(){}".toList),
            ("https://x.test/b/util.js", "function pad(){}".toList)], [], [], []⟩ =
        some result ∧
      result.ending = .ok (some output) ∧
      output.renamings.map Renaming.member = ["_inlined_util_js_pad", "_inlined_util_js_pad"] ∧
      ¬ (output.renamings.map Renaming.member).Nodup := by
  have hrun : (inline? Archive.fetch {} 9
      (some "import {pad} from './a/util'\nimport {pad as p} from './b/util'\n{run(){pad();p()}}".toList)
      "https://x.test/p.js"
      ⟨[("https://x.test/a/util.js", "function pad(){}".toList),
        ("https://x.test/b/util.js", "function pad(){}".toList)], [], [], []⟩).map Result.ending =
      some (.ok (some ⟨("\x7brun()\x7bthis._inlined_util_js_pad();this._inlined_util_js_pad()\x7d,\n" ++
          "  _inlined_util_js_pad() \x7b\x7d,\n\n  _inlined_util_js_pad() \x7b\x7d,\n\x7d").toList,
        [⟨"https://x.test/a/util.js", "pad", "_inlined_util_js_pad"⟩,
          ⟨"https://x.test/b/util.js", "pad", "_inlined_util_js_pad"⟩], []⟩)) := by
    decide +kernel
  obtain ⟨result, hresult, hending⟩ := Option.map_eq_some_iff.mp hrun
  exact ⟨result, _, hresult, hending, rfl, by decide⟩

end Walk

end Graft
