import Mathlib.Data.List.TakeWhile
import Graft.Proofs.Specifier.Root
import Graft.Proofs.Text.Cut

/-!
# Relative specifiers segment by segment

A relative specifier is a path from the directory of the file that it stands in. `follow` walks such a path
from left to right: `.` stays, `..` goes up unless that would leave the repository, and any other segment
goes down. Resolving a specifier does this for the dot segments at its front (`place_eq`) and leaves the
others as they are written. So it is the walk along the whole path exactly if no dot segment stands behind
another segment, and then the URL has no dot segments either (`resolve_relative`).
-/

namespace Graft.Specifier

/-- Whether a segment stands for the directory itself or for the one above it. -/
def isDots (segment : String) : Bool := segment = "." || segment = ".."

/-- One segment of a path, taken in a directory. -/
def enter (directory : List String) (segment : String) : List String :=
  if segment = "." then directory
  else if segment = ".." then parent directory
  else directory ++ [segment]

/-- What a path leads to from a directory, segment by segment from left to right. -/
def follow (directory path : List String) : List String := path.foldl enter directory

/-- A URL with the extension of the file at `containing`, unless it has a source extension or that file
has none. -/
def complete (containing url : String) : String :=
  if hasSourceExtension url then url
  else
    match extension? containing with
    | some ending => url ++ "." ++ ending
    | none => url

/-- The segments of the directory that a file is in. -/
def directoryOf (containing : String) : List String := (Word.splitOn '/' containing).dropLast

/-- The segments of a specifier. -/
def segmentsOf (specifier : String) : List String := Word.splitOn '/' specifier

/-- The dot segments at the front of a specifier. -/
def leading (specifier : String) : List String := (segmentsOf specifier).takeWhile isDots

/-- The segments of a specifier from the first one on that is no dot segment. -/
def inner (specifier : String) : List String := (segmentsOf specifier).dropWhile isDots

/-- A relative specifier that ends in the name of a file, in a file below the root of a repository. -/
structure Relative (containing specifier : String) : Prop where
  deep : rootSegments < (Word.splitOn '/' containing).length
  /-- The URL of the file has no dot segments. -/
  plain : ∀ segment ∈ Word.splitOn '/' containing, isDots segment = false
  relative : isRelative specifier.toList = true
  /-- The last segment is neither empty nor a dot segment. -/
  named : ∃ front last, segmentsOf specifier = front ++ [last] ∧ last ≠ "" ∧ isDots last = false

variable {directory path rest : List String} {containing specifier segment url ending : String}

/-! ## Following a path -/

/-- A path is followed segment by segment. -/
theorem follow_append (directory path rest : List String) :
    follow directory (path ++ rest) = follow (follow directory path) rest := List.foldl_append

/-- A segment that is no dot segment goes down. -/
theorem enter_plain (h : isDots segment = false) (directory : List String) :
    enter directory segment = directory ++ [segment] := by
  rw [isDots, Bool.or_eq_false_iff, decide_eq_false_iff_not, decide_eq_false_iff_not] at h
  rw [enter, if_neg h.1, if_neg h.2]

/-- A path without dot segments goes down. -/
theorem follow_plain (h : ∀ segment ∈ path, isDots segment = false) (directory : List String) :
    follow directory path = directory ++ path := by
  induction path generalizing directory with
  | nil => simp [follow]
  | cons segment path ih =>
    obtain ⟨hsegment, hpath⟩ := List.forall_mem_cons.mp h
    have hcons : follow directory (segment :: path) = follow (enter directory segment) path := rfl
    rw [hcons, enter_plain hsegment, ih hpath, List.append_assoc, List.singleton_append]

/-- A path leads to nothing but segments of the directory and segments of its own. -/
theorem mem_follow (h : segment ∈ follow directory path) :
    segment ∈ directory ∨ (segment ∈ path ∧ isDots segment = false) := by
  induction path generalizing directory with
  | nil => exact Or.inl h
  | cons first path ih =>
    -- One step leaves nothing new but the segment that it goes down into.
    have henter : ∀ {segment}, segment ∈ enter directory first →
        segment ∈ directory ∨ (segment = first ∧ isDots first = false) := by
      intro segment hsegment
      unfold enter at hsegment
      split at hsegment
      · exact Or.inl hsegment
      · next hdot =>
        split at hsegment
        · refine Or.inl ?_
          unfold parent at hsegment
          split at hsegment
          · exact List.dropLast_subset _ hsegment
          · exact hsegment
        · next hdots =>
          rcases List.mem_append.mp hsegment with hsegment | hsegment
          · exact Or.inl hsegment
          · exact Or.inr ⟨List.mem_singleton.mp hsegment, by simp [isDots, hdot, hdots]⟩
    rcases ih h with hbefore | ⟨hlater, hplain⟩
    · rcases henter hbefore with hdirectory | ⟨rfl, hplain⟩
      · exact Or.inl hdirectory
      · exact Or.inr ⟨List.mem_cons_self, hplain⟩
    · exact Or.inr ⟨List.mem_cons_of_mem first hlater, hplain⟩

/-- Steps up end at the root. -/
theorem le_length_parent (h : rootSegments ≤ directory.length) :
    rootSegments ≤ (parent directory).length := by
  unfold parent
  split
  · rw [List.length_dropLast]
    omega
  · exact h

/-- No path leads above the root. -/
theorem le_length_follow (h : rootSegments ≤ directory.length) (path : List String) :
    rootSegments ≤ (follow directory path).length := by
  induction path generalizing directory with
  | nil => exact h
  | cons segment path ih =>
    have henter : rootSegments ≤ (enter directory segment).length := by
      unfold enter
      split
      · exact h
      · split
        · exact le_length_parent h
        · rw [List.length_append]
          omega
    exact ih henter

/-! ## The segments of a specifier -/

/-- A text whose first segment is no dot segment is not walked along. -/
theorem descend_of_plain {s : String} {others : List String} (hs : Word.splitOn '/' s = segment :: others)
    (h : isDots segment = false) (directory : List String) :
    descend directory s.toList = (directory, s.toList) := by
  have hfirst : ∀ piece rest, '/' ∉ piece → s.toList = piece ++ '/' :: rest →
      segment = String.ofList piece := by
    intro piece rest hpiece htext
    rw [Word.splitOn, htext, Text.splitOn_append_separator hpiece, List.map_cons] at hs
    exact (List.cons.inj hs).1.symm
  unfold descend
  split
  · next rest htext =>
    rw [hfirst ['.'] rest (by decide) htext] at h
    exact absurd h (by decide)
  · next rest htext =>
    rw [hfirst ['.', '.'] rest (by decide) htext] at h
    exact absurd h (by decide)
  · rfl

/-- Dot segments at the front are walked along, and the rest is left as it is. -/
theorem descend_joinWith {lead : List String} (hlead : ∀ segment ∈ lead, isDots segment = true)
    (hrest : ∀ name ∈ segment :: rest, '/' ∉ name.toList) (hfirst : isDots segment = false)
    (directory : List String) :
    descend directory (Word.joinWith "/" (lead ++ segment :: rest)).toList =
      (follow directory lead, (Word.joinWith "/" (segment :: rest)).toList) := by
  induction lead generalizing directory with
  | nil => exact descend_of_plain (Word.segments_joinWith (List.cons_ne_nil _ _) hrest) hfirst directory
  | cons dots lead ih =>
    obtain ⟨hdots, hlead⟩ := List.forall_mem_cons.mp hlead
    have hjoin : Word.joinWith "/" (dots :: (lead ++ segment :: rest)) =
        dots ++ "/" ++ Word.joinWith "/" (lead ++ segment :: rest) :=
      Word.joinWith_append (List.cons_ne_nil dots []) (by simp)
    have hfollow : follow directory (dots :: lead) = follow (enter directory dots) lead := rfl
    rw [List.cons_append, hjoin, hfollow, ← ih hlead]
    rw [isDots, Bool.or_eq_true, decide_eq_true_eq, decide_eq_true_eq] at hdots
    rw [String.toList_append, String.toList_append]
    rcases hdots with rfl | rfl <;> rfl

/-- A segment of a specifier has no slash in it. -/
theorem slash_notMem_of_mem_segmentsOf (h : segment ∈ segmentsOf specifier) : '/' ∉ segment.toList :=
  Word.slash_notMem_of_mem_segments h

/-- The leading dot segments and the rest are all segments. -/
theorem leading_append_inner (specifier : String) :
    leading specifier ++ inner specifier = segmentsOf specifier := List.takeWhile_append_dropWhile

namespace Relative

variable (h : Relative containing specifier)

include h

/-- Behind the leading dot segments there is the name of a file. -/
theorem exists_inner : ∃ front last, inner specifier = front ++ [last] ∧ last ≠ "" ∧
    isDots last = false := by
  obtain ⟨front, last, hsegments, hne, hlast⟩ := h.named
  refine ⟨front.dropWhile isDots, last, ?_, hne, hlast⟩
  rw [inner, hsegments, List.dropWhile_append]
  split
  · next hfront =>
    rw [List.isEmpty_iff.mp hfront, List.dropWhile_cons_of_neg (by simp [hlast])]
    rfl
  · rfl

/-- The first segment behind the leading dot segments is none of them. -/
theorem exists_inner_cons : ∃ first others, inner specifier = first :: others ∧
    isDots first = false := by
  obtain ⟨front, last, hinner, -⟩ := h.exists_inner
  obtain ⟨first, others, hcons⟩ := List.exists_cons_of_ne_nil (l := inner specifier) (by simp [hinner])
  have hstop := List.head?_dropWhile_not isDots (segmentsOf specifier)
  have hfirst : (segmentsOf specifier).dropWhile isDots = first :: others := hcons
  rw [hfirst] at hstop
  exact ⟨first, others, hcons, hstop⟩

/-- The directory of a file lies in its repository. -/
theorem le_length_directoryOf : rootSegments ≤ (directoryOf containing).length := by
  have hdeep := h.deep
  rw [directoryOf, List.length_dropLast]
  omega

/-- Before an extension is added, a specifier names what its leading dot segments lead to, and there what
it says behind them. -/
theorem place_eq : place specifier containing =
    Word.joinWith "/" (follow (directoryOf containing) (leading specifier) ++ inner specifier) := by
  obtain ⟨first, others, hinner, hfirst⟩ := h.exists_inner_cons
  have hplain : ∀ name ∈ first :: others, '/' ∉ name.toList := fun name hname =>
    slash_notMem_of_mem_segmentsOf (leading_append_inner specifier ▸
      List.mem_append_right _ (hinner ▸ hname))
  have hspecifier : specifier = Word.joinWith "/" (leading specifier ++ first :: others) := by
    rw [← hinner, leading_append_inner]
    exact (Word.joinWith_splitOn specifier).symm
  -- The leading segments are walked one after another, and the rest stays text.
  have hdescend : descend (directoryOf containing) specifier.toList =
      (follow (directoryOf containing) (leading specifier),
        (Word.joinWith "/" (first :: others)).toList) := by
    have hlead : ∀ segment ∈ leading specifier, isDots segment = true := fun _ hsegment =>
      List.mem_takeWhile_imp hsegment
    have hwalk := descend_joinWith hlead hplain hfirst (directoryOf containing)
    rwa [← hspecifier] at hwalk
  have hreached : follow (directoryOf containing) (leading specifier) ≠ [] := by
    have hlength := le_length_follow h.le_length_directoryOf (leading specifier)
    rw [← List.length_pos_iff]
    exact Nat.lt_of_lt_of_le (by decide) hlength
  unfold place
  simp only [if_pos h.relative]
  rw [show (Word.splitOn '/' containing).dropLast = directoryOf containing from rfl, hdescend, hinner,
    Word.joinWith_append hreached (List.cons_ne_nil first others), String.ofList_toList]

end Relative

/-! ## Extensions -/

/-- An extension is not empty and has no slash in it. -/
theorem of_extension? (h : extension? url = some ending) : ending ≠ "" ∧ '/' ∉ ending.toList := by
  unfold extension? at h
  split at h
  · next stem dot tail hsplit =>
    split at h
    · cases h
    · next hne =>
      cases h
      rw [Bool.or_eq_true, not_or] at hne
      refine ⟨fun hempty => hne.2 ?_, fun hslash => ?_⟩
      · rw [List.isEmpty_iff, ← String.toList_ofList (l := tail), hempty]
        rfl
      -- The extension is a part of the last segment, and no segment has a slash.
      · obtain ⟨rest, hrest, -, htext⟩ := Text.splitAtLast_eq_some hsplit
        have hmem : '/' ∈ (lastSegment url).toList := by
          rw [htext, ← hrest]
          rw [String.toList_ofList] at hslash
          simp [hslash]
        obtain ⟨front, last, hsegments⟩ :=
          (List.eq_nil_or_concat' (Word.splitOn '/' url)).resolve_left (Word.splitOn_ne_nil '/' url)
        have hlast : lastSegment url = last := by
          rw [lastSegment, hsegments, List.getLast?_concat, Option.getD_some]
        rw [hlast] at hmem
        exact Word.slash_notMem_of_mem_segments (hsegments ▸ List.mem_concat_self) hmem
  · cases h

/-- A name with an extension is no dot segment. -/
theorem isDots_extended {last : String} (hlast : last ≠ "") (hending : ending ≠ "") :
    isDots (last ++ "." ++ ending) = false := by
  have hpos : ∀ {s : String}, s ≠ "" → 0 < s.length := fun hs =>
    Nat.pos_of_ne_zero fun hzero => hs (String.length_eq_zero_iff.mp hzero)
  have hlong : 3 ≤ (last ++ "." ++ ending).length := by
    have hdot : ".".length = 1 := rfl
    have hlast := hpos hlast
    have hending := hpos hending
    rw [String.length_append, String.length_append]
    omega
  rw [isDots, Bool.or_eq_false_iff, decide_eq_false_iff_not, decide_eq_false_iff_not]
  constructor
  · intro hdot
    rw [hdot] at hlong
    exact absurd hlong (by decide)
  · intro hdots
    rw [hdots] at hlong
    exact absurd hlong (by decide)

/-- An extension behind a URL is one behind its last segment. -/
theorem joinWith_extended (front : List String) (last ending : String) :
    Word.joinWith "/" (front ++ [last]) ++ "." ++ ending =
      Word.joinWith "/" (front ++ [last ++ "." ++ ending]) := by
  rcases eq_or_ne front [] with rfl | hfront
  · rfl
  · rw [Word.joinWith_append hfront (by simp), Word.joinWith_append hfront (by simp)]
    simp only [Word.joinWith, String.append_assoc]

/-- Completing a URL changes no segment but the last, and makes no dot segment of it. -/
theorem exists_segments_complete {front : List String} {last : String}
    (hplain : ∀ name ∈ front ++ [last], '/' ∉ name.toList) (hne : last ≠ "") (hlast : isDots last = false)
    (containing : String) :
    ∃ last', Word.splitOn '/' (complete containing (Word.joinWith "/" (front ++ [last]))) =
      front ++ [last'] ∧ isDots last' = false := by
  unfold complete
  -- The URL has an extension already, gets that of the containing file, or there is none to get.
  split
  · exact ⟨last, Word.segments_joinWith (by simp) hplain, hlast⟩
  · split
    · next ending hending =>
      obtain ⟨hne', hslash⟩ := of_extension? hending
      refine ⟨last ++ "." ++ ending, ?_, isDots_extended hne hne'⟩
      rw [joinWith_extended]
      refine Word.segments_joinWith (by simp) ?_
      intro name hname
      rcases List.mem_append.mp hname with hname | hname
      · exact hplain name (List.mem_append_left _ hname)
      · have hlastPlain := hplain last (by simp)
        rw [List.mem_singleton.mp hname]
        simp [hlastPlain, hslash]
    · exact ⟨last, Word.segments_joinWith (by simp) hplain, hlast⟩

/-! ## Resolved URLs -/

/-- A specifier is placed first, and then completed with an extension. -/
theorem resolve_eq_complete (specifier containing : String) :
    resolve specifier containing = complete containing (place specifier containing) := rfl

/-- A path from the directory of a file leads to segments without slashes. -/
theorem slash_notMem_of_mem_follow (h : segment ∈ follow (directoryOf containing) path)
    (hpath : ∀ name ∈ path, '/' ∉ name.toList) : '/' ∉ segment.toList := by
  rcases mem_follow h with hdirectory | ⟨hsegment, -⟩
  · exact Word.slash_notMem_of_mem_segments (List.dropLast_subset _ hdirectory)
  · exact hpath segment hsegment

namespace Relative

/-- A path from the directory of the file leads to no dot segments. -/
theorem isDots_of_mem_follow (h : Relative containing specifier)
    (hsegment : segment ∈ follow (directoryOf containing) path) : isDots segment = false := by
  rcases mem_follow hsegment with hdirectory | ⟨-, hplain⟩
  · exact h.plain segment (List.dropLast_subset _ hdirectory)
  · exact hplain

/-- The dot segments of a resolved URL are those behind the first other segment of the specifier. -/
theorem exists_isDots_resolve_iff (h : Relative containing specifier) :
    (∃ segment ∈ Word.splitOn '/' (resolve specifier containing), isDots segment = true) ↔
      ∃ segment ∈ inner specifier, isDots segment = true := by
  obtain ⟨front, last, hinner, hne, hlast⟩ := h.exists_inner
  have hsegments : ∀ name ∈ segmentsOf specifier, '/' ∉ name.toList := fun _ hname =>
    slash_notMem_of_mem_segmentsOf hname
  rw [← leading_append_inner] at hsegments
  have hplain : ∀ name ∈ follow (directoryOf containing) (leading specifier) ++ front ++ [last],
      '/' ∉ name.toList := by
    rw [List.append_assoc, ← hinner]
    intro name hname
    rcases List.mem_append.mp hname with hname | hname
    · exact slash_notMem_of_mem_follow hname fun name hname =>
        hsegments name (List.mem_append_left _ hname)
    · exact hsegments name (List.mem_append_right _ hname)
  obtain ⟨last', hresolve, hlast'⟩ := exists_segments_complete hplain hne hlast containing
  rw [List.append_assoc, ← hinner, ← h.place_eq, ← resolve_eq_complete] at hresolve
  rw [hresolve, hinner]
  -- On both sides the last segment is none, and the directory has none.
  constructor
  · rintro ⟨segment, hsegment, hdots⟩
    rcases List.mem_append.mp hsegment with hsegment | hsegment
    · rcases List.mem_append.mp hsegment with hsegment | hsegment
      · rw [h.isDots_of_mem_follow hsegment] at hdots
        cases hdots
      · exact ⟨segment, List.mem_append_left _ hsegment, hdots⟩
    · rw [List.mem_singleton.mp hsegment, hlast'] at hdots
      cases hdots
  · rintro ⟨segment, hsegment, hdots⟩
    rcases List.mem_append.mp hsegment with hsegment | hsegment
    · exact ⟨segment, List.mem_append_left _ (List.mem_append_right _ hsegment), hdots⟩
    · rw [List.mem_singleton.mp hsegment, hlast] at hdots
      cases hdots

/-- The URL at the end of the whole path has no dot segments. -/
theorem not_isDots_complete (h : Relative containing specifier) :
    ∀ segment ∈ Word.splitOn '/' (complete containing
      (Word.joinWith "/" (follow (directoryOf containing) (segmentsOf specifier)))),
      isDots segment = false := by
  obtain ⟨front, last, hsegments, hne, hlast⟩ := h.named
  have hfollow : follow (directoryOf containing) (segmentsOf specifier) =
      follow (directoryOf containing) front ++ [last] := by
    rw [hsegments, follow_append, follow_plain (by simpa using hlast)]
  have hplain : ∀ name ∈ follow (directoryOf containing) front ++ [last], '/' ∉ name.toList := by
    rw [← hfollow]
    exact fun name hname => slash_notMem_of_mem_follow hname fun _ => slash_notMem_of_mem_segmentsOf
  obtain ⟨last', hcomplete, hlast'⟩ := exists_segments_complete hplain hne hlast containing
  rw [hfollow, hcomplete]
  intro segment hsegment
  rcases List.mem_append.mp hsegment with hsegment | hsegment
  · exact h.isDots_of_mem_follow hsegment
  · rw [List.mem_singleton.mp hsegment, hlast']

/-- A specifier without a dot segment behind another segment names what its whole path leads to. -/
theorem resolve_eq_of_plain (h : Relative containing specifier)
    (hinner : ∀ segment ∈ inner specifier, isDots segment = false) :
    resolve specifier containing = complete containing
      (Word.joinWith "/" (follow (directoryOf containing) (segmentsOf specifier))) := by
  rw [resolve_eq_complete, h.place_eq, ← leading_append_inner, follow_append, follow_plain hinner]

end Relative

/-- A relative specifier in a file below a root names what its leading dot segments lead to from the
directory of that file, with the other segments behind it as they are written, and the extension of that
file if it lacks one. So the URL has a dot segment exactly if one stands behind another segment of the
specifier. Otherwise, and only then, it is what the whole path leads to, and specifiers whose paths lead to
the same place name the same URL. -/
theorem resolve_relative (h : Relative containing specifier) :
    resolve specifier containing = complete containing (Word.joinWith "/"
      (follow (directoryOf containing) (leading specifier) ++ inner specifier)) ∧
    ((∃ segment ∈ Word.splitOn '/' (resolve specifier containing), isDots segment = true) ↔
      ∃ segment ∈ inner specifier, isDots segment = true) ∧
    (resolve specifier containing = complete containing (Word.joinWith "/"
        (follow (directoryOf containing) (segmentsOf specifier))) ↔
      ∀ segment ∈ inner specifier, isDots segment = false) ∧
    ∀ containing' specifier', Relative containing' specifier' →
      extension? containing' = extension? containing →
      (∀ segment ∈ inner specifier ++ inner specifier', isDots segment = false) →
      follow (directoryOf containing') (segmentsOf specifier') =
        follow (directoryOf containing) (segmentsOf specifier) →
      resolve specifier' containing' = resolve specifier containing := by
  refine ⟨?_, h.exists_isDots_resolve_iff, ⟨fun hwhole segment hsegment => ?_, h.resolve_eq_of_plain⟩, ?_⟩
  · rw [resolve_eq_complete, h.place_eq]
  -- A dot segment is left in the one URL, and none in the other.
  · by_contra hdots
    obtain ⟨segment, hsegment, hdots⟩ :=
      h.exists_isDots_resolve_iff.mpr ⟨segment, hsegment, by simpa using hdots⟩
    rw [hwhole] at hsegment
    rw [h.not_isDots_complete segment hsegment] at hdots
    cases hdots
  · intro containing' specifier' h' hextension hinner hsame
    rw [h.resolve_eq_of_plain fun segment hsegment => hinner segment (List.mem_append_left _ hsegment),
      h'.resolve_eq_of_plain fun segment hsegment => hinner segment (List.mem_append_right _ hsegment),
      hsame]
    unfold complete
    rw [hextension]

/-- A path up, down and in place from a deep directory: the dot segments at its front are resolved, and it
names what the shorter path does. -/
theorem resolve_relative_fmt :
    Relative "https://x.test/o/r/blob/m/lib/in/p.ts" ".././../shared/fmt" ∧
      Relative "https://x.test/o/r/blob/m/p.ts" "./shared/fmt" ∧
      resolve ".././../shared/fmt" "https://x.test/o/r/blob/m/lib/in/p.ts" =
        "https://x.test/o/r/blob/m/shared/fmt.ts" ∧
      resolve "./shared/fmt" "https://x.test/o/r/blob/m/p.ts" =
        resolve ".././../shared/fmt" "https://x.test/o/r/blob/m/lib/in/p.ts" := by
  have hup : Relative "https://x.test/o/r/blob/m/lib/in/p.ts" ".././../shared/fmt" :=
    ⟨by decide +kernel, by decide +kernel, by decide +kernel,
      ⟨["..", ".", "..", "shared"], "fmt", by decide +kernel, by decide, by decide⟩⟩
  have hdown : Relative "https://x.test/o/r/blob/m/p.ts" "./shared/fmt" :=
    ⟨by decide +kernel, by decide +kernel, by decide +kernel,
      ⟨[".", "shared"], "fmt", by decide +kernel, by decide, by decide⟩⟩
  obtain ⟨hplace, -, -, hsame⟩ := resolve_relative hup
  refine ⟨hup, hdown, ?_, hsame _ _ hdown (by decide +kernel) (by decide +kernel) (by decide +kernel)⟩
  rw [hplace]
  decide +kernel

/-- A dot segment behind another segment stays in the URL, so this is not what the path leads to. -/
theorem resolve_inner_dots :
    Relative "https://x.test/o/r/blob/m/lib/p.js" "./a/../b" ∧
      resolve "./a/../b" "https://x.test/o/r/blob/m/lib/p.js" =
        "https://x.test/o/r/blob/m/lib/a/../b.js" ∧
      complete "https://x.test/o/r/blob/m/lib/p.js" (Word.joinWith "/"
          (follow (directoryOf "https://x.test/o/r/blob/m/lib/p.js") (segmentsOf "./a/../b"))) =
        "https://x.test/o/r/blob/m/lib/b.js" ∧
      resolve "./a/../b" "https://x.test/o/r/blob/m/lib/p.js" ≠
        complete "https://x.test/o/r/blob/m/lib/p.js" (Word.joinWith "/"
          (follow (directoryOf "https://x.test/o/r/blob/m/lib/p.js") (segmentsOf "./a/../b"))) := by
  refine ⟨⟨by decide +kernel, by decide +kernel, by decide +kernel,
    ⟨[".", "a", ".."], "b", by decide +kernel, by decide, by decide⟩⟩, ?_, ?_, ?_⟩ <;> decide +kernel

end Graft.Specifier
