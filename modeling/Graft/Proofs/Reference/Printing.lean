import Graft.Proofs.Reference.Reading
import Graft.Proofs.Text.Space

/-!
# References that are printed

What is printed of a reference that was read from a text without white space is read as the same reference
(`Reference.Legible.read?_display`), and there are places at which its entry may be: one for each location
of a repository, and one for a file (`Reference.Legible.exists_candidates`). So a reference may be taken
from where it was printed (`Reference.display_reads_back`).
-/

namespace Graft

namespace Entry

variable {settings : EntrySettings}

/-- A URL below the host of the settings, of which slashes at its end do not count. -/
def BelowHost (settings : EntrySettings) (url : String) : Prop :=
  ∃ host slashes path : Text, settings.host.toList = host ++ slashes ∧ (∀ c ∈ slashes, c = '/') ∧
    (∀ c ∈ host.getLast?, c ≠ '/') ∧ url.toList = host ++ '/' :: path

/-- How many places a reference has. -/
def places (settings : EntrySettings) : Reference → Nat
  | .repository _ _ => settings.locations.length
  | .file _ => 1

/-- The URL of a path in a repository lies below the host. -/
theorem belowHost_url (settings : EntrySettings) (organization name path : String) :
    BelowHost settings (url settings organization name path) := by
  obtain ⟨slashes, hhost, hslashes⟩ := Text.trimEndBy_append (· = '/') settings.host.toList
  have hlast := Text.trimEndBy_getLast? (· = '/') settings.host.toList
  refine ⟨_, slashes,
    (organization ++ "/" ++ name ++ "/blob/" ++ settings.branch ++ "/" ++ path).toList, hhost,
    by simpa using hslashes, by simpa using hlast, ?_⟩
  simp [url]

end Entry

namespace Reference

open Text (splitOn)

variable {r : Reference} {s : String}

/-! ## Reading again -/

/-- A reference is read again from what is printed of it. -/
theorem Legible.read?_display (h : Legible r) : read? r.display = some r := by
  cases h with
  | @repository organization name horganization hname =>
    have hdisplay : (Reference.repository (String.ofList organization) (String.ofList name)).display =
        String.ofList (organization ++ '/' :: name) := by
      apply String.toList_injective
      simp [display]
    rw [hdisplay, read?_pair horganization hname]
  | url htight hscheme hread => exact (htight.read?_url hscheme).trans hread
  | path htight hsplit hparts =>
    refine (htight.read?_path (afterScheme?_of_parts hparts)).trans ?_
    rw [ofPath?_of_parts hparts, hsplit]

/-! ## Candidates -/

/-- A path that is read has no slash at its start. -/
theorem withoutLeadingSlashes_of_parts {t first : Text} {others : List Text}
    (hsplit : splitOn '/' t = first :: others) (hfirst : IsPart first) :
    Entry.withoutLeadingSlashes (String.ofList t) = String.ofList t := by
  unfold Entry.withoutLeadingSlashes
  rw [String.toList_ofList]
  cases t with
  | nil => rfl
  | cons c t =>
    rw [List.dropWhile_cons_of_neg]
    -- A slash at the start would have an empty part in front of it.
    intro hc
    rw [of_decide_eq_true hc, Text.splitOn_separator] at hsplit
    exact hfirst.ne_nil (List.cons.inj hsplit).1.symm

/-- A path that starts with something is not empty. -/
theorem isEmpty_joinWith {first : Text} (hfirst : first ≠ []) (more : List Text) :
    (Word.joinWith "/" ((first :: more).map String.ofList)).isEmpty = false := by
  rw [Bool.eq_false_iff, ne_eq, String.isEmpty_iff, ← String.toList_inj, Word.toList_joinWith]
  cases more with
  | nil => simpa [Text.joinWith] using hfirst
  | cons second more => simp [Text.joinWith, hfirst]

/-- A reference that was read has candidates: as many as it has places, and each of them is below the host
or is the URL of the reference itself. -/
theorem Legible.exists_candidates (h : Legible r) (settings : EntrySettings) :
    ∃ urls, Entry.candidates settings r = .ok urls ∧ urls.length = Entry.places settings r ∧
      ∀ url ∈ urls, Entry.BelowHost settings url ∨
        (r = .file url ∧ (afterScheme? url.toList).isSome = true) := by
  -- A repository has one candidate for each location, a URL itself, and a path the file that it names.
  cases h with
  | repository horganization hname =>
    refine ⟨_, rfl, List.length_map _, fun url hurl => Or.inl ?_⟩
    obtain ⟨path, -, rfl⟩ := List.mem_map.mp hurl
    exact Entry.belowHost_url ..
  | @url t rest htight hscheme hread =>
    have hcandidates : Entry.candidates settings (.file (String.ofList t)) = .ok [String.ofList t] := by
      simp [Entry.candidates, Entry.candidates?, hscheme]
    refine ⟨_, hcandidates, rfl, fun url hurl => Or.inr ?_⟩
    obtain rfl := List.mem_singleton.mp hurl
    simp [hscheme]
  | @path t organization name first more htight hsplit hparts =>
    have hpath : (Word.joinWith "/" ((first :: more).map String.ofList)).isEmpty = false :=
      isEmpty_joinWith (hparts first (by simp [hsplit])).ne_nil more
    have hcandidates : Entry.candidates settings (.file (String.ofList t)) =
        .ok [Entry.url settings (String.ofList organization) (String.ofList name)
          (Word.joinWith "/" ((first :: more).map String.ofList))] := by
      have hfirst : IsPart organization := hparts _ (by simp [hsplit])
      have hpieces : Word.splitOn '/' (String.ofList t) =
          (organization :: name :: first :: more).map String.ofList := by
        rw [Word.splitOn, String.toList_ofList, hsplit]
      unfold Entry.candidates Entry.candidates?
      dsimp only
      rw [String.toList_ofList, afterScheme?_of_parts hparts, withoutLeadingSlashes_of_parts hsplit hfirst,
        hpieces, List.map_cons, List.map_cons, List.map_cons]
      dsimp only
      rw [← List.map_cons, hpath]
      rfl
    refine ⟨_, hcandidates, rfl, fun url hurl => Or.inl ?_⟩
    obtain rfl := List.mem_singleton.mp hurl
    exact Entry.belowHost_url ..

/-- Whatever reference is read from a text without white space inside, what is printed of it is read as the
same reference; and under any settings it has one candidate for each location if it is a repository, and one
if it is a file, each of them below the host or the URL that the reference is. -/
theorem display_reads_back (hspace : ∀ c ∈ Text.trim s.toList, Alphabet.isSpace c = false)
    (hread : read? s = some r) :
    read? r.display = some r ∧ ∀ settings, ∃ urls, Entry.candidates settings r = .ok urls ∧
      urls.length = Entry.places settings r ∧
      ∀ url ∈ urls, Entry.BelowHost settings url ∨
        (r = .file url ∧ (afterScheme? url.toList).isSome = true) := by
  rw [read?_eq_trimmed hspace] at hread
  have hlegible := (tight_trimEndBy hspace).legible hread
  exact ⟨hlegible.read?_display, hlegible.exists_candidates⟩

/-- A URL with doubled slashes and an organization that looks like a scheme is printed as a path, which reads
the same. -/
theorem display_reads_back_scheme :
    (∀ c ∈ Text.trim " https://x.test//http://r/ ".toList, Alphabet.isSpace c = false) ∧
      read? " https://x.test//http://r/ " = some (.repository "http:" "r") ∧
      read? "http:/r" = some (.repository "http:" "r") ∧
      ∃ urls, Entry.candidates {} (.repository "http:" "r") = .ok urls ∧ urls.length = 3 := by
  have hspace : ∀ c ∈ Text.trim " https://x.test//http://r/ ".toList, Alphabet.isSpace c = false :=
    Alphabet.isSpace_of_any (by decide +kernel)
  have hread : read? " https://x.test//http://r/ " = some (.repository "http:" "r") := by decide +kernel
  obtain ⟨hagain, hcandidates⟩ := display_reads_back hspace hread
  obtain ⟨urls, hurls, hlength, -⟩ := hcandidates {}
  exact ⟨hspace, hread, hagain, urls, hurls, hlength⟩

end Reference

end Graft
