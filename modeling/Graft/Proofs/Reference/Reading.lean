import Graft.Entry
import Graft.Proofs.Text.Front
import Graft.Proofs.Text.Pieces
import Graft.Proofs.Text.Segments

/-!
# References that are read

What a reference is read from is trimmed first, and a trimmed text is a URL or a path
(`Reference.read?_url`, `Reference.read?_path`). From a text without white space come a repository of two
parts, a URL that has more than two, and a path that has more than two (`Reference.legible_of_read?`).
-/

namespace Graft

namespace Text

variable {t : Text}

/-- A text without white space is not trimmed. -/
theorem trim_of_noSpace (h : ∀ c ∈ t, Alphabet.isSpace c = false) : trim t = t :=
  trim_of_ends (fun c hc => h c (List.mem_of_mem_head? hc)) fun c hc => h c (List.mem_of_mem_getLast? hc)

end Text

namespace Reference

open Text (splitOn)

/-- A part of a path: some characters, and none of them a slash or white space. -/
structure IsPart (t : Text) : Prop where
  ne_nil : t ≠ []
  plain : ∀ c ∈ t, c ≠ '/' ∧ Alphabet.isSpace c = false

/-- A text that is not trimmed when it is read. -/
structure Tight (t : Text) : Prop where
  noSpace : ∀ c ∈ t, Alphabet.isSpace c = false
  noSlash : ∀ c ∈ t.getLast?, c ≠ '/'

/-- What is read from texts without white space. -/
inductive Legible : Reference → Prop where
  | repository {organization name : Text} (horganization : IsPart organization) (hname : IsPart name) :
    Legible (.repository (String.ofList organization) (String.ofList name))
  | url {t rest : Text} (htight : Tight t) (hscheme : afterScheme? t = some rest)
    (hread : ofUrl? t rest = some (.file (String.ofList t))) : Legible (.file (String.ofList t))
  | path {t organization name first : Text} {more : List Text} (htight : Tight t)
    (hsplit : splitOn '/' t = organization :: name :: first :: more)
    (hparts : ∀ part ∈ splitOn '/' t, IsPart part) : Legible (.file (String.ofList t))

variable {organization name t rest : Text} {r : Reference} {s : String}

/-! ## Parts -/

/-- A part has no slash in it. -/
theorem IsPart.slash_notMem (h : IsPart t) : '/' ∉ t := fun hslash => (h.plain _ hslash).1 rfl

/-- What is between the slashes of a text without white space is a part, unless it is empty. -/
theorem isPart_of_mem_splitOn {part : Text} (hspace : ∀ c ∈ t, Alphabet.isSpace c = false)
    (hpart : part ∈ splitOn '/' t) (hne : part ≠ []) : IsPart part := by
  refine ⟨hne, fun c hc => ⟨?_, hspace c (Text.mem_of_mem_splitOn hpart hc)⟩⟩
  rintro rfl
  exact Text.separator_notMem_of_mem_splitOn hpart hc

/-- Two parts with a slash between them are split there and nowhere else. -/
theorem splitOn_pair (horganization : IsPart organization) (hname : IsPart name) :
    splitOn '/' (organization ++ '/' :: name) = [organization, name] := by
  rw [Text.splitOn_append_separator horganization.slash_notMem, Text.splitOn_of_notMem hname.slash_notMem]

/-- Two parts with a slash between them are not trimmed. -/
theorem tight_pair (horganization : IsPart organization) (hname : IsPart name) :
    Tight (organization ++ '/' :: name) := by
  constructor
  · intro c hc
    rcases List.mem_append.mp hc with hc | hc
    · exact (horganization.plain c hc).2
    rcases List.mem_cons.mp hc with rfl | hc
    · decide
    · exact (hname.plain c hc).2
  · intro c hc
    rw [List.getLast?_append_of_ne_nil _ (List.cons_ne_nil _ _), List.getLast?_cons_of_ne_nil hname.ne_nil] at hc
    exact (hname.plain c (List.mem_of_mem_getLast? hc)).1

/-- More text in front of a tight text that is not empty leaves it tight. -/
theorem Tight.append_left (h : Tight t) (hne : t ≠ []) {front : Text}
    (hfront : ∀ c ∈ front, Alphabet.isSpace c = false) : Tight (front ++ t) := by
  refine ⟨fun c hc => (List.mem_append.mp hc).elim (hfront c) (h.noSpace c), fun c hc => ?_⟩
  rw [List.getLast?_append_of_ne_nil _ hne] at hc
  exact h.noSlash c hc

/-! ## Schemes -/

/-- A URL starts with a scheme. -/
theorem afterScheme?_eq_some (h : afterScheme? t = some rest) :
    t = "https://".toList ++ rest ∨ t = "http://".toList ++ rest := by
  rw [afterScheme?, Option.orElse_eq_orElse, Option.orElse_eq_or] at h
  rcases Option.or_eq_some_iff.mp h with h | ⟨-, h⟩
  · exact Or.inl (Text.follow?_eq_some_iff.mp h)
  · exact Or.inr (Text.follow?_eq_some_iff.mp h)

/-- Each of the two schemes is taken off the front. -/
theorem afterScheme?_append {scheme : String} (hscheme : scheme ∈ ["https://", "http://"]) (rest : Text) :
    afterScheme? (scheme.toList ++ rest) = some rest := by
  rcases List.mem_pair.mp hscheme with rfl | rfl <;> rfl

/-- The two slashes behind a scheme have an empty part between them. -/
theorem splitOn_url (h : afterScheme? t = some rest) :
    ∃ scheme, splitOn '/' t = scheme :: [] :: splitOn '/' rest := by
  have hsplit : ∀ scheme : Text, '/' ∉ scheme →
      splitOn '/' (scheme ++ '/' :: '/' :: rest) = scheme :: [] :: splitOn '/' rest := fun scheme hscheme => by
    rw [Text.splitOn_append_separator hscheme, Text.splitOn_separator]
  rcases afterScheme?_eq_some h with rfl | rfl
  · exact ⟨"https:".toList, hsplit "https:".toList (by decide)⟩
  · exact ⟨"http:".toList, hsplit "http:".toList (by decide)⟩

/-- A text whose parts all have something in them is no URL. -/
theorem afterScheme?_of_parts (hparts : ∀ part ∈ splitOn '/' t, IsPart part) : afterScheme? t = none := by
  cases h : afterScheme? t with
  | none => rfl
  | some rest =>
    obtain ⟨scheme, hsplit⟩ := splitOn_url h
    exact absurd rfl (hparts [] (by simp [hsplit])).ne_nil

/-! ## Reading -/

/-- Nothing is trimmed. -/
theorem Tight.trimmed (h : Tight t) :
    Text.trimEndBy (· = '/') (Text.trim (String.ofList t).toList) = t := by
  rw [String.toList_ofList, Text.trim_of_noSpace h.noSpace]
  exact Text.trimEndBy_of_getLast? fun c hc => by simpa using h.noSlash c hc

/-- A tight text with a scheme is read as a URL. -/
theorem Tight.read?_url (h : Tight t) (hscheme : afterScheme? t = some rest) :
    read? (String.ofList t) = ofUrl? t rest := by
  simp only [read?, h.trimmed, hscheme]

/-- A tight text without a scheme is read as a path. -/
theorem Tight.read?_path (h : Tight t) (hscheme : afterScheme? t = none) :
    read? (String.ofList t) = ofPath? t := by
  simp only [read?, h.trimmed, hscheme]

/-- The slashes at the end of what is read do not count. -/
theorem tight_trimEndBy (h : ∀ c ∈ t, Alphabet.isSpace c = false) : Tight (Text.trimEndBy (· = '/') t) := by
  refine ⟨fun c hc => h c ((Text.trimEndBy_isPrefix _ t).subset hc), fun c hc => ?_⟩
  simpa using Text.trimEndBy_getLast? (· = '/') t c hc

/-- A text is read as it is when it is trimmed. -/
theorem read?_eq_trimmed (h : ∀ c ∈ Text.trim s.toList, Alphabet.isSpace c = false) :
    read? s = read? (String.ofList (Text.trimEndBy (· = '/') (Text.trim s.toList))) := by
  simp only [read?, (tight_trimEndBy h).trimmed]

/-- Slashes behind a text are trimmed. -/
theorem Tight.trimEndBy_append (h : Tight t) {slashes : Text} (hslashes : ∀ c ∈ slashes, c = '/') :
    Text.trimEndBy (· = '/') (t ++ slashes) = t :=
  Text.trimEndBy_eq (by simpa using h.noSlash) (by simpa using hslashes)

/-- Slashes behind a text do not count. -/
theorem Tight.read?_append (h : Tight t) {slashes : Text} (hslashes : ∀ c ∈ slashes, c = '/') :
    read? (String.ofList (t ++ slashes)) = read? (String.ofList t) := by
  have hspace : ∀ c ∈ t ++ slashes, Alphabet.isSpace c = false := fun c hc => by
    rcases List.mem_append.mp hc with hc | hc
    · exact h.noSpace c hc
    · rw [hslashes c hc]
      decide
  have htrim : Text.trim (String.ofList (t ++ slashes)).toList = t ++ slashes := by
    rw [String.toList_ofList, Text.trim_of_noSpace hspace]
  rw [read?_eq_trimmed (htrim.symm ▸ hspace), htrim, h.trimEndBy_append hslashes]

/-- A path is read if all its parts have something in them. -/
theorem ofPath?_of_parts (hparts : ∀ part ∈ splitOn '/' t, IsPart part) : ofPath? t =
    match splitOn '/' t with
    | [organization, name] => some (.repository (String.ofList organization) (String.ofList name))
    | _ :: _ :: _ :: _ => some (.file (String.ofList t))
    | _ => none := by
  have hplain : ((splitOn '/' t).any fun part => part.isEmpty || part.any Alphabet.isSpace) = false := by
    rw [List.any_eq_false]
    intro part hpart
    have hne := (hparts part hpart).ne_nil
    have hspace := fun c hc => ((hparts part hpart).plain c hc).2
    simpa [hne] using hspace
  unfold ofPath?
  dsimp only
  rw [hplain]
  rfl

/-- A path that is read has something in each of its parts. -/
theorem isPart_of_ofPath? (h : ofPath? t = some r) : ∀ part ∈ splitOn '/' t, IsPart part := by
  intro part hpart
  unfold ofPath? at h
  dsimp only at h
  split at h
  · cases h
  · next hplain =>
    rw [Bool.not_eq_true, List.any_eq_false] at hplain
    have hpart' := hplain part hpart
    simp only [Bool.or_eq_true, not_or, List.isEmpty_iff, List.any_eq_true, not_exists, not_and,
      Bool.not_eq_true] at hpart'
    refine ⟨hpart'.1, fun c hc => ⟨?_, hpart'.2 c hc⟩⟩
    rintro rfl
    exact Text.separator_notMem_of_mem_splitOn hpart hc

/-- A pair is read as a repository. -/
theorem read?_pair (horganization : IsPart organization) (hname : IsPart name) :
    read? (String.ofList (organization ++ '/' :: name)) =
      some (.repository (String.ofList organization) (String.ofList name)) := by
  have hsplit := splitOn_pair horganization hname
  have hparts : ∀ part ∈ splitOn '/' (organization ++ '/' :: name), IsPart part := by
    simp [hsplit, horganization, hname]
  rw [(tight_pair horganization hname).read?_path (afterScheme?_of_parts hparts), ofPath?_of_parts hparts,
    hsplit]

/-- A pair behind a host is read as a repository. -/
theorem ofUrl?_pair {host : Text} (hhost : '/' ∉ host) (horganization : IsPart organization)
    (hname : IsPart name) (url : Text) :
    ofUrl? url (host ++ '/' :: (organization ++ '/' :: name)) =
      some (.repository (String.ofList organization) (String.ofList name)) := by
  have hparts : ((splitOn '/' (host ++ '/' :: (organization ++ '/' :: name))).drop 1).filter
      (fun part => !part.isEmpty) = [organization, name] := by
    rw [Text.splitOn_append_separator hhost, splitOn_pair horganization hname]
    simp [horganization.ne_nil, hname.ne_nil]
  unfold ofUrl?
  rw [hparts]

/-- What is read from a text without white space. -/
theorem Tight.legible (htight : Tight t) (h : read? (String.ofList t) = some r) : Legible r := by
  cases hscheme : afterScheme? t with
  | some rest =>
    rw [htight.read?_url hscheme] at h
    have hread := h
    unfold ofUrl? at h
    split at h
    · cases h
    · cases h
    · next organization name hparts =>
      -- Each of the two parts is a part of the URL.
      obtain rfl := Option.some.inj h
      have hpart : ∀ part ∈ [organization, name], IsPart part := fun part hmem => by
        rw [← hparts, List.mem_filter] at hmem
        obtain ⟨scheme, hsplit⟩ := splitOn_url hscheme
        refine isPart_of_mem_splitOn htight.noSpace ?_ (by simpa using hmem.2)
        rw [hsplit]
        exact List.mem_cons_of_mem _ (List.mem_cons_of_mem _ (List.mem_of_mem_drop hmem.1))
      exact .repository (hpart _ (by simp)) (hpart _ (by simp))
    · obtain rfl := Option.some.inj h
      exact .url htight hscheme hread
  | none =>
    rw [htight.read?_path hscheme] at h
    have hparts := isPart_of_ofPath? h
    rw [ofPath?_of_parts hparts] at h
    split at h
    · next organization name hsplit =>
      obtain rfl := Option.some.inj h
      rw [hsplit] at hparts
      exact .repository (hparts _ (by simp)) (hparts _ (by simp))
    · next organization name first more hsplit =>
      obtain rfl := Option.some.inj h
      exact .path htight hsplit hparts
    · cases h

end Reference

end Graft
