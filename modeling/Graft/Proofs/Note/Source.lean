import Graft.Note
import Graft.Proofs.Reference.Reading
import Graft.Proofs.Text.Lines
import Graft.Proofs.Text.Space

/-!
# The source of a note and of a command line

A note names its source by a line, and a command line by a word. For a word without white space, this module
tells how the two compare. What a `repo:` line names is what its word is read as, unless the line drops
`.git`, or takes for a scheme what reading does not (`read?_eq_some_iff_of_repoLine?`). A word that is not
read still leads to a place on an `entry:` line if it is a URL, or if it has an empty part and is in three
parts all the same (`source_alike`).
-/

namespace Graft.Note

open Reference (IsPart Tight read? read?_eq_trimmed afterScheme? ofPath? ofPath?_of_parts)
open Text (splitOn trimEndBy)

variable {x line text rest organization name tail word : Text} {r : Reference} {settings : EntrySettings}
  {urls : List String}

/-- A word that ends in `.git`, in whatever case and with or without slashes behind it, where a character of
the last part of the word is in front. -/
def endsInGit (x : Text) : Bool :=
  match Text.afterAlike? sameLetter "tig.".toList (trimEndBy (· = '/') x).reverse with
  | some (c :: _) => c ≠ '/'
  | _ => false

/-- A word that starts with a scheme as a line takes it, with letters in whatever case or a long s for the s,
but with no scheme as it is read. -/
def hasLooseScheme (x : Text) : Bool :=
  ["https://", "http://"].any fun scheme =>
    (Text.afterAlike? sameLetter scheme.toList x).isSome && (Text.follow? scheme x).isNone

/-- A note leads to these URLs: it names a source, and they are the candidates for its entry. -/
def Leads (settings : EntrySettings) (note : Text) (urls : List String) : Prop :=
  ∃ r, sourceReference note = .ok r ∧ Entry.candidates settings r = .ok urls

/-- A path in three parts, the last of which is all that is left, behind slashes that do not count. -/
structure InParts (x slashes organization name path : Text) : Prop where
  eq : x = slashes ++ (organization ++ '/' :: (name ++ '/' :: path))
  slashes : ∀ c ∈ slashes, c = '/'
  ne_nil : organization ≠ []
  organization : '/' ∉ organization
  name : '/' ∉ name
  path : path ≠ []

/-! ## Notes of one line -/

/-- A note of one line that is no fence names what the line names. -/
theorem sourceReference_line (hne : line ≠ []) (h : ∀ c ∈ line, c ≠ '\n' ∧ c ≠ '\r')
    (hfence : fence? line = none) : sourceReference line =
      match repoLine? line <|> entryLine? line with
      | some r => .ok r
      | none => .error .noSourceReference := by
  unfold sourceReference
  rw [Text.lines_eq_singleton hne h, referenceIn?, hfence]
  simp only [Option.isSome_none, Bool.false_eq_true, if_false]
  cases repoLine? line <|> entryLine? line <;> rfl

/-- A keyword and a text without white space are on one line. -/
theorem forall_mem_keyword {keyword : String} (hkeyword : ∀ c ∈ keyword.toList, c ≠ '\n' ∧ c ≠ '\r')
    (hspace : ∀ c ∈ x, Alphabet.isSpace c = false) : ∀ c ∈ keyword.toList ++ x, c ≠ '\n' ∧ c ≠ '\r' := by
  intro c hc
  rcases List.mem_append.mp hc with hc | hc
  · exact hkeyword c hc
  · exact Alphabet.ne_lineBreak_of_isSpace (hspace c hc)

/-- The blank behind a keyword is trimmed, and nothing else. -/
theorem trimStart_blank_cons (hspace : ∀ c ∈ x, Alphabet.isSpace c = false) : Text.trimStart (' ' :: x) = x :=
  (Text.trimStart_blank (u := [' ']) (List.forall_mem_singleton.mpr rfl) x).trans
    (Text.trimStart_of_head? fun c hc => hspace c (List.mem_of_mem_head? hc))

/-- A note of one `repo:` line. -/
theorem sourceReference_repo (hspace : ∀ c ∈ x, Alphabet.isSpace c = false) :
    sourceReference ("repo: ".toList ++ x) = .ok r ↔ repoLine? ("repo: ".toList ++ x) = some r := by
  have hentry : entryLine? ("repo: ".toList ++ x) = none := rfl
  rw [sourceReference_line (by simp) (forall_mem_keyword (by simp) hspace) rfl, hentry]
  cases repoLine? ("repo: ".toList ++ x) <;> simp

/-- A note of one `entry:` line. -/
theorem sourceReference_entry (hspace : ∀ c ∈ x, Alphabet.isSpace c = false) :
    sourceReference ("entry: ".toList ++ x) = .ok r ↔ x ≠ [] ∧ r = .file (String.ofList x) := by
  have hrepo : repoLine? ("entry: ".toList ++ x) = none := rfl
  have hentry : entryLine? ("entry: ".toList ++ x) =
      if x.isEmpty then none else some (.file (String.ofList x)) := by
    have hkey : Text.afterAlike? sameLetter "entry:".toList (Text.trimStart ("entry: ".toList ++ x)) =
        some (' ' :: x) := rfl
    have hword : x.takeWhile (fun c => !Alphabet.isSpace c) = x :=
      List.takeWhile_eq_self_iff.mpr fun c hc => by simp [hspace c hc]
    unfold entryLine?
    rw [hkey, Option.bind_eq_bind, Option.bind_some, trimStart_blank_cons hspace]
    dsimp only
    rw [hword]
    simp
  rw [sourceReference_line (by simp) (forall_mem_keyword (by simp) hspace) rfl, hrepo, hentry]
  cases x <;> simp [eq_comm]

/-! ## Schemes and endings in whatever case -/

/-- Every character is the same as itself. -/
theorem sameLetter_self (c : Char) : sameLetter c c = true := by simp [sameLetter]

/-- A slash is the same as nothing but a slash. -/
theorem sameLetter_slash_iff {w c : Char} (h : sameLetter w c = true) : w = '/' ↔ c = '/' := by
  have hlower : ∀ n < 0x80, Casing.lowerChar (Char.ofNat n) = ['/'] → Char.ofNat n = '/' := by decide +kernel
  constructor
  · rintro rfl
    have h : c = '/' ∨ Casing.lowerChar c = ['/'] ∧ c.toNat < 0x80 := by simpa [sameLetter] using h
    rcases h with hc | ⟨hc, hascii⟩
    · exact hc
    · simpa using hlower c.toNat hascii (by simpa using hc)
  · rintro rfl
    have hslash : Casing.lowerChar '/' = ['/'] := by decide
    have h : '/' = w ∨ '/' = w := by simpa [sameLetter, hslash] using h
    exact (h.elim id id).symm

/-- What is the same as a word has slashes where the word has them. -/
theorem slash_mem_iff {front : Text} (h : List.Forall₂ (fun w c => sameLetter w c = true) word front) :
    '/' ∈ word ↔ '/' ∈ front := by
  induction h with
  | nil => rfl
  | cons hc _ ih => rw [List.mem_cons, List.mem_cons, ih, eq_comm, sameLetter_slash_iff hc, eq_comm]

/-- A word that is read with a scheme has no loose one. -/
theorem hasLooseScheme_of_afterScheme? (h : (afterScheme? x).isSome = true) : hasLooseScheme x = false := by
  obtain ⟨rest, hrest⟩ := Option.isSome_iff_exists.mp h
  rcases Reference.afterScheme?_eq_some hrest with rfl | rfl <;> rfl

/-- A scheme that is found in a word without a loose scheme is spelled as it is read. -/
theorem eq_scheme_append {scheme : String} (hscheme : scheme ∈ ["https://", "http://"])
    (hloose : hasLooseScheme x = false)
    (h : Text.afterAlike? sameLetter scheme.toList x = some rest) : x = scheme.toList ++ rest := by
  have hspelled := List.any_eq_false.mp hloose scheme hscheme
  rw [h] at hspelled
  cases hfollow : Text.follow? scheme x with
  | none => simp [hfollow] at hspelled
  | some behind =>
    have hx := Text.follow?_eq_some_iff.mp hfollow
    rw [hx, Text.afterAlike?_append sameLetter_self] at h
    rw [hx, Option.some.inj h]

/-- A word with a loose scheme has an empty part between the slashes of the scheme. -/
theorem exists_of_hasLooseScheme (h : hasLooseScheme x = true) :
    ∃ front rest, '/' ∉ front ∧ x = front ++ '/' :: '/' :: rest := by
  obtain ⟨scheme, hscheme, h⟩ := List.any_eq_true.mp h
  obtain ⟨rest, hrest⟩ := Option.isSome_iff_exists.mp (Bool.and_eq_true_iff.mp h).1
  obtain ⟨front, rfl, halike⟩ := Text.afterAlike?_eq_some_iff.mp hrest
  -- Both schemes are a word without a slash and two slashes, and a slash is like no other letter.
  have hsplit : ∃ word : Text, '/' ∉ word ∧ scheme.toList = word ++ "//".toList := by
    rcases List.mem_pair.mp hscheme with rfl | rfl
    · exact ⟨"https:".toList, by decide, rfl⟩
    · exact ⟨"http:".toList, by decide, rfl⟩
  obtain ⟨word, hword, hsplit⟩ := hsplit
  rw [hsplit] at halike
  have hbefore := List.forall₂_take word.length halike
  have hbehind := List.forall₂_drop word.length halike
  rw [List.take_left] at hbefore
  rw [List.drop_left] at hbehind
  refine ⟨front.take word.length, rest, fun hmem => hword ((slash_mem_iff hbefore).mpr hmem), ?_⟩
  have hslashes : front.drop word.length = "//".toList := by
    generalize front.drop word.length = slashes at hbehind
    cases hbehind with
    | cons hfirst hbehind =>
      cases hbehind with
      | cons hsecond hbehind =>
        cases hbehind
        rw [(sameLetter_slash_iff hfirst).mp rfl, (sameLetter_slash_iff hsecond).mp rfl]
        rfl
  calc front ++ rest
    _ = front.take word.length ++ front.drop word.length ++ rest := by rw [List.take_append_drop]
    _ = front.take word.length ++ '/' :: '/' :: rest := by rw [hslashes]; simp

/-- A word with a loose scheme is not read. -/
theorem read?_of_hasLooseScheme (hspace : ∀ c ∈ x, Alphabet.isSpace c = false)
    (hloose : hasLooseScheme x = true) : read? (String.ofList x) = none := by
  have htrim : Text.trim (String.ofList x).toList = x := by
    rw [String.toList_ofList, Text.trim_of_noSpace hspace]
  have htight := Reference.tight_trimEndBy hspace
  obtain ⟨slashes, hx⟩ := Text.trimEndBy_isPrefix (· = '/') x
  rw [read?_eq_trimmed (htrim.symm ▸ hspace), htrim]
  generalize trimEndBy (· = '/') x = t at htight hx ⊢
  have hscheme : afterScheme? t = none := by
    rw [Option.eq_none_iff_forall_ne_some]
    intro rest hrest
    have hsome : (afterScheme? x).isSome = true := by
      rcases Reference.afterScheme?_eq_some hrest with rfl | rfl <;> rw [← hx] <;> rfl
    rw [hasLooseScheme_of_afterScheme? hsome] at hloose
    cases hloose
  rw [htight.read?_path hscheme, Option.eq_none_iff_forall_ne_some]
  intro r hread
  have hparts := Reference.isPart_of_ofPath? hread
  have hjoin := Text.joinWith_splitOn '/' t
  rw [ofPath?_of_parts hparts] at hread
  obtain ⟨front, rest, hfront, hurl⟩ := exists_of_hasLooseScheme hloose
  -- The second part would start where the second slash of the scheme is.
  have hnot : ∀ first second more, splitOn '/' t ≠ first :: second :: more := by
    intro first second more hsplit
    rw [hsplit] at hparts hjoin
    have hfirst := (hparts first (by simp)).slash_notMem
    obtain ⟨c, second, rfl⟩ := List.exists_cons_of_ne_nil (hparts second (by simp)).ne_nil
    have hc := ((hparts (c :: second) (by simp)).plain c (by simp)).1
    obtain ⟨behind, hbehind⟩ : ∃ behind, t = first ++ '/' :: c :: behind := by
      cases more with
      | nil => exact ⟨second, by rw [← hjoin]; simp [Text.joinWith]⟩
      | cons third more => exact ⟨second ++ '/' :: Text.joinWith ['/'] (third :: more), by
          rw [← hjoin]; simp [Text.joinWith]⟩
    have hcut : first ++ '/' :: c :: (behind ++ slashes) = front ++ '/' :: '/' :: rest := by
      rw [← hurl, ← hx, hbehind]
      simp
    have hdrop := congrArg (List.dropWhile (· ≠ '/')) hcut
    rw [Text.dropWhile_ne_append hfirst, Text.dropWhile_ne_append hfront] at hdrop
    simp at hdrop
    exact hc hdrop.1
  split at hread
  · next hsplit => exact hnot _ _ _ hsplit
  · next hsplit => exact hnot _ _ _ hsplit
  · cases hread

/-! ## `repo:` lines -/

/-- Names end at a slash. -/
theorem isNameChar_slash : isNameChar '/' = false := by decide

/-- A host is passed over if a slash follows it. -/
theorem skipHost_of_scheme {scheme : String} (hscheme : scheme ∈ ["https://", "http://"])
    (hloose : hasLooseScheme x = false) (h : Text.afterAlike? sameLetter scheme.toList x = some rest)
    (hpath : skipHost x = match rest.takeWhile (fun c => !Alphabet.isSpace c && c ≠ '/'),
        rest.dropWhile (fun c => !Alphabet.isSpace c && c ≠ '/') with
      | _ :: _, '/' :: path => path
      | _, _ => x) :
    skipHost x = x ∨ ∃ host, '/' ∉ host ∧ x = scheme.toList ++ (host ++ '/' :: skipHost x) := by
  split at hpath
  · next c host path htake hdrop =>
    refine Or.inr ⟨c :: host, fun hslash => ?_, ?_⟩
    · rw [← htake] at hslash
      simpa using List.mem_takeWhile_imp hslash
    · rw [hpath, ← htake, ← hdrop, List.takeWhile_append_dropWhile]
      exact eq_scheme_append hscheme hloose h
  · exact Or.inl hpath

/-- What is left of a word behind its host; a word without a host is left as it is. -/
theorem skipHost_cases (hloose : hasLooseScheme x = false) :
    skipHost x = x ∨ ∃ scheme ∈ ["https://", "http://"], ∃ host, '/' ∉ host ∧
      x = scheme.toList ++ (host ++ '/' :: skipHost x) := by
  cases hhttps : Text.afterAlike? sameLetter "https://".toList x with
  | some rest =>
    have hpath := skipHost_of_scheme (by simp) hloose hhttps (by rw [skipHost, hhttps]; rfl)
    exact hpath.imp_right fun ⟨host, h⟩ => ⟨_, by simp, host, h⟩
  | none =>
    cases hhttp : Text.afterAlike? sameLetter "http://".toList x with
    | some rest =>
      have hpath := skipHost_of_scheme (by simp) hloose hhttp (by rw [skipHost, hhttps, hhttp]; rfl)
      exact hpath.imp_right fun ⟨host, h⟩ => ⟨_, by simp, host, h⟩
    | none =>
      left
      rw [skipHost, hhttps, hhttp]
      rfl

/-- What stands on a `repo:` line that names a repository. -/
theorem repoLine?_eq_some (hspace : ∀ c ∈ x, Alphabet.isSpace c = false)
    (h : repoLine? ("repo: ".toList ++ x) = some r) :
    ∃ organization name tail, skipHost x = organization ++ '/' :: (name ++ tail) ∧
      organization ≠ [] ∧ name ≠ [] ∧ '/' ∉ organization ∧ '/' ∉ name ∧ isLineTail tail = true ∧
      r = .repository (String.ofList organization) (String.ofList (withoutGit name)) := by
  have hkey : Text.afterAlike? sameLetter "repo:".toList (Text.trimStart ("repo: ".toList ++ x)) =
      some (' ' :: x) := rfl
  -- Neither name has a slash in it, since a slash is no character of a name.
  have hslash : ∀ t : Text, '/' ∉ t.takeWhile isNameChar := fun t hmem => by
    simpa [isNameChar_slash] using List.mem_takeWhile_imp hmem
  unfold repoLine? at h
  rw [hkey, Option.bind_eq_bind, Option.bind_some, trimStart_blank_cons hspace] at h
  dsimp only at h
  generalize hpath : skipHost x = path at h ⊢
  obtain ⟨text, htext, h⟩ := Option.bind_eq_some_iff.mp h
  split at h
  · cases h
  · next hparts =>
    simp only [Bool.or_eq_true, Bool.not_eq_true', not_or, List.isEmpty_iff, Bool.not_eq_false] at hparts
    obtain ⟨⟨horganization, hname⟩, htail⟩ := hparts
    refine ⟨path.takeWhile isNameChar, text.takeWhile isNameChar, text.dropWhile isNameChar, ?_, horganization,
      hname, hslash _, hslash _, htail, (Option.some.inj h).symm⟩
    have hrest : path.dropWhile isNameChar = "/".toList ++ text := Text.follow?_eq_some_iff.mp htext
    rw [List.takeWhile_append_dropWhile, ← List.singleton_append,
      show ['/'] = "/".toList from rfl, ← hrest, List.takeWhile_append_dropWhile]

/-- Without white space, nothing but a slash is at the end of a line. -/
theorem eq_slash_of_isLineTail (hspace : ∀ c ∈ tail, Alphabet.isSpace c = false)
    (h : isLineTail tail = true) : ∀ c ∈ tail, c = '/' := by
  have hnil : ∀ t : Text, (∀ c ∈ t, Alphabet.isSpace c = false) → t.all Alphabet.isSpace = true → t = [] :=
    fun t hspace hall => List.eq_nil_iff_forall_not_mem.mpr fun c hc => by
      have := List.all_eq_true.mp hall c hc
      rw [hspace c hc] at this
      cases this
  unfold isLineTail at h
  split at h
  · next rest =>
    rw [hnil rest (fun c hc => hspace c (List.mem_cons_of_mem _ hc)) h]
    simp
  · rw [hnil tail hspace h]
    simp

/-- A name keeps its end exactly if the word does not end in `.git`. -/
theorem withoutGit_eq_self_iff {front : Text} (hslash : '/' ∉ name)
    (hend : trimEndBy (· = '/') x = front ++ '/' :: name) : withoutGit name = name ↔ endsInGit x = false := by
  have hword : (trimEndBy (· = '/') x).reverse = name.reverse ++ '/' :: front.reverse := by
    rw [hend]
    simp
  unfold withoutGit endsInGit
  rw [hword]
  split
  · next c kept hname =>
    obtain ⟨ending, hreverse, halike⟩ := Text.afterAlike?_eq_some_iff.mp hname
    have hc : c ≠ '/' := fun hc => hslash (List.mem_reverse.mp (by rw [hreverse, hc]; simp))
    have hbehind : Text.afterAlike? sameLetter "tig.".toList (name.reverse ++ '/' :: front.reverse) =
        some (c :: (kept ++ '/' :: front.reverse)) :=
      Text.afterAlike?_eq_some_iff.mpr ⟨ending, by rw [hreverse]; simp, halike⟩
    have hshort : (c :: kept).reverse ≠ name := by
      intro heq
      have hlength := congrArg List.length hreverse
      rw [List.length_append, ← halike.length_eq, List.length_reverse, ← heq, List.length_reverse] at hlength
      simp at hlength
    rw [hbehind]
    exact iff_of_false hshort (by simp [hc])
  · next hname =>
    have hnot : ∀ c kept, Text.afterAlike? sameLetter "tig.".toList (name.reverse ++ '/' :: front.reverse) =
        some (c :: kept) → c = '/' := by
      intro c kept h
      obtain ⟨ending, hreverse, halike⟩ := Text.afterAlike?_eq_some_iff.mp h
      have hending : '/' ∉ ending := fun hmem => absurd ((slash_mem_iff halike).mpr hmem) (by decide)
      rcases List.append_eq_append_iff.mp hreverse with ⟨more, hmore, hrest⟩ | ⟨more, hmore, hrest⟩
      · -- The ending has no slash, so it ends where the name does.
        cases more with
        | nil => exact (List.cons.inj hrest).1.symm
        | cons d more =>
          refine absurd ?_ hending
          rw [hmore, ← (List.cons.inj hrest).1]
          simp
      · cases more with
        | nil => exact (List.cons.inj hrest).1
        | cons d more =>
          refine absurd (Text.afterAlike?_eq_some_iff.mpr ⟨ending, hmore, halike⟩) ?_
          exact hname d more
    simp only [true_iff]
    split
    · next c kept h => simp [hnot c kept h]
    · rfl

/-- What a `repo:` line without a loose scheme names, and what its word is read as: the name of the
repository may have lost its end. -/
theorem exists_read?_of_repoLine? (hspace : ∀ c ∈ x, Alphabet.isSpace c = false)
    (h : repoLine? ("repo: ".toList ++ x) = some r) (hloose : hasLooseScheme x = false) :
    ∃ organization name, r = .repository (String.ofList organization) (String.ofList (withoutGit name)) ∧
      read? (String.ofList x) = some (.repository (String.ofList organization) (String.ofList name)) ∧
        (withoutGit name = name ↔ endsInGit x = false) := by
  obtain ⟨organization, name, tail, hpath, horganization, hname, hslash, hslash', htail, rfl⟩ :=
    repoLine?_eq_some hspace h
  have hpair : ∀ c ∈ skipHost x, Alphabet.isSpace c = false := by
    rcases skipHost_cases hloose with hskip | ⟨scheme, -, host, -, hx⟩
    · rwa [hskip]
    · intro c hc
      exact hspace c (by rw [hx]; simp [hc])
  rw [hpath] at hpair
  have hparts : IsPart organization ∧ IsPart name :=
    ⟨⟨horganization, fun c hc => ⟨fun heq => hslash (heq ▸ hc), hpair c (by simp [hc])⟩⟩,
      ⟨hname, fun c hc => ⟨fun heq => hslash' (heq ▸ hc), hpair c (by simp [hc])⟩⟩⟩
  have htail' : ∀ c ∈ tail, c = '/' := eq_slash_of_isLineTail (fun c hc => hpair c (by simp [hc])) htail
  have htight := Reference.tight_pair hparts.1 hparts.2
  refine ⟨organization, name, rfl, ?_⟩
  -- The word is the pair itself, or the pair behind a scheme and a host; both are read up to the slashes at
  -- the end.
  rcases skipHost_cases hloose with hskip | ⟨scheme, hscheme, host, hhost, hx⟩
  · have hx : x = organization ++ '/' :: name ++ tail := by rw [← hskip, hpath]; simp
    have hend : trimEndBy (· = '/') x = organization ++ '/' :: name := by
      rw [hx, htight.trimEndBy_append htail']
    refine ⟨?_, withoutGit_eq_self_iff hslash' hend⟩
    rw [hx, htight.read?_append htail', Reference.read?_pair hparts.1 hparts.2]
  · rw [hpath] at hx
    have hx' : x = scheme.toList ++ (host ++ '/' :: (organization ++ '/' :: name)) ++ tail := by
      rw [hx]
      simp
    have htight' : Tight (scheme.toList ++ (host ++ '/' :: (organization ++ '/' :: name))) := by
      have hfront : x = scheme.toList ++ (host ++ ['/']) ++ (organization ++ '/' :: (name ++ tail)) := by
        rw [hx]
        simp
      simpa using htight.append_left (by simp) fun c hc => hspace c (hfront ▸ List.mem_append_left _ hc)
    have hend : trimEndBy (· = '/') x = (scheme.toList ++ (host ++ '/' :: organization)) ++ '/' :: name := by
      rw [hx', htight'.trimEndBy_append htail']
      simp
    refine ⟨?_, withoutGit_eq_self_iff hslash' hend⟩
    rw [hx', htight'.read?_append htail', htight'.read?_url (Reference.afterScheme?_append hscheme _),
      Reference.ofUrl?_pair hhost hparts.1 hparts.2]

/-- What a `repo:` line names is what its word is read as, unless the word has a loose scheme or ends in
`.git`; then it is not. -/
theorem read?_eq_some_iff_of_repoLine? (hspace : ∀ c ∈ x, Alphabet.isSpace c = false)
    (h : repoLine? ("repo: ".toList ++ x) = some r) :
    read? (String.ofList x) = some r ↔ hasLooseScheme x = false ∧ endsInGit x = false := by
  cases hloose : hasLooseScheme x with
  | true => simp [read?_of_hasLooseScheme hspace hloose]
  | false =>
    obtain ⟨organization, name, rfl, hread, hgit⟩ := exists_read?_of_repoLine? hspace h hloose
    rw [hread, ← hgit]
    simp [eq_comm, ← String.toList_inj]

/-! ## `entry:` lines -/

/-- A reference has candidates, or it is refused. -/
theorem candidates_eq_ok_iff : Entry.candidates settings r = .ok urls ↔ Entry.candidates? settings r = some urls := by
  unfold Entry.candidates
  cases Entry.candidates? settings r <;> simp

/-- Joining pieces as strings is joining them as texts. -/
theorem joinWith_map_ofList (pieces : List Text) :
    Word.joinWith "/" (pieces.map String.ofList) = String.ofList (Text.joinWith ['/'] pieces) := by
  apply String.toList_injective
  rw [Word.toList_joinWith, String.toList_ofList, List.map_map]
  simp [Function.comp_def]

/-- The candidate for a URL is the URL. -/
theorem candidates_url (hscheme : (afterScheme? x).isSome = true) :
    Entry.candidates settings (.file (String.ofList x)) = .ok [String.ofList x] := by
  rw [candidates_eq_ok_iff, Entry.candidates?, String.toList_ofList, if_pos hscheme]

/-- The URL of a file of a repository, character by character. -/
theorem url_eq (settings : EntrySettings) (organization name path : Text) :
    Entry.url settings (String.ofList organization) (String.ofList name) (String.ofList path) =
      String.ofList (trimEndBy (· = '/') settings.host.toList ++ '/' :: (organization ++ '/' :: (name ++
        "/blob/".toList ++ settings.branch.toList ++ '/' :: path))) := by
  apply String.toList_injective
  simp [Entry.url]

/-- The candidates for a file that is no URL, by the parts of its path. -/
theorem candidates?_file (hscheme : (afterScheme? x).isSome = false) :
    Entry.candidates? settings (.file (String.ofList x)) =
      match splitOn '/' (x.dropWhile (· = '/')) with
      | organization :: name :: first :: more =>
        if Text.joinWith ['/'] (first :: more) = [] then none
        else some [Entry.url settings (String.ofList organization) (String.ofList name)
          (String.ofList (Text.joinWith ['/'] (first :: more)))]
      | _ => none := by
  have hpieces : Word.splitOn '/' (Entry.withoutLeadingSlashes (String.ofList x)) =
      (splitOn '/' (x.dropWhile (· = '/'))).map String.ofList := by
    rw [Entry.withoutLeadingSlashes, Word.splitOn, String.toList_ofList, String.toList_ofList]
  have hempty : ∀ t : Text, (String.ofList t).isEmpty = decide (t = []) := fun t => by
    rw [Bool.eq_iff_iff, String.isEmpty_iff, decide_eq_true_iff, ← String.toList_inj]
    simp
  unfold Entry.candidates?
  dsimp only
  rw [String.toList_ofList, hscheme, hpieces]
  -- Only with a third part is there a path, and the path may still be empty.
  rcases splitOn '/' (x.dropWhile (· = '/')) with _ | ⟨organization, _ | ⟨name, _ | ⟨first, more⟩⟩⟩
  · rfl
  · rfl
  · rfl
  · simp only [List.map_cons]
    rw [← List.map_cons, joinWith_map_ofList, hempty]
    simp

/-- Of a word in parts, the slashes at the start are dropped. -/
theorem InParts.splitOn_eq {slashes path : Text} (h : InParts x slashes organization name path) :
    splitOn '/' (x.dropWhile (· = '/')) = organization :: name :: splitOn '/' path := by
  obtain ⟨c, others, hcons⟩ := List.exists_cons_of_ne_nil h.ne_nil
  have hc : c ≠ '/' := fun hc => h.organization (by simp [hcons, hc])
  have hdrop : x.dropWhile (· = '/') = organization ++ '/' :: (name ++ '/' :: path) := by
    rw [h.eq, List.dropWhile_append_of_pos (by simpa using h.slashes), hcons, List.cons_append,
      List.dropWhile_cons_of_neg (by simpa using hc)]
  rw [hdrop, Text.splitOn_append_separator h.organization, Text.splitOn_append_separator h.name]

/-- The candidate for a word in parts. -/
theorem InParts.candidates {slashes path : Text} (h : InParts x slashes organization name path)
    (hscheme : (afterScheme? x).isSome = false) (settings : EntrySettings) :
    Entry.candidates settings (.file (String.ofList x)) =
      .ok [Entry.url settings (String.ofList organization) (String.ofList name) (String.ofList path)] := by
  obtain ⟨first, more, hpath⟩ := Text.exists_splitOn_eq_cons '/' path
  rw [candidates_eq_ok_iff, candidates?_file hscheme, h.splitOn_eq, hpath]
  dsimp only
  rw [← hpath, Text.joinWith_splitOn, if_neg h.path]

/-- A word that has a candidate and is no URL is in parts. -/
theorem exists_inParts (hscheme : (afterScheme? x).isSome = false)
    (h : Entry.candidates settings (.file (String.ofList x)) = .ok urls) :
    ∃ slashes organization name path, InParts x slashes organization name path := by
  rw [candidates_eq_ok_iff, candidates?_file hscheme] at h
  -- A path of at least three parts, of which the third and all behind it are put together again.
  split at h
  · next organization name first more hsplit =>
    split at h
    · cases h
    · next hpath =>
      have hmem : ∀ part ∈ organization :: name :: first :: more, '/' ∉ part := fun part hpart =>
        Text.separator_notMem_of_mem_splitOn (hsplit ▸ hpart)
      have hjoin : organization ++ '/' :: (name ++ '/' :: Text.joinWith ['/'] (first :: more)) =
          x.dropWhile (· = '/') := by
        rw [← Text.joinWith_splitOn '/' (x.dropWhile (· = '/')), hsplit]
        simp [Text.joinWith]
      refine ⟨x.takeWhile (· = '/'), organization, name, Text.joinWith ['/'] (first :: more), ?_,
        fun c hc => by simpa using List.mem_takeWhile_imp hc, ?_, hmem _ (by simp), hmem _ (by simp), hpath⟩
      · rw [hjoin, List.takeWhile_append_dropWhile]
      · rintro rfl
        have := List.head?_dropWhile_not (fun c : Char => decide (c = '/')) x
        rw [← hjoin] at this
        simp at this
  · cases h

/-- The parts behind a slash are the last ones of the whole, and there is one before the slash. -/
theorem exists_splitOn_append (front rest : Text) :
    ∃ first pieces, splitOn '/' (front ++ '/' :: rest) = first :: (pieces ++ splitOn '/' rest) := by
  induction front with
  | nil => exact ⟨[], [], Text.splitOn_separator '/' rest⟩
  | cons c front ih =>
    obtain ⟨first, pieces, hsplit⟩ := ih
    by_cases hc : c = '/'
    · exact ⟨[], first :: pieces, by rw [hc, List.cons_append, Text.splitOn_separator, hsplit]; rfl⟩
    · exact ⟨c :: first, pieces, Text.splitOn_cons_of_ne hc hsplit⟩

/-- A word in parts that is not read has an empty part. -/
theorem InParts.gap {slashes path : Text} (h : InParts x slashes organization name path)
    (hspace : ∀ c ∈ x, Alphabet.isSpace c = false) (hscheme : afterScheme? x = none)
    (hread : read? (String.ofList x) = none) : [] ∈ splitOn '/' x := by
  by_contra hgap
  have hparts : ∀ part ∈ splitOn '/' x, IsPart part := fun part hpart =>
    Reference.isPart_of_mem_splitOn hspace hpart fun hnil => hgap (hnil ▸ hpart)
  have htight : Tight x := by
    refine ⟨hspace, fun c hc hslash => hgap ?_⟩
    obtain ⟨front, hx⟩ := List.getLast?_eq_some_iff.mp hc
    obtain ⟨first, pieces, hsplit⟩ := exists_splitOn_append front []
    rw [hx, hslash, hsplit]
    simp [splitOn]
  -- A slash in front would make the first part empty.
  have hslashes : slashes = [] := by
    cases slashes with
    | nil => rfl
    | cons c slashes =>
      refine absurd ?_ hgap
      rw [h.eq, h.slashes c List.mem_cons_self, List.cons_append, Text.splitOn_separator]
      exact List.mem_cons_self
  have hsplit : splitOn '/' x = organization :: name :: splitOn '/' path := by
    rw [h.eq, hslashes, List.nil_append, Text.splitOn_append_separator h.organization,
      Text.splitOn_append_separator h.name]
  obtain ⟨first, more, hpath⟩ := Text.exists_splitOn_eq_cons '/' path
  rw [htight.read?_path hscheme, Reference.ofPath?_of_parts hparts, hsplit, hpath] at hread
  cases hread

/-- Of a word without white space: if a `repo:` line with it names a source, then the word is read as that
exactly if it does not end in `.git` and its scheme is none that only a line takes for one. If the word is not
read, then an `entry:` line with it leads to a place exactly if the word is a URL, which then is the place
itself, or has an empty part and still three parts, the last one not empty, behind the slashes at its start;
the place then is on the branch of the repository at the host. -/
theorem source_alike (hspace : ∀ c ∈ x, Alphabet.isSpace c = false) :
    (∀ r, sourceReference ("repo: ".toList ++ x) = .ok r →
        (read? (String.ofList x) = some r ↔ hasLooseScheme x = false ∧ endsInGit x = false)) ∧
      (read? (String.ofList x) = none → ∀ settings urls, Leads settings ("entry: ".toList ++ x) urls ↔
        ((afterScheme? x).isSome = true ∧ urls = [String.ofList x]) ∨
          ((afterScheme? x).isSome = false ∧ [] ∈ splitOn '/' x ∧ ∃ slashes organization name path,
            InParts x slashes organization name path ∧ urls =
              [String.ofList (trimEndBy (· = '/') settings.host.toList ++ '/' :: (organization ++ '/' :: (name ++
                "/blob/".toList ++ settings.branch.toList ++ '/' :: path)))])) := by
  refine ⟨fun r hr => read?_eq_some_iff_of_repoLine? hspace ((sourceReference_repo hspace).mp hr),
    fun hread settings urls => ?_⟩
  -- From the places to the word, and back.
  constructor
  · rintro ⟨r, hr, hurls⟩
    obtain ⟨-, rfl⟩ := (sourceReference_entry hspace).mp hr
    cases hscheme : afterScheme? x with
    | some rest =>
      rw [candidates_url (by rw [hscheme]; rfl)] at hurls
      exact Or.inl ⟨rfl, (Except.ok.inj hurls).symm⟩
    | none =>
      have hnone : (afterScheme? x).isSome = false := by rw [hscheme]; rfl
      obtain ⟨slashes, organization, name, path, hparts⟩ := exists_inParts hnone hurls
      rw [hparts.candidates hnone, url_eq] at hurls
      exact Or.inr ⟨rfl, hparts.gap hspace hscheme hread, slashes, organization, name, path, hparts,
        (Except.ok.inj hurls).symm⟩
  · rintro (⟨hscheme, rfl⟩ | ⟨hscheme, -, slashes, organization, name, path, hparts, rfl⟩)
    · refine ⟨_, (sourceReference_entry hspace).mpr ⟨?_, rfl⟩, candidates_url hscheme⟩
      rintro rfl
      cases hscheme
    · refine ⟨_, (sourceReference_entry hspace).mpr ⟨?_, rfl⟩, ?_⟩
      · rw [hparts.eq]
        simp [hparts.ne_nil]
      · rw [hparts.candidates hscheme settings, url_eq]

/-- A repository with a host and a slash behind it is read alike. A path with two slashes in a row is not
read, but an `entry:` line with it leads to a place. -/
theorem source_alike_slashes :
    (∀ c ∈ "https://x.test/o/r/".toList, Alphabet.isSpace c = false) ∧
      sourceReference "repo: https://x.test/o/r/".toList = .ok (.repository "o" "r") ∧
      hasLooseScheme "https://x.test/o/r/".toList = false ∧ endsInGit "https://x.test/o/r/".toList = false ∧
      read? "https://x.test/o/r/" = some (.repository "o" "r") ∧
      (∀ c ∈ "o//p.js".toList, Alphabet.isSpace c = false) ∧ read? "o//p.js" = none ∧
      Leads {} "entry: o//p.js".toList ["https://github.com/o//blob/main/p.js"] := by
  have hspace : ∀ c ∈ "https://x.test/o/r/".toList, Alphabet.isSpace c = false :=
    Alphabet.isSpace_of_any (by decide +kernel)
  have hsource : sourceReference "repo: https://x.test/o/r/".toList = .ok (.repository "o" "r") := by
    decide +kernel
  have hspace' : ∀ c ∈ "o//p.js".toList, Alphabet.isSpace c = false :=
    Alphabet.isSpace_of_any (by decide +kernel)
  have hread : read? "o//p.js" = none := by decide +kernel
  refine ⟨hspace, hsource, by decide +kernel, by decide +kernel,
    ((source_alike hspace).1 _ hsource).mpr ⟨by decide +kernel, by decide +kernel⟩, hspace', hread, ?_⟩
  refine ((source_alike hspace').2 hread {} _).mpr (Or.inr ⟨by decide +kernel, by decide +kernel,
    [], ['o'], [], "p.js".toList, ⟨rfl, by simp, by simp, by simp, by simp, by simp⟩, ?_⟩)
  decide +kernel

/-- A line drops `.git` and overlooks the case of a scheme, which reading does not. What is refused when it is
read, since a part of it is empty or a URL has one part only, leads to a place on an `entry:` line. -/
theorem source_apart :
    (sourceReference "repo: o/r.git".toList = .ok (.repository "o" "r") ∧
        read? "o/r.git" = some (.repository "o" "r.git")) ∧
      (sourceReference "repo: HTTPS://x.test/o/r".toList = .ok (.repository "o" "r") ∧
        read? "HTTPS://x.test/o/r" = none) ∧
      (read? "org//repo" = none ∧ sourceReference "entry: org//repo".toList = .ok (.file "org//repo") ∧
        Entry.candidates {} (.file "org//repo") = .ok ["https://github.com/org//blob/main/repo"]) ∧
      (read? "/o/r/p.js" = none ∧ sourceReference "entry: /o/r/p.js".toList = .ok (.file "/o/r/p.js") ∧
        Entry.candidates {} (.file "/o/r/p.js") = .ok ["https://github.com/o/r/blob/main/p.js"]) ∧
      read? "https://x.test/p.js" = none ∧
        sourceReference "entry: https://x.test/p.js".toList = .ok (.file "https://x.test/p.js") ∧
        Entry.candidates {} (.file "https://x.test/p.js") = .ok ["https://x.test/p.js"] := by
  decide +kernel

end Graft.Note
