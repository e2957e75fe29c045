import Graft.Declaration.Header
import Graft.Proofs.Text.Front

/-!
# How a header is written

A header that is read at the start of a line stands there: an `export` that is left out, markers, the
name, and what opens the parameter list or, for an arrow function, the parameters and the arrow
(`exists_spelled`). Nothing of the line is lost, so every place in what follows the header is a place in
the line.
-/

namespace Graft.Declaration.Header

variable {t rest run : Text} {word : String} {p : Char → Bool}

/-- The first of two readings, or the second one if the first fails. -/
theorem orElse_eq_some {α : Type} {x y : Option α} {a : α} (h : (x <|> y) = some a) :
    x = some a ∨ (x = none ∧ y = some a) := by
  rw [Option.orElse_eq_orElse, Option.orElse_eq_or] at h
  exact Option.or_eq_some_iff.mp h

/-- A word with the white space behind it, which may be missing. -/
theorem keyword?_eq_some (h : keyword? word t = some rest) :
    ∃ blank, t = word.toList ++ (blank ++ rest) ∧ ∀ c ∈ blank, Alphabet.isSpace c = true := by
  unfold keyword? at h
  obtain ⟨behind, hbehind, h⟩ := Option.bind_eq_some_iff.mp h
  split at h
  · obtain ⟨blank, hblank, hspace⟩ := Text.exists_trimStart behind
    obtain rfl := Option.some.inj h
    exact ⟨blank, by rw [← hblank, Text.follow?_eq_some_iff.mp hbehind], hspace⟩
  · cases h

/-- A word with the white space behind it, which must be there. -/
theorem spacedKeyword?_eq_some (h : spacedKeyword? word t = some rest) :
    ∃ blank, t = word.toList ++ (blank ++ rest) ∧ blank ≠ [] ∧
      ∀ c ∈ blank, Alphabet.isSpace c = true := by
  unfold spacedKeyword? at h
  obtain ⟨behind, hbehind, h⟩ := Option.bind_eq_some_iff.mp h
  obtain ⟨blank, rfl, hne, hspace⟩ := Text.spaces?_eq_some h
  exact ⟨blank, Text.follow?_eq_some_iff.mp hbehind, hne, hspace⟩

/-- A run of a class at the front, and what follows it. -/
theorem run?_eq_some (h : run? p t = some (run, rest)) :
    t = run ++ rest ∧ run ≠ [] ∧ (∀ c ∈ run, p c = true) ∧ ∀ c ∈ rest.head?, p c = false := by
  unfold run? at h
  split at h
  · cases h
  · next hne =>
    obtain ⟨rfl, rfl⟩ := Prod.mk.inj (Option.some.inj h)
    refine ⟨List.takeWhile_append_dropWhile.symm, by simpa using hne, fun c hc => List.mem_takeWhile_imp hc,
      fun c hc => ?_⟩
    have := List.head?_dropWhile_not p t
    rw [Option.mem_def.mp hc] at this
    simpa using this

/-- A run of a class ends before a character that is not of the class. -/
theorem run?_append (hne : run ≠ []) (hrun : ∀ c ∈ run, p c = true)
    (hrest : ∀ c ∈ rest.head?, p c = false) : run? p (run ++ rest) = some (run, rest) := by
  have hstop : rest.takeWhile p = [] ∧ rest.dropWhile p = rest := by
    cases rest with
    | nil => exact ⟨rfl, rfl⟩
    | cons c rest =>
      have hc : p c = false := hrest c (by simp)
      simp [hc]
  have htake : (run ++ rest).takeWhile p = run := by
    rw [List.takeWhile_append_of_pos hrun, hstop.1, List.append_nil]
  have hdrop : (run ++ rest).dropWhile p = rest := by
    rw [List.dropWhile_append_of_pos hrun, hstop.2]
  unfold run?
  rw [htake, hdrop]
  simp [hne]

/-- A generator's star with the white space behind it, if there is one. -/
theorem exists_star (t : Text) :
    ∃ marks, t = marks ++ (star t).2 ∧ ∀ c ∈ marks, Alphabet.isSpace c = true ∨ c = '*' := by
  unfold star
  split
  · next rest =>
    obtain ⟨blank, hblank, hspace⟩ := Text.exists_trimStart rest
    refine ⟨'*' :: blank, by rw [List.cons_append, ← hblank], fun c hc => ?_⟩
    exact (List.mem_cons.mp hc).symm.imp (hspace c) id
  · exact ⟨[], rfl, by simp⟩

/-! ## Headers -/

/-- The words that a declaration may start with. -/
def declaringWords : List String := ["async", "function", "const", "let"]

/-- An `export` with the white space behind it, or nothing. -/
def IsExport (t : Text) : Prop :=
  t = [] ∨ ∃ blank, t = "export".toList ++ blank ∧ blank ≠ [] ∧ ∀ c ∈ blank, Alphabet.isSpace c = true

/-- A line falls into an `export`, if there is one, and what is declared. -/
theorem exists_export (line : Text) :
    ∃ exported, line = exported ++ (spacedKeyword? "export" line).getD line ∧ IsExport exported := by
  cases hline : spacedKeyword? "export" line with
  | none => exact ⟨[], rfl, Or.inl rfl⟩
  | some declared =>
    obtain ⟨blank, rfl, hne, hspace⟩ := spacedKeyword?_eq_some hline
    exact ⟨"export".toList ++ blank, (List.append_assoc ..).symm, Or.inr ⟨blank, rfl, hne, hspace⟩⟩

/-- The text of a header in front of its rest: `marker` before the name and `opening` behind it. -/
structure Spelled (h : Header) (marker opening : Text) : Prop where
  declared : h.declared = marker ++ (h.name ++ (opening ++ h.rest))
  word : ∃ word ∈ declaringWords, word.toList <+: marker
  name : h.name ≠ []
  /-- A function's header ends with a parenthesis, and that of an arrow function holds its parameters behind
  an equals sign. -/
  kind : match h.kind with
    | .function _ => ∃ before, opening = before ++ ['(']
    | .arrow parameters => ∃ before behind, '=' ∈ before ∧ opening = before ++ (parameters ++ behind)

variable {h : Header} {line declared parameters : Text} {isAsync : Bool}

/-- A function's header is the keyword, marks and white space, the name, and a parenthesis at the end. -/
theorem function?_eq_some (hread : function? declared isAsync t = some h) :
    ∃ marks blank isGenerator, t = "function".toList ++ (marks ++ (h.name ++ (blank ++ '(' :: h.rest))) ∧
      h.declared = declared ∧ h.name ≠ [] ∧ h.kind = .function isGenerator := by
  unfold function? at hread
  obtain ⟨behind, hbehind, hread⟩ := Option.bind_eq_some_iff.mp hread
  obtain ⟨marks, hmarks, -⟩ := exists_star behind
  obtain ⟨isGenerator, unmarked, hstar⟩ : ∃ g u, star behind = (g, u) := ⟨_, _, rfl⟩
  rw [hstar] at hread hmarks
  obtain ⟨⟨name, text⟩, hrun, hread⟩ := Option.bind_eq_some_iff.mp hread
  obtain ⟨rest, hrest, hread⟩ := Option.bind_eq_some_iff.mp hread
  obtain rfl := Option.some.inj hread
  obtain ⟨space, rfl, -⟩ := keyword?_eq_some hbehind
  obtain ⟨hname, hne, -⟩ := run?_eq_some hrun
  obtain ⟨blank, hblank, -⟩ := Text.exists_trimStart text
  have hopen : Text.trimStart text = '(' :: rest := Text.follow?_eq_some_iff.mp hrest
  refine ⟨space ++ marks, blank, isGenerator, ?_, rfl, hne, rfl⟩
  rw [List.append_assoc, ← hopen, ← hblank, ← hname, ← hmarks]

/-- The parameters are a part of the text that they are read from. -/
theorem parameters?_eq_some (hread : parameters? t = some (parameters, rest)) :
    ∃ before behind, t = before ++ (parameters ++ (behind ++ rest)) := by
  unfold parameters? at hread
  split at hread
  · next t =>
    split at hread
    · next c tail hdrop =>
      obtain ⟨rfl, rfl⟩ := Prod.mk.inj (Option.some.inj hread)
      refine ⟨['('], [c], ?_⟩
      rw [List.singleton_append, List.singleton_append, ← hdrop, List.takeWhile_append_dropWhile]
    · cases hread
  · next c t _ =>
    split at hread
    · obtain ⟨rfl, rfl⟩ := Prod.mk.inj (Option.some.inj hread)
      refine ⟨[], [], ?_⟩
      rw [List.nil_append, List.nil_append, List.cons_append, List.takeWhile_append_dropWhile]
    · cases hread
  · cases hread

/-- So they are where an arrow follows them. -/
theorem arrowParameters?_eq_some (hread : arrowParameters? t = some (parameters, rest)) :
    ∃ before behind, t = before ++ (parameters ++ (behind ++ rest)) := by
  unfold arrowParameters? at hread
  obtain ⟨⟨found, text⟩, hfound, hread⟩ := Option.bind_eq_some_iff.mp hread
  obtain ⟨after, hafter, hread⟩ := Option.bind_eq_some_iff.mp hread
  obtain ⟨rfl, rfl⟩ := Prod.mk.inj (Option.some.inj hread)
  obtain ⟨before, behind, rfl⟩ := parameters?_eq_some hfound
  obtain ⟨blank, hblank, -⟩ := Text.exists_trimStart text
  refine ⟨before, behind ++ (blank ++ "=>".toList), ?_⟩
  rw [List.append_assoc, List.append_assoc, ← Text.follow?_eq_some_iff.mp hafter, ← hblank]

/-- So they are behind an `async` marker. -/
theorem arrowTail?_eq_some (hread : arrowTail? t = some (isAsync, parameters, rest)) :
    ∃ before behind, t = before ++ (parameters ++ (behind ++ rest)) := by
  unfold arrowTail? at hread
  split at hread
  · next found after hmarked =>
    obtain ⟨text, htext, hfound⟩ := Option.bind_eq_some_iff.mp hmarked
    obtain ⟨-, rfl, rfl⟩ : true = isAsync ∧ found = parameters ∧ after = rest := by simpa using hread
    obtain ⟨blank, rfl, -⟩ := keyword?_eq_some htext
    obtain ⟨before, behind, rfl⟩ := arrowParameters?_eq_some hfound
    exact ⟨"async".toList ++ (blank ++ before), behind, by simp only [List.append_assoc]⟩
  · obtain ⟨⟨found, after⟩, hfound, hread⟩ := Option.map_eq_some_iff.mp hread
    obtain ⟨-, rfl, rfl⟩ : false = isAsync ∧ found = parameters ∧ after = rest := by simpa using hread
    exact arrowParameters?_eq_some hfound

/-- An arrow function's header is spelt from its declaring keyword on. -/
theorem arrow?_eq_some (hread : arrow? declared = some h) :
    ∃ marker opening, h.declared = declared ∧ Spelled h marker opening := by
  unfold arrow? at hread
  obtain ⟨text, htext, hread⟩ := Option.bind_eq_some_iff.mp hread
  obtain ⟨⟨name, behind⟩, hrun, hread⟩ := Option.bind_eq_some_iff.mp hread
  obtain ⟨value, hvalue, hread⟩ := Option.bind_eq_some_iff.mp hread
  obtain ⟨⟨isAsync, parameters, rest⟩, htail, hread⟩ := Option.bind_eq_some_iff.mp hread
  obtain rfl := Option.some.inj hread
  have hword : ∃ word ∈ declaringWords, ∃ blank, declared = word.toList ++ (blank ++ text) := by
    rcases orElse_eq_some htext with hconst | ⟨-, hlet⟩
    · obtain ⟨blank, hblank, -⟩ := spacedKeyword?_eq_some hconst
      exact ⟨"const", by simp [declaringWords], blank, hblank⟩
    · obtain ⟨blank, hblank, -⟩ := spacedKeyword?_eq_some hlet
      exact ⟨"let", by simp [declaringWords], blank, hblank⟩
  obtain ⟨word, hmem, blank, rfl⟩ := hword
  obtain ⟨rfl, hne, -⟩ := run?_eq_some hrun
  obtain ⟨space, hspace, -⟩ := Text.exists_trimStart behind
  obtain ⟨gap, hgap, -⟩ := Text.exists_trimStart value
  obtain ⟨before, arrow, harrow⟩ := arrowTail?_eq_some htail
  -- Each part was cut off what the one before it left, so the text is put together from these cuts.
  refine ⟨word.toList ++ blank, space ++ ("=".toList ++ (gap ++ (before ++ (parameters ++ arrow)))), rfl,
    ⟨?_, ⟨word, hmem, List.prefix_append _ _⟩, hne, ?_⟩⟩
  · show word.toList ++ (blank ++ (name ++ behind)) = _
    rw [hspace, Text.follow?_eq_some_iff.mp hvalue, hgap, harrow]
    simp only [List.append_assoc]
  · exact ⟨space ++ ("=".toList ++ (gap ++ before)), arrow, by simp, by simp only [List.append_assoc]⟩

/-- A function's header behind what stands before its keyword. -/
theorem spelled_of_function (marker : Text) (hread : function? (marker ++ t) isAsync t = some h)
    (hword : ∃ word ∈ declaringWords, word.toList <+: marker ++ "function".toList) :
    ∃ marks opening, h.declared = marker ++ t ∧ Spelled h (marker ++ marks) opening := by
  obtain ⟨marks, blank, isGenerator, ht, hdeclared, hne, hkind⟩ := function?_eq_some hread
  refine ⟨"function".toList ++ marks, blank ++ ['('], hdeclared, ⟨?_, ?_, hne, ?_⟩⟩
  · rw [hdeclared, ht]
    simp
  · obtain ⟨word, hmem, hprefix⟩ := hword
    refine ⟨word, hmem, hprefix.trans ?_⟩
    rw [← List.append_assoc]
    exact List.prefix_append _ _
  · rw [hkind]
    exact ⟨blank, rfl⟩

/-- A header stands at the start of the line that it is read from, behind an `export` that is left
out. -/
theorem exists_spelled (hread : read? line = some h) :
    ∃ exported marker opening, line = exported ++ h.declared ∧ IsExport exported ∧
      Spelled h marker opening := by
  unfold read? at hread
  obtain ⟨exported, hline, hexported⟩ := exists_export line
  generalize (spacedKeyword? "export" line).getD line = declared at hread hline
  suffices hspelled : ∃ marker opening, h.declared = declared ∧ Spelled h marker opening by
    obtain ⟨marker, opening, rfl, hspelled⟩ := hspelled
    exact ⟨exported, marker, opening, hline, hexported, hspelled⟩
  dsimp only at hread
  -- An async function, a function, or an arrow function.
  split at hread
  · next text hasync =>
    obtain ⟨blank, rfl, -⟩ := spacedKeyword?_eq_some hasync
    rw [← List.append_assoc] at hread ⊢
    obtain ⟨marks, opening, hspelled⟩ := spelled_of_function _ hread
      ⟨"async", by simp [declaringWords], (List.prefix_append _ blank).trans (List.prefix_append _ _)⟩
    exact ⟨_, opening, hspelled⟩
  · rcases orElse_eq_some hread with hfunction | ⟨-, harrow⟩
    · obtain ⟨marks, opening, hspelled⟩ := spelled_of_function [] hfunction
        ⟨"function", by simp [declaringWords], List.prefix_refl _⟩
      exact ⟨_, opening, hspelled⟩
    · exact arrow?_eq_some harrow

end Graft.Declaration.Header
