import Graft.Proofs.Text.Space
import Graft.Proofs.Viewer.Strings
import Graft.Proofs.Viewer.Scalars

/-!
# Values of JSON

The reader of values takes exactly the texts of the grammar, and reads each as the value that it writes
(`read?_eq_some_iff`). In one direction the induction is on how a text is put together (`Writes.reads`);
a value of `n` characters is read with a fuel of `2 * n`, however deep it is nested. In the other it is on
the fuel, for the values, the elements and the members at once (`sound`).
-/

namespace Graft.Viewer.Json

variable {c : Char} {fuel : Nat} {t u v s rest behind : Text} {key text : Option Text} {j : Json}
  {js : List Json} {ms : List (Option Text × Json)} {p : Phrase}

/-! ## White space -/

/-- White space between tokens is one of four characters. -/
theorem isSpace_iff : isSpace c = true ↔ c = ' ' ∨ c = '\n' ∨ c = '\t' ∨ c = '\r' := by
  simp [isSpace, or_assoc]

/-- White space between the tokens is white space. -/
theorem isSpace_of_alphabet (h : Alphabet.isSpace c = false) : isSpace c = false := by
  rw [← Bool.not_eq_true, isSpace_iff]
  rintro (rfl | rfl | rfl | rfl)
  all_goals cases h

/-- White space in front is skipped. -/
theorem Blank.skip (hu : Blank u) (t : Text) : skip (u ++ t) = skip t :=
  List.dropWhile_append_of_pos fun c hc => isSpace_iff.mpr (hu c hc)

/-- What is skipped is white space. -/
theorem exists_skip (t : Text) : ∃ u, Blank u ∧ t = u ++ skip t :=
  ⟨t.takeWhile isSpace, fun _ hc => isSpace_iff.mp (List.mem_takeWhile_imp hc),
    List.takeWhile_append_dropWhile.symm⟩

/-- Nothing is skipped in front of a token. -/
theorem skip_cons (hc : isSpace c = false) (t : Text) : skip (c :: t) = c :: t :=
  List.dropWhile_cons_of_neg (by simp [hc])

/-- Nothing is white space too. -/
theorem blank_nil : Blank [] := fun _ hc => by cases hc

/-! ## How texts start and end -/

/-- Behind white space, a text starts with a character that closes nothing. -/
def Opens (t : Text) : Prop :=
  ∃ u c s, Blank u ∧ t = u ++ c :: s ∧ isSpace c = false ∧ c ≠ ']' ∧ c ≠ '}'

/-- A text that starts with a character that closes nothing still does with more behind it. -/
theorem Opens.append_right (h : Opens t) (s : Text) : Opens (t ++ s) := by
  obtain ⟨u, c, r, hu, rfl, hc⟩ := h
  exact ⟨u, c, r ++ s, hu, by simp, hc⟩

/-- A text that starts with a character that closes nothing still does with white space in front. -/
theorem Blank.opens (hu : Blank u) (h : Opens t) : Opens (u ++ t) := by
  obtain ⟨v, c, r, hv, rfl, hc⟩ := h
  refine ⟨u ++ v, c, r, ?_, by simp, hc⟩
  exact fun d hd => (List.mem_append.mp hd).elim (hu d) (hv d)

/-- A character that is no white space and closes nothing may be the first one. -/
theorem opens_cons (hspace : isSpace c = false) (hbracket : c ≠ ']') (hbrace : c ≠ '}') : Opens (c :: t) :=
  ⟨[], c, t, blank_nil, rfl, hspace, hbracket, hbrace⟩

/-- A number, a truth value or null starts with nothing that starts another value or ends one. -/
theorem Scalar.exists_cons (h : Scalar t) : ∃ c s, t = c :: s ∧ Alphabet.isSpace c = false ∧
    c ≠ '"' ∧ c ≠ '[' ∧ c ≠ '{' ∧ c ≠ ']' ∧ c ≠ '}' := by
  obtain ⟨c, s, rfl, hc⟩ := h.head
  refine ⟨c, s, rfl, ?_⟩
  obtain rfl | hdigit | rfl | rfl | rfl := hc
  · decide
  · have hne {d : Char} (hd : Alphabet.isDigit d = false) : c ≠ d := by
      rintro rfl
      rw [hdigit] at hd
      cases hd
    exact ⟨Alphabet.isSpace_of_isDigit hdigit, hne rfl, hne rfl, hne rfl, hne rfl, hne rfl⟩
  · decide
  · decide
  · decide

/-- A key opens with a quotation mark. -/
theorem Key.opens (h : Key key t) : Opens t := by
  obtain ⟨hu, _, _⟩ := h
  exact hu.opens (opens_cons rfl (by decide) (by decide))

/-- No part of a text starts with a bracket or a brace that closes. -/
theorem Writes.opens (h : Writes p t) : Opens t := by
  induction h with
  | scalar h =>
    obtain ⟨c, s, rfl, hspace, -, -, -, hbracket, hbrace⟩ := h.exists_cons
    exact opens_cons (isSpace_of_alphabet hspace) hbracket hbrace
  | string => exact opens_cons rfl (by decide) (by decide)
  | emptyArray => exact opens_cons rfl (by decide) (by decide)
  | array => exact opens_cons rfl (by decide) (by decide)
  | emptyObject => exact opens_cons rfl (by decide) (by decide)
  | object => exact opens_cons rfl (by decide) (by decide)
  | element hu _ _ ih => exact hu.opens (ih.append_right _)
  | lastItem _ ih => exact ih
  | item _ _ ih _ => exact ih.append_right _
  | lastMember hkey => exact hkey.opens.append_right _
  | member hkey => exact hkey.opens.append_right _

/-- A text starts with what stands behind an element, if it starts with anything. -/
def Ends (t : Text) : Prop := ∀ c ∈ t.head?, c = ',' ∨ c = ']' ∨ c = '}'

/-- Nothing is skipped where an item or a member ends. -/
theorem Ends.skip (h : Ends t) : skip t = t := by
  cases t with
  | nil => rfl
  | cons c t =>
    refine skip_cons ?_ t
    obtain rfl | rfl | rfl := h c (by simp)
    all_goals rfl

/-- Neither white space nor the end of an element goes on with a number. -/
theorem Blank.stops (hu : Blank u) (h : Ends t) : Stops (u ++ t) := by
  intro c hc
  have hc : c = ' ' ∨ c = '\n' ∨ c = '\t' ∨ c = '\r' ∨ c = ',' ∨ c = ']' ∨ c = '}' := by
    cases u with
    | nil => exact .inr (.inr (.inr (.inr (h c hc))))
    | cons d u =>
      obtain rfl := Option.some.inj hc
      have := hu d (by simp)
      tauto
  obtain rfl | rfl | rfl | rfl | rfl | rfl | rfl := hc
  all_goals decide

/-! ## One step of the readers -/

/-- White space in front of a value does not count. -/
theorem value?_blank (hu : Blank u) (t : Text) : value? fuel (u ++ t) = value? fuel t := by
  cases fuel with
  | zero => rfl
  | succ fuel =>
    rw [value?.eq_def, value?.eq_def (fuel + 1) t]
    simp only [hu.skip]

/-- A quotation mark starts a string. -/
theorem value?_string (t : Text) :
    value? (fuel + 1) ('"' :: t) = (string? t).map fun (s, tail) => (.string s, tail) := by
  rw [value?.eq_def]
  rfl

/-- Brackets with white space between them are the empty array. -/
theorem value?_emptyArray (hu : Blank u) (t : Text) :
    value? (fuel + 1) ('[' :: (u ++ ']' :: t)) = some (.array [], t) := by
  rw [value?.eq_def]
  simp only [skip_cons (c := '[') rfl, hu.skip, skip_cons (c := ']') rfl]

/-- A bracket starts the items of an array, if there are any. -/
theorem value?_array (fuel : Nat) (ht : Opens t) :
    value? (fuel + 1) ('[' :: t) = (items? fuel t).map fun (items, tail) => (.array items, tail) := by
  obtain ⟨u, c, s, hu, rfl, hspace, hbracket, -⟩ := ht
  rw [value?.eq_def]
  simp [skip_cons (c := '[') rfl, hu.skip, skip_cons hspace, hbracket]

/-- Braces with white space between them are the empty object. -/
theorem value?_emptyObject (hu : Blank u) (t : Text) :
    value? (fuel + 1) ('{' :: (u ++ '}' :: t)) = some (.object [], t) := by
  rw [value?.eq_def]
  simp only [skip_cons (c := '{') rfl, hu.skip, skip_cons (c := '}') rfl]

/-- A brace starts the members of an object, if there are any. -/
theorem value?_object (fuel : Nat) (ht : Opens t) :
    value? (fuel + 1) ('{' :: t) = (members? fuel t).map fun (members, tail) => (.object members, tail) := by
  obtain ⟨u, c, s, hu, rfl, hspace, -, hbrace⟩ := ht
  rw [value?.eq_def]
  simp [skip_cons (c := '{') rfl, hu.skip, skip_cons hspace, hbrace]

/-- A number, a truth value or null is read as the value that is not looked at. -/
theorem value?_scalar (ht : Scalar t) (hrest : Stops rest) :
    value? (fuel + 1) (t ++ rest) = some (.scalar, rest) := by
  have hread := ht.scalar? hrest
  obtain ⟨c, s, rfl, hspace, hquotation, hbracket, hbrace, -⟩ := ht.exists_cons
  rw [List.cons_append] at hread ⊢
  rw [value?.eq_def]
  simp [skip_cons (isSpace_of_alphabet hspace), hquotation, hbracket, hbrace, hread]

/-- After an item with a comma behind it come the others. -/
theorem items?_comma (hvalue : value? fuel t = some (j, behind)) (hbehind : skip behind = ',' :: s)
    (hitems : items? fuel s = some (js, rest)) : items? (fuel + 1) t = some (j :: js, rest) := by
  rw [items?.eq_def]
  simp [hvalue, hbehind, hitems]

/-- An item with a bracket behind it is the last one. -/
theorem items?_bracket (hvalue : value? fuel t = some (j, behind)) (hbehind : skip behind = ']' :: rest) :
    items? (fuel + 1) t = some ([j], rest) := by
  rw [items?.eq_def]
  simp [hvalue, hbehind]

/-- What the reader of members asks for in front of a value. -/
theorem Key.read (hkey : Key key s) (t : Text) : ∃ inside behind,
    Text.follow? "\"" (skip (s ++ t)) = some inside ∧ string? inside = some (key, behind) ∧
      Text.follow? ":" (skip behind) = some t := by
  obtain @⟨u, v, r, hu, hv, h⟩ := hkey
  have hcolon : skip (v ++ ':' :: t) = ':' :: t := by rw [hv.skip, skip_cons rfl]
  have hquotation : skip (u ++ '"' :: (r ++ '"' :: (v ++ [':'])) ++ t) =
      '"' :: (r ++ '"' :: (v ++ ':' :: t)) := by
    rw [List.append_assoc, hu.skip, List.cons_append, skip_cons rfl]
    simp
  exact ⟨r ++ '"' :: (v ++ ':' :: t), v ++ ':' :: t, Text.follow?_eq_some_iff.mpr hquotation,
    string?_eq_some_iff.mpr ⟨r, h, rfl⟩, Text.follow?_eq_some_iff.mpr hcolon⟩

/-- After a member with a comma behind it come the others. -/
theorem members?_comma (hkey : Key key u) (hvalue : value? fuel t = some (j, behind))
    (hbehind : skip behind = ',' :: s) (hmembers : members? fuel s = some (ms, rest)) :
    members? (fuel + 1) (u ++ t) = some ((key, j) :: ms, rest) := by
  obtain ⟨inside, before, hquotation, hstring, hcolon⟩ := hkey.read t
  rw [members?.eq_def]
  simp [hquotation, hstring, hcolon, hvalue, hbehind, hmembers]

/-- A member with a brace behind it is the last one. -/
theorem members?_brace (hkey : Key key u) (hvalue : value? fuel t = some (j, behind))
    (hbehind : skip behind = '}' :: rest) :
    members? (fuel + 1) (u ++ t) = some ([(key, j)], rest) := by
  obtain ⟨inside, before, hquotation, hstring, hcolon⟩ := hkey.read t
  rw [members?.eq_def]
  simp [hquotation, hstring, hcolon, hvalue, hbehind]

/-- A key that is read is a key of the grammar. -/
theorem exists_key {inside : Text} (hquotation : Text.follow? "\"" (skip t) = some inside)
    (hstring : string? inside = some (key, behind)) (hcolon : Text.follow? ":" (skip behind) = some rest) :
    ∃ u, Key key u ∧ t = u ++ rest := by
  obtain ⟨u, hu, ht⟩ := exists_skip t
  obtain ⟨v, hv, hbehind⟩ := exists_skip behind
  obtain ⟨s, hs, rfl⟩ := string?_eq_some_iff.mp hstring
  refine ⟨_, ⟨hu, hv, hs⟩, ?_⟩
  rw [ht, Text.follow?_eq_some_iff.mp hquotation, hbehind, Text.follow?_eq_some_iff.mp hcolon]
  simp

/-! ## Every text of the grammar is read -/

/-- What the readers make of a part of a text, in front of anything that may follow. -/
def Phrase.Reads : Phrase → Text → Prop
  | .value j, t => ∀ fuel rest, 2 * t.length ≤ fuel → Stops rest → value? fuel (t ++ rest) = some (j, rest)
  | .element j, t => ∀ fuel rest, 2 * t.length ≤ fuel → Ends rest →
    ∃ behind, value? fuel (t ++ rest) = some (j, behind) ∧ skip behind = rest
  | .items js, t => ∀ fuel rest, 2 * t.length < fuel → items? fuel (t ++ ']' :: rest) = some (js, rest)
  | .members ms, t => ∀ fuel rest, 2 * t.length < fuel → members? fuel (t ++ '}' :: rest) = some (ms, rest)

/-- An item or a member ends at a comma, a bracket or a brace. -/
theorem ends_cons (h : c = ',' ∨ c = ']' ∨ c = '}') (t : Text) : Ends (c :: t) := by
  intro d hd
  obtain rfl := Option.some.inj hd
  exact h

/-- Every part of a text is read. The induction is on how it is put together: the fuel falls by two from an
array or an object to the values in it, and these are shorter by the two characters around them. -/
theorem Writes.reads (h : Writes p t) : p.Reads t := by
  induction h with
  | @scalar t h =>
    intro fuel rest hfuel hrest
    obtain _ | fuel := fuel
    · obtain ⟨c, s, rfl, -⟩ := h.exists_cons
      simp at hfuel
    · exact value?_scalar h hrest
  | @string text t h =>
    intro fuel rest hfuel hrest
    obtain _ | fuel := fuel
    · simp at hfuel
    have hstring : string? (t ++ '"' :: rest) = some (text, rest) := string?_eq_some_iff.mpr ⟨t, h, rfl⟩
    simp [value?_string, hstring]
  | emptyArray hu =>
    intro fuel rest hfuel hrest
    obtain _ | fuel := fuel
    · simp at hfuel
    simpa using value?_emptyArray hu rest
  | @array js t h ih =>
    intro fuel rest hfuel hrest
    obtain _ | fuel := fuel
    · simp at hfuel
    have hitems := ih fuel rest (by simp at hfuel; omega)
    have hvalue := value?_array fuel (h.opens.append_right (']' :: rest))
    rw [hitems] at hvalue
    simpa using hvalue
  | emptyObject hu =>
    intro fuel rest hfuel hrest
    obtain _ | fuel := fuel
    · simp at hfuel
    simpa using value?_emptyObject hu rest
  | @object ms t h ih =>
    intro fuel rest hfuel hrest
    obtain _ | fuel := fuel
    · simp at hfuel
    have hmembers := ih fuel rest (by simp at hfuel; omega)
    have hvalue := value?_object fuel (h.opens.append_right ('}' :: rest))
    rw [hmembers] at hvalue
    simpa using hvalue
  | @element j u v t hu hv h ih =>
    intro fuel rest hfuel hrest
    have hvalue := ih fuel (v ++ rest) (by simp at hfuel; omega) (hv.stops hrest)
    refine ⟨v ++ rest, ?_, ?_⟩
    · rw [List.append_assoc, value?_blank hu, List.append_assoc, hvalue]
    · -- The blanks behind the value are left to the reader of what the element stands in.
      rw [hv.skip, hrest.skip]
  | @lastItem j t h ih =>
    intro fuel rest hfuel
    obtain _ | fuel := fuel
    · simp at hfuel
    obtain ⟨behind, hvalue, hbehind⟩ := ih fuel (']' :: rest) (by omega) (ends_cons (by simp) rest)
    exact items?_bracket hvalue hbehind
  | @item j js t s h hs ih ihs =>
    intro fuel rest hfuel
    obtain _ | fuel := fuel
    · simp at hfuel
    simp only [List.length_append, List.length_cons] at hfuel
    obtain ⟨behind, hvalue, hbehind⟩ := ih fuel (',' :: (s ++ ']' :: rest)) (by omega) (ends_cons (by simp) _)
    have hitems := ihs fuel rest (by omega)
    simpa using items?_comma hvalue hbehind hitems
  | @lastMember key j u t hkey h ih =>
    intro fuel rest hfuel
    obtain _ | fuel := fuel
    · simp at hfuel
    simp only [List.length_append] at hfuel
    obtain ⟨behind, hvalue, hbehind⟩ := ih fuel ('}' :: rest) (by omega) (ends_cons (by simp) rest)
    simpa using members?_brace hkey hvalue hbehind
  | @member key j ms u t s hkey h hs ih ihs =>
    intro fuel rest hfuel
    obtain _ | fuel := fuel
    · simp at hfuel
    simp only [List.length_append, List.length_cons] at hfuel
    obtain ⟨behind, hvalue, hbehind⟩ := ih fuel (',' :: (s ++ '}' :: rest)) (by omega) (ends_cons (by simp) _)
    have hmembers := ihs fuel rest (by omega)
    simpa using members?_comma hkey hvalue hbehind hmembers

/-! ## What is read is a text of the grammar -/

/-- With some fuel, values, elements and members are only read where they stand. -/
structure Sound (fuel : Nat) : Prop where
  value {t rest : Text} {j : Json} : value? fuel t = some (j, rest) →
    ∃ u s, Blank u ∧ Writes (.value j) s ∧ t = u ++ (s ++ rest)
  items {t rest : Text} {js : List Json} : items? fuel t = some (js, rest) →
    ∃ s, Writes (.items js) s ∧ t = s ++ ']' :: rest
  members {t rest : Text} {ms : List (Option Text × Json)} : members? fuel t = some (ms, rest) →
    ∃ s, Writes (.members ms) s ∧ t = s ++ '}' :: rest

/-- A value and the white space around it are an element. -/
theorem Sound.element (h : Sound fuel) (hvalue : value? fuel t = some (j, behind)) :
    ∃ s, Writes (.element j) s ∧ t = s ++ skip behind := by
  obtain ⟨u, s, hu, hs, rfl⟩ := h.value hvalue
  obtain ⟨v, hv, hbehind⟩ := exists_skip behind
  refine ⟨u ++ (s ++ v), .element hu hv hs, ?_⟩
  simp only [List.append_assoc]
  rw [← hbehind]

/-- With one step more, what is read as a value is written as one. -/
theorem Sound.value_succ (h : Sound fuel) (hvalue : value? (fuel + 1) t = some (j, rest)) :
    ∃ s, Writes (.value j) s ∧ skip t = s ++ rest := by
  rw [value?.eq_def] at hvalue
  simp only at hvalue
  split at hvalue
  -- By the first character: a string, an array, an object, and anything else.
  · next inside heq =>
    obtain ⟨⟨text, _⟩, hstring, hpair⟩ := Option.map_eq_some_iff.mp hvalue
    obtain ⟨rfl, rfl⟩ := Prod.mk.inj hpair
    obtain ⟨u, hu, rfl⟩ := string?_eq_some_iff.mp hstring
    exact ⟨_, .string hu, by simp [heq]⟩
  · next inside heq =>
    split at hvalue
    · next tail hclose =>
      obtain ⟨rfl, rfl⟩ := Prod.mk.inj (Option.some.inj hvalue)
      obtain ⟨u, hu, hinside⟩ := exists_skip inside
      rw [hclose] at hinside
      exact ⟨_, .emptyArray hu, by simp [heq, hinside]⟩
    · obtain ⟨⟨js, _⟩, hitems, hpair⟩ := Option.map_eq_some_iff.mp hvalue
      obtain ⟨rfl, rfl⟩ := Prod.mk.inj hpair
      obtain ⟨s, hs, rfl⟩ := h.items hitems
      exact ⟨_, .array hs, by simp [heq]⟩
  · next inside heq =>
    split at hvalue
    · next tail hclose =>
      obtain ⟨rfl, rfl⟩ := Prod.mk.inj (Option.some.inj hvalue)
      obtain ⟨u, hu, hinside⟩ := exists_skip inside
      rw [hclose] at hinside
      exact ⟨_, .emptyObject hu, by simp [heq, hinside]⟩
    · obtain ⟨⟨ms, _⟩, hmembers, hpair⟩ := Option.map_eq_some_iff.mp hvalue
      obtain ⟨rfl, rfl⟩ := Prod.mk.inj hpair
      obtain ⟨s, hs, rfl⟩ := h.members hmembers
      exact ⟨_, .object hs, by simp [heq]⟩
  · obtain ⟨_, hscalar, hpair⟩ := Option.map_eq_some_iff.mp hvalue
    obtain ⟨rfl, rfl⟩ := Prod.mk.inj hpair
    obtain ⟨s, hs, heq⟩ := exists_scalar hscalar
    exact ⟨s, .scalar hs, heq⟩

/-- With one step more, what is read as items is written as items in front of a bracket. -/
theorem Sound.items_succ (h : Sound fuel) (hitems : items? (fuel + 1) t = some (js, rest)) :
    ∃ s, Writes (.items js) s ∧ t = s ++ ']' :: rest := by
  rw [items?.eq_def] at hitems
  obtain ⟨⟨j, behind⟩, hvalue, hbehind⟩ := Option.bind_eq_some_iff.mp hitems
  obtain ⟨s, hs, ht⟩ := h.element hvalue
  simp only at hbehind
  split at hbehind
  · next tail heq =>
    obtain ⟨⟨more, _⟩, hmore, hpair⟩ := Option.bind_eq_some_iff.mp hbehind
    obtain ⟨rfl, rfl⟩ := Prod.mk.inj (Option.some.inj hpair)
    obtain ⟨r, hr, rfl⟩ := h.items hmore
    exact ⟨_, .item hs hr, by simp [ht, heq]⟩
  · next tail heq =>
    obtain ⟨rfl, rfl⟩ := Prod.mk.inj (Option.some.inj hbehind)
    exact ⟨s, .lastItem hs, by rw [ht, heq]⟩
  · cases hbehind

/-- With one step more, what is read as members is written as members in front of a brace. -/
theorem Sound.members_succ (h : Sound fuel) (hmembers : members? (fuel + 1) t = some (ms, rest)) :
    ∃ s, Writes (.members ms) s ∧ t = s ++ '}' :: rest := by
  rw [members?.eq_def] at hmembers
  obtain ⟨inside, hquotation, hinside⟩ := Option.bind_eq_some_iff.mp hmembers
  obtain ⟨⟨key, before⟩, hstring, hbefore⟩ := Option.bind_eq_some_iff.mp hinside
  obtain ⟨front, hcolon, hfront⟩ := Option.bind_eq_some_iff.mp hbefore
  obtain ⟨⟨j, behind⟩, hvalue, hbehind⟩ := Option.bind_eq_some_iff.mp hfront
  obtain ⟨u, hkey, ht⟩ := exists_key hquotation hstring hcolon
  obtain ⟨s, hs, hsplit⟩ := h.element hvalue
  simp only at hbehind
  -- Behind the first member stands a comma, with more members, or the closing brace.
  split at hbehind
  · next tail heq =>
    obtain ⟨⟨more, _⟩, hmore, hpair⟩ := Option.bind_eq_some_iff.mp hbehind
    obtain ⟨rfl, rfl⟩ := Prod.mk.inj (Option.some.inj hpair)
    obtain ⟨r, hr, rfl⟩ := h.members hmore
    exact ⟨_, .member hkey hs hr, by simp [ht, hsplit, heq]⟩
  · next tail heq =>
    obtain ⟨rfl, rfl⟩ := Prod.mk.inj (Option.some.inj hbehind)
    exact ⟨_, .lastMember hkey hs, by simp [ht, hsplit, heq]⟩
  · cases hbehind

/-- Whatever is read is written so, for any number of steps. -/
theorem sound (fuel : Nat) : Sound fuel := by
  induction fuel with
  | zero => exact ⟨nofun, nofun, nofun⟩
  | succ fuel ih =>
    refine ⟨fun hvalue => ?_, ih.items_succ, ih.members_succ⟩
    obtain ⟨s, hs, hskip⟩ := ih.value_succ hvalue
    obtain ⟨u, hu, ht⟩ := exists_skip _
    exact ⟨u, s, hu, hs, hskip ▸ ht⟩

/-! ## Whole texts -/

/-- A whole text is read as a value exactly if it writes this value. -/
theorem read?_eq_some_iff : read? t = some j ↔ Writes (.element j) t := by
  constructor
  · intro h
    obtain ⟨⟨j, behind⟩, hvalue, hbehind⟩ := Option.bind_eq_some_iff.mp h
    obtain ⟨s, hs, ht⟩ := (sound _).element hvalue
    simp only at hbehind
    split at hbehind
    · next hempty =>
      obtain rfl := Option.some.inj hbehind
      rw [List.isEmpty_iff.mp hempty, List.append_nil] at ht
      exact ht ▸ hs
    · cases hbehind
  · intro h
    obtain ⟨behind, hvalue, hbehind⟩ := h.reads (2 * t.length + 2) [] (by omega) nofun
    rw [List.append_nil] at hvalue
    simp [read?, hvalue, hbehind]

end Graft.Viewer.Json
