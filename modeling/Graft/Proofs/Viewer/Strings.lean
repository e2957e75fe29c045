import Mathlib.Data.List.Basic
import Graft.Proofs.Viewer.Grammar

/-!
# Strings of JSON

The reader of strings takes exactly the spellings of the grammar: the units of a string come out as they
are spelled, however they are spelled, and the text of the units is the one that they mean. A string
has no text exactly if its units mean none.
-/

namespace Graft.Viewer.Json

variable {c e : Char} {n : Nat} {t s rest : Text} {ts : List Token} {text : Option Text}

/-! ## Escapes -/

/-- A character has a value as a digit exactly if it is the hexadecimal digit of this value. -/
theorem digit?_eq_some_iff : Hex.digit? c = some n ↔ HexDigit c n := by
  have hle (x y : Char) : x ≤ y ↔ x.toNat ≤ y.toNat := by
    rw [Char.le_def, UInt32.le_iff_toNat_le]
    rfl
  simp only [Hex.digit?, HexDigit, Bool.and_eq_true, decide_eq_true_eq, hle]
  have h0 : '0'.toNat = 48 := rfl
  have h9 : '9'.toNat = 57 := rfl
  have ha : 'a'.toNat = 97 := rfl
  have hf : 'f'.toNat = 102 := rfl
  have hA : 'A'.toNat = 65 := rfl
  have hF : 'F'.toNat = 70 := rfl
  split
  · rw [Option.some.injEq]
    omega
  split
  · rw [Option.some.injEq]
    omega
  split
  · rw [Option.some.injEq]
    omega
  · simp only [reduceCtorEq, false_iff]
    omega

/-- An escape of one letter is read exactly as the character that it stands for. -/
theorem simpleEscape?_eq_some_iff : simpleEscape? e = some c ↔ Escape e c := by
  constructor
  · intro h
    simp only [simpleEscape?, Bool.or_eq_true, decide_eq_true_eq] at h
    split at h
    · next he =>
      obtain rfl := Option.some.inj h
      obtain (rfl | rfl) | rfl := he
      · exact .quotation
      · exact .backslash
      · exact .slash
    split at h
    · next he => exact Option.some.inj h ▸ he ▸ .backspace
    split at h
    · next he => exact Option.some.inj h ▸ he ▸ .formFeed
    split at h
    · next he => exact Option.some.inj h ▸ he ▸ .lineFeed
    split at h
    · next he => exact Option.some.inj h ▸ he ▸ .carriageReturn
    split at h
    · next he => exact Option.some.inj h ▸ he ▸ .tab
    · cases h
  · rintro (_ | _) <;> rfl

/-- An escape by a letter is none by a number. -/
theorem Escape.ne (h : Escape e c) : e ≠ 'u' := by
  rintro rfl
  cases h

/-- Four digits are read as the number that they write in base 16. -/
theorem value?_four {a b c d : Char} :
    Hex.value? [a, b, c, d] = some n ↔ ∃ p q r v, HexDigit a p ∧ HexDigit b q ∧ HexDigit c r ∧
      HexDigit d v ∧ n = ((p * 16 + q) * 16 + r) * 16 + v := by
  simp only [Hex.value?, Hex.valueFrom?, Option.bind_eq_bind, Option.bind_eq_some_iff,
    digit?_eq_some_iff, Option.some.injEq, Nat.zero_mul, Nat.zero_add]
  constructor
  · rintro ⟨p, hp, q, hq, r, hr, v, hv, rfl⟩
    exact ⟨p, q, r, v, hp, hq, hr, hv, rfl⟩
  · rintro ⟨p, q, r, v, hp, hq, hr, hv, rfl⟩
    exact ⟨p, hp, q, hq, r, hr, v, hv, rfl⟩

/-- What is read as a code unit is four hexadecimal digits. -/
theorem hex4?_eq_some (h : hex4? t = some (n, rest)) :
    ∃ a b c d, Hex.value? [a, b, c, d] = some n ∧ t = a :: b :: c :: d :: rest := by
  rw [hex4?.eq_def] at h
  split at h
  · obtain ⟨m, hm, heq⟩ := Option.map_eq_some_iff.mp h
    obtain ⟨rfl, rfl⟩ := Prod.mk.inj heq
    exact ⟨_, _, _, _, hm, rfl⟩
  · cases h

/-! ## Units -/

/-- A spelling in front of a quotation mark is read, with any text behind the mark. -/
theorem Spelling.tokens? (h : Spelling ts t) {fuel : Nat} (hfuel : t.length < fuel) (rest : Text) :
    tokens? fuel (t ++ '"' :: rest) = some (ts, rest) := by
  -- A unit takes one character or more and one step, so the fuel lasts for all of them.
  induction h generalizing fuel with
  | nil =>
    obtain _ | fuel := fuel
    · cases hfuel
    · rfl
  | plain hcontrol hquotation hbackslash _ ih =>
    obtain _ | fuel := fuel
    · cases hfuel
    have ih := ih (Nat.lt_of_succ_lt_succ hfuel)
    simp [Json.tokens?, hquotation, hbackslash, Nat.not_lt.mpr hcontrol, ih]
  | escaped he _ ih =>
    obtain _ | fuel := fuel
    · cases hfuel
    have ih := @ih fuel (by simp at hfuel; omega)
    simp [Json.tokens?, he.ne, simpleEscape?_eq_some_iff.mpr he, ih]
  | code ha hb hc hd _ ih =>
    obtain _ | fuel := fuel
    · cases hfuel
    have ih := @ih fuel (by simp at hfuel; omega)
    have hvalue := value?_four.mpr ⟨_, _, _, _, ha, hb, hc, hd, rfl⟩
    simp [Json.tokens?, hex4?, hvalue, ih]

/-- What is read is a spelling in front of a quotation mark. -/
theorem exists_spelling {fuel : Nat} (h : tokens? fuel t = some (ts, rest)) :
    ∃ u, Spelling ts u ∧ t = u ++ '"' :: rest := by
  -- The cases of the reader are the ways a string can go on; those in which it fails read nothing.
  fun_induction Json.tokens? fuel t generalizing ts with
  | case1 => cases h
  | case2 => cases h
  | case3 fuel tail =>
    obtain ⟨rfl, rfl⟩ := Prod.mk.inj (Option.some.inj h)
    exact ⟨[], .nil, rfl⟩
  | case4 => cases h
  | case5 fuel c tail hquotation hcontrol hbackslash ih =>
    obtain ⟨⟨units, _⟩, hunits, heq⟩ := Option.map_eq_some_iff.mp h
    obtain ⟨rfl, rfl⟩ := Prod.mk.inj heq
    obtain ⟨u, hu, rfl⟩ := ih hunits
    exact ⟨c :: u, .plain (Nat.not_lt.mp hcontrol) hquotation hbackslash hu, rfl⟩
  | case6 => cases h
  | case7 fuel c _ _ hbackslash tail ih =>
    obtain ⟨⟨n, behind⟩, hcode, h⟩ := Option.bind_eq_some_iff.mp h
    obtain ⟨⟨units, _⟩, hunits, heq⟩ := Option.bind_eq_some_iff.mp h
    obtain ⟨rfl, rfl⟩ := Prod.mk.inj (Option.some.inj heq)
    obtain ⟨a, b, c, d, hvalue, rfl⟩ := hex4?_eq_some hcode
    obtain ⟨p, q, r, v, ha, hb, hc, hd, rfl⟩ := value?_four.mp hvalue
    obtain ⟨u, hu, rfl⟩ := ih behind hunits
    exact ⟨_, .code ha hb hc hd hu, by simp [not_not.mp hbackslash]⟩
  | case8 fuel c _ _ hbackslash e tail _ ih =>
    obtain ⟨d, hd, h⟩ := Option.bind_eq_some_iff.mp h
    obtain ⟨⟨units, _⟩, hunits, heq⟩ := Option.bind_eq_some_iff.mp h
    obtain ⟨rfl, rfl⟩ := Prod.mk.inj (Option.some.inj heq)
    obtain ⟨u, hu, rfl⟩ := ih hunits
    exact ⟨_, .escaped (simpleEscape?_eq_some_iff.mp hd) hu, by simp [not_not.mp hbackslash]⟩

/-- A hexadecimal digit is worth less than 16. -/
theorem HexDigit.lt (h : HexDigit c n) : n < 16 := by
  unfold HexDigit at h
  omega

/-- Four hexadecimal digits write no more than a code unit. -/
theorem Spelling.code_lt (h : Spelling ts t) : ∀ n, .code n ∈ ts → n < 0x10000 := by
  induction h with
  | nil => simp
  | plain _ _ _ _ ih => simpa using ih
  | escaped _ _ ih => simpa using ih
  | code ha hb hc hd _ ih =>
    rintro n hn
    obtain heq | hn := List.mem_cons.mp hn
    · have := ha.lt
      have := hb.lt
      have := hc.lt
      have := hd.lt
      obtain rfl := Token.code.inj heq
      omega
    · exact ih n hn

/-! ## The text of the units -/

/-- No character has the code point of half a surrogate pair. -/
theorem toNat_outside (c : Char) : c.toNat < 0xD800 ∨ 0xE000 ≤ c.toNat := by
  have := c.valid
  simp only [UInt32.isValidChar, Nat.isValidChar] at this
  have heq : c.toNat = c.val.toNat := rfl
  omega

/-- The character of a code point that is no half of a surrogate pair has this code point. -/
theorem toNat_char (h : n < 0xD800 ∨ 0xE000 ≤ n ∧ n < 0x110000) : (Char.ofNat n).toNat = n := by
  have hvalid : n.isValidChar := by
    simp only [Nat.isValidChar]
    omega
  have hcode : Char.ofNat n = Char.ofNatAux n hvalid := dif_pos hvalid
  rw [hcode]
  rfl

/-- The text that units mean is read from them. -/
theorem Means.text? (h : Means ts s) : text? ts = some s := by
  induction h with
  | nil => rfl
  | char _ ih => simp [Json.text?, ih]
  | @code c _ _ hc _ ih =>
    -- The code point of a character is neither half of a pair.
    have := toNat_outside c
    have hlow : ¬ (0xDC00 ≤ c.toNat ∧ c.toNat ≤ 0xDFFF) := by omega
    have hhigh : ¬ (0xD800 ≤ c.toNat ∧ c.toNat ≤ 0xDBFF) := by omega
    rw [Json.text?.eq_def]
    simp [ih, hlow, hhigh]
  | @pair c high low ts s hhigh hlow hc _ ih =>
    have hnone : ¬ (0xDC00 ≤ 0xD800 + high ∧ 0xD800 + high ≤ 0xDFFF) := by omega
    have hfirst : 0xD800 ≤ 0xD800 + high ∧ 0xD800 + high ≤ 0xDBFF := by omega
    have hsecond : 0xDC00 ≤ 0xDC00 + low ∧ 0xDC00 + low ≤ 0xDFFF := by omega
    have hcode : 0x10000 + (0xD800 + high - 0xD800) * 0x400 + (0xDC00 + low - 0xDC00) = c.toNat := by omega
    rw [Json.text?.eq_def]
    simp only [Bool.and_eq_true, decide_eq_true_eq, if_neg hnone, if_pos hfirst, if_pos hsecond, ih, hcode]
    simp

/-- The text that is read from units is what they mean. -/
theorem means_of_text? (hunits : ∀ n, .code n ∈ ts → n < 0x10000) (h : text? ts = some s) :
    Means ts s := by
  fun_induction Json.text? ts generalizing s with
  | case1 =>
    obtain rfl := Option.some.inj h
    exact .nil
  | case2 c ts ih =>
    obtain ⟨s, hs, rfl⟩ := Option.map_eq_some_iff.mp h
    exact .char (ih (fun n hn => hunits n (List.mem_cons_of_mem _ hn)) hs)
  | case3 => cases h
  | case4 n _ hfirst low ts hsecond ih =>
    rw [Bool.and_eq_true, decide_eq_true_eq, decide_eq_true_eq] at hfirst hsecond
    obtain ⟨s, hs, rfl⟩ := Option.map_eq_some_iff.mp h
    have hrest := ih (fun n hn => hunits n (by simp [hn])) hs
    -- The halves, less where their ranges start, are the two digits of what the code point has over 0x10000.
    have hcode : (Char.ofNat (0x10000 + (n - 0xD800) * 0x400 + (low - 0xDC00))).toNat =
        0x10000 + (n - 0xD800) * 0x400 + (low - 0xDC00) := toNat_char (by omega)
    have hpair := Means.pair (by omega) (by omega) hcode hrest
    rwa [Nat.add_sub_of_le hfirst.1, Nat.add_sub_of_le hsecond.1] at hpair
  | case5 => cases h
  | case6 => cases h
  | case7 n ts hsecond hfirst ih =>
    rw [Bool.and_eq_true, decide_eq_true_eq, decide_eq_true_eq] at hfirst hsecond
    obtain ⟨s, hs, rfl⟩ := Option.map_eq_some_iff.mp h
    have hrest := ih (fun n hn => hunits n (List.mem_cons_of_mem _ hn)) hs
    have hn : n < 0x10000 := hunits n (by simp)
    have hcode : (Char.ofNat n).toNat = n := toNat_char (by omega)
    have hunit := hrest.code (c := Char.ofNat n) (by omega)
    rwa [hcode] at hunit

/-- The text of a string's units is what they mean. -/
theorem Spelling.text?_eq_some_iff (h : Spelling ts t) : Json.text? ts = some s ↔ Means ts s :=
  ⟨means_of_text? h.code_lt, Means.text?⟩

/-- A string is read up to its closing quotation mark, with its text if it has one. -/
theorem string?_eq_some_iff :
    string? t = some (text, rest) ↔ ∃ u, Quoted text u ∧ t = u ++ '"' :: rest := by
  have hread {ts : List Token} {u : Text} (h : Spelling ts u) :
      string? (u ++ '"' :: rest) = some (text? ts, rest) := by
    have hfuel : u.length < (u ++ '"' :: rest).length + 1 := by
      rw [List.length_append]
      omega
    rw [string?, h.tokens? hfuel, Option.map_some]
  constructor
  · intro h
    obtain ⟨⟨ts, _⟩, hunits, heq⟩ := Option.map_eq_some_iff.mp h
    obtain ⟨rfl, rfl⟩ := Prod.mk.inj heq
    obtain ⟨u, hu, rfl⟩ := exists_spelling hunits
    -- What is spelled is in any case a string; only whether it has a text depends on the units.
    refine ⟨u, ?_, rfl⟩
    cases hs : text? ts with
    | some s => exact .whole hu (hu.text?_eq_some_iff.mp hs)
    | none => exact .halved hu fun s hmeans => by simp [hmeans.text?] at hs
  · rintro ⟨u, hu, rfl⟩
    cases hu with
    | whole h hs => rw [hread h, hs.text?]
    | halved h hs =>
      rw [hread h, Option.eq_none_iff_forall_ne_some.mpr fun s hs' => hs s (h.text?_eq_some_iff.mp hs')]

/-! ## Every text can be written -/

/-- Every number below 16 has a hexadecimal digit. -/
theorem exists_hexDigit (h : n < 16) : ∃ c, HexDigit c n := by
  by_cases hn : n < 10
  · exact ⟨Char.ofNat (48 + n), .inl ⟨hn, toNat_char (by omega)⟩⟩
  · exact ⟨Char.ofNat (87 + n), .inr ⟨by omega, h, .inl (toNat_char (by omega))⟩⟩

/-- A character for itself where it can stand, and by an escape where it cannot. -/
theorem Spelling.exists_cons (h : Spelling ts t) (hs : Means ts s) (c : Char) :
    ∃ ts t, Spelling ts t ∧ Means ts (c :: s) := by
  by_cases hquotation : c = '"'
  · exact ⟨_, _, .escaped .quotation h, hquotation ▸ .char hs⟩
  by_cases hbackslash : c = '\\'
  · exact ⟨_, _, .escaped .backslash h, hbackslash ▸ .char hs⟩
  by_cases hcontrol : 0x20 ≤ c.toNat
  · exact ⟨_, _, .plain hcontrol hquotation hbackslash h, .char hs⟩
  · obtain ⟨z, hz⟩ := exists_hexDigit (n := 0) (by omega)
    obtain ⟨a, ha⟩ := exists_hexDigit (n := c.toNat / 16) (by omega)
    obtain ⟨b, hb⟩ := exists_hexDigit (n := c.toNat % 16) (by omega)
    have hcode : ((0 * 16 + 0) * 16 + c.toNat / 16) * 16 + c.toNat % 16 = c.toNat := by omega
    have hspelling := h.code hz hz ha hb
    rw [hcode] at hspelling
    exact ⟨_, _, hspelling, .code (by omega) hs⟩

/-- Every text can stand between quotation marks. -/
theorem exists_quoted (s : Text) : ∃ t, Quoted (some s) t := by
  have hspelled : ∃ ts t, Spelling ts t ∧ Means ts s := by
    induction s with
    | nil => exact ⟨[], [], .nil, .nil⟩
    | cons c s ih =>
      obtain ⟨ts, t, h, hs⟩ := ih
      exact h.exists_cons hs c
  obtain ⟨ts, t, h, hs⟩ := hspelled
  exact ⟨t, .whole h hs⟩

end Graft.Viewer.Json
