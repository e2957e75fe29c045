import Mathlib.Data.List.Basic
import Graft.Text.Alphabet

/-!
# White space is apart from identifiers

No white space character belongs to an identifier. The class of white space is a short list of code
points, so the tables of letters and numerals are asked for each of them. A name is made of identifier
characters alone (`IsName`), so it has neither white space nor marks in it.
-/

namespace Graft.Alphabet

/-- The code points of white space. -/
def spaces : List Nat :=
  [0x9, 0xA, 0xB, 0xC, 0xD, 0x20, 0x85, 0xA0, 0x1680, 0x2000, 0x2001, 0x2002, 0x2003, 0x2004, 0x2005,
    0x2006, 0x2007, 0x2008, 0x2009, 0x200A, 0x2028, 0x2029, 0x202F, 0x205F, 0x3000]

/-- The code point of white space is listed. -/
theorem toNat_mem_spaces {c : Char} (h : isSpace c = true) : c.toNat ∈ spaces := by
  simp only [isSpace, Bool.or_eq_true, Bool.and_eq_true, decide_eq_true_eq] at h
  simp only [spaces, List.mem_cons, List.not_mem_nil, or_false]
  omega

/-- A line break is white space. -/
theorem ne_lineBreak_of_isSpace {c : Char} (h : isSpace c = false) : c ≠ '\n' ∧ c ≠ '\r' := by
  constructor <;> (rintro rfl; revert h; decide)

/-- White space does not belong to an identifier. -/
theorem isIdentifier_of_isSpace {c : Char} (h : isSpace c = true) : isIdentifier c = false := by
  have hall : ∀ n ∈ spaces, isIdentifier (Char.ofNat n) = false := by decide +kernel
  have hc := hall _ (toNat_mem_spaces h)
  rwa [Char.ofNat_toNat] at hc

/-- A character of an identifier is no white space. -/
theorem isSpace_of_isIdentifier {c : Char} (h : isIdentifier c = true) : isSpace c = false := by
  by_contra hspace
  rw [isIdentifier_of_isSpace (by simpa using hspace)] at h
  cases h

/-- ASCII letters and digits belong to identifiers. -/
theorem isIdentifier_of_isAsciiAlphanumeric {c : Char} (h : isAsciiAlphanumeric c = true) :
    isIdentifier c = true := by
  have hascii : c.toNat < 0x80 := by
    simp only [isAsciiAlphanumeric, isAsciiLetter, isDigit, Bool.or_eq_true, Bool.and_eq_true,
      decide_eq_true_eq, Char.le_def, UInt32.le_iff_toNat_le] at h
    have : c.val.toNat = c.toNat := rfl
    rw [this] at h
    rcases h with (⟨-, hle⟩ | ⟨-, hle⟩) | ⟨-, hle⟩
    · exact Nat.lt_of_le_of_lt hle (by decide)
    · exact Nat.lt_of_le_of_lt hle (by decide)
    · exact Nat.lt_of_le_of_lt hle (by decide)
  simp [isIdentifier, isAlphanumeric, hascii, h]

/-- ASCII letters belong to identifiers. -/
theorem isIdentifier_of_isAsciiLetter {c : Char} (h : isAsciiLetter c = true) :
    isIdentifier c = true :=
  isIdentifier_of_isAsciiAlphanumeric (by simp [isAsciiAlphanumeric, h])

/-- No white space is found in a text that has none. -/
theorem isSpace_of_any {t : List Char} (h : t.any isSpace = false) : ∀ c ∈ t, isSpace c = false :=
  fun c hc => Bool.eq_false_iff.mpr (List.any_eq_false.mp h c hc)

/-- A digit is no white space. -/
theorem isSpace_of_isDigit {c : Char} (h : isDigit c = true) : isSpace c = false := by
  have hdigits : ∀ n ∈ spaces, isDigit (Char.ofNat n) = false := by decide +kernel
  by_contra hspace
  have hc := hdigits _ (toNat_mem_spaces (by simpa using hspace))
  rw [Char.ofNat_toNat, h] at hc
  cases hc

/-! ## Names -/

/-- One or more characters of an identifier, and nothing else. -/
structure IsName (name : List Char) : Prop where
  /-- There is one. -/
  ne_nil : name ≠ []
  /-- Each one belongs to an identifier. -/
  letters : ∀ c ∈ name, isIdentifier c = true

/-- The characters of a name are checked one by one. -/
instance (name : List Char) : Decidable (IsName name) :=
  decidable_of_iff (name ≠ [] ∧ name.all isIdentifier = true)
    ⟨fun h => ⟨h.1, List.all_eq_true.mp h.2⟩, fun h => ⟨h.ne_nil, List.all_eq_true.mpr h.letters⟩⟩

variable {name : List Char} {c : Char}

/-- A character that is in no identifier does not occur in a name. -/
theorem IsName.ne_of_mem (hname : IsName name) (hc : c ∈ name) {d : Char} (hd : isIdentifier d = false) :
    c ≠ d := by
  rintro rfl
  rw [hname.letters c hc] at hd
  cases hd

/-- A name does not start with white space. -/
theorem IsName.isSpace_head? (hname : IsName name) (rest : List Char) :
    ∀ c ∈ (name ++ rest).head?, isSpace c = false := by
  intro c hc
  rw [List.head?_append_of_ne_nil _ hname.ne_nil] at hc
  exact isSpace_of_isIdentifier (hname.letters c (List.mem_of_mem_head? hc))

end Graft.Alphabet
