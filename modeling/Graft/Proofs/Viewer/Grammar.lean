import Graft.Fetch.Viewer

/-!
# The grammar of JSON

A JSON text, said by how it is put together and without a reader: what each part of a text has to be,
and which value it writes. One value has many texts, since white space, the escapes in strings and the
spelling of numbers are free. A number, a truth value and null all write the value that is not looked
at, and a string in which half a surrogate pair stands alone writes a string without a text.
-/

namespace Graft.Viewer.Json

/-- White space between the tokens, or nothing. -/
def Blank (t : Text) : Prop := ∀ c ∈ t, c = ' ' ∨ c = '\n' ∨ c = '\t' ∨ c = '\r'

/-! ## Strings -/

/-- `c` is the hexadecimal digit of value `n`, in lower or in upper case. -/
def HexDigit (c : Char) (n : Nat) : Prop :=
  (n < 10 ∧ c.toNat = 48 + n) ∨ (10 ≤ n ∧ n < 16 ∧ (c.toNat = 87 + n ∨ c.toNat = 55 + n))

/-- `e` behind a backslash stands for `c`. -/
inductive Escape : (e c : Char) → Prop where
  | quotation : Escape '"' '"'
  | backslash : Escape '\\' '\\'
  | slash : Escape '/' '/'
  | backspace : Escape 'b' (Char.ofNat 8)
  | formFeed : Escape 'f' (Char.ofNat 12)
  | lineFeed : Escape 'n' '\n'
  | carriageReturn : Escape 'r' '\r'
  | tab : Escape 't' '\t'

/-- The units of a string, and a text that spells them. -/
inductive Spelling : List Token → Text → Prop where
  | nil : Spelling [] []
  /-- A character for itself. -/
  | plain {c : Char} {ts : List Token} {t : Text} (hcontrol : 0x20 ≤ c.toNat) (hquotation : c ≠ '"')
      (hbackslash : c ≠ '\\') (h : Spelling ts t) : Spelling (.char c :: ts) (c :: t)
  | escaped {e c : Char} {ts : List Token} {t : Text} (he : Escape e c) (h : Spelling ts t) :
      Spelling (.char c :: ts) ('\\' :: e :: t)
  /-- A code unit in four hexadecimal digits. -/
  | code {a b c d : Char} {p q r n : Nat} {ts : List Token} {t : Text} (ha : HexDigit a p)
      (hb : HexDigit b q) (hc : HexDigit c r) (hd : HexDigit d n) (h : Spelling ts t) :
      Spelling (.code (((p * 16 + q) * 16 + r) * 16 + n) :: ts) ('\\' :: 'u' :: a :: b :: c :: d :: t)

/-- The units of a string, and the text that they mean. -/
inductive Means : List Token → Text → Prop where
  | nil : Means [] []
  | char {c : Char} {ts : List Token} {t : Text} (h : Means ts t) : Means (.char c :: ts) (c :: t)
  /-- The code point of a character that has one code unit. -/
  | code {c : Char} {ts : List Token} {t : Text} (hc : c.toNat < 0x10000) (h : Means ts t) :
      Means (.code c.toNat :: ts) (c :: t)
  /-- The surrogate pair of a character that needs two code units. -/
  | pair {c : Char} {high low : Nat} {ts : List Token} {t : Text} (hhigh : high < 0x400)
      (hlow : low < 0x400) (hc : c.toNat = 0x10000 + high * 0x400 + low) (h : Means ts t) :
      Means (.code (0xD800 + high) :: .code (0xDC00 + low) :: ts) (c :: t)

/-- The text of a string, if it has one, and what stands between its quotation marks. -/
inductive Quoted : Option Text → Text → Prop where
  | whole {ts : List Token} {s t : Text} (h : Spelling ts t) (hs : Means ts s) : Quoted (some s) t
  | halved {ts : List Token} {t : Text} (h : Spelling ts t) (hs : ∀ s, ¬ Means ts s) : Quoted none t

/-! ## Numbers and words -/

/-- One decimal digit or more. -/
def Digits (t : Text) : Prop := t ≠ [] ∧ ∀ c ∈ t, '0' ≤ c ∧ c ≤ '9'

/-- The whole part of a number: a zero by itself, or digits that start with another. -/
inductive Whole : Text → Prop where
  | zero : Whole ['0']
  | digits {c : Char} {t : Text} (h : Digits (c :: t)) (hc : c ≠ '0') : Whole (c :: t)

/-- The decimals of a number, which may be missing. -/
inductive Decimals : Text → Prop where
  | missing : Decimals []
  | point {t : Text} (h : Digits t) : Decimals ('.' :: t)

/-- The exponent of a number, which may be missing. -/
inductive Exponent : Text → Prop where
  | missing : Exponent []
  | power {e : Char} {sign t : Text} (he : e = 'e' ∨ e = 'E')
      (hsign : sign = [] ∨ sign = ['+'] ∨ sign = ['-']) (h : Digits t) : Exponent (e :: (sign ++ t))

/-- A number, a truth value or null. -/
inductive Scalar : Text → Prop where
  | word {t : Text} (h : t = "null".toList ∨ t = "true".toList ∨ t = "false".toList) : Scalar t
  | number {sign whole decimals exponent : Text} (hsign : sign = [] ∨ sign = ['-'])
      (hwhole : Whole whole) (hdecimals : Decimals decimals) (hexponent : Exponent exponent) :
      Scalar (sign ++ (whole ++ (decimals ++ exponent)))

/-! ## Values -/

/-- The key of a member with the colon behind it. -/
inductive Key : Option Text → Text → Prop where
  | mk {key : Option Text} {u v t : Text} (hu : Blank u) (hv : Blank v) (h : Quoted key t) :
      Key key (u ++ '"' :: (t ++ '"' :: (v ++ [':'])))

/-- What a part of a JSON text writes. -/
inductive Phrase where
  | value (j : Json)
  /-- A value with white space around it. -/
  | element (j : Json)
  /-- The elements of an array with commas between them; there is at least one. -/
  | items (js : List Json)
  /-- The members of an object with commas between them; there is at least one. -/
  | members (ms : List (Option Text × Json))

/-- A part of a JSON text, and what it writes. -/
inductive Writes : Phrase → Text → Prop where
  | scalar {t : Text} (h : Scalar t) : Writes (.value .scalar) t
  | string {text : Option Text} {t : Text} (h : Quoted text t) :
      Writes (.value (.string text)) ('"' :: (t ++ ['"']))
  | emptyArray {u : Text} (h : Blank u) : Writes (.value (.array [])) ('[' :: (u ++ [']']))
  | array {js : List Json} {t : Text} (h : Writes (.items js) t) :
      Writes (.value (.array js)) ('[' :: (t ++ [']']))
  | emptyObject {u : Text} (h : Blank u) : Writes (.value (.object [])) ('{' :: (u ++ ['}']))
  | object {ms : List (Option Text × Json)} {t : Text} (h : Writes (.members ms) t) :
      Writes (.value (.object ms)) ('{' :: (t ++ ['}']))
  | element {j : Json} {u v t : Text} (hu : Blank u) (hv : Blank v) (h : Writes (.value j) t) :
      Writes (.element j) (u ++ (t ++ v))
  | lastItem {j : Json} {t : Text} (h : Writes (.element j) t) : Writes (.items [j]) t
  | item {j : Json} {js : List Json} {t s : Text} (h : Writes (.element j) t)
      (hs : Writes (.items js) s) :
      Writes (.items (j :: js)) (t ++ ',' :: s)
  | lastMember {key : Option Text} {j : Json} {u t : Text} (hkey : Key key u)
      (h : Writes (.element j) t) : Writes (.members [(key, j)]) (u ++ t)
  | member {key : Option Text} {j : Json} {ms : List (Option Text × Json)} {u t s : Text}
      (hkey : Key key u) (h : Writes (.element j) t) (hs : Writes (.members ms) s) :
      Writes (.members ((key, j) :: ms)) (u ++ (t ++ ',' :: s))

end Graft.Viewer.Json
