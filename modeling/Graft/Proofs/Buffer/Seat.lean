import Mathlib.Data.List.Basic
import Graft.Buffer
import Graft.Proofs.Text.Cut

/-!
# The place for members

A member goes in before the last closing brace and the white space before it stays where it is. `Seat`
cuts a text there, and `Seat.insert?` says what a buffer becomes when it takes a member: a comma is put
behind what is kept, unless a member may follow it as it is. Nothing is asked of the spans, so this
holds of any buffer.
-/

namespace Graft.Buffer

variable {b : Buffer} {text kept blank rest : Text}

/-- A text cut at the place for members: what is kept, the white space behind it, and the text behind the
last closing brace. -/
structure Seat (text kept blank rest : Text) : Prop where
  eq : text = kept ++ (blank ++ '}' :: rest)
  kept : ∀ c ∈ kept.getLast?, Alphabet.isSpace c = false
  blank : ∀ c ∈ blank, Alphabet.isSpace c = true
  rest : '}' ∉ rest

/-- A cut is checked character by character. -/
instance : Decidable (Seat text kept blank rest) :=
  decidable_of_iff (text = kept ++ (blank ++ '}' :: rest) ∧
      kept.getLast?.all (fun c => !Alphabet.isSpace c) = true ∧ blank.all Alphabet.isSpace = true ∧
      '}' ∉ rest)
    ⟨fun ⟨heq, hkept, hblank, hrest⟩ =>
        ⟨heq, by simpa [Option.all_eq_true] using hkept, List.all_eq_true.mp hblank, hrest⟩,
      fun h => ⟨h.eq, by simpa [Option.all_eq_true] using h.kept, List.all_eq_true.mpr h.blank, h.rest⟩⟩

/-- A buffer with more text at a cut of its text. -/
def spliced (b : Buffer) (before added after : Text) : Buffer :=
  { b with
    text := before ++ (added ++ after)
    members := b.members.map (shift (Text.byteLength before) (Text.byteLength added)) }

/-- A buffer with a member between the two parts of its text. -/
def withMember (b : Buffer) (before member fromBrace : Text) (source : String) : Buffer :=
  { b with
    text := before ++ member ++ fromBrace
    members := b.members.map (shift (Text.byteLength before) (Text.byteLength member)) ++
      [⟨Text.byteLength before, Text.byteLength before + Text.byteLength member, source⟩] }

/-- What goes behind a text before a member may follow it. -/
def separator (kept : Text) : Text := if isOpen kept then [] else [',']

/-- With the separator behind it, a member may follow a text. -/
theorem isOpen_append_separator (kept : Text) : isOpen (kept ++ separator kept) = true := by
  unfold separator
  split
  · next h => rwa [List.append_nil]
  · simp [isOpen, Text.endsWith]

/-- A text with a closing brace has a place for members. -/
theorem Seat.exists_of_mem (h : '}' ∈ text) : ∃ kept blank rest, Seat text kept blank rest := by
  obtain ⟨before, rest, hrest, rfl⟩ := Text.exists_last_occurrence h
  obtain ⟨blank, hbefore, hblank⟩ := Text.trimEndBy_append Alphabet.isSpace before
  refine ⟨Text.trimEnd before, blank, rest, ?_, Text.trimEndBy_getLast? _ before, hblank, hrest⟩
  rw [← List.append_assoc]
  exact congrArg (· ++ '}' :: rest) hbefore

/-- The place for members is where the buffer is cut. -/
theorem Seat.atLastBrace? (h : Seat b.text kept blank rest) :
    b.atLastBrace? = some (kept ++ blank, '}' :: rest) ∧ Text.trimEnd (kept ++ blank) = kept := by
  refine ⟨?_, Text.trimEndBy_eq h.kept h.blank⟩
  rw [Buffer.atLastBrace?, h.eq, ← List.append_assoc]
  exact Text.splitAtLast_append h.rest _

/-- Putting in nothing moves no span. -/
theorem shift_zero (position : Nat) (s : Span) : shift position 0 s = s := by
  unfold shift
  simp

/-- Making a buffer ready puts the separator behind what is kept. -/
theorem Seat.separate?_eq (h : Seat b.text kept blank rest) :
    b.separate? =
      some (b.spliced kept (separator kept) (blank ++ '}' :: rest), !Buffer.isOpen kept) := by
  obtain ⟨hbrace, htrim⟩ := h.atLastBrace?
  unfold Buffer.separate? separator spliced
  simp only [hbrace, htrim, Option.bind_eq_bind, Option.bind_some]
  by_cases hopen : Buffer.isOpen kept = true
  · -- The text is the same without a separator, and the spans stay.
    have htext : kept ++ (blank ++ '}' :: rest) = b.text := h.eq.symm
    have hspans : b.members.map (shift (Text.byteLength kept) 0) = b.members := by
      rw [List.map_congr_left fun s _ => shift_zero _ s, List.map_id']
    rw [if_pos hopen, if_pos hopen, hopen, List.nil_append, htext, Text.byteLength_nil, hspans]
    rfl
  · have hcomma : Text.byteLength [','] = 1 := by decide
    rw [if_neg hopen, if_neg hopen, Bool.eq_false_iff.mpr hopen, hcomma]
    simp

/-- The text before a member, with the separator in it, is all that changes before a member goes in. -/
theorem Seat.separate? (h : Seat b.text kept blank rest) :
    ∃ b' isNew, b.separate? = some (b', isNew) ∧
      b'.text = (kept ++ (separator kept ++ blank)) ++ '}' :: rest ∧ b'.origin = b.origin :=
  ⟨_, _, h.separate?_eq, by simp [spliced], rfl⟩

/-- A buffer with a place for members takes each member, before the closing brace and behind the
separator. -/
theorem Seat.insert?_eq (h : Seat b.text kept blank rest) (member : Text) (source : String) :
    b.insert? member source =
      some ((b.spliced kept (separator kept) (blank ++ '}' :: rest)).withMember
        (kept ++ (separator kept ++ blank)) member ('}' :: rest) source) := by
  have hbrace : (b.spliced kept (separator kept) (blank ++ '}' :: rest)).atLastBrace? =
      some (kept ++ (separator kept ++ blank), '}' :: rest) := by
    have htext : kept ++ (separator kept ++ (blank ++ '}' :: rest)) =
        (kept ++ (separator kept ++ blank)) ++ '}' :: rest := by simp
    rw [Buffer.atLastBrace?, spliced, htext]
    exact Text.splitAtLast_append h.rest _
  rw [Buffer.insert?, h.separate?_eq]
  simp only [Option.bind_eq_bind, Option.bind_some, hbrace]
  rfl

/-- A buffer with a place for members takes each member, which goes in before the closing brace, and
adds its span behind all others. -/
theorem Seat.insert? (h : Seat b.text kept blank rest) (member : Text) (source : String) :
    ∃ b' spans, b.insert? member source = some b' ∧
      b'.text = (kept ++ (separator kept ++ blank)) ++ (member ++ '}' :: rest) ∧
      b'.members = spans ++ [⟨Text.byteLength (kept ++ (separator kept ++ blank)),
        Text.byteLength (kept ++ (separator kept ++ blank)) + Text.byteLength member, source⟩] :=
  ⟨_, _, h.insert?_eq member source, List.append_assoc _ _ _, rfl⟩

/-- A buffer with a closing brace takes each member, and keeps the brace. -/
theorem exists_insert? (member : Text) (source : String) (h : '}' ∈ b.text) :
    ∃ b', b.insert? member source = some b' ∧ '}' ∈ b'.text := by
  obtain ⟨kept, blank, rest, hseat⟩ := Seat.exists_of_mem h
  obtain ⟨b', spans, hinsert, htext, -⟩ := hseat.insert? member source
  exact ⟨b', hinsert, by rw [htext]; simp⟩

/-- Without a closing brace nothing can be put in. -/
theorem separate?_eq_none (h : '}' ∉ b.text) : b.separate? = none := by
  rw [separate?, atLastBrace?, Text.splitAtLast_eq_none_iff.mpr h]
  rfl

/-- Without a closing brace there is no place for a member. -/
theorem insert?_eq_none (h : '}' ∉ b.text) (member : Text) (source : String) :
    b.insert? member source = none := by
  rw [insert?, separate?_eq_none h]
  rfl

end Graft.Buffer
