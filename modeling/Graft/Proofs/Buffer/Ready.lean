import Graft.Proofs.Buffer.Insertion
import Graft.Proofs.Text.Space

/-!
# Buffers that are ready for a member

A composed buffer is ready when what stands before its last closing brace ends with a comma or an
opening brace and white space. `separate?` makes a buffer ready, by a comma if it needs one
(`Composed.separate?`), and a ready buffer takes a member right before the brace (`Ready.insert?`).
-/

namespace Graft

open Lexeme (IsLetter StartsApart EndsApart Apart)
open Piece (flat spans cells Parted Full)

namespace Tagged

/-- A cut of a text without its tags is a cut of the tagged text. -/
theorem exists_cut {t : Tagged} {x y : Text} (h : plain t = x ++ y) :
    ∃ u v, t = u ++ v ∧ plain u = x ∧ plain v = y :=
  List.map_eq_append_iff.mp h

/-- The parts around the last closing brace, said of the text without its tags. -/
theorem lastBrace_of_plain {kept blank fromBrace : Tagged} {rest : Text}
    (hkept : ∀ c ∈ (plain kept).getLast?, Alphabet.isSpace c = false)
    (hblank : ∀ c ∈ plain blank, Alphabet.isSpace c = true)
    (hbrace : plain fromBrace = '}' :: rest) (hrest : '}' ∉ rest) :
    LastBrace (kept ++ (blank ++ fromBrace)) kept blank fromBrace where
  eq := rfl
  kept a ha := hkept a.1 (by rw [plain, List.getLast?_map, Option.mem_def.mp ha]; rfl)
  blank a ha := hblank a.1 (List.mem_map_of_mem ha)
  brace := by
    obtain ⟨a, others, hfrom, ha, hothers⟩ := List.map_eq_cons_iff.mp hbrace
    refine ⟨a, others, hfrom, ha, fun c hc hbad => hrest ?_⟩
    rw [← hothers, ← hbad]
    exact List.mem_map_of_mem hc

/-- Whether a member may follow, said of the text without its tags. -/
theorem opens_iff {t : Tagged} : Opens t ↔ Buffer.isOpen (plain t) = true := by
  rw [Opens, Buffer.isOpen, Text.endsWith, Text.endsWith, plain, List.getLast?_map]
  cases t.getLast? with
  | none => simp
  | some a => simp

end Tagged

namespace Buffer

variable {b b' : Buffer} {pieces front back : List Piece} {tail rest member : Text}

/-- An open text ends with a comma or an opening brace. -/
theorem isOpen_iff {t : Text} : isOpen t = true ↔ ∃ front c, t = front ++ [c] ∧ (c = ',' ∨ c = '{') := by
  unfold isOpen Text.endsWith
  rcases List.eq_nil_or_concat t with rfl | ⟨front, c, rfl⟩
  · simp
  · simp

/-- A text after which a member may follow: it ends with a comma or an opening brace and white
space. -/
def EndsOpen (t : Text) : Prop :=
  ∃ kept blank, t = kept ++ blank ∧ isOpen kept = true ∧ ∀ c ∈ blank, Alphabet.isSpace c = true

/-- White space is made of marks other than the dot. -/
theorem apart_of_isSpace {c : Char} (h : Alphabet.isSpace c = true) : ¬ IsLetter id c ∧ c ≠ '.' := by
  have hletter : Alphabet.isIdentifier c = false := Alphabet.isIdentifier_of_isSpace h
  constructor
  · simp [IsLetter, hletter]
  · rintro rfl
    revert h
    decide

/-- A text after which a member may follow ends with marks only: a comma or an opening brace, and
white space. -/
theorem EndsOpen.exists_marks {t : Text} (h : EndsOpen t) :
    ∃ front c blank, t = front ++ c :: blank ∧ (c = ',' ∨ c = '{') ∧
      (∀ a ∈ c :: blank, ¬ IsLetter id a ∧ a ≠ '.') ∧ ∀ a ∈ blank, Alphabet.isSpace a = true := by
  obtain ⟨kept, blank, rfl, hopen, hblank⟩ := h
  obtain ⟨front, c, rfl, hc⟩ := isOpen_iff.mp hopen
  refine ⟨front, c, blank, by simp, hc, fun a ha => ?_, hblank⟩
  rcases List.mem_cons.mp ha with rfl | ha
  · rcases hc with rfl | rfl <;> decide
  · exact apart_of_isSpace (hblank a ha)

/-- A text after which a member may follow ends apart. -/
theorem EndsOpen.endsApart {t : Text} (h : EndsOpen t) : EndsApart id t := by
  obtain ⟨front, c, blank, rfl, -, hmarks, -⟩ := h.exists_marks
  intro a ha
  rw [List.getLast?_append_of_ne_nil _ (List.cons_ne_nil _ _)] at ha
  exact hmarks a (List.mem_of_getLast? ha)

/-- What stands before does not matter. -/
theorem EndsOpen.append {t : Text} (h : EndsOpen t) (before : Text) : EndsOpen (before ++ t) := by
  obtain ⟨kept, blank, rfl, hopen, hblank⟩ := h
  obtain ⟨front, c, rfl, hc⟩ := isOpen_iff.mp hopen
  exact ⟨before ++ (front ++ [c]), blank, by simp, isOpen_iff.mpr ⟨before ++ front, c, by simp, hc⟩,
    hblank⟩

/-- Resolving does not touch the marks at the end. -/
theorem EndsOpen.resolve {t : Text} (h : EndsOpen t) (ρ : Text → Option Text) :
    EndsOpen (Lexeme.resolve id ρ t) := by
  obtain ⟨front, c, blank, rfl, hc, hmarks, hblank⟩ := h.exists_marks
  have hcut : Lexeme.resolve id ρ (front ++ c :: blank) = Lexeme.resolve id ρ front ++ c :: blank := by
    have hstart : StartsApart id (c :: blank) := by
      rw [Lexeme.startsApart_cons]
      exact (hmarks c (by simp)).1
    have hrest : Lexeme.resolve id ρ (c :: blank) = c :: blank :=
      Lexeme.resolveFrom_marks fun a ha => (hmarks a ha).1
    rw [Lexeme.resolve_append (Or.inr hstart), hrest]
  rw [hcut]
  exact ⟨Lexeme.resolve id ρ front ++ [c], blank, by simp, isOpen_iff.mpr ⟨_, c, rfl, hc⟩, hblank⟩

/-- A buffer that is ready for a member before its last closing brace. -/
structure Ready (b : Buffer) (pieces : List Piece) (rest : Text) : Prop where
  composed : Composed b (pieces ++ [⟨none, '}' :: rest⟩])
  brace : '}' ∉ rest
  isOpen : EndsOpen (flat pieces)

/-- What an open text ends with is not white space. -/
theorem getLast?_of_isOpen {kept : Text} (h : isOpen kept = true) :
    ∀ c ∈ kept.getLast?, Alphabet.isSpace c = false := by
  obtain ⟨front, d, rfl, hd⟩ := isOpen_iff.mp h
  intro c hc
  rw [List.getLast?_concat, Option.mem_def, Option.some.injEq] at hc
  subst hc
  rcases hd with rfl | rfl <;> decide

/-- The last closing brace of a composed buffer that ends with it. -/
theorem Composed.atLastBrace? (h : Composed b (pieces ++ [⟨none, '}' :: rest⟩])) (hrest : '}' ∉ rest) :
    b.atLastBrace? = some (flat pieces, '}' :: rest) := by
  rw [Buffer.atLastBrace?, h.text, Piece.flat_append, Piece.flat_cons, Piece.flat_nil, List.append_nil]
  exact Text.splitAtLast_append hrest _

/-- A ready buffer needs no comma. -/
theorem Ready.separate? (h : Ready b pieces rest) : b.separate? = some (b, false) := by
  obtain ⟨kept, blank, hflat, hopen, hblank⟩ := h.isOpen
  have htrim : Text.trimEnd (flat pieces) = kept := by
    rw [hflat]
    exact Text.trimEndBy_eq (getLast?_of_isOpen hopen) hblank
  rw [Buffer.separate?, h.composed.atLastBrace? h.brace]
  simp [htrim, hopen]

/-- A buffer that is made ready takes a member right before the brace. -/
theorem Ready.insert? {isNew : Bool} (h : Ready b' pieces rest)
    (hseparate : b.separate? = some (b', isNew)) (hmember : member ≠ []) (source : String) :
    ∃ c, b.insert? member source = some c ∧
      Composed c ((pieces ++ [⟨some source, member⟩]) ++ [⟨none, '}' :: rest⟩]) ∧
      c.origin = b'.origin ∧
      c.members.map Span.source = b'.members.map Span.source ++ [source] := by
  have hstart : StartsApart id (flat [⟨none, '}' :: rest⟩]) := by
    rw [Piece.flat_cons, List.cons_append, Lexeme.startsApart_cons]
    decide
  have hcomposed : Composed (b'.withMember (flat pieces) member ('}' :: rest) source)
      (pieces ++ ⟨some source, member⟩ :: [⟨none, '}' :: rest⟩]) := by
    have := h.composed.insertMember hmember source (by simp) h.isOpen.endsApart hstart
    rwa [Piece.flat_cons, Piece.flat_nil, List.append_nil] at this
  refine ⟨b'.withMember (flat pieces) member ('}' :: rest) source, ?_, by simpa using hcomposed, rfl, ?_⟩
  · rw [Buffer.insert?, hseparate]
    simp [h.composed.atLastBrace? h.brace, withMember]
  · simp [withMember, shift, Function.comp_def]

/-! ## Making a buffer ready -/

/-- A buffer with a comma between the first two parts of its text. -/
def withComma (b : Buffer) (kept blank fromBrace : Text) : Buffer :=
  { b with
    text := kept ++ [','] ++ blank ++ fromBrace
    members := b.members.map (shift (Text.byteLength kept) 1) }

/-- The pieces that take a comma are those of the buffer with the comma. -/
theorem Composed.insertComma {kept blank fromBrace : Text} {pieces' : List Piece}
    (h : Composed b (pieces ++ [⟨none, fromBrace⟩]))
    (hcomma : Piece.TakesComma b.origin kept blank pieces pieces') :
    Composed (b.withComma kept blank fromBrace) (pieces' ++ [⟨none, fromBrace⟩]) where
  text := by simp [withComma, hcomma.flat]
  members := by
    have hspans := hcomma.spans 0
    have hnone : ∀ start, spans start [⟨none, fromBrace⟩] = [] :=
      fun start => Piece.spans_eq_nil (by simp)
    rw [Nat.zero_add] at hspans
    rw [withComma, h.members, Piece.spans_append, Piece.spans_append, hspans, hnone, hnone,
      List.append_nil, List.append_nil]
  full := Piece.full_append.mpr ⟨hcomma.full, (Piece.full_append.mp h.full).2⟩
  parted := hcomma.parted _ h.parted

/-- Text outside of members may be cut before its last closing brace. -/
theorem Composed.cutBrace {before : Text}
    (h : Composed b (front ++ [⟨none, before ++ '}' :: rest⟩])) :
    Composed b ((front ++ [⟨none, before⟩]) ++ [⟨none, '}' :: rest⟩]) where
  text := by rw [h.text]; simp
  members := by
    rw [h.members, Piece.spans_append, List.append_assoc, Piece.spans_append]
    rfl
  full := by
    have hnone : ∀ text, Full [⟨none, text⟩] := by simp [Full]
    rw [Piece.full_append, Piece.full_append]
    exact ⟨⟨(Piece.full_append.mp h.full).1, hnone before⟩, hnone _⟩
  parted := by
    intro f k hcut
    rw [List.append_assoc] at hcut
    -- A cut up to the text before the brace is one of the old pieces; at the brace, the brace parts.
    rcases Piece.cut_around hcut with ⟨m, rfl, rfl⟩ | ⟨m, rfl, hback⟩
    · have := h.parted f (m ++ [⟨none, before ++ '}' :: rest⟩]) (by rw [List.append_assoc])
      simpa using this
    · cases m with
      | nil =>
        right
        rw [List.nil_append] at hback
        rw [← hback]
        simp
        decide
      | cons q m =>
        have hk : k = [] := by
          have := congrArg List.length hback
          simp at this
          exact this.2
        right
        rw [hk]
        simp

/-- The pieces before the last closing brace as a text that is kept and white space behind it. -/
structure Blank (pieces : List Piece) (kept blank : Text) : Prop where
  flat : flat pieces = kept ++ blank
  trim : Text.trimEnd (Piece.flat pieces) = kept
  kept : ∀ c ∈ kept.getLast?, Alphabet.isSpace c = false
  blank : ∀ c ∈ blank, Alphabet.isSpace c = true

/-- Pieces end with some white space, or with none. -/
theorem exists_blank (pieces : List Piece) : ∃ kept blank, Blank pieces kept blank := by
  obtain ⟨blank, hflat, hblank⟩ := Text.trimEndBy_append Alphabet.isSpace (flat pieces)
  exact ⟨_, blank, hflat, rfl, Text.trimEndBy_getLast? Alphabet.isSpace (flat pieces), hblank⟩

/-- The tagged text of a buffer falls into the parts around its last closing brace. -/
theorem Composed.lastBrace (h : Composed b (pieces ++ [⟨none, '}' :: rest⟩])) (hrest : '}' ∉ rest)
    {kept blank : Text} (hends : Blank pieces kept blank) {u v : Tagged}
    (hcells : cells b.origin pieces = u ++ v) (hu : Tagged.plain u = kept) :
    Tagged.LastBrace b.tagged u v (cells b.origin [⟨none, '}' :: rest⟩]) := by
  have hv : Tagged.plain v = blank := by
    have hplain : Tagged.plain (cells b.origin pieces) = flat pieces := Piece.plain_cells
    rw [hcells, hends.flat, Tagged.plain, List.map_append, ← Tagged.plain, hu] at hplain
    exact List.append_cancel_left hplain
  have hbrace : Tagged.plain (cells b.origin [⟨none, '}' :: rest⟩]) = '}' :: rest := by
    rw [Piece.plain_cells, Piece.flat_cons, Piece.flat_nil, List.append_nil]
  rw [h.tagged, Piece.cells_append, hcells, List.append_assoc]
  exact Tagged.lastBrace_of_plain (hu ▸ hends.kept) (hv ▸ hends.blank) hbrace hrest

/-- A buffer that ends with a comma or an opening brace before its last closing brace is ready as it
is. -/
theorem Composed.separate?_of_isOpen (h : Composed b (pieces ++ [⟨none, '}' :: rest⟩]))
    (hrest : '}' ∉ rest) {kept blank : Text} (hends : Blank pieces kept blank)
    (hopen : isOpen kept = true) :
    b.separate? = some (b, false) ∧ Ready b pieces rest ∧ Tagged.Separates b.tagged b.tagged := by
  refine ⟨?_, ⟨h, hrest, kept, blank, hends.flat, hopen, hends.blank⟩, ?_⟩
  · rw [Buffer.separate?, h.atLastBrace? hrest]
    simp [hends.trim, hopen]
  · obtain ⟨u, v, hcells, hu, -⟩ := Tagged.exists_cut (Piece.plain_cells.trans hends.flat)
    have hopens : Tagged.Opens u := Tagged.opens_iff.mpr (hu ▸ hopen)
    exact .ready (h.lastBrace hrest hends hcells hu) hopens

/-- Any other buffer becomes ready by a comma behind the text that is kept. -/
theorem Composed.separate?_of_not_isOpen (h : Composed b (pieces ++ [⟨none, '}' :: rest⟩]))
    (hrest : '}' ∉ rest) {kept blank : Text} (hends : Blank pieces kept blank)
    (hopen : ¬ isOpen kept = true) :
    ∃ pieces', b.separate? = some (b.withComma kept blank ('}' :: rest), true) ∧
      Ready (b.withComma kept blank ('}' :: rest)) pieces' rest ∧
      Tagged.Separates b.tagged (b.withComma kept blank ('}' :: rest)).tagged := by
  obtain ⟨pieces', hcomma⟩ := Piece.exists_takesComma b.origin hends.flat
    (Piece.full_append.mp h.full).1
  have hcomposed := h.insertComma hcomma
  -- The comma is the last thing that is not blank.
  have hended : isOpen (kept ++ [',']) = true := isOpen_iff.mpr ⟨kept, ',', rfl, Or.inl rfl⟩
  refine ⟨pieces', ?_, ⟨hcomposed, hrest, kept ++ [','], blank, ?_, hended, hends.blank⟩, ?_⟩
  · have htrim := hends.trim
    rw [hends.flat] at htrim
    rw [Buffer.separate?, h.atLastBrace? hrest]
    simp [htrim, hopen, hends.flat, withComma]
  · simpa using hcomma.flat
  · obtain ⟨u, v, file, hcells, hu, hcells'⟩ := hcomma.cells
    have hclosed : ¬ Tagged.Opens u := by rwa [Tagged.opens_iff, hu]
    have htagged : (b.withComma kept blank ('}' :: rest)).tagged =
        u ++ (',', file) :: (v ++ cells b.origin [⟨none, '}' :: rest⟩]) := by
      have horigin : (b.withComma kept blank ('}' :: rest)).origin = b.origin := rfl
      rw [hcomposed.tagged, Piece.cells_append, horigin, hcells']
      simp
    rw [htagged]
    exact .comma (h.lastBrace hrest hends hcells hu) hclosed file

/-- A composed buffer whose last piece has a closing brace becomes ready, by a comma if needed. -/
theorem Composed.separate? (h : Composed b (front ++ [⟨none, tail⟩])) (htail : '}' ∈ tail) :
    ∃ b' isNew pieces rest, b.separate? = some (b', isNew) ∧ Ready b' pieces rest ∧
      b'.origin = b.origin ∧ b'.members.map Span.source = b.members.map Span.source ∧
      Tagged.Separates b.tagged b'.tagged := by
  -- The last piece is cut before its last closing brace, and the blank before that is set apart.
  obtain ⟨before, rest, hrest, rfl⟩ := Text.exists_last_occurrence htail
  have hcut := h.cutBrace
  obtain ⟨kept, blank, hends⟩ := exists_blank (front ++ [⟨none, before⟩])
  by_cases hopen : isOpen kept = true
  · obtain ⟨hseparate, hready, hsame⟩ := hcut.separate?_of_isOpen hrest hends hopen
    exact ⟨b, false, _, rest, hseparate, hready, rfl, rfl, hsame⟩
  · obtain ⟨pieces', hseparate, hready, hcomma⟩ := hcut.separate?_of_not_isOpen hrest hends hopen
    have hsources : (b.withComma kept blank ('}' :: rest)).members.map Span.source =
        b.members.map Span.source := by
      simp [withComma, shift, Function.comp_def]
    exact ⟨_, true, pieces', rest, hseparate, hready, rfl, hsources, hcomma⟩

/-- A text of the entry with a closing brace falls into the two parts between which members go, with a
comma put in if needed. -/
theorem exists_seat {body : Text} (origin : String) (hbody : '}' ∈ body) :
    ∃ b isNew before rest, (ofText body origin).separate? = some (b, isNew) ∧
      b.atLastBrace? = some (before, '}' :: rest) ∧ '}' ∉ rest ∧ EndsOpen before ∧
      b.origin = origin ∧ Composed b [⟨none, before⟩, ⟨none, '}' :: rest⟩] := by
  have hstart : Composed (ofText body origin) ([] ++ [⟨none, body⟩]) := composed_ofText body origin
  obtain ⟨b, isNew, pieces, rest, hseparate, hready, horigin, hmembers, -⟩ :=
    hstart.separate? hbody
  -- There are no members yet, so the buffer is a text of the entry again.
  have hnone : b.members = [] := List.map_eq_nil_iff.mp hmembers
  have htext : b.text = flat pieces ++ '}' :: rest := by
    rw [hready.composed.text]
    simp
  have hb : b = ofText (flat pieces ++ '}' :: rest) origin := by
    obtain ⟨text, file, members⟩ := b
    simp only at hnone htext horigin
    rw [hnone, htext, horigin]
    rfl
  have hwhole : Composed b ([] ++ [⟨none, flat pieces ++ '}' :: rest⟩]) := by
    rw [hb]
    exact composed_ofText _ origin
  exact ⟨b, isNew, flat pieces, rest, hseparate, hready.composed.atLastBrace? hready.brace,
    hready.brace, hready.isOpen, horigin, hwhole.cutBrace⟩

end Buffer

end Graft
