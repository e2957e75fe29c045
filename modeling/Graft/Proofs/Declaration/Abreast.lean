import Graft.Proofs.Declaration.Reach

/-!
# Headers in front of a comment

A comment is put in behind a line. What a header in front of that line comes to without and with the
comment is `CutAbreast`: the same cut in front of the line, or none, unless the cut without the comment
reaches into the line. It is so for blocks, for expressions, and so for all headers (`cut?_abreast`).
-/

namespace Graft.Declaration

open Text (trimEnd)

variable {c r t x after : Text} {declared parameters : Text} {parts : (Text × Bool × Kind) × Text}
  {isGenerator : Bool}

/-! ## Cuts -/

/-- What a header comes to without and with a comment behind the line `t`: the same cut in front of the
line, none in either text, or a cut that reaches into the line in the text without a comment. -/
inductive CutAbreast (c t after : Text) : Option Cut → Option Cut → Prop
  | near (d : Declaration) (q : Text) :
    CutAbreast c t after (some ⟨d, q ++ (t ++ after)⟩) (some ⟨d, q ++ (t ++ (comment c ++ after))⟩)
  | neither : CutAbreast c t after none none
  | past {done : Cut} (h : done.rest.length < (t ++ after).length) (new : Option Cut) :
    CutAbreast c t after (some done) new

/-- A cut without the comment reaches into the line, and there is none with the comment. -/
theorem CutAbreast.of_none {old new : Option Cut}
    (h : ∀ done, old = some done → done.rest.length < (t ++ after).length) (hnew : old = none → new = none) :
    CutAbreast c t after old new := by
  cases old with
  | none =>
    rw [hnew rfl]
    exact .neither
  | some done => exact .past (h done rfl) new

/-- What a header spans does not depend on what follows. -/
theorem spanUntil_headerOf (declared q s : Text) (parts : (Text × Bool × Kind) × Text) :
    (Header.headerOf (declared ++ s) parts).spanUntil (q ++ s) =
      declared.take (declared.length - q.length) := by
  show (declared ++ s).take ((declared ++ s).length - (q ++ s).length) = _
  rw [List.length_append, List.length_append, Nat.add_sub_add_right,
    List.take_append_of_le_length (Nat.sub_le _ _)]

/-- What is cut with a block is shorter than the text of the block. -/
theorem length_lt_of_withBlock? {h : Header} {done : Cut}
    (hcut : h.withBlock? isGenerator parameters ('{' :: x) = some done) : done.rest.length < x.length := by
  obtain ⟨body, rest, rfl, hlast, -, rfl⟩ := withBlock?_eq_some hcut
  have hne : body ≠ [] := by
    rintro rfl
    cases hlast
  have hpos := List.length_pos_iff.mpr hne
  dsimp only
  rw [List.length_append]
  omega

/-- What is cut with the first block of a text is shorter than the text. -/
theorem length_lt_of_dropWhile {h : Header} {done : Cut} {y : Text}
    (hcut : h.withBlock? isGenerator parameters (y.dropWhile (· ≠ '{')) = some done) :
    done.rest.length < y.length := by
  rcases dropWhile_brace y with hnil | ⟨x, hx⟩
  · rw [hnil] at hcut
    cases hcut
  · rw [hx] at hcut
    have hlt := length_lt_of_withBlock? hcut
    have hle := List.length_dropWhile_le (· ≠ '{') y
    rw [hx, List.length_cons] at hle
    omega

/-- A block whose brace is in front of the line. -/
theorem withBlock?_front (hc : Harmless c after) (ht : '\n' ∉ t)
    (hne : t ≠ []) (hhead : ∀ d ∈ t.head?, d ≠ '}') (z : Text) :
    CutAbreast c t after
      ((Header.headerOf (declared ++ after) parts).withBlock? isGenerator parameters
        ('{' :: (z ++ '\n' :: (t ++ after))))
      ((Header.headerOf (declared ++ (comment c ++ after)) parts).withBlock? isGenerator parameters
        ('{' :: (z ++ '\n' :: (t ++ (comment c ++ after))))) := by
  have hnot : ∀ s, isClosingLine (t ++ s) = false := by
    intro s
    refine isClosingLine_of_head? ?_
    rw [List.head?_append_of_ne_nil _ hne]
    exact hhead
  -- A block that is not closed in front of the line looks for a closing line, and the line is none.
  rcases exists_blockLength?_append z with ⟨body, q, hsplit, hlength⟩ | hlength
  · have htext : ∀ s, z ++ '\n' :: (t ++ s) = body ++ (q ++ (t ++ s)) := by
      intro s
      rw [← List.append_assoc body, ← hsplit]
      simp
    have hcut : ∀ s, (Header.headerOf (declared ++ s) parts).withBlock? isGenerator parameters
        ('{' :: (z ++ '\n' :: (t ++ s))) = some ⟨⟨String.ofList parts.1.1,
          declared.take (declared.length - (q ++ t).length), parts.1.2.1, isGenerator, parameters,
          .block body⟩, q ++ (t ++ s)⟩ := by
      intro s
      have hlength := hlength (hnot s)
      rw [htext] at hlength ⊢
      rw [withBlock?_of_length hlength, ← List.append_assoc q, spanUntil_headerOf]
      rfl
    rw [hcut, hcut]
    exact .near _ q
  · rw [withBlock?_eq, withBlock?_eq, hlength (hnot after), hlength (hnot (comment c ++ after)),
      toClosingLine?_along ht, toClosingLine?_along ht, toClosingLine?_along hc.notMem_comment.1]
    cases hclosing : toClosingLine? after with
    | none => exact .neither
    | some n =>
      refine .past ?_ _
      simp only [List.length_drop, List.length_cons, List.length_append]
      have := List.length_pos_iff.mpr hne
      omega

/-- A block whose brace is in the line. -/
theorem withBlock?_line (hafter : IsLineEnd after) (hc : Harmless c after) (hx : '\n' ∉ x)
    (hlength : x.length ≤ t.length) :
    CutAbreast c t after
      ((Header.headerOf (declared ++ after) parts).withBlock? isGenerator parameters ('{' :: (x ++ after)))
      ((Header.headerOf (declared ++ (comment c ++ after)) parts).withBlock? isGenerator parameters
        ('{' :: (x ++ (comment c ++ after)))) := by
  refine .of_none (fun done hdone => ?_) fun hnone => ?_
  · have := length_lt_of_withBlock? hdone
    simp only [List.length_append] at this ⊢
    omega
  · rw [withBlock?_eq, Option.map_eq_none_iff] at hnone ⊢
    exact blockLength?_of_comment hafter hc hx hnone

/-- A block whose brace is behind the line. -/
theorem withBlock?_behind {y parameters' : Text} (hlength : y.length ≤ after.length) :
    CutAbreast c t after
      ((Header.headerOf (declared ++ after) parts).withBlock? isGenerator parameters (y.dropWhile (· ≠ '{')))
      ((Header.headerOf (declared ++ (comment c ++ after)) parts).withBlock? isGenerator parameters'
        (y.dropWhile (· ≠ '{'))) := by
  refine .of_none (fun done hdone => ?_) fun hnone => ?_
  · have := length_lt_of_dropWhile hdone
    rw [List.length_append]
    omega
  · rw [withBlock?_eq, Option.map_eq_none_iff] at hnone ⊢
    exact hnone

/-- What is behind a place in a text that ends with a line: the rest of that line, or the end of a line
before it and all of that line. -/
theorem suffix_cases (hr : ∀ d ∈ r.getLast?, d = '\n') (ht : '\n' ∉ t) {p : Text} (hsplit : r ++ t = p ++ x) :
    ('\n' ∉ x ∧ x.length ≤ t.length) ∨ ∃ z, x = z ++ '\n' :: t := by
  rcases List.append_eq_append_iff.mp hsplit with ⟨a, -, rfl⟩ | ⟨a, rfl, rfl⟩
  · exact Or.inl ⟨fun h => ht (List.mem_append_right a h), by simp⟩
  · rcases List.eq_nil_or_concat a with rfl | ⟨z, d, rfl⟩
    · exact Or.inl ⟨ht, Nat.le_refl _⟩
    · obtain rfl : d = '\n' := hr d (by simp)
      exact Or.inr ⟨z, by simp⟩

/-! ## Expressions -/

/-- What is cut with an expression is shorter than the text of the expression. -/
theorem length_lt_of_withExpression? {h : Header} {done : Cut}
    (hcut : h.withExpression? parameters x = some done) : done.rest.length < x.length := by
  obtain ⟨rest, hsplit, hne, rfl⟩ := withExpression?_eq_some hcut
  have hpos : expressionOf x ≠ [] := by
    intro hnil
    rw [hnil] at hne
    exact hne rfl
  have hlength := congrArg List.length hsplit
  have := List.length_pos_iff.mpr hpos
  rw [List.length_append] at hlength
  dsimp only
  omega

/-- An expression that starts in front of a line that starts a statement. -/
theorem withExpression?_front (ht : '\n' ∉ t) {d : Char} (hd : Alphabet.isAsciiLetter d = true)
    (hhead : t.head? = some d) (z : Text) :
    CutAbreast c t after
      ((Header.headerOf (declared ++ after) parts).withExpression? parameters (z ++ '\n' :: (t ++ after)))
      ((Header.headerOf (declared ++ (comment c ++ after)) parts).withExpression? parameters
        (z ++ '\n' :: (t ++ (comment c ++ after)))) := by
  obtain ⟨tail, rfl⟩ := List.head?_eq_some_iff.mp hhead
  obtain ⟨e, he, hmore⟩ := exists_expressionFrom [] true (Or.inr (Text.linesWithEnds_ne_nil
    (t := z ++ ['\n']) (by simp)))
  rw [List.nil_append, Text.flatten_linesWithEnds] at he
  obtain ⟨behind, hbehind⟩ := he
  -- The line starts a statement, and so the expression stops in front of it, whatever follows.
  have hexpression : ∀ s, expressionOf (z ++ '\n' :: ((d :: tail) ++ s)) = e := by
    intro s
    obtain ⟨more, others, hlines, -⟩ := Text.exists_linesWithEnds_append (by simp) ht s
    unfold expressionOf
    rw [Text.linesWithEnds_append, hlines]
    exact hmore _ _ (Alphabet.isIdentifier_of_isAsciiLetter hd)
  have hsplit : ∀ s : Text, z ++ '\n' :: ((d :: tail) ++ s) = e ++ (behind ++ ((d :: tail) ++ s)) := by
    intro s
    rw [← List.append_assoc e, hbehind]
    simp
  have hdrop : ∀ s : Text, (z ++ '\n' :: ((d :: tail) ++ s)).drop
      (expressionLength (z ++ '\n' :: ((d :: tail) ++ s))) = behind ++ ((d :: tail) ++ s) := by
    intro s
    have := expressionOf_append_drop (z ++ '\n' :: ((d :: tail) ++ s))
    rw [hexpression] at this
    exact List.append_cancel_left (this.trans (hsplit s))
  have hspan : ∀ s, (Header.headerOf (declared ++ s) parts).spanUntil (behind ++ ((d :: tail) ++ s)) =
      declared.take (declared.length - (behind ++ (d :: tail)).length) := by
    intro s
    rw [← List.append_assoc]
    exact spanUntil_headerOf declared _ s parts
  rw [withExpression?_eq, withExpression?_eq, hexpression after, hexpression (comment c ++ after),
    hdrop after, hdrop (comment c ++ after), hspan after, hspan (comment c ++ after)]
  split
  · exact .neither
  · exact .near _ _

/-- An expression that starts with the line reaches into it. -/
theorem withExpression?_line {d : Char} (hspace : Alphabet.isSpace d = false) (hmark : d ≠ ';') (h : Header)
    (parameters x : Text) :
    ∃ done, h.withExpression? parameters (d :: x) = some done ∧ done.rest.length < (d :: x).length := by
  have hbreak := Text.isLineBreak_of_isSpace hspace
  have hline := Text.lineFeed_notMem_singleton hspace
  obtain ⟨kept, hkept⟩ := exists_expressionOf_append [d] (by simp) hline (by simpa using hbreak) x
  obtain ⟨more, hmore⟩ := exists_bodyOf_append [d] (by simp [hspace, hmark]) kept
  have hcut := withExpression?_eq h parameters (d :: x)
  rw [List.singleton_append] at hkept
  rw [hkept, hmore, if_neg (by simp)] at hcut
  exact ⟨_, hcut, length_lt_of_withExpression? hcut⟩

/-! ## The end of a header's declaration -/

/-- The brace of a function's block is in the first part of what follows the header, or the parameters end
there and the brace is behind it, or both are behind it. -/
theorem cut?_function_append (r : Text) (isGenerator : Bool) :
    (∃ front inside x, r = front ++ '{' :: x ∧ ∀ (h : Header) (s : Text), h.kind = .function isGenerator →
      h.rest = r ++ s → h.cut? = h.withBlock? isGenerator inside ('{' :: (x ++ s))) ∨
    (∃ inside, ∀ (h : Header) (s : Text), h.kind = .function isGenerator → h.rest = r ++ s →
      h.cut? = h.withBlock? isGenerator inside (s.dropWhile (· ≠ '{'))) ∨
    ∃ opened, ∀ (h : Header) (s : Text), h.kind = .function isGenerator → h.rest = r ++ s →
      h.cut? = (untilCloseParen? opened s).bind fun parts =>
        h.withBlock? isGenerator (r ++ parts.1) (parts.2.dropWhile (· ≠ '{')) := by
  have hcut : ∀ (h : Header) (s : Text), h.kind = .function isGenerator → h.rest = r ++ s →
      h.cut? = (untilCloseParen? 0 (r ++ s)).bind fun parts =>
        h.withBlock? isGenerator parts.1 (parts.2.dropWhile (· ≠ '{')) := by
    intro h s hkind hrest
    unfold Header.cut?
    rw [hkind, hrest]
    rfl
  rcases untilCloseParen?_append 0 r with ⟨inside, tail, rfl, hfound⟩ | ⟨opened, hmore⟩
  · have hclose : ∀ s, (')' :: (tail ++ s)).dropWhile (· ≠ '{') = (tail ++ s).dropWhile (· ≠ '{') :=
      fun s => List.dropWhile_cons_of_pos (by decide)
    -- With the parameters closed, the first brace behind them opens the block.
    by_cases hbrace : '{' ∈ tail
    · obtain ⟨front, x, rfl, hfront⟩ := List.eq_append_cons_of_mem hbrace
      refine Or.inl ⟨inside ++ ')' :: front, inside, x, by simp, fun h s hkind hrest => ?_⟩
      rw [hcut h s hkind hrest, hfound, Option.bind_some, hclose, List.append_assoc,
        Text.dropWhile_ne_append hfront]
      exact congrArg _ (List.dropWhile_cons_of_neg (by simp))
    · refine Or.inr (Or.inl ⟨inside, fun h s hkind hrest => ?_⟩)
      rw [hcut h s hkind hrest, hfound, Option.bind_some, hclose, Text.dropWhile_ne_append hbrace]
  · refine Or.inr (Or.inr ⟨opened, fun h s hkind hrest => ?_⟩)
    rw [hcut h s hkind hrest, hmore]
    cases untilCloseParen? opened s <;> rfl

/-- What a function's header in front of a line comes to without and with a comment behind that line. -/
theorem cut?_abreast_function (hafter : IsLineEnd after) (hc : Harmless c after)
    (hr : ∀ e ∈ r.getLast?, e = '\n') (ht : '\n' ∉ t) (hne : t ≠ []) (hhead : ∀ e ∈ t.head?, e ≠ '}')
    (declared name : Text) (isAsync isGenerator : Bool) :
    CutAbreast c t after
      (Header.headerOf (declared ++ after) ((name, isAsync, .function isGenerator), r ++ (t ++ after))).cut?
      (Header.headerOf (declared ++ (comment c ++ after))
        ((name, isAsync, .function isGenerator), r ++ (t ++ (comment c ++ after)))).cut? := by
  have hrest : ∀ s, r ++ (t ++ s) = (r ++ t) ++ s := fun s => (List.append_assoc ..).symm
  -- The block opens in this text or behind it, where the parenthesis may still be open; a comment behind it
  -- has no opening brace, and its parentheses are balanced.
  rcases cut?_function_append (r ++ t) isGenerator with
    ⟨front, inside, x, hsplit, hcut⟩ | ⟨inside, hcut⟩ | ⟨opened, hcut⟩
  · rw [hcut _ after rfl (hrest _), hcut _ (comment c ++ after) rfl (hrest _)]
    -- Behind the brace is a part of the line, or the end of a line before it and all of the line.
    rcases suffix_cases (x := x) (p := front ++ ['{']) hr ht (by simp [hsplit]) with ⟨hx, hlength⟩ | ⟨z, rfl⟩
    · exact withBlock?_line hafter hc hx hlength
    · rw [List.append_assoc, List.append_assoc]
      exact withBlock?_front hc ht hne hhead z
  · rw [hcut _ after rfl (hrest _), hcut _ (comment c ++ after) rfl (hrest _),
      Text.dropWhile_ne_append hc.notMem_comment.2.2]
    exact withBlock?_behind (Nat.le_refl _)
  · rw [hcut _ after rfl (hrest _), hcut _ (comment c ++ after) rfl (hrest _),
      untilCloseParen?_comment hc.balanced]
    cases hbehind : untilCloseParen? opened after with
    | none => exact .neither
    | some parts =>
      obtain ⟨-, -, hparts⟩ := untilCloseParen?_eq_some hbehind
      refine withBlock?_behind ?_
      rw [hparts, List.length_append]
      omega

/-- Where white space is trimmed in front of whole lines, what is left ends with a line feed, too, which is
not its first character. -/
theorem exists_trimStart_lines {e : Char} {body : Text} (hr : ∀ e ∈ r.getLast?, e = '\n')
    (hbody : Text.trimStart r = e :: body) : ∃ z, body = z ++ ['\n'] := by
  have he : Alphabet.isSpace e = false := Text.trimStart_head? r e (by rw [hbody]; rfl)
  obtain ⟨blank, hblank, -⟩ := Text.exists_trimStart r
  rw [hbody] at hblank
  rcases List.eq_nil_or_concat body with rfl | ⟨z, last, rfl⟩
  · obtain rfl : e = '\n' := hr e (by simp [hblank])
    cases he
  · rw [List.concat_eq_append] at hblank ⊢
    have hlast : r.getLast? = some last := by
      rw [hblank, ← List.cons_append, ← List.append_assoc, List.getLast?_concat]
    rw [hr last hlast]
    exact ⟨z, rfl⟩

/-- What an arrow function's header in front of a line comes to without and with a comment behind that
line. -/
theorem cut?_abreast_arrow (hc : Harmless c after) (hr : ∀ e ∈ r.getLast?, e = '\n') (ht : '\n' ∉ t) {d : Char}
    (hd : Alphabet.isAsciiLetter d = true) (hhead : t.head? = some d) (declared name parameters : Text)
    (isAsync : Bool) :
    CutAbreast c t after
      (Header.headerOf (declared ++ after) ((name, isAsync, .arrow parameters), r ++ (t ++ after))).cut?
      (Header.headerOf (declared ++ (comment c ++ after))
        ((name, isAsync, .arrow parameters), r ++ (t ++ (comment c ++ after)))).cut? := by
  have hspace : Alphabet.isSpace d = false :=
    Alphabet.isSpace_of_isIdentifier (Alphabet.isIdentifier_of_isAsciiLetter hd)
  have hmark : d ≠ '{' ∧ d ≠ ';' ∧ d ≠ '}' := by
    refine ⟨?_, ?_, ?_⟩ <;> rintro rfl <;> cases hd
  obtain ⟨tail, rfl⟩ := List.head?_eq_some_iff.mp hhead
  -- Nothing but white space is between the arrow and the line, and so the line starts the body, or the body
  -- starts in front of the line.
  cases hbody : Text.trimStart r with
  | nil =>
    have htrim : ∀ s, Text.trimStart (r ++ ((d :: tail) ++ s)) = d :: (tail ++ s) := by
      intro s
      rw [trimStart_append_of_nil hbody]
      exact Text.trimStart_of_head? (by simpa using hspace)
    rw [cut?_arrow rfl (htrim after), if_neg hmark.1, cut?_arrow rfl (htrim (comment c ++ after)),
      if_neg hmark.1]
    obtain ⟨done, hdone, hlength⟩ := withExpression?_line hspace hmark.2.1
      (Header.headerOf (declared ++ after) ((name, isAsync, .arrow parameters), r ++ ((d :: tail) ++ after)))
      parameters (tail ++ after)
    rw [hdone]
    exact .past hlength _
  | cons e body =>
    obtain ⟨z, rfl⟩ := exists_trimStart_lines hr hbody
    have htrim : ∀ s, Text.trimStart (r ++ ((d :: tail) ++ s)) = e :: (z ++ '\n' :: ((d :: tail) ++ s)) := by
      intro s
      rw [trimStart_append (by simp [hbody]), hbody]
      simp
    rw [cut?_arrow rfl (htrim after), cut?_arrow rfl (htrim (comment c ++ after))]
    -- A body that starts in front of the line is a block, or an expression, which stops in front of the line.
    by_cases he : e = '{'
    · rw [if_pos he, if_pos he]
      exact withBlock?_front hc ht (by simp) (by simpa using hmark.2.2) z
    · rw [if_neg he, if_neg he]
      exact withExpression?_front ht hd hhead (e :: z)

/-- What a header in front of a line comes to without and with a comment behind that line. -/
theorem cut?_abreast (hafter : IsLineEnd after) (hc : Harmless c after) (hr : ∀ e ∈ r.getLast?, e = '\n')
    (ht : '\n' ∉ t) {d : Char} (hd : Alphabet.isAsciiLetter d = true) (hhead : t.head? = some d)
    (declared : Text) (a : Text × Bool × Kind) :
    CutAbreast c t after (Header.headerOf (declared ++ after) (a, r ++ (t ++ after))).cut?
      (Header.headerOf (declared ++ (comment c ++ after)) (a, r ++ (t ++ (comment c ++ after)))).cut? := by
  obtain ⟨name, isAsync, kind⟩ := a
  cases kind with
  | function isGenerator =>
    refine cut?_abreast_function hafter hc hr ht ?_ ?_ declared name isAsync isGenerator
    · rintro rfl
      cases hhead
    · rw [hhead]
      rintro e he rfl
      cases he
      cases hd
  | arrow parameters => exact cut?_abreast_arrow hc hr ht hd hhead declared name parameters isAsync

/-- What is cut behind an arrow is shorter than what follows it, but for white space. -/
theorem length_lt_of_cut?_arrow {h : Header} {done : Cut} (hkind : h.kind = .arrow parameters)
    (hcut : h.cut? = some done) : done.rest.length < (Text.trimStart h.rest).length := by
  cases htrim : Text.trimStart h.rest with
  | nil =>
    rw [cut?_arrow_nil hkind htrim] at hcut
    cases hcut
  | cons d text =>
    rw [cut?_arrow hkind htrim] at hcut
    split at hcut
    · exact Nat.lt_succ_of_lt (length_lt_of_withBlock? hcut)
    · exact length_lt_of_withExpression? hcut

/-- What is cut behind a header is shorter than what follows it. -/
theorem length_lt_of_cut? {h : Header} {done : Cut} (hcut : h.cut? = some done) :
    done.rest.length < h.rest.length := by
  cases hkind : h.kind with
  | function isGenerator =>
    rcases cut?_function_append [] isGenerator with ⟨front, -, x, hnil, -⟩ | ⟨inside, heq⟩ | ⟨opened, heq⟩
    · simp at hnil
    · rw [heq h h.rest hkind rfl] at hcut
      exact length_lt_of_dropWhile hcut
    · rw [heq h h.rest hkind rfl] at hcut
      obtain ⟨parts, hparts, hcut⟩ := Option.bind_eq_some_iff.mp hcut
      obtain ⟨-, -, hrest⟩ := untilCloseParen?_eq_some hparts
      have := length_lt_of_dropWhile hcut
      rw [hrest, List.length_append]
      omega
  | arrow parameters =>
    exact Nat.lt_of_lt_of_le (length_lt_of_cut?_arrow hkind hcut) (Header.length_trimStart_le h.rest)

end Graft.Declaration
