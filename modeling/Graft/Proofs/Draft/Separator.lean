import Graft.Proofs.Buffer.Ready
import Graft.Proofs.Buffer.Seat
import Graft.Proofs.Draft.Calls
import Graft.Proofs.Draft.Rendering
import Graft.Proofs.Text.Comment

/-!
# Commas between members

Whether a comma is needed is decided by the last character that is not white space, in front of the
place for members and at the end of a member. A line comment is not looked for, so the comma may go into
one. What holds is said of both places in `separator_of_turn`: the comma before a new member is outside of
comments unless the text before ends in one, and so is the comma at the end of the member unless what
the declaration is spelled as ends in one. Redirecting names changes nothing about that, since neither
names nor what is written for them open or end a comment (`Buffer.endsAlike_fill`). Nothing is asked of
the spans of the buffer.
-/

namespace Graft

open Alphabet (IsName)
open Lexeme (IsLetter StartsApart Apart)
open Text (EndsAlike Live Opens Quiet endsInComment significant)

/-! ## The comma in front of a member -/

namespace Buffer

variable {b : Buffer} {kept blank : Text} {name t u x f a : Text} {φ : Nat → Option Text}
  {position : Nat} {c : Char} {source : String}

/-- A text that a member may follow is live, unless it ends in a comment. -/
theorem live_of_isOpen (h : isOpen kept = true) (hcomment : endsInComment false kept = false) :
    Live kept := by
  obtain ⟨front, c, rfl, hc⟩ := isOpen_iff.mp h
  have hslash : [c].head? ≠ some '/' := by
    rcases hc with rfl | rfl <;> decide
  rw [Text.endsInComment_append hslash] at hcomment
  unfold Live
  rw [Text.significant_append hslash]
  -- The comma or brace neither opens nor ends a comment, so it is significant.
  rcases hc with rfl | rfl
  · have hopen : endsInComment false front = false := by
      simpa [endsInComment, Text.opensComment] using hcomment
    rw [hopen]
    exact Or.inl List.getLast?_concat
  · have hopen : endsInComment false front = false := by
      simpa [endsInComment, Text.opensComment] using hcomment
    rw [hopen]
    exact Or.inr List.getLast?_concat

/-- With the separator behind a text, it is live if it ends in no comment, or was live before. -/
theorem live_append_separator (hblank : ∀ c ∈ blank, Alphabet.isSpace c = true) :
    Live (kept ++ (separator kept ++ blank)) ↔ endsInComment false kept = false ∨ Live kept := by
  have hslash : blank.head? ≠ some '/' := fun hhead =>
    absurd (hblank _ (List.mem_of_head? hhead)) (by decide)
  -- No separator goes behind a text that is open; behind any other goes a comma, which is live unless a
  -- comment swallows it.
  unfold separator
  split
  · next hopen =>
    have hsame : Live (kept ++ ([] ++ blank)) ↔ Live kept := by
      unfold Live
      rw [List.nil_append, Text.significant_append hslash, Text.significant_blank hblank,
        List.append_nil]
    rw [hsame]
    exact ⟨Or.inr, fun h => h.elim (live_of_isOpen hopen) id⟩
  · have hcomma : ∀ b, significant b (',' :: blank) = if b then [] else [','] := by
      intro b
      have hinside : Text.opensComment b ',' blank = b := by simp [Text.opensComment]
      have hspace : Alphabet.isSpace ',' = false := by decide
      rw [significant, hinside, hspace, Text.significant_blank hblank]
      simp
    unfold Live
    rw [List.singleton_append, Text.significant_append (by simp), hcomma]
    cases endsInComment false kept with
    | true => simp
    | false => simp [Opens]

/-! ## Redirecting a name -/

/-- Before a text that starts apart, a search may be cut. -/
theorem fill_append (hname : IsName name) (hu : StartsApart id u) :
    fill name φ position (t ++ u) =
      fill name φ position t ++ fill name φ (position + Text.byteLength t) u := by
  unfold fill
  rw [stretchesFrom_append hname (Nat.zero_le _) (Or.inl hu), List.flatMap_append]

/-- A mark at the start stays. -/
theorem exists_fill_cons (hname : IsName name) (hc : ¬ IsLetter id c) (φ : Nat → Option Text)
    (position : Nat) (t : Text) : ∃ t', fill name φ position (c :: t) = c :: t' := by
  unfold fill
  rw [stretchesFrom, after?_startsApart hname (by simpa using hc)]
  exact ⟨_, rfl⟩

/-- A text that starts apart still does when a name is replaced in it. -/
theorem fill_startsApart (hname : IsName name) (ht : StartsApart id t) :
    StartsApart id (fill name φ position t) := by
  cases t with
  | nil => exact Lexeme.startsApart_nil
  | cons c t =>
    have hc : ¬ IsLetter id c := by simpa using ht
    obtain ⟨t', ht'⟩ := exists_fill_cons hname hc φ position t
    rwa [ht', Lexeme.startsApart_cons]

/-- A comma at the end of a line stays. -/
theorem fill_comma (hname : IsName name) (ha : StartsApart id a) :
    fill name φ position (',' :: '\n' :: a) = ',' :: '\n' :: fill name φ (position + 2) a := by
  have hcomma : ¬ IsLetter id ',' := by decide
  have hline : ¬ IsLetter id '\n' := by decide
  unfold fill
  rw [stretchesFrom, after?_startsApart hname (by simpa using hcomma)]
  simp only
  rw [stretchesFrom_startsApart hname (by simpa using hline), stretchesFrom,
    after?_startsApart hname (by simpa using hline)]
  simp only
  rw [stretchesFrom_startsApart hname ha]
  rfl

/-- An identifier is quiet, and so is what is written for one. -/
theorem quiet_of_letters (hne : t ≠ []) (ht : ∀ c ∈ t, IsLetter id c ∨ c = '.') : Quiet t := by
  refine ⟨hne, fun c hc => ?_⟩
  rcases ht c hc with hletter | rfl
  · refine ⟨?_, ?_, ?_, Alphabet.isSpace_of_isIdentifier hletter⟩
    · rintro rfl
      exact absurd hletter (by decide)
    · rintro rfl
      exact absurd hletter (by decide)
    · rintro rfl
      exact absurd hletter (by decide)
  · decide

/-- What is written for a name can neither open nor end a comment. -/
theorem quiet_of_sealed {r : Text} (h : Sealed r) : Quiet r := by
  obtain ⟨member, -, hletters, rfl⟩ := h
  have hthis : ∀ c ∈ "this.".toList, IsLetter id c ∨ c = '.' := by
    simp
    decide
  exact quiet_of_letters (by simp)
    (List.forall_mem_append.mpr ⟨hthis, fun c hc => Or.inl (hletters c hc)⟩)

/-- Replacing free occurrences of a name by what is written for it keeps how a text ends. -/
theorem endsAlike_fill (hname : IsName name) (hφ : ∀ p r, φ p = some r → Sealed r) (position : Nat)
    (t : Text) : EndsAlike t (fill name φ position t) := by
  have hquiet : Quiet name := quiet_of_letters hname.ne_nil fun c hc => Or.inl (hname.letters c hc)
  -- Stretch by stretch, either a character stays or one quiet text takes the place of another.
  have hstretches : ∀ stretches : List Stretch,
      EndsAlike (stretches.flatMap (Stretch.text name)) (stretches.flatMap (Stretch.filled name φ)) := by
    intro stretches
    induction stretches with
    | nil => exact EndsAlike.refl _
    | cons s stretches ih =>
      rw [List.flatMap_cons, List.flatMap_cons]
      cases s with
      | plain c => exact ih.cons c
      | occurrence start isFree =>
        cases isFree with
        | false => exact hquiet.endsAlike hquiet ih
        | true =>
          rw [Stretch.filled]
          cases hr : φ start with
          | none => exact hquiet.endsAlike hquiet ih
          | some r => exact hquiet.endsAlike (quiet_of_sealed (hφ start r hr)) ih
  have htext : (stretchesFrom name 0 position none t).flatMap (Stretch.text name) = t := by
    rw [text_stretchesFrom hname.ne_nil, List.drop_zero]
  have := hstretches (stretchesFrom name 0 position none t)
  rwa [htext] at this

/-- A buffer whose last span is a member on lines of its own with a comma at its end: `x` stands before the
member, `f` is the member up to the comma, and `a` follows it. -/
structure Placed (b : Buffer) (x f a : Text) (source : String) : Prop where
  text : b.text = x ++ (f ++ (',' :: '\n' :: a))
  span : b.members.getLast? = some ⟨Text.byteLength x,
    Text.byteLength (x ++ (f ++ [',', '\n'])), source⟩
  line : f.head? = some '\n'
  after : StartsApart id a

/-- A member on lines of its own starts apart from what stands before it. -/
theorem Placed.startsApart (h : Placed b x f a source) (t : Text) : StartsApart id (f ++ t) := by
  obtain ⟨f', rfl⟩ := List.head?_eq_some_iff.mp h.line
  rw [List.cons_append, Lexeme.startsApart_cons]
  decide

/-- A search falls into those of the three parts. -/
theorem Placed.fill_eq (h : Placed b x f a source) (hname : IsName name) (φ : Nat → Option Text)
    {a' : Text} (ha' : StartsApart id a') :
    fill name φ 0 (x ++ (f ++ (',' :: '\n' :: a'))) =
      fill name φ 0 x ++ (fill name φ (Text.byteLength x) f ++ (',' :: '\n' ::
        fill name φ (Text.byteLength x + Text.byteLength f + 2) a')) := by
  have hcomma : StartsApart id (',' :: '\n' :: a') := by
    rw [Lexeme.startsApart_cons]
    decide
  rw [fill_append hname (h.startsApart _), fill_append hname hcomma, fill_comma hname ha', Nat.zero_add]

/-- Redirecting a name leaves a member at its place, and the texts end as they did. -/
theorem Placed.redirect {answer : String → Option String} {name : String} (h : Placed b x f a source)
    (hletters : ∀ c ∈ name.toList, IsLetter id c)
    (hanswer : ∀ source r, answer source = some r → Sealed r.toList) :
    ∃ x' f' a', Placed (b.redirect name answer).1 x' f' a' source ∧ EndsAlike x x' ∧ EndsAlike f f' := by
  by_cases hempty : name.toList = []
  · rw [redirect_of_empty hempty]
    exact ⟨x, f, a, h, EndsAlike.refl x, EndsAlike.refl f⟩
  have hname : IsName name.toList := ⟨hempty, hletters⟩
  have hsealed : ∀ p r, b.answerAt answer p = some r → Sealed r := by
    intro p r hr
    obtain ⟨s, hs, rfl⟩ := Option.map_eq_some_iff.mp hr
    exact hanswer _ s hs
  refine ⟨fill name.toList (b.answerAt answer) 0 x,
    fill name.toList (b.answerAt answer) (Text.byteLength x) f,
    fill name.toList (b.answerAt answer) (Text.byteLength x + Text.byteLength f + 2) a,
    ⟨?_, ?_, ?_, fill_startsApart hname h.after⟩, endsAlike_fill hname hsealed 0 x,
    endsAlike_fill hname hsealed (Text.byteLength x) f⟩
  · rw [redirect_fst hempty]
    show fill name.toList (b.answerAt answer) 0 b.text = _
    rw [h.text, h.fill_eq hname _ h.after]
  · -- The span goes from the end of what stands before the member to the end of the member.
    have hstart : Apart id x (f ++ (',' :: '\n' :: a)) := Or.inr (h.startsApart _)
    have hstop : b.text = (x ++ (f ++ [',', '\n'])) ++ a := by simp [h.text]
    have hmember := h.fill_eq hname (b.answerAt answer) Lexeme.startsApart_nil
    rw [redirect_fst hempty, List.getLast?_map, h.span, Option.map_some,
      moved_cut hname h.text hstart, moved_cut hname hstop (Or.inr h.after), hmember]
    rfl
  · obtain ⟨f', rfl⟩ := List.head?_eq_some_iff.mp h.line
    have hline : ¬ IsLetter id '\n' := by decide
    obtain ⟨t', ht'⟩ := exists_fill_cons hname hline (b.answerAt answer) (Text.byteLength x) f'
    rw [ht']
    rfl

/-- A member that goes in is placed between the separator and the closing brace. -/
theorem Seat.placed {rest : Text} {b' : Buffer} {d : Declaration} {name : String}
    (h : Seat b.text kept blank rest) (hinsert : b.insert? (Member.render d name) source = some b') :
    ∃ f, Placed b' (kept ++ (separator kept ++ blank)) f ('}' :: rest) source ∧
      endsInComment false f = endsInComment false (Text.trimEnd (Member.spell d name)) := by
  obtain ⟨f, hrender, hcomment⟩ := Member.exists_render_eq d name
  obtain ⟨c, spans, hc, htext, hmembers⟩ := h.insert? (Member.render d name) source
  obtain rfl : b' = c := Option.some.inj (hinsert.symm.trans hc)
  refine ⟨'\n' :: f, ⟨?_, ?_, rfl, ?_⟩, hcomment⟩
  · rw [htext, hrender]
    simp
  · rw [hmembers, List.getLast?_concat, hrender, ← Text.byteLength_append]
  · rw [Lexeme.startsApart_cons]
    decide

end Buffer

/-! ## A turn -/

namespace Draft

variable {b : Buffer} {x f a : Text} {source : String}
  {renamings planned : List Renaming} {scopes : Scopes}

/-- Redirecting all names leaves a member at its place, and the texts end as they did. -/
theorem placed_redirectAll (h : b.Placed x f a source)
    (hnames : ∀ name ∈ candidateNames renamings scopes planned, Lettered name)
    (hrecorded : Recorded Lettered (renamings ++ planned)) :
    ∃ x' f' a', (redirectAll b renamings scopes planned).1.Placed x' f' a' source ∧
      EndsAlike x x' ∧ EndsAlike f f' := by
  have hsealed : ∀ name source r, target? renamings scopes planned name source = some r →
      Sealed r.toList := by
    intro name source r hr
    obtain ⟨made, hmade, rfl⟩ := Option.map_eq_some_iff.mp hr
    obtain ⟨hgenerated, hletters⟩ := hrecorded made (resolve?_cases hmade).1
    rw [hgenerated]
    exact sealed_inlinedName hletters
  -- The induction is on the names; the place of the member moves with each.
  rw [redirectAll_fst]
  generalize candidateNames renamings scopes planned = names at hnames
  induction names generalizing b x f a with
  | nil => exact ⟨x, f, a, h, EndsAlike.refl x, EndsAlike.refl f⟩
  | cons name names ih =>
    obtain ⟨x₁, f₁, a₁, hplaced, hx, hf⟩ := h.redirect (hnames name List.mem_cons_self) (hsealed name)
    obtain ⟨x₂, f₂, a₂, hplaced, hx', hf'⟩ := ih hplaced fun n hn => hnames n (List.mem_cons_of_mem _ hn)
    exact ⟨x₂, f₂, a₂, hplaced, hx.trans hx', hf.trans hf'⟩

/-- Where the commas around a new member are. The last significant character before it is a comma or an
opening brace exactly if the text before its place ends in no comment, or has a comma or an opening brace
before that comment. The member ends with a comma, which is in no comment exactly if what the declaration
is spelled as ends in none. -/
theorem separator_of_turn (draft : Draft) (t : Turn) (hrecorded : Recorded Lettered draft.renamings)
    (hnames : ∀ name ∈ t.allNames, Lettered name) (hputs : draft.putsIn t = true) :
    ∃ kept blank rest before front after,
      Buffer.Seat draft.buffer.text kept blank rest ∧
      (draft.turn t).buffer.text = before ++ ((front ++ [',', '\n']) ++ after) ∧
      (draft.turn t).buffer.members.getLast? = some ⟨Text.byteLength before,
        Text.byteLength (before ++ (front ++ [',', '\n'])), t.source⟩ ∧
      (Live before ↔ endsInComment false kept = false ∨ Live kept) ∧
      endsInComment false front =
        endsInComment false (Text.trimEnd (Member.spell t.declaration t.made.member)) := by
  -- A turn that adds a member found a place for it, and so the text has a brace and a seat in front of it.
  rcases turn_cases draft t with ⟨hstays, -⟩ | ⟨-, -, b, hinsert, hdraft⟩
  · rw [hputs] at hstays
    cases hstays
  have hbrace : '}' ∈ draft.buffer.text := by
    by_contra hbrace
    rw [Buffer.insert?_eq_none hbrace] at hinsert
    cases hinsert
  obtain ⟨kept, blank, rest, hseat⟩ := Buffer.Seat.exists_of_mem hbrace
  obtain ⟨f, hplaced, hcomment⟩ := hseat.placed hinsert
  have hturn : Recorded Lettered (draft.renamings ++ [t.made]) := by
    have := hrecorded.turn hnames
    rwa [hdraft] at this
  -- The redirection that follows moves the member but keeps what is live in front of it and what its text
  -- ends in.
  obtain ⟨before, front, after, hdone, hbefore, hfront⟩ := placed_redirectAll hplaced
    (hturn.candidateNames hnames)
    (List.forall_mem_append.mpr ⟨hturn, recorded_planned hnames⟩)
  rw [hdraft]
  refine ⟨kept, blank, rest, before, front, after, hseat, ?_, hdone.span, ?_, ?_⟩
  · rw [hdone.text]
    simp
  · rw [← Buffer.live_append_separator hseat.blank]
    exact (hbefore.opens false).symm
  · rw [← hfront.comment, hcomment]

/-- A helper that is put in behind a member without a comment. -/
theorem separator_of_turn_pad :
    ∃ kept blank rest before front after,
      Buffer.Seat "\x7brun() \x7bpad()\x7d\x7d".toList kept blank rest ∧
      "\x7brun() \x7bthis._inlined_a_pad()\x7d,\n  _inlined_a_pad: () => 1,\n\x7d".toList =
        before ++ ((front ++ [',', '\n']) ++ after) ∧
      (Live before ↔ endsInComment false kept = false ∨ Live kept) ∧
      endsInComment false front = false := by
  obtain ⟨kept, blank, rest, before, front, after, hseat, htext, -, hlive, hcomment⟩ :=
    separator_of_turn ⟨Buffer.ofText "\x7brun() \x7bpad()\x7d\x7d".toList "/p", []⟩
      ⟨[], [], "/a", ⟨"pad", [], false, false, [], .expression ['1']⟩⟩
      (fun r hr => absurd hr List.not_mem_nil) (by decide +kernel) (by decide +kernel)
  refine ⟨kept, blank, rest, before, front, after, hseat, Eq.trans ?_ htext, hlive, hcomment.trans ?_⟩
  · decide +kernel
  · decide +kernel

/-- Behind a member with a comment at its end the comma goes into the comment, so nothing stands between
that member and the new one. -/
theorem comma_in_comment :
    ∃ d before member,
      Declaration.extract "function pad() \x7b\n\x7d\n".toList = [d] ∧
      (inlineDeclaration
          ⟨Buffer.ofText "\x7b\n  run() \x7b pad() \x7d // runs\n\x7d".toList "https://x.test/p.js", []⟩
          [⟨"https://x.test/p.js", "pad", "https://x.test/a.js", "pad"⟩] "https://x.test/a.js" d).draft.buffer =
        ⟨before ++ (member ++ ['}']), "https://x.test/p.js",
          [⟨Text.byteLength before, Text.byteLength (before ++ member), "https://x.test/a.js"⟩]⟩ ∧
      before = "\x7b\n  run() \x7b this._inlined_a_js_pad() \x7d // runs,\n".toList ∧ ¬ Live before :=
  ⟨⟨"pad", "function pad() \x7b\n\x7d".toList, false, false, [], .block "\n\x7d".toList⟩, _,
    "\n  _inlined_a_js_pad() \x7b\n  \x7d,\n".toList, by decide +kernel, by decide +kernel, rfl,
    by decide +kernel⟩

end Draft

end Graft
