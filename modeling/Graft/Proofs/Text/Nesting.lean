import Mathlib.Data.List.Count
import Mathlib.Data.List.Infix
import Graft.Proofs.Text.Cut

/-!
# Nesting of braces

A text is well nested when none of its closing braces lacks an opening one and all blocks are closed at
the end. What stands before a brace leaves blocks open, so the notion comes with the number of them:
`Leaves opened t`. Only the braces count (`Leaves.congr`), a well nested text may be put in anywhere
(`Leaves.insert`), and what leaves a block open falls into what stands before that block and a well
nested text inside it (`Leaves.exists_block`).
-/

namespace Graft.Text

/-- A brace of either kind. -/
def isBrace (c : Char) : Bool := c = '{' || c = '}'

/-- The braces of a text. -/
def braces (t : Text) : Text := t.filter isBrace

/-- A text without braces. -/
def Braceless (t : Text) : Prop := ∀ c ∈ t, isBrace c = false

/-- The characters are looked at one by one. -/
instance (t : Text) : Decidable (Braceless t) := List.decidableBAll _ t

/-- A text that closes no block which it has not opened, and that leaves `opened` blocks open. -/
structure Leaves (opened : Nat) (t : Text) : Prop where
  /-- No prefix has more closing than opening braces. -/
  prefixes : ∀ front, front <+: t → front.count '}' ≤ front.count '{'
  total : t.count '{' = t.count '}' + opened

/-- A text in which no prefix has more closing than opening braces, and which has as many of both. -/
def WellNested (t : Text) : Prop := Leaves 0 t

/-- The braces of each prefix are counted. -/
instance (opened : Nat) (t : Text) : Decidable (Leaves opened t) :=
  decidable_of_iff
    ((∀ front ∈ t.inits, front.count '}' ≤ front.count '{') ∧ t.count '{' = t.count '}' + opened)
    ⟨fun h => ⟨fun front hfront => h.1 front ((List.mem_inits front t).mpr hfront), h.2⟩,
      fun h => ⟨fun front hfront => h.prefixes front ((List.mem_inits front t).mp hfront), h.total⟩⟩

/-- A well-nested text leaves no block open. -/
instance (t : Text) : Decidable (WellNested t) := inferInstanceAs (Decidable (Leaves 0 t))

variable {opened : Nat} {t u front back inner rest : Text} {c : Char}

/-! ## Only braces count -/

/-- The braces of two texts in a row follow each other. -/
@[simp]
theorem braces_append (t u : Text) : braces (t ++ u) = braces t ++ braces u := List.filter_append ..

/-- A text without braces has none. -/
theorem braces_eq_nil : braces t = [] ↔ Braceless t := by
  unfold braces Braceless
  rw [List.filter_eq_nil_iff]
  simp

/-- Braces are counted the same when nothing else is left. -/
theorem count_braces (hc : isBrace c = true) (t : Text) : (braces t).count c = t.count c :=
  List.count_filter hc

/-- Texts with the same braces leave the same number of blocks open. -/
theorem Leaves.congr (h : Leaves opened t) (hsame : braces u = braces t) : Leaves opened u where
  prefixes front hfront := by
    -- The braces of a prefix are those of a prefix of the other text.
    obtain ⟨front', hfront', hbraces⟩ :=
      List.prefix_filter_iff.mp (hsame ▸ hfront.filter isBrace : braces front <+: braces t)
    have hle := h.prefixes front' hfront'
    rw [← count_braces rfl front', ← count_braces rfl front'] at hle
    rw [← count_braces rfl front, ← count_braces rfl front, hbraces]
    exact hle
  total := by
    have htotal := h.total
    rw [← count_braces rfl t, ← count_braces rfl t] at htotal
    rw [← count_braces rfl u, ← count_braces rfl u, hsame]
    exact htotal

/-- Texts with the same braces are well nested together. -/
theorem WellNested.congr (h : WellNested t) (hsame : braces u = braces t) : WellNested u :=
  Leaves.congr h hsame

/-! ## Putting texts together -/

/-- A well nested text may be put in anywhere. -/
theorem Leaves.insert (h : Leaves opened (front ++ back)) (hinner : WellNested inner) :
    Leaves opened (front ++ (inner ++ back)) where
  prefixes l hl := by
    -- A prefix ends before the text that is put in, inside it, or behind it.
    obtain ⟨k, hk⟩ := hl
    have hfront := h.prefixes front (List.prefix_append _ _)
    rcases List.append_eq_append_iff.mp hk with ⟨x, rfl, -⟩ | ⟨x, rfl, hx⟩
    · exact h.prefixes l (by simp)
    · rcases List.append_eq_append_iff.mp hx with ⟨y, rfl, hback⟩ | ⟨y, rfl, -⟩
      · have hwhole := h.prefixes (front ++ y) (by simp [hback])
        have := hinner.total
        simp only [List.count_append] at hwhole ⊢
        omega
      · have := hinner.prefixes x (List.prefix_append _ _)
        rw [List.count_append, List.count_append]
        omega
  total := by
    have hwhole := h.total
    have := hinner.total
    simp only [List.count_append] at hwhole ⊢
    omega

/-- Well nested texts side by side are well nested. -/
theorem WellNested.append (ht : WellNested t) (hu : WellNested u) : WellNested (t ++ u) := by
  have hwhole : Leaves 0 (t ++ []) := by rwa [List.append_nil]
  have := hwhole.insert hu
  rwa [List.append_nil] at this

/-- A well nested text in braces is well nested. -/
theorem WellNested.wrap (h : WellNested t) : WellNested ('{' :: (t ++ ['}'])) := by
  have hbraces : Leaves 0 (['{'] ++ ['}']) := by decide
  exact hbraces.insert h

/-- What is left open before one more character. -/
theorem Leaves.of_concat (h : Leaves opened (t ++ [c])) :
    (c = '{' ∧ ∃ n, opened = n + 1 ∧ Leaves n t) ∨ (c = '}' ∧ Leaves (opened + 1) t) ∨
      (isBrace c = false ∧ Leaves opened t) := by
  have hprefixes : ∀ front, front <+: t → front.count '}' ≤ front.count '{' := fun front hfront =>
    h.prefixes front (hfront.trans (List.prefix_append _ _))
  have hle := hprefixes t (List.prefix_refl t)
  have htotal := h.total
  simp only [List.count_append, List.count_singleton, beq_iff_eq] at htotal
  -- One more brace changes the number of open ones, and any other character does not.
  by_cases hopening : c = '{'
  · subst hopening
    simp only [if_true, Char.reduceEq, if_false] at htotal
    exact Or.inl ⟨rfl, opened - 1, by omega, hprefixes, by omega⟩
  · by_cases hclosing : c = '}'
    · subst hclosing
      simp only [if_true, Char.reduceEq, if_false] at htotal
      exact Or.inr (Or.inl ⟨rfl, hprefixes, by omega⟩)
    · simp only [hopening, hclosing, if_false] at htotal
      exact Or.inr (Or.inr ⟨by simp [isBrace, hopening, hclosing], hprefixes, by omega⟩)

/-- A text that leaves a block open falls into what stands before the last such block, and a well nested
text inside it. -/
theorem Leaves.exists_block (h : Leaves (opened + 1) t) :
    ∃ outer inner, t = outer ++ '{' :: inner ∧ Leaves opened outer ∧ WellNested inner := by
  -- The induction is on the length: a block that is closed at the end is jumped over as a whole.
  induction hlength : t.length using Nat.strongRecOn generalizing opened t with
  | _ n ih =>
    rcases List.eq_nil_or_concat t with rfl | ⟨u, c, rfl⟩
    · have := h.total
      simp at this
    · rw [List.concat_eq_append] at h hlength ⊢
      have hshorter : u.length < n := by
        rw [← hlength, List.length_append]
        simp
      rcases h.of_concat with ⟨rfl, m, hm, hu⟩ | ⟨rfl, hu⟩ | ⟨hc, hu⟩
      · cases hm
        exact ⟨u, [], rfl, hu, by decide⟩
      · -- The brace closes the last open block, so the one looked for is open before that.
        obtain ⟨outer, inner, rfl, houter, hinner⟩ := ih _ hshorter hu rfl
        have hshorter' : outer.length < n := by
          rw [List.length_append] at hshorter
          omega
        obtain ⟨outer', inner', rfl, houter', hinner'⟩ := ih _ hshorter' houter rfl
        exact ⟨outer', inner' ++ '{' :: (inner ++ ['}']), by simp, houter',
          WellNested.append hinner' (WellNested.wrap hinner)⟩
      · obtain ⟨outer, inner, rfl, houter, hinner⟩ := ih _ hshorter hu rfl
        refine ⟨outer, inner ++ [c], by simp, houter, hinner.congr ?_⟩
        simp [braces, hc]

/-- The last closing brace of a well nested text closes an outermost block, and no brace follows it. -/
theorem WellNested.exists_last_block (h : WellNested (front ++ '}' :: rest)) (hrest : '}' ∉ rest) :
    ∃ outer inner, front = outer ++ '{' :: inner ∧ WellNested outer ∧ WellNested inner ∧
      Braceless rest := by
  -- Up to the brace nothing is closed that is not opened, so nothing is left to be opened behind it.
  have htotal := h.total
  have hclosed := h.prefixes (front ++ ['}']) ⟨rest, by simp⟩
  have hnone : rest.count '}' = 0 := List.count_eq_zero.mpr hrest
  simp only [List.count_append, List.count_cons, List.count_nil, beq_iff_eq, if_true, Char.reduceEq,
    if_false] at htotal hclosed
  have hopened : Leaves 1 front :=
    ⟨fun l hl => h.prefixes l (hl.trans (List.prefix_append _ _)), by omega⟩
  have hbraceless : Braceless rest := by
    have hopening : '{' ∉ rest := List.count_eq_zero.mp (by omega)
    intro c hc
    have hfirst : c ≠ '{' := fun h => hopening (h ▸ hc)
    have hsecond : c ≠ '}' := fun h => hrest (h ▸ hc)
    simp [isBrace, hfirst, hsecond]
  obtain ⟨outer, inner, hfront, houter, hinner⟩ := hopened.exists_block
  exact ⟨outer, inner, hfront, houter, hinner, hbraceless⟩

end Graft.Text
