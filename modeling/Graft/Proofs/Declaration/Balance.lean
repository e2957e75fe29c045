import Mathlib.Data.List.Infix
import Graft.Proofs.Declaration.Ends

/-!
# Balanced parentheses

In a text with balanced parentheses none is closed that was not opened there, and all are closed at the
end. A search for the parenthesis that closes one opened before goes over such a text
(`untilCloseParen?_balanced`).
-/

namespace Graft.Text

/-- A text that closes no parenthesis which it has not opened, and that closes all that it opens. -/
structure Balanced (t : Text) : Prop where
  /-- No prefix has more closing than opening parentheses. -/
  prefixes : ∀ front, front <+: t → front.count ')' ≤ front.count '('
  total : t.count '(' = t.count ')'

/-- The parentheses of each prefix are counted. -/
instance (t : Text) : Decidable (Balanced t) :=
  decidable_of_iff
    ((∀ front ∈ t.inits, front.count ')' ≤ front.count '(') ∧ t.count '(' = t.count ')')
    ⟨fun h => ⟨fun front hfront => h.1 front ((List.mem_inits front t).mpr hfront), h.2⟩,
      fun h => ⟨fun front hfront => h.prefixes front ((List.mem_inits front t).mp hfront), h.total⟩⟩

end Graft.Text

namespace Graft.Declaration

variable {t : Text}

/-- A text that closes `depth` more parentheses than it opens, and at no place more, leaves the rest of a
search `depth` parentheses less to close. -/
theorem untilCloseParen?_closing (depth opened : Nat)
    (hprefixes : ∀ front, front <+: t → front.count ')' ≤ depth + front.count '(')
    (htotal : depth + t.count '(' = t.count ')') (rest : Text) :
    untilCloseParen? (opened + depth) (t ++ rest) =
      (untilCloseParen? opened rest).map fun parts => (t ++ parts.1, parts.2) := by
  induction t generalizing depth with
  | nil =>
    obtain rfl : depth = 0 := by simpa using htotal
    simp
  | cons c t ih =>
    have hbehind : ∀ front, front <+: t → (c :: front).count ')' ≤ depth + (c :: front).count '(' :=
      fun front hfront => hprefixes (c :: front) ((List.prefix_cons_inj c).mpr hfront)
    have hcons : ∀ found : Option (Text × Text),
        ((found.map fun parts => (t ++ parts.1, parts.2)).map fun parts => (c :: parts.1, parts.2)) =
          found.map fun parts => ((c :: t) ++ parts.1, parts.2) := by
      intro found
      cases found <;> rfl
    by_cases hopen : c = '('
    · subst hopen
      have := ih (depth + 1) (fun front hfront => by
        have := hbehind front hfront
        simp at this
        omega) (by simp at htotal; omega)
      rw [List.cons_append, untilCloseParen?, Nat.add_assoc, this]
      exact hcons _
    · by_cases hclose : c = ')'
      · subst hclose
        -- Something is open in front of a closing parenthesis.
        have hone := hbehind [] List.nil_prefix
        simp at hone
        obtain ⟨depth, rfl⟩ : ∃ k, depth = k + 1 := ⟨depth - 1, by omega⟩
        have := ih depth (fun front hfront => by
          have := hbehind front hfront
          simp at this
          omega) (by simp at htotal; omega)
        rw [List.cons_append, ← Nat.add_assoc, untilCloseParen?, this]
        exact hcons _
      · have := ih depth (fun front hfront => by
          have := hbehind front hfront
          simpa [List.count_cons, hopen, hclose] using this) (by
            simpa [List.count_cons, hopen, hclose] using htotal)
        rw [List.cons_append, untilCloseParen?_other hopen hclose, this]
        exact hcons _

/-- A search for a closing parenthesis goes over a balanced text. -/
theorem untilCloseParen?_balanced (ht : Text.Balanced t) (opened : Nat) (rest : Text) :
    untilCloseParen? opened (t ++ rest) =
      (untilCloseParen? opened rest).map fun parts => (t ++ parts.1, parts.2) := by
  refine untilCloseParen?_closing 0 opened (fun front hfront => ?_) ?_ rest
  · rw [Nat.zero_add]
    exact ht.prefixes front hfront
  · rw [Nat.zero_add, ht.total]

end Graft.Declaration
