import Graft.Proofs.Buffer.Seat
import Graft.Proofs.Draft.Redirection

/-!
# The closing brace stays

Members go in before the last closing brace of the buffer, so a draft that has one can take each
member (`Buffer.exists_insert?`). It still has one afterwards (`Draft.Braced.inlineFile`): what goes in
takes nothing away, and a redirected use takes away no more than its name. A name with a brace in it is
redirected to a member only whose name ends with that name, since the names that imports bind have no
brace in them.
-/

namespace Graft

namespace Buffer

variable {b : Buffer} {name : String} {answer : String → Option String} {c : Char}

/-- Redirecting a name keeps a character in the text, if all that may replace the name keeps it. -/
theorem mem_redirect
    (hkeeps : ∀ scope r, answer scope = some r → c ∈ name.toList → c ∈ r.toList) (h : c ∈ b.text) :
    c ∈ (b.redirect name answer).1.text := by
  obtain ⟨found, htext, hfilled⟩ := b.exists_stretches name answer
  -- The character stands in one of the stretches, and each stretch keeps it.
  rw [htext] at h
  obtain ⟨s, hs, hc⟩ := List.mem_flatMap.mp h
  rw [hfilled]
  refine List.mem_flatMap.mpr ⟨s, hs, ?_⟩
  cases s with
  | plain d => exact hc
  | occurrence start isFree =>
    cases isFree with
    | false => exact hc
    | true =>
      rw [Stretch.filled, answerAt]
      cases hanswer : answer (b.sourceAt start) with
      | none => exact hc
      | some r => exact hkeeps _ r hanswer hc

end Buffer

/-- A renaming to a member whose name has a closing brace if the declared name has one. -/
def Renaming.KeepsBrace (r : Renaming) : Prop := '}' ∈ r.name.toList → '}' ∈ r.member.toList

/-- The generated name of a member has all characters of the declared name. -/
theorem Renaming.keepsBrace_of (source name : String) : (Renaming.of source name).KeepsBrace := by
  intro hname
  show '}' ∈ (Member.inlinedName source name).toList
  have hbrace : '}' ∈ name.toList := hname
  rw [Member.toList_inlinedName]
  simp [hbrace]

namespace Draft

variable {draft : Draft} {scopes : Scopes} {renamings planned : List Renaming} {source : String}
  {ds : List Declaration}

/-- Redirecting all names keeps a closing brace in the text. -/
theorem brace_mem_redirectAll {b : Buffer} (hmembers : ∀ r ∈ renamings ++ planned, r.KeepsBrace)
    (hlocals : ∀ binding ∈ scopes, '}' ∉ binding.name.toList) (h : '}' ∈ b.text) :
    '}' ∈ (redirectAll b renamings scopes planned).1.text := by
  -- A name with a brace stands for a member of the same declared name: no import binds it.
  have hkeeps : ∀ name scope r, target? renamings scopes planned name scope = some r →
      '}' ∈ name.toList → '}' ∈ r.toList := by
    intro name scope r hr hname
    obtain ⟨made, hmade, rfl⟩ := Option.map_eq_some_iff.mp hr
    obtain ⟨hmem, hsame | ⟨binding, hbinding, rfl, -⟩⟩ := resolve?_cases hmade
    · have hmember : '}' ∈ made.member.toList := hmembers made hmem (by rwa [hsame])
      simp [hmember]
    · exact absurd hname (hlocals binding hbinding)
  rw [redirectAll_fst]
  induction candidateNames renamings scopes planned generalizing b with
  | nil => exact h
  | cons name names ih => exact ih (Buffer.mem_redirect (hkeeps name) h)

/-- A draft that has a closing brace, and knows nothing that could take it away. -/
structure Braced (scopes : Scopes) (draft : Draft) : Prop where
  brace : '}' ∈ draft.buffer.text
  members : ∀ r ∈ draft.renamings, r.KeepsBrace
  locals : ∀ binding ∈ scopes, '}' ∉ binding.name.toList

/-- Such a draft takes each declaration and stays such a draft. -/
theorem Braced.inlinePlanned (h : Braced scopes draft) (hplanned : ∀ r ∈ planned, r.KeepsBrace)
    (source : String) (d : Declaration) :
    (draft.inlinePlanned scopes planned source d).result? ≠ none ∧
      Braced scopes (draft.inlinePlanned scopes planned source d).draft := by
  -- The member was there already, finds no place, or goes in. The second does not happen, for there is a
  -- brace, and in the third the brace survives the redirection.
  rcases inlinePlanned_cases draft scopes planned source d with
    ⟨-, hdraft, hresult⟩ | ⟨-, hinsert, -⟩ | ⟨-, buffer, hinsert, hdraft, hresult⟩
  · rw [hdraft, hresult]
    exact ⟨Option.some_ne_none false, h⟩
  · obtain ⟨b', hb', -⟩ := Buffer.exists_insert? _ source h.brace
    rw [hb'] at hinsert
    cases hinsert
  · obtain ⟨b', hb', hbrace⟩ := Buffer.exists_insert?
      (Member.render d (Renaming.of source d.name).member) source h.brace
    rw [hb'] at hinsert
    cases hinsert
    have hmembers : ∀ r ∈ draft.renamings ++ [Renaming.of source d.name], r.KeepsBrace := by
      intro r hr
      rcases List.mem_append.mp hr with hr | hr
      · exact h.members r hr
      · rw [List.mem_singleton.mp hr]
        exact Renaming.keepsBrace_of source d.name
    rw [hdraft, hresult]
    refine ⟨Option.some_ne_none true, ?_, hmembers, h.locals⟩
    refine brace_mem_redirectAll (fun r hr => ?_) h.locals hbrace
    exact (List.mem_append.mp hr).elim (hmembers r) (hplanned r)

/-- Such a draft takes any number of declarations and stays such a draft. -/
theorem Braced.inlineEach (h : Braced scopes draft) (hplanned : ∀ r ∈ planned, r.KeepsBrace) :
    (draft.inlineEach scopes planned source ds).result? ≠ none ∧
      Braced scopes (draft.inlineEach scopes planned source ds).draft := by
  induction ds generalizing draft with
  | nil => exact ⟨Option.some_ne_none 0, h⟩
  | cons d ds ih =>
    obtain ⟨hresult, hbraced⟩ := h.inlinePlanned hplanned source d
    obtain ⟨isNew, hisNew⟩ := Option.ne_none_iff_exists'.mp hresult
    obtain ⟨hothers, hiff⟩ := inlineEach_cons_some hisNew ds
    obtain ⟨hrest, hdone⟩ := ih hbraced
    rw [hothers]
    exact ⟨fun hnone => hrest (hiff.mp hnone), hdone⟩

/-- The renamings that a file is about to make keep braces. -/
theorem keepsBrace_planned (source : String) (ds : List Declaration) :
    ∀ r ∈ ds.map fun d => Renaming.of source d.name, r.KeepsBrace := by
  intro r hr
  obtain ⟨d, -, rfl⟩ := List.mem_map.mp hr
  exact Renaming.keepsBrace_of source d.name

/-- Such a draft takes each file and stays such a draft. -/
theorem Braced.inlineFile (h : Braced scopes draft) (source : String) (ds : List Declaration) :
    (draft.inlineFile scopes source ds).result? ≠ none ∧
      Braced scopes (draft.inlineFile scopes source ds).draft :=
  h.inlineEach (keepsBrace_planned source ds)

end Draft

end Graft
