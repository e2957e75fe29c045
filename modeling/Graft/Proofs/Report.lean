import Mathlib.Data.List.Forall2
import Graft.Proofs.Viewer.Lines
import Graft.Report

/-!
# Reports are JSON

A report is a JSON text: it writes an object that has the code of the output, the URL of the entry, the
imports that were passed over and the renamings (`writes_print`). The code is there once and character by
character, whatever characters it has (`holds_code`).
-/

namespace Graft.Report

open Viewer (Json Holds)
open Viewer.Json (Blank HexDigit Spelling Means Quoted Key Writes Token)

variable {t s : Text} {ts : List Token}

/-! ## Strings -/

/-- A control character is written by a code unit in four digits. -/
theorem control_digits : ∀ n < 0x20, List.replicate (4 - (Hex.lower n).length) '0' ++ Hex.lower n =
    ['0', '0', Nat.digitChar (n / 16), Nat.digitChar (n % 16)] := by decide

/-- The digit of a number is a hexadecimal digit. -/
theorem hexDigit_digitChar : ∀ n < 16, HexDigit (Nat.digitChar n) n := by
  unfold HexDigit
  decide

/-- A character is written in front of a string so that it is spelled, with what it is. -/
theorem exists_spelling_encodeChar (h : Spelling ts t) (hs : Means ts s) (c : Char) :
    ∃ us, Spelling us (encodeChar c ++ t) ∧ Means us (c :: s) := by
  unfold encodeChar
  simp only
  -- The branches are those of the encoder: a mark of JSON, the five short escapes, a control character by its
  -- number, and any other character as it is.
  split
  · next hc =>
    have he : Viewer.Json.Escape c c := by
      rcases (by simpa using hc : c = '"' ∨ c = '\\') with rfl | rfl
      · exact .quotation
      · exact .backslash
    exact ⟨_, .escaped he h, .char hs⟩
  split
  · next hc => exact ⟨_, .escaped .lineFeed h, hc ▸ .char hs⟩
  split
  · next hc => exact ⟨_, .escaped .carriageReturn h, hc ▸ .char hs⟩
  split
  · next hc => exact ⟨_, .escaped .tab h, hc ▸ .char hs⟩
  split
  · next hc =>
    have hchar : Char.ofNat 8 = c := by rw [← hc, Char.ofNat_toNat]
    exact ⟨_, .escaped .backspace h, hchar ▸ .char hs⟩
  split
  · next hc =>
    have hchar : Char.ofNat 12 = c := by rw [← hc, Char.ofNat_toNat]
    exact ⟨_, .escaped .formFeed h, hchar ▸ .char hs⟩
  split
  · next hc =>
    have hzero := hexDigit_digitChar 0 (by decide)
    have hspelling := h.code hzero hzero (hexDigit_digitChar (c.toNat / 16) (by omega))
      (hexDigit_digitChar (c.toNat % 16) (by omega))
    have hcode : ((0 * 16 + 0) * 16 + c.toNat / 16) * 16 + c.toNat % 16 = c.toNat := by omega
    rw [hcode] at hspelling
    rw [List.append_assoc ['\\', 'u'], control_digits _ hc]
    exact ⟨_, hspelling, .code (by omega) hs⟩
  · next hplain hn hr ht hb hf hcontrol =>
    have hplain : c ≠ '"' ∧ c ≠ '\\' := by simpa using hplain
    exact ⟨_, .plain (Nat.not_lt.mp hcontrol) hplain.1 hplain.2 h, .char hs⟩

/-- A text is written as a string that has this text. -/
theorem quoted_encode (t : Text) : Quoted (some t) (t.flatMap encodeChar) := by
  have hspelled : ∃ ts, Spelling ts (t.flatMap encodeChar) ∧ Means ts t := by
    induction t with
    | nil => exact ⟨[], .nil, .nil⟩
    | cons c t ih =>
      obtain ⟨ts, h, hs⟩ := ih
      exact exists_spelling_encodeChar h hs c
  obtain ⟨ts, h, hs⟩ := hspelled
  exact .whole h hs

/-- A text between quotation marks writes a JSON string. -/
theorem writes_text (t : Text) : Writes (.value (.string (some t))) (text t) :=
  .string (quoted_encode t)

/-! ## Lists and objects -/

/-- Spaces are white space. -/
theorem blank_replicate (n : Nat) : Blank (List.replicate n ' ') := fun _ hc =>
  Or.inl (List.eq_of_mem_replicate hc)

/-- A line feed in front of white space is white space. -/
theorem blank_lineFeed {u : Text} (h : Blank u) : Blank ('\n' :: u) := fun c hc =>
  (List.mem_cons.mp hc).elim (fun hc => Or.inr (Or.inl hc)) (h c)

/-- Values on lines of their own, with white space behind the last one, are the items of an array. -/
theorem writes_items {js : List Json} {items : List Text} {u v : Text} (hu : Blank u) (hv : Blank v)
    (h : List.Forall₂ (fun j t => Writes (.value j) t) js items) (hne : items ≠ []) :
    Writes (.items js) ('\n' :: (Text.joinWith [',', '\n'] (items.map (u ++ ·)) ++ v)) := by
  induction h with
  | nil => exact absurd rfl hne
  | @cons j t js items hj hjs ih =>
    cases hjs with
    | nil => simpa [Text.joinWith] using Writes.lastItem (.element (blank_lineFeed hu) hv hj)
    | cons hk hks =>
      have hitem := Writes.element (blank_lineFeed hu) Viewer.Json.blank_nil hj
      simpa [Text.joinWith] using Writes.item hitem (ih (List.cons_ne_nil _ _))

/-- A list of values is an array. -/
theorem writes_list {js : List Json} {items : List Text}
    (h : List.Forall₂ (fun j t => Writes (.value j) t) js items) (indent : Nat) :
    Writes (.value (.array js)) (list indent items) := by
  unfold list block
  cases h with
  | nil => exact .emptyArray Viewer.Json.blank_nil
  | cons hj hjs =>
    have hitems := writes_items (blank_replicate (indent + 2)) (blank_lineFeed (blank_replicate indent))
      (.cons hj hjs) (List.cons_ne_nil _ _)
    simpa using Writes.array hitems

/-- The key of a member, on a line of its own. -/
theorem key_string (name : String) {u : Text} (h : Blank u) :
    Key (some name.toList) ('\n' :: (u ++ (string name ++ [':']))) := by
  simpa [string, text] using Key.mk (blank_lineFeed h) Viewer.Json.blank_nil (quoted_encode name.toList)

/-- A member of an object to write: its name, its value and the text of the value. -/
structure Member where
  /-- The name of the member. -/
  name : String
  /-- The value that is written. -/
  value : Json
  /-- The text of the value. -/
  text : Text
  /-- The text writes the value. -/
  writes : Writes (.value value) text

/-- The text of a member behind the white space in front of it. -/
def Member.line (m : Member) : Text := string m.name ++ [':', ' '] ++ m.text

/-- The member as it is read. -/
def Member.entry (m : Member) : Option Text × Json := (some m.name.toList, m.value)

/-- A member is written as a key and an element, with white space around them. -/
theorem Member.exists_key (m : Member) {u v : Text} (hu : Blank u) (hv : Blank v) :
    ∃ key element, Key (some m.name.toList) key ∧ Writes (.element m.value) element ∧
      '\n' :: (u ++ m.line ++ v) = key ++ element := by
  refine ⟨_, [' '] ++ (m.text ++ v), key_string m.name hu, .element ?_ hv m.writes, ?_⟩
  · exact fun c hc => Or.inl (List.mem_singleton.mp hc)
  · simp [Member.line]

/-- Members on lines of their own, with white space behind the last one, are the members of an object. -/
theorem writes_members {u v : Text} (hu : Blank u) (hv : Blank v) (m : Member) (ms : List Member) :
    Writes (.members ((m :: ms).map Member.entry))
      ('\n' :: (Text.joinWith [',', '\n'] ((m :: ms).map fun m => u ++ m.line) ++ v)) := by
  induction ms generalizing m with
  | nil =>
    obtain ⟨key, element, hkey, helement, hline⟩ := m.exists_key hu hv
    have htext : Text.joinWith [',', '\n'] ([m].map fun m => u ++ m.line) = u ++ m.line := rfl
    rw [htext, hline]
    exact .lastMember hkey helement
  | cons next ms ih =>
    obtain ⟨key, element, hkey, helement, hline⟩ := m.exists_key hu Viewer.Json.blank_nil
    have hmember := Writes.member hkey helement (ih next)
    rw [← List.append_assoc, ← hline] at hmember
    simpa [Text.joinWith, Member.entry] using hmember

/-- An object is written with its members. -/
theorem writes_object (indent : Nat) (m : Member) (ms : List Member) :
    Writes (.value (.object ((m :: ms).map Member.entry)))
      (object indent ((m :: ms).map fun m => (m.name, m.text))) := by
  have hmembers := writes_members (blank_replicate (indent + 2)) (blank_lineFeed (blank_replicate indent)) m ms
  have hobject := Writes.object hmembers
  unfold object block
  simpa [Member.line, Function.comp_def] using hobject

/-! ## Reports -/

/-- A member that is a string. -/
def Member.ofString (name s : String) : Member where
  name := name
  value := .string (some s.toList)
  text := string s
  writes := writes_text s.toList

/-- The JSON value of an object with strings as its members. -/
def ofStrings (members : List (String × String)) : Json :=
  .object (members.map fun m => (some m.1.toList, .string (some m.2.toList)))

/-- The JSON value of an import that was passed over. -/
def valueOfSkipped (s : Skipped) : Json :=
  ofStrings [("importer", s.importer), ("reason", reasonWord s.reason), ("url", s.url)]

/-- The JSON value of a renaming. -/
def valueOfRenaming (r : Renaming) : Json :=
  ofStrings [("new_name", r.member), ("original_name", r.name), ("source_url", r.source)]

/-- The JSON value of a report. -/
def value (entry : String) (o : Output) : Json :=
  .object [(some "code".toList, .string (some o.code)), (some "entry".toList, .string (some entry.toList)),
    (some "skipped".toList, .array (o.skipped.map valueOfSkipped)),
    (some "translations".toList, .array (o.renamings.map valueOfRenaming))]

/-- An import that was passed over is written as its value. -/
theorem writes_skipped (indent : Nat) (s : Skipped) : Writes (.value (valueOfSkipped s)) (skipped indent s) :=
  writes_object indent (.ofString "importer" s.importer)
    [.ofString "reason" (reasonWord s.reason), .ofString "url" s.url]

/-- A renaming is written as its value. -/
theorem writes_renamed (indent : Nat) (r : Renaming) : Writes (.value (valueOfRenaming r)) (renamed indent r) :=
  writes_object indent (.ofString "new_name" r.member)
    [.ofString "original_name" r.name, .ofString "source_url" r.source]

/-- A list of things that are each written as their value. -/
theorem writes_map {α : Type} {f : α → Json} {g : α → Text} (h : ∀ a, Writes (.value (f a)) (g a))
    (indent : Nat) (l : List α) : Writes (.value (.array (l.map f))) (list indent (l.map g)) :=
  writes_list (List.forall₂_map_left_iff.mpr (List.forall₂_map_right_iff.mpr
    (List.forall₂_same.mpr fun a _ => h a))) indent

/-- A report writes its value, and nothing else. -/
theorem writes_print (entry : String) (o : Output) : Writes (.element (value entry o)) (print entry o) := by
  have hobject : Writes (.value (value entry o)) (print entry o) :=
    writes_object 0 ⟨"code", _, _, writes_text o.code⟩ [.ofString "entry" entry,
      ⟨"skipped", _, _, writes_map (writes_skipped 4) 2 o.skipped⟩,
      ⟨"translations", _, _, writes_map (writes_renamed 4) 2 o.renamings⟩]
  simpa using Writes.element Viewer.Json.blank_nil Viewer.Json.blank_nil hobject

/-- The code of an output is found in the value of its report. -/
theorem holds_code (entry : String) (o : Output) :
    Holds "code".toList (.string (some o.code)) (value entry o) :=
  @Holds.object _ _ [] _ (by simp)

/-- The URL of the entry is found in the value of a report. -/
theorem holds_entry (entry : String) (o : Output) :
    Holds "entry".toList (.string (some entry.toList)) (value entry o) :=
  @Holds.object _ _ [_] _ (by simp)

end Graft.Report
