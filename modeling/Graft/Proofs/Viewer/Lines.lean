import Mathlib.Data.List.Basic
import Graft.Proofs.Equality
import Graft.Proofs.Text.Lines
import Graft.Proofs.Text.Space
import Graft.Proofs.Viewer.Values

/-!
# The lines in an answer

A file viewer's answer is read back: whatever JSON text an answer is written as, with whatever members
beside the known ones, it is decoded to its lines one after the other, and everything that is no answer
is the file itself (`decode_answer`). An answer may write the payload and the object in it as the array of
the one known member, so some texts are decoded that a viewer does not write.
-/

namespace Graft.Viewer

open Json

/-! ## Answers -/

/-- The JSON value of a list of lines. -/
def ofLines (lines : List Text) : Json := .array (lines.map fun s => .string (some s))

/-- An object that has `v` at `key`, with any members at other keys around it. -/
inductive Holds (key : Text) (v : Json) : Json → Prop where
  | object {before behind : List (Option Text × Json)}
      (hothers : ∀ m ∈ before ++ behind, ∃ k, m.1 = some k ∧ k ≠ key) :
      Holds key v (.object (before ++ (some key, v) :: behind))

/-- An object that has `v` at `key`, or the array of `v` alone. -/
inductive Carries (key : Text) (v : Json) : Json → Prop where
  | object {j : Json} (h : Holds key v j) : Carries key v j
  | array : Carries key v (.array [v])

/-- The text writes an answer with these lines: objects on the way to them, with any other members. -/
def Encodes (lines : List Text) (body : Text) : Prop :=
  ∃ answer payload blob, Writes (.element answer) body ∧ Holds "payload".toList payload answer ∧
    Holds "blob".toList blob payload ∧ Holds "rawLines".toList (ofLines lines) blob

/-- The text writes an object that leads to these lines, where the payload and the object in it may also
be arrays of one value. -/
def Answers (lines : List Text) (body : Text) : Prop :=
  ∃ answer payload blob, Writes (.element answer) body ∧ Holds "payload".toList payload answer ∧
    Carries "blob".toList blob payload ∧ Carries "rawLines".toList (ofLines lines) blob

variable {body key : Text} {lines : List Text} {j v : Json} {ms : List (Option Text × Json)}

/-- A text that writes objects only is an answer. -/
theorem Encodes.answers (h : Encodes lines body) : Answers lines body := by
  obtain ⟨answer, payload, blob, hbody, hpayload, hblob, hlines⟩ := h
  exact ⟨answer, payload, blob, hbody, hpayload, .object hblob, .object hlines⟩

/-! ## Looking up members -/

/-- There is one member at a key exactly if the others have other keys. -/
theorem filter_eq_singleton_iff {m : Option Text × Json} :
    (ms.filter fun m => m.1 = some key) = [m] ↔ ∃ before behind,
      ms = before ++ m :: behind ∧ m.1 = some key ∧ ∀ n ∈ before ++ behind, n.1 ≠ some key := by
  simp only [List.filter_eq_cons_iff, List.filter_eq_nil_iff, decide_eq_true_eq]
  constructor
  · rintro ⟨before, behind, rfl, hbefore, hm, hbehind⟩
    exact ⟨before, behind, rfl, hm, fun n hn => (List.mem_append.mp hn).elim (hbefore n) (hbehind n)⟩
  · rintro ⟨before, behind, rfl, hm, hothers⟩
    exact ⟨before, behind, rfl, fun n hn => hothers n (List.mem_append_left _ hn), hm,
      fun n hn => hothers n (List.mem_append_right _ hn)⟩

/-- A value is found in an object exactly if the object holds it at the key. -/
theorem field?_object_eq_some_iff : (object ms).field? key = some v ↔ Holds key v (.object ms) := by
  constructor
  · intro h
    rw [field?] at h
    split at h
    · next htexts =>
      split at h
      · next k w heq =>
        obtain rfl := Option.some.inj h
        obtain ⟨before, behind, rfl, hk, hothers⟩ := filter_eq_singleton_iff.mp heq
        obtain rfl : k = some key := hk
        -- Every key is a text, and those beside the one that is looked up are not found.
        refine .object fun m hm => ?_
        have htext := List.all_eq_true.mp htexts m (by simp at hm ⊢; tauto)
        obtain ⟨k, hk⟩ := Option.isSome_iff_exists.mp htext
        exact ⟨k, hk, fun heq => hothers m hm (heq ▸ hk)⟩
      · cases h
    · cases h
  · rintro @⟨before, behind, hothers⟩
    have htexts : (before ++ (some key, v) :: behind).all (fun m => m.1.isSome) = true := by
      refine List.all_eq_true.mpr fun m hm => ?_
      by_cases hkey : m = (some key, v)
      · simp [hkey]
      · obtain ⟨k, hk, -⟩ := hothers m (by simp at hm ⊢; tauto)
        simp [hk]
    have hone : (before ++ (some key, v) :: behind).filter (fun m => m.1 = some key) = [(some key, v)] := by
      refine filter_eq_singleton_iff.mpr ⟨before, behind, rfl, rfl, fun m hm heq => ?_⟩
      obtain ⟨k, hk, hne⟩ := hothers m hm
      exact hne (Option.some.inj (hk.symm.trans heq))
    simp only [field?, if_pos htexts, hone]

/-- A value is found exactly in an object that holds it at the key, and in the array of it alone. -/
theorem field?_eq_some_iff : j.field? key = some v ↔ Carries key v j := by
  cases j with
  | scalar => exact ⟨nofun, nofun⟩
  | string => exact ⟨nofun, nofun⟩
  | array items =>
    constructor
    · intro h
      rw [field?.eq_def] at h
      split at h
      · next heq => cases heq
      · next w heq =>
        obtain rfl := Json.array.inj heq
        obtain rfl := Option.some.inj h
        exact .array
      · cases h
    · rintro (h | _)
      · cases h
      · rfl
  | object ms =>
    rw [field?_object_eq_some_iff]
    exact ⟨.object, fun h => by cases h; assumption⟩

/-- The first item of an array of strings is a string with a text. -/
theorem strings?_cons_eq_some_iff {item : Json} {items : List Json} :
    (array (item :: items)).strings? = some lines ↔ ∃ s more, item = .string (some s) ∧
      (array items).strings? = some more ∧ lines = s :: more := by
  simp only [strings?, List.mapM_cons, Option.bind_eq_bind, Option.bind_eq_some_iff, Option.pure_def,
    Option.some.injEq]
  constructor
  · rintro ⟨s, hs, more, hmore, rfl⟩
    split at hs
    · obtain rfl := Option.some.inj hs
      exact ⟨_, more, rfl, hmore, rfl⟩
    · cases hs
  · rintro ⟨s, more, rfl, hmore, rfl⟩
    exact ⟨s, rfl, more, hmore, rfl⟩

/-- The texts of an array of strings are the texts of its items. -/
theorem strings?_array_eq_some_iff {items : List Json} :
    (array items).strings? = some lines ↔ items = lines.map fun s => .string (some s) := by
  induction items generalizing lines with
  | nil =>
    constructor
    · intro h
      obtain rfl := Option.some.inj h
      rfl
    · intro h
      obtain rfl := List.map_eq_nil_iff.mp h.symm
      rfl
  | cons item items ih =>
    rw [strings?_cons_eq_some_iff, eq_comm, List.map_eq_cons_iff]
    constructor
    · rintro ⟨s, more, rfl, hmore, rfl⟩
      exact ⟨s, more, rfl, rfl, (ih.mp hmore).symm⟩
    · rintro ⟨s, more, rfl, rfl, hmore⟩
      exact ⟨s, more, rfl, ih.mpr hmore.symm, rfl⟩

/-- Lines are read from the JSON value of these lines, and from no other one. -/
theorem strings?_eq_some_iff : j.strings? = some lines ↔ j = ofLines lines := by
  cases j with
  | array items => rw [strings?_array_eq_some_iff, ofLines, Json.array.injEq]
  | _ => exact ⟨nofun, nofun⟩

/-- Lines are found in a text exactly if it writes a value that leads to them by the three known keys. -/
theorem lines?_eq_some_iff : lines? body = some lines ↔ ∃ answer payload blob,
    Writes (.element answer) body ∧ Carries "payload".toList payload answer ∧
      Carries "blob".toList blob payload ∧ Carries "rawLines".toList (ofLines lines) blob := by
  simp only [lines?, Option.bind_eq_bind, Option.bind_eq_some_iff, read?_eq_some_iff, field?_eq_some_iff,
    strings?_eq_some_iff]
  constructor
  · rintro ⟨answer, hbody, payload, hpayload, blob, hblob, _, hlines, rfl⟩
    exact ⟨answer, payload, blob, hbody, hpayload, hblob, hlines⟩
  · rintro ⟨answer, payload, blob, hbody, hpayload, hblob, hlines⟩
    exact ⟨answer, hbody, payload, hpayload, blob, hblob, _, hlines, rfl⟩

/-! ## Objects -/

/-- A value starts with a brace exactly if it is an object. -/
theorem head_of_writes {t : Text} (h : Writes (.value j) t) :
    ∃ c s, t = c :: s ∧ Alphabet.isSpace c = false ∧ (c = '{' ↔ ∃ ms, j = .object ms) := by
  cases h with
  | scalar h =>
    obtain ⟨c, s, rfl, hspace, -, -, hbrace, -⟩ := h.exists_cons
    exact ⟨c, s, rfl, hspace, by simp [hbrace]⟩
  | string => exact ⟨_, _, rfl, rfl, by simp⟩
  | emptyArray => exact ⟨_, _, rfl, rfl, by simp⟩
  | array => exact ⟨_, _, rfl, rfl, by simp⟩
  | emptyObject => exact ⟨_, _, rfl, rfl, by simp⟩
  | object => exact ⟨_, _, rfl, rfl, by simp⟩

/-- White space of JSON is white space. -/
theorem blank_isSpace {u : Text} (hu : Blank u) : ∀ c ∈ u, Alphabet.isSpace c = true := by
  intro c hc
  obtain rfl | rfl | rfl | rfl := hu c hc
  all_goals rfl

/-- The first character that is no white space is a brace exactly if the text writes an object. -/
theorem startsWith_brace_iff (h : Writes (.element j) body) :
    Text.startsWith "\x7b" (Text.trimStart body) = true ↔ ∃ ms, j = .object ms := by
  cases h with
  | element hu _ h =>
    obtain ⟨c, s, rfl, hspace, hc⟩ := head_of_writes h
    rw [Text.trimStart_blank (blank_isSpace hu), Text.trimStart_of_head? (by simpa using hspace), ← hc]
    simpa [Text.startsWith, Text.follow?, Text.after?] using eq_comm

/-! ## Decoding -/

/-- An answer is decoded to its lines, one after the other. -/
theorem decode_of_answers (h : Answers lines body) : decode body = Text.joinWith ['\n'] lines := by
  obtain ⟨answer, payload, blob, hbody, hpayload, hblob, hlines⟩ := h
  have hbrace : Text.startsWith "\x7b" (Text.trimStart body) = true := by
    obtain ⟨-⟩ := hpayload
    exact (startsWith_brace_iff hbody).mpr ⟨_, rfl⟩
  have hread : lines? body = some lines :=
    lines?_eq_some_iff.mpr ⟨answer, payload, blob, hbody, .object hpayload, hblob, hlines⟩
  rw [decode, if_pos hbrace, hread]

/-- Lines are only found in an answer. -/
theorem answers_of_lines? (hbrace : Text.startsWith "\x7b" (Text.trimStart body) = true)
    (h : lines? body = some lines) : Answers lines body := by
  obtain ⟨answer, payload, blob, hbody, hpayload, hblob, hlines⟩ := lines?_eq_some_iff.mp h
  obtain ⟨ms, rfl⟩ := (startsWith_brace_iff hbody).mp hbrace
  cases hpayload with
  | object hpayload => exact ⟨_, payload, blob, hbody, hpayload, hblob, hlines⟩

/-- What is no answer is decoded to itself. -/
theorem decode_of_not_answers (h : ¬ ∃ lines, Answers lines body) : decode body = body := by
  rw [decode]
  split
  · next hbrace =>
    cases hread : lines? body with
    | none => rfl
    | some lines =>
      -- Lines that are found behind a brace would make the text an answer.
      exact absurd ⟨lines, answers_of_lines? hbrace hread⟩ h
  · rfl

/-! ## Every list of lines has an answer -/

/-- A value that is written can stand where white space is allowed. -/
theorem exists_writes_element {t : Text} (h : Writes (.value j) t) : ∃ t, Writes (.element j) t :=
  ⟨_, .element blank_nil blank_nil h⟩

/-- Every text can be written as a string. -/
theorem exists_writes_string (s : Text) : ∃ t, Writes (.element (.string (some s))) t := by
  obtain ⟨t, ht⟩ := exists_quoted s
  exact exists_writes_element (.string ht)

/-- One text or more can be written as the items of an array. -/
theorem exists_writes_items (s : Text) (lines : List Text) :
    ∃ t, Writes (.items ((s :: lines).map fun s => .string (some s))) t := by
  induction lines generalizing s with
  | nil =>
    obtain ⟨t, ht⟩ := exists_writes_string s
    exact ⟨t, .lastItem ht⟩
  | cons next lines ih =>
    obtain ⟨t, ht⟩ := exists_writes_string s
    obtain ⟨u, hu⟩ := ih next
    exact ⟨_, .item ht hu⟩

/-- Every list of lines can be written as an array. -/
theorem exists_writes_ofLines (lines : List Text) : ∃ t, Writes (.element (ofLines lines)) t := by
  cases lines with
  | nil => exact exists_writes_element (.emptyArray blank_nil)
  | cons s lines =>
    obtain ⟨t, ht⟩ := exists_writes_items s lines
    exact exists_writes_element (.array ht)

/-- An object with one member is written around what the member writes. -/
theorem exists_writes_object (key : Text) {t : Text} (h : Writes (.element v) t) :
    ∃ t, Writes (.element (.object [(some key, v)])) t := by
  obtain ⟨k, hk⟩ := exists_quoted key
  exact exists_writes_element (.object (.lastMember (.mk blank_nil blank_nil hk) h))

/-- An object of one member holds it. -/
theorem holds_singleton (key : Text) (v : Json) : Holds key v (.object [(some key, v)]) :=
  @Holds.object key v [] [] nofun

/-- Every list of lines can be written as an answer. -/
theorem exists_encodes (lines : List Text) : ∃ body, Encodes lines body := by
  obtain ⟨t, ht⟩ := exists_writes_ofLines lines
  obtain ⟨blob, hblob⟩ := exists_writes_object "rawLines".toList ht
  obtain ⟨payload, hpayload⟩ := exists_writes_object "blob".toList hblob
  obtain ⟨body, hbody⟩ := exists_writes_object "payload".toList hpayload
  exact ⟨body, _, _, _, hbody, holds_singleton _ _, holds_singleton _ _, holds_singleton _ _⟩

/-! ## An answer is longer than its lines -/

/-- The units of a string are no fewer than the characters that they mean. -/
theorem length_le_of_means {ts : List Token} {s : Text} (h : Means ts s) : s.length ≤ ts.length := by
  induction h with
  | nil => exact Nat.le_refl _
  | char _ ih => exact Nat.succ_le_succ ih
  | code _ _ ih => exact Nat.succ_le_succ ih
  | pair _ _ _ _ ih => exact Nat.succ_le_succ (Nat.le_succ_of_le ih)

/-- Each unit of a string is spelled with a character or more. -/
theorem length_le_of_spelling {ts : List Token} {t : Text} (h : Spelling ts t) : ts.length ≤ t.length := by
  induction h with
  | nil => exact Nat.le_refl _
  | plain _ _ _ _ ih => exact Nat.succ_le_succ ih
  | escaped _ _ ih => exact Nat.succ_le_succ (Nat.le_succ_of_le ih)
  | code _ _ _ _ _ ih =>
    simp only [List.length_cons]
    omega

/-- A value is written inside what is written for it with white space around. -/
theorem exists_writes_value {t : Text} (h : Writes (.element j) t) :
    ∃ s, Writes (.value j) s ∧ s.length ≤ t.length := by
  cases h with
  | element _ _ h =>
    refine ⟨_, h, ?_⟩
    simp only [List.length_append]
    omega

/-- A text is written as a string with two quotation marks more. -/
theorem length_lt_of_writes_string {s t : Text} (h : Writes (.element (.string (some s))) t) :
    s.length + 1 < t.length := by
  obtain ⟨u, hvalue, hle⟩ := exists_writes_value h
  cases hvalue with
  | string hquoted =>
    obtain ⟨hspelling, hmeans⟩ := hquoted
    have hunits := Nat.le_trans (length_le_of_means hmeans) (length_le_of_spelling hspelling)
    simp only [List.length_append, List.length_cons, List.length_nil] at hle
    omega

/-- The items of an array are longer than their texts with line feeds between them. -/
theorem length_lt_of_writes_items {s t : Text} {more : List Text}
    (h : Writes (.items ((s :: more).map fun s => .string (some s))) t) :
    (Text.joinWith ['\n'] (s :: more)).length < t.length := by
  induction more generalizing s t with
  | nil =>
    cases h with
    | lastItem h => exact Nat.lt_of_succ_lt (length_lt_of_writes_string h)
    | item _ hs => cases hs
  | cons next more ih =>
    cases h with
    | item h hs =>
      have hfirst := length_lt_of_writes_string h
      have hothers := ih hs
      rw [Text.joinWith_cons_cons]
      simp only [List.length_append, List.length_cons, List.length_nil]
      omega

/-- So is an array of them, even if it is empty. -/
theorem length_lt_of_writes_ofLines {t : Text} (h : Writes (.element (ofLines lines)) t) :
    (Text.joinWith ['\n'] lines).length < t.length := by
  obtain ⟨u, hvalue, hle⟩ := exists_writes_value h
  cases lines with
  | nil =>
    obtain ⟨c, s, rfl, -⟩ := head_of_writes hvalue
    exact Nat.lt_of_lt_of_le (Nat.succ_pos s.length) hle
  | cons s more =>
    cases hvalue with
    | array h =>
      have hlt := length_lt_of_writes_items h
      simp only [List.length_append, List.length_cons] at hle
      omega

/-- Each member of an object is written inside it. -/
theorem exists_writes_of_members {t : Text} (h : Writes (.members ms) t) (hm : (some key, v) ∈ ms) :
    ∃ s, Writes (.element v) s ∧ s.length ≤ t.length := by
  induction ms generalizing t with
  | nil => cases hm
  | cons m ms ih =>
    cases h with
    | lastMember hkey h =>
      obtain ⟨rfl, rfl⟩ := Prod.mk.inj (List.mem_singleton.mp hm)
      exact ⟨_, h, by simp⟩
    | member hkey h hs =>
      rcases List.mem_cons.mp hm with heq | hm
      · obtain ⟨rfl, rfl⟩ := Prod.mk.inj heq
        exact ⟨_, h, by simp; omega⟩
      · obtain ⟨s, hwrites, hle⟩ := ih hs hm
        exact ⟨s, hwrites, by simp; omega⟩

/-- What a value carries is written inside it. -/
theorem exists_writes_of_carries {t : Text} (h : Writes (.element j) t) (hcarries : Carries key v j) :
    ∃ s, Writes (.element v) s ∧ s.length ≤ t.length := by
  obtain ⟨u, hvalue, hle⟩ := exists_writes_value h
  -- An object that carries something has members, and an array of one value has one item.
  cases hcarries with
  | object hholds =>
    obtain ⟨-⟩ := hholds
    generalize hms : _ ++ (some key, v) :: _ = ms at hvalue
    have hm : (some key, v) ∈ ms := by simp [← hms]
    cases hvalue with
    | emptyObject => cases hm
    | object h =>
      obtain ⟨s, hwrites, hle'⟩ := exists_writes_of_members h hm
      simp only [List.length_append, List.length_cons] at hle
      exact ⟨s, hwrites, by omega⟩
  | array =>
    cases hvalue with
    | array h =>
      cases h with
      | lastItem h =>
        simp only [List.length_append, List.length_cons] at hle
        exact ⟨_, h, by omega⟩
      | item _ hs => cases hs

/-- An answer is longer than its lines, one after the other. -/
theorem Answers.length_lt (h : Answers lines body) : (Text.joinWith ['\n'] lines).length < body.length := by
  obtain ⟨answer, payload, blob, hbody, hpayload, hblob, hlines⟩ := h
  obtain ⟨t, ht, hle⟩ := exists_writes_of_carries hbody (.object hpayload)
  obtain ⟨u, hu, hle'⟩ := exists_writes_of_carries ht hblob
  obtain ⟨w, hw, hle''⟩ := exists_writes_of_carries hu hlines
  have hlt := length_lt_of_writes_ofLines hw
  omega

/-- A text is decoded to itself exactly if it is no answer. -/
theorem decode_eq_self_iff : decode body = body ↔ ¬ ∃ lines, Answers lines body := by
  refine ⟨fun hsame ⟨lines, hlines⟩ => ?_, decode_of_not_answers⟩
  have hlt := hlines.length_lt
  rw [← decode_of_answers hlines, hsame] at hlt
  exact Nat.lt_irrefl _ hlt

/-! ## Main statement -/

/-- Every list of lines has a text that writes it as an answer, and each such text is decoded to the lines
one after the other. Any text is decoded to the lines of an answer that it writes, possibly with arrays
for objects, or else to itself. So it comes to itself or to the lines of an answer of objects exactly if it
writes one, or no answer at all. -/
theorem decode_answer (lines : List Text) (body : Text) :
    (∃ body, Encodes lines body) ∧
      (Encodes lines body → decode body = Text.joinWith ['\n'] lines) ∧
      ((∃ lines, Answers lines body ∧ decode body = Text.joinWith ['\n'] lines) ∨
        (¬ ∃ lines, Answers lines body) ∧ decode body = body) ∧
      ((decode body = body ∨ ∃ lines, Encodes lines body ∧ decode body = Text.joinWith ['\n'] lines) ↔
        (∃ lines, Encodes lines body) ∨ ¬ ∃ lines, Answers lines body) := by
  refine ⟨exists_encodes lines, fun h => decode_of_answers h.answers, ?_, ?_⟩
  · by_cases h : ∃ lines, Answers lines body
    · obtain ⟨lines, hlines⟩ := h
      exact .inl ⟨lines, hlines, decode_of_answers hlines⟩
    · exact .inr ⟨h, decode_of_not_answers h⟩
  · rw [decode_eq_self_iff, or_comm]
    refine or_congr_left (exists_congr fun lines => and_iff_left_of_imp fun hlines => ?_)
    exact decode_of_answers hlines.answers

/-- An answer with blanks, a number and other members around the lines, an escape in a known key, a
surrogate pair in a line, and half of one in a string that is not read. -/
def spaciousAnswer : Text :=
  "\n\x7b \"n\": -1.5e+3, \"pa\\u0079load\": \x7b\"x\": [[], \x7b\x7d, null],\n".toList ++
    "\"blob\": \x7b\"rawLines\" : [\"caf\\u00E9\", \"\\ud83d\\ude00 \\\"q\\\"\", \"\"] ,".toList ++
    "\"l\": \"\\udc00\"\x7d\x7d\x7d\t".toList

/-- That text writes an answer with three lines, the last of which is empty. -/
theorem encodes_spaciousAnswer :
    Encodes ["café".toList, "😀 \"q\"".toList, []] spaciousAnswer := by
  have hread : read? spaciousAnswer = some (.object [(some "n".toList, .scalar),
      (some "payload".toList, .object [(some "x".toList, .array [.array [], .object [], .scalar]),
        (some "blob".toList, .object [(some "rawLines".toList, ofLines ["café".toList, "😀 \"q\"".toList, []]),
          (some "l".toList, .string none)])])]) := by
    decide +kernel
  refine ⟨_, _, _, read?_eq_some_iff.mp hread, @Holds.object _ _ [_] [] ?_, @Holds.object _ _ [_] [] ?_,
    @Holds.object _ _ [] [_] ?_⟩
  · simp
  · simp
  · simp

/-- That answer is decoded to its lines. -/
theorem decode_answer_spacious :
    Encodes ["café".toList, "😀 \"q\"".toList, []] spaciousAnswer ∧
      decode spaciousAnswer = "café\n😀 \"q\"\n".toList :=
  ⟨encodes_spaciousAnswer, (decode_answer _ _).2.1 encodes_spaciousAnswer⟩

/-- The payload and the object in it as arrays of one value. -/
def arrayAnswer : Text := "\x7b\"payload\":[[[\"q\"]]]\x7d".toList

/-- Such a text is decoded to its line, although it writes no answer: its payload is no object. -/
theorem decode_array : decode arrayAnswer = "q".toList ∧ decode arrayAnswer ≠ arrayAnswer ∧
    ¬ ∃ lines, Encodes lines arrayAnswer ∧ decode arrayAnswer = Text.joinWith ['\n'] lines := by
  have hread : read? arrayAnswer =
      some (.object [(some "payload".toList, .array [.array [ofLines ["q".toList]]])]) := by
    decide +kernel
  have hdecode : decode arrayAnswer = "q".toList := by decide +kernel
  refine ⟨hdecode, ?_, ?_⟩
  · rw [hdecode]
    decide
  · rintro ⟨lines, ⟨answer, payload, blob, hbody, hpayload, hblob, -⟩, -⟩
    obtain rfl := Option.some.inj ((read?_eq_some_iff.mpr hbody).symm.trans hread)
    have hfield := field?_eq_some_iff.mpr (.object hpayload)
    have harray : field? "payload".toList
        (.object [(some "payload".toList, .array [.array [ofLines ["q".toList]]])]) =
        some (.array [.array [ofLines ["q".toList]]]) := by
      decide +kernel
    obtain rfl := Option.some.inj (hfield.symm.trans harray)
    cases hblob

end Graft.Viewer
