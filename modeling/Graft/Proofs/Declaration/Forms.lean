import Graft.Proofs.Declaration.Printing

/-!
# One function in two forms

The same name, parameters and block can be written as a function or as an arrow function. The parameters
of a function end at the parenthesis that closes them; those of an arrow function end at the first closing
parenthesis. So the two forms come to the same declaration, but for its text, exactly if there are no
parentheses among the parameters (`extract_forms`).
-/

namespace Graft.Declaration

open Text (unlines)

variable {name parameters line : Text} {body : List BodyLine}

/-- A function, as a file of its own. -/
def functionForm (name parameters : Text) (body : List BodyLine) : Text :=
  "function ".toList ++ name ++ "(".toList ++ parameters ++ ") \x7b".toList ++ blockOf body

/-- The same function as an arrow function. -/
def arrowForm (name parameters : Text) (body : List BodyLine) : Text :=
  "const ".toList ++ name ++ " = (".toList ++ parameters ++ ") => \x7b".toList ++ blockOf body

/-- The declaration that both forms are for, with its text. -/
def formed (name parameters : Text) (body : List BodyLine) (text : Text) : Declaration :=
  ⟨String.ofList name, text, false, false, parameters, .block (blockOf body)⟩

/-- From one line with an indented block behind it, at most what the line starts is extracted. -/
theorem extract_block (hline : '\n' ∉ line) (body : List BodyLine) :
    extract (line ++ blockOf body) =
      (((Header.read? (line ++ blockOf body)).bind Header.cut?).map Cut.declaration).toList := by
  have hquiet : ∀ line ∈ body.map BodyLine.text ++ [['}']], IsQuiet line :=
    fun line => isQuiet_of_mem_body (by simp)
  have hscan := declarationsFrom_single hline (fun line h => hquiet line (List.mem_append_left _ h))
    (hquiet ['}'] (by simp))
  show byName (declarationsFrom 0 0 true (line ++ blockOf body)) = _
  unfold blockOf
  rw [hscan]
  cases ((Header.read? (line ++ '\n' :: (unlines (body.map BodyLine.text) ++ ['}']))).bind
    Header.cut?).map Cut.declaration <;> rfl

/-- What the line starts is extracted if it is cut behind the block. -/
theorem extract_of_cut {h : Header} {d : Declaration} (hline : '\n' ∉ line)
    (hread : Header.read? (line ++ blockOf body) = some h) (hcut : h.cut? = some ⟨d, []⟩) :
    extract (line ++ blockOf body) = [d] := by
  rw [extract_block hline, hread, Option.bind_some, hcut]
  rfl

/-- The first line of either form is one line. -/
theorem lineFeed_notMem (front middle back : Text) (name : Name) (hparameters : '\n' ∉ parameters)
    (hfront : '\n' ∉ front) (hmiddle : '\n' ∉ middle) (hback : '\n' ∉ back) :
    '\n' ∉ front ++ name.text ++ middle ++ parameters ++ back := by
  have hname : '\n' ∉ name.text := fun h => name.isName.ne_of_mem h (d := '\n') (by decide) rfl
  simp [hname, hparameters, hfront, hmiddle, hback]

/-- The function is extracted with its parameters. -/
theorem extract_functionForm (name : Name) (parameters : Parameters) (body : List BodyLine) :
    extract (functionForm name.text parameters.text body) =
      [formed name.text parameters.text body (functionForm name.text parameters.text body)] := by
  have hline := lineFeed_notMem "function ".toList "(".toList ") \x7b".toList
    name parameters.oneLine (by decide) (by decide) (by decide)
  have htext : functionForm name.text parameters.text body = Header.mark "export" false ++
      (Header.mark "async" false ++ ("function".toList ++ (Header.starMark false ++ ' ' :: (name.text ++
        '(' :: (parameters.text ++ ')' :: ' ' :: '{' :: (blockOf body ++ [])))))) := by
    unfold functionForm
    simp [Header.mark, Header.starMark]
  have hread := (congrArg Header.read? htext).trans
    (Header.read?_function name.isName false false false _)
  exact extract_of_cut hline hread (cut?_function _ rfl parameters.balanced rfl rfl
    (htext.symm.trans (List.append_nil _).symm))

/-- The header of the arrow function is read off the value of the variable. -/
theorem read?_arrowForm (name : Name) (parameters : Text) (body : List BodyLine) :
    Header.read? (arrowForm name.text parameters body) =
      (Header.arrowTail? ('(' :: (parameters ++ ')' :: ' ' :: '=' :: '>' :: ' ' :: '{' :: blockOf body))).map
        fun (isAsync, parameters', rest) =>
          ⟨arrowForm name.text parameters body, name.text, isAsync, .arrow parameters', rest⟩ := by
  have htext : arrowForm name.text parameters body = (Header.variableWord true).toList ++
      ' ' :: (name.text ++ ' ' :: '=' :: ' ' :: '(' :: (parameters ++
        ')' :: ' ' :: '=' :: '>' :: ' ' :: '{' :: blockOf body)) := by
    unfold arrowForm
    simp [Header.variableWord]
  rw [htext]
  exact Header.read?_arrow name.isName false true (by simp; decide)

/-- The arrow function is extracted with its parameters if no parenthesis is closed among them. -/
theorem extract_arrowForm (name : Name) (hparameters : '\n' ∉ parameters) (hflat : ')' ∉ parameters)
    (body : List BodyLine) :
    extract (arrowForm name.text parameters body) =
      [formed name.text parameters body (arrowForm name.text parameters body)] := by
  have hline := lineFeed_notMem "const ".toList " = (".toList ") => \x7b".toList name hparameters
    (by decide) (by decide) (by decide)
  have htail := Header.arrowTail?_append hflat false (' ' :: '{' :: blockOf body)
  have hread := (read?_arrowForm name parameters body).trans (congrArg _ htail)
  rw [← List.append_nil (blockOf body)] at hread
  exact extract_of_cut hline hread (cut?_block _ rfl rfl rfl (List.append_nil _).symm)

/-- What is cut for an arrow function has the parameters of its header. -/
theorem parameters_of_cut {h : Header} {done : Cut} (hkind : h.kind = .arrow parameters)
    (hcut : h.cut? = some done) : done.declaration.parameters = parameters := by
  cases htrim : Text.trimStart h.rest with
  | nil =>
    rw [cut?_arrow_nil hkind htrim] at hcut
    cases hcut
  | cons c text =>
    rw [cut?_arrow hkind htrim] at hcut
    split at hcut
    · obtain ⟨body, rest, -, -, -, rfl⟩ := withBlock?_eq_some hcut
      rfl
    · obtain ⟨rest, -, -, rfl⟩ := withExpression?_eq_some hcut
      rfl

/-- Whatever is extracted from the arrow function has for parameters what stands before the first closing
parenthesis, if there is one among the parameters. -/
theorem parameters_of_mem_arrowForm (name : Name) (hparameters : '\n' ∉ parameters)
    (hclose : ')' ∈ parameters) {d : Declaration} (hd : d ∈ extract (arrowForm name.text parameters body)) :
    d.parameters = parameters.takeWhile (· ≠ ')') := by
  have hline := lineFeed_notMem "const ".toList " = (".toList ") => \x7b".toList name hparameters
    (by decide) (by decide) (by decide)
  have hextract : extract (arrowForm name.text parameters body) = _ := extract_block hline body
  rw [hextract, Option.mem_toList] at hd
  obtain ⟨done, hdone, rfl⟩ := Option.map_eq_some_iff.mp hd
  obtain ⟨h, hread, hcut⟩ := Option.bind_eq_some_iff.mp hdone
  have hvalue := (read?_arrowForm name parameters body).symm.trans hread
  obtain ⟨⟨isAsync, parameters', rest⟩, htail, rfl⟩ := Option.map_eq_some_iff.mp hvalue
  obtain ⟨before, behind, rfl, hbefore⟩ := List.eq_append_cons_of_mem hclose
  have hstop : ∀ t : Text, (before ++ ')' :: t).takeWhile (· ≠ ')') = before := by
    intro t
    rw [Text.takeWhile_ne_append hbefore, List.takeWhile_cons_of_neg (by simp), List.append_nil]
  rw [parameters_of_cut rfl hcut, Header.parameters_of_arrowTail? htail, List.append_assoc, List.cons_append,
    hstop, hstop]

/-- A function is extracted from both forms with the same name, parameters, markers and block if there
are no parentheses among its parameters. If there are any, nothing with these parameters is extracted
from the arrow function. -/
theorem extract_forms (name : Name) (parameters : Parameters) (body : List BodyLine) :
    extract (functionForm name.text parameters.text body) =
        [formed name.text parameters.text body (functionForm name.text parameters.text body)] ∧
      ('(' ∉ parameters.text → extract (arrowForm name.text parameters.text body) =
        [formed name.text parameters.text body (arrowForm name.text parameters.text body)]) ∧
      ('(' ∈ parameters.text → ∀ d ∈ extract (arrowForm name.text parameters.text body),
        d.parameters ≠ parameters.text) := by
  have hparens : '(' ∈ parameters.text ↔ ')' ∈ parameters.text := by
    rw [← List.count_pos_iff, ← List.count_pos_iff, parameters.balanced.total]
  refine ⟨extract_functionForm name parameters body, fun hflat => ?_, fun hopen d hd heq => ?_⟩
  · exact extract_arrowForm name parameters.oneLine (mt hparens.mpr hflat) body
  · have hclose := hparens.mp hopen
    have := parameters_of_mem_arrowForm name parameters.oneLine hclose hd
    rw [← heq, this] at hclose
    simpa using List.mem_takeWhile_imp hclose

/-- A name, parameters with and without a call, and a block. -/
def greet : Name := ⟨"greet".toList, by decide⟩

/-- Parameters with a call as a default value. -/
def greetCalling : Parameters := ⟨"name = title()".toList, by decide, by decide⟩

/-- Two parameters without one. -/
def greetNamed : Parameters := ⟨"name, title".toList, by decide, by decide⟩

/-- A block of one line. -/
def greetBody : List BodyLine := [⟨"  return name".toList, by decide, by simp; decide⟩]

/-- Without parentheses among the parameters, both forms come to one declaration. -/
theorem extract_forms_greet :
    '(' ∉ greetNamed.text ∧
      extract (functionForm greet.text greetNamed.text greetBody) =
        [⟨"greet", "function greet(name, title) \x7b\n  return name\n\x7d".toList, false, false,
          "name, title".toList, .block "\n  return name\n\x7d".toList⟩] ∧
      extract (arrowForm greet.text greetNamed.text greetBody) =
        [⟨"greet", "const greet = (name, title) => \x7b\n  return name\n\x7d".toList, false, false,
          "name, title".toList, .block "\n  return name\n\x7d".toList⟩] :=
  ⟨by decide, (extract_forms greet greetNamed greetBody).1,
    (extract_forms greet greetNamed greetBody).2.1 (by decide)⟩

/-- With a call among the parameters, the arrow function is not found. -/
theorem arrowForm_with_call :
    extract (functionForm greet.text greetCalling.text greetBody) =
        [⟨"greet", "function greet(name = title()) \x7b\n  return name\n\x7d".toList, false, false,
          "name = title()".toList, .block "\n  return name\n\x7d".toList⟩] ∧
      arrowForm greet.text greetCalling.text greetBody =
        "const greet = (name = title()) => \x7b\n  return name\n\x7d".toList ∧
      extract (arrowForm greet.text greetCalling.text greetBody) = [] := by
  decide +kernel

end Graft.Declaration
