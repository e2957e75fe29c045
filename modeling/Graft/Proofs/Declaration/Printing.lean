import Graft.Proofs.Declaration.Blocks
import Graft.Proofs.Declaration.Latest

/-!
# Extraction undoes printing

An `Item` is a declaration to print: a function, or an arrow function with a block or with an expression
on one line, with proofs that its parts have the form that they are printed in. A file of printed items
gives back their declarations (`extract_print`): each item is read as one header, which is cut at the end of
the item, and no header is read before the next item starts.
-/

namespace Graft.Declaration

open Text (unlines)
open Alphabet (IsName)
open Header (mark starMark variableWord)

/-- The name of a printed declaration. -/
structure Name where
  text : Text
  isName : IsName text

/-- The parameters of a printed function: one line, with balanced parentheses. -/
structure Parameters where
  text : Text
  oneLine : '\n' ∉ text
  balanced : Text.Balanced text

/-- The parameters of a printed arrow function: one line without parentheses. -/
structure FlatParameters where
  text : Text
  oneLine : '\n' ∉ text
  noOpen : '(' ∉ text
  noClose : ')' ∉ text

/-- The expression of a printed arrow function. -/
structure Expression where
  text : Text
  isExpression : IsExpression text

/-- The forms of a printed declaration. -/
inductive Form where
  | function (isGenerator : Bool) (parameters : Parameters) (body : List BodyLine)
  /-- An arrow function with a block, and a semicolon behind it or not. -/
  | block (isConst : Bool) (parameters : FlatParameters) (body : List BodyLine) (isEnded : Bool)
  | expression (isConst : Bool) (parameters : FlatParameters) (expression : Expression)

/-- A declaration to print. -/
structure Item where
  name : Name
  isExported : Bool
  isAsync : Bool
  form : Form

namespace Item

/-- The start of an arrow function, up to its body. -/
def arrowHead (i : Item) (isConst : Bool) (parameters body : Text) : Text :=
  (variableWord isConst).toList ++ " ".toList ++ i.name.text ++ " = ".toList ++ mark "async" i.isAsync ++
    "(".toList ++ parameters ++ ") => ".toList ++ body

/-- The text of the declaration, without `export`. -/
def source (i : Item) : Text :=
  match i.form with
  | .function isGenerator parameters body =>
    mark "async" i.isAsync ++ "function".toList ++ starMark isGenerator ++ " ".toList ++ i.name.text ++
      "(".toList ++ parameters.text ++ ") \x7b".toList ++ blockOf body
  | .block isConst parameters body _ =>
    i.arrowHead isConst parameters.text ("\x7b".toList ++ blockOf body)
  | .expression isConst parameters e =>
    i.arrowHead isConst parameters.text (e.text ++ ";".toList)

/-- What is printed behind the declaration. -/
def ending (i : Item) : Text :=
  match i.form with
  | .block _ _ _ true => ";\n".toList
  | _ => "\n".toList

/-- The item as it is printed. -/
def print (i : Item) : Text := mark "export" i.isExported ++ i.source ++ i.ending

/-- The declaration that an item is. -/
def declaration (i : Item) : Declaration :=
  match i.form with
  | .function isGenerator parameters body =>
    ⟨String.ofList i.name.text, i.source, i.isAsync, isGenerator, parameters.text, .block (blockOf body)⟩
  | .block _ parameters body _ =>
    ⟨String.ofList i.name.text, i.source, i.isAsync, false, parameters.text, .block (blockOf body)⟩
  | .expression _ parameters e =>
    ⟨String.ofList i.name.text, i.source, i.isAsync, false, parameters.text, .expression e.text⟩

variable {rest : Text}

/-! ## The lines of an item -/

/-- An item is a line that is not empty, and lines that start with no letter. -/
theorem exists_lines (i : Item) :
    ∃ line later, i.print = line ++ '\n' :: unlines later ∧ '\n' ∉ line ∧ line ≠ [] ∧
      ∀ line ∈ later, IsQuiet line := by
  -- No part of the first line has a line feed in it.
  have hname : '\n' ∉ i.name.text := fun h => i.name.isName.ne_of_mem h (d := '\n') (by decide) rfl
  have hmark : ∀ word isMarked, '\n' ∉ word.toList → '\n' ∉ mark word isMarked := by
    intro word isMarked hword
    cases isMarked <;> simp [mark, hword]
  have hexport := hmark "export" i.isExported (by decide)
  have hasync := hmark "async" i.isAsync (by decide)
  have hstar : ∀ isGenerator, '\n' ∉ starMark isGenerator := by decide
  have hvariable : ∀ isConst, '\n' ∉ (variableWord isConst).toList := by decide
  cases hform : i.form with
  | function isGenerator parameters body =>
    refine ⟨mark "export" i.isExported ++ (mark "async" i.isAsync ++ ("function".toList ++
      (starMark isGenerator ++ ' ' :: (i.name.text ++ '(' :: (parameters.text ++ [')', ' ', '{']))))),
      body.map BodyLine.text ++ [['}']], ?_, ?_, by simp, fun line => isQuiet_of_mem_body (by simp)⟩
    · rw [← blockOf_append body []]
      simp [print, source, ending, hform]
    · simp [hname, hexport, hasync, hstar, parameters.oneLine]
  | block isConst parameters body isEnded =>
    have hsemicolon : '\n' ∉ (if isEnded then [';'] else [] : Text) := by cases isEnded <;> decide
    refine ⟨mark "export" i.isExported ++ ((variableWord isConst).toList ++ ' ' :: (i.name.text ++
      ' ' :: '=' :: ' ' :: (mark "async" i.isAsync ++ '(' :: (parameters.text ++
      [')', ' ', '=', '>', ' ', '{'])))), body.map BodyLine.text ++ ['}' :: (if isEnded then [';'] else [])],
      ?_, ?_, by simp, fun line => isQuiet_of_mem_body hsemicolon⟩
    · rw [← blockOf_append]
      cases isEnded <;> simp [print, source, arrowHead, ending, hform]
    · simp [hname, hexport, hasync, hvariable, parameters.oneLine]
  | expression isConst parameters e =>
    refine ⟨mark "export" i.isExported ++ ((variableWord isConst).toList ++ ' ' :: (i.name.text ++
      ' ' :: '=' :: ' ' :: (mark "async" i.isAsync ++ '(' :: (parameters.text ++
      ')' :: ' ' :: '=' :: '>' :: ' ' :: (e.text ++ [';']))))), [], ?_, ?_, by simp, by simp⟩
    · simp [print, source, arrowHead, ending, hform, unlines]
    · simp [hname, hexport, hasync, hvariable, parameters.oneLine, e.isExpression.oneLine]

/-! ## The header of an item -/

/-- The header that is read where an item is printed is cut at the end of the item. -/
theorem exists_header (i : Item) (rest : Text) :
    ∃ h, Header.read? (i.print ++ rest) = some h ∧ h.cut? = some ⟨i.declaration, i.ending ++ rest⟩ ∧
      rest.length ≤ h.rest.length := by
  -- The mark and the parenthesis of an arrow function start with no white space.
  have hvalue : ∀ t : Text, ∀ c ∈ (mark "async" i.isAsync ++ '(' :: t).head?, Alphabet.isSpace c = false := by
    intro t
    cases i.isAsync with
    | true => simp [mark]; decide
    | false => simp [mark]; decide
  cases hform : i.form with
  | function isGenerator parameters body =>
    have hread := Header.read?_function i.name.isName i.isExported i.isAsync isGenerator
      (parameters.text ++ ')' :: ' ' :: '{' :: (blockOf body ++ '\n' :: rest))
    refine ⟨_, (congrArg Header.read? ?_).trans hread, ?_, ?_⟩
    · simp [print, source, ending, hform]
    · rw [cut?_function i.source rfl parameters.balanced rfl rfl (by simp [source, hform])]
      simp [declaration, ending, hform]
    · simp only [List.length_append, List.length_cons]
      omega
  | block isConst parameters body isEnded =>
    have hread := Header.read?_arrow i.name.isName i.isExported isConst
      (hvalue (parameters.text ++ ')' :: ' ' :: '=' :: '>' :: ' ' :: '{' ::
        (blockOf body ++ (i.ending ++ rest))))
    rw [Header.arrowTail?_append parameters.noClose] at hread
    have hclosing : isClosingLine ('}' :: (i.ending ++ rest)) = true := by
      unfold ending
      rw [hform]
      cases isEnded <;> rfl
    refine ⟨_, (congrArg Header.read? ?_).trans hread, ?_, ?_⟩
    · simp [print, source, arrowHead, hform]
    · rw [cut?_block i.source rfl rfl hclosing (by simp [source, arrowHead, hform])]
      simp [declaration, hform]
    · simp only [List.length_append, List.length_cons]
      omega
  | expression isConst parameters e =>
    have hread := Header.read?_arrow i.name.isName i.isExported isConst
      (hvalue (parameters.text ++ ')' :: ' ' :: '=' :: '>' :: ' ' :: (e.text ++ ';' :: '\n' :: rest)))
    rw [Header.arrowTail?_append parameters.noClose] at hread
    refine ⟨_, (congrArg Header.read? ?_).trans hread, ?_, ?_⟩
    · simp [print, source, arrowHead, ending, hform]
    · rw [cut?_expression (i.arrowHead isConst parameters.text []) rfl e.isExpression rfl
        (by simp [arrowHead])]
      simp [declaration, source, arrowHead, ending, hform]
    · simp only [List.length_append, List.length_cons]
      omega

/-- An item that is printed is cut, and the scan goes on behind it. -/
theorem declarationsFrom_print (i : Item) (rest : Text) :
    declarationsFrom 0 0 true (i.print ++ rest) = i.declaration :: declarationsFrom 0 0 true rest := by
  obtain ⟨line, later, hprint, hline, hne, hlater⟩ := i.exists_lines
  obtain ⟨h, hread, hcut, hheader⟩ := i.exists_header rest
  have htext : i.print ++ rest = line ++ '\n' :: (unlines later ++ rest) := by simp [hprint]
  rw [htext] at hread ⊢
  exact declarationsFrom_printed hline hne hlater hread hcut hheader (by simp)

end Item

/-- Extraction undoes printing: the declarations of printed items are the items' own, each name where it
first occurs, with its last declaration. -/
theorem extract_print (items : List Item) :
    extract (items.flatMap Item.print) = latest (items.map Item.declaration) := by
  have hscan : declarationsFrom 0 0 true (items.flatMap Item.print) = items.map Item.declaration := by
    induction items with
    | nil => rfl
    | cons i items ih => rw [List.flatMap_cons, i.declarationsFrom_print, ih, List.map_cons]
  rw [← byName_eq_latest, ← hscan]
  rfl

/-- A generator whose parameters have a call in them, an arrow function with a block, one with an expression,
and a function that has the name of the second one and takes its place. -/
def someItems : List Item :=
  let name (s : String) (h : IsName s.toList) : Name := ⟨s.toList, h⟩
  let line : BodyLine := ⟨"  return a \x7d".toList, by decide, by simp; decide⟩
  let blank : BodyLine := ⟨[], by decide, by simp⟩
  let flat : FlatParameters := ⟨"a, b".toList, by decide, by decide, by decide⟩
  [⟨name "walk" (by decide), true, true, .function true ⟨"a = f()".toList, by decide, by decide⟩ [line]⟩,
    ⟨name "pad" (by decide), false, false, .block true flat [line, blank] true⟩,
    ⟨name "trim" (by decide), true, true,
      .expression false flat ⟨"a[0]".toList, by decide, by decide, by simp; decide, by simp; decide⟩⟩,
    ⟨name "pad" (by decide), false, false, .function false ⟨[], by decide, by decide⟩ []⟩]

/-- What is printed of them gives back their declarations. -/
theorem extract_print_someItems :
    extract ("export async function* walk(a = f()) \x7b\n  return a \x7d\n\x7d\n" ++
        "const pad = (a, b) => \x7b\n  return a \x7d\n\n\x7d;\nexport let trim = async (a, b) => a[0];\n" ++
        "function pad() \x7b\n\x7d\n").toList =
      [⟨"walk", "async function* walk(a = f()) \x7b\n  return a \x7d\n\x7d".toList, true, true,
          "a = f()".toList, .block "\n  return a \x7d\n\x7d".toList⟩,
        ⟨"pad", "function pad() \x7b\n\x7d".toList, false, false, [], .block "\n\x7d".toList⟩,
        ⟨"trim", "let trim = async (a, b) => a[0];".toList, true, false, "a, b".toList,
          .expression "a[0]".toList⟩] := by
  refine (congrArg extract ?_).trans ((extract_print someItems).trans ?_)
  · decide +kernel
  · decide +kernel

end Graft.Declaration
