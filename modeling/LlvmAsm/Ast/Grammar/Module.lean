import LlvmAsm.Ast.Grammar.Function

/-!
# Reading a module

```
module   ::= item*
item     ::= "%" local "=" "type" ("opaque" | type)
           | "$" name "=" "comdat" selection
           | "@" name "=" gword* ("global" | "constant") type const? ("," gclause)*
           | "source_filename" "=" string | "target" ("datalayout" | "triple") "=" string
           | declare | define | "attributes" "#" N "=" "{" attribute* "}"
gclause  ::= "section" string | "comdat" clause | "align" N
```

A global's initializer is read when the line goes on past the type and does not go on with `,`;
its clauses follow on the same line. `parseModule` reads a whole text and reports a failure with
its line and byte column.
-/

namespace LlvmAsm.Ast.Reader

/-- Reads a named type definition. -/
def parseTypeDef (fuel : Nat) : Reader TypeDef := do
  let name ← match ← readLocal with
    | .name n => pure n
    | .number k => pure (toString k)
  expect '='
  expectWord "type"
  if ← tryWord "opaque" then return ⟨name, none⟩
  return ⟨name, some (← parseType fuel)⟩

/-- Reads a comdat definition. -/
def parseComdatDef : Reader ComdatDef := do
  let name ← readComdatName
  expect '='
  expectWord "comdat"
  let w ← readWord
  match (Keyword.ofKeyword? w : Option SelectionKind) with
  | some kind => return ⟨name, kind⟩
  | none => fail ("unknown comdat selection kind '" ++ w ++ "'")

/-- Reads the words of a global up to `global` or `constant`. -/
def globalPrefix : Nat → Global → Reader Global
  | 0, _ => exhausted
  | steps + 1, g => do
    let w ← readWord
    match (Keyword.ofKeyword? w : Option Linkage) with
    | some l => globalPrefix steps { g with linkage := some l }
    | none =>
    match (Keyword.ofKeyword? w : Option Preemption) with
    | some p => globalPrefix steps { g with preemption := some p }
    | none =>
    match (Keyword.ofKeyword? w : Option Visibility) with
    | some v => globalPrefix steps { g with visibility := some v }
    | none =>
    match (Keyword.ofKeyword? w : Option DllStorage) with
    | some d => globalPrefix steps { g with dll := some d }
    | none =>
    match (Keyword.ofKeyword? w : Option UnnamedAddr) with
    | some u => globalPrefix steps { g with unnamedAddr := some u }
    | none =>
      if w = "global" || w = "constant" then return { g with isConstant := w = "constant" }
      fail ("unexpected '" ++ w ++ "' in global definition")

/-- Reads the clauses of a global, each after a `,` on the same line. -/
def globalSuffix : Nat → Global → Reader Global
  | 0, _ => exhausted
  | steps + 1, g => do
    skipBlanks false
    if (← peek) ≠ some ',' then return g
    advance 1
    let w ← readWord
    match w with
    | "section" => globalSuffix steps { g with sectionName := some (← readString) }
    | "comdat" => globalSuffix steps { g with comdat := some (← comdatClause) }
    | "align" => globalSuffix steps { g with align := some (← readNumber bound64) }
    | _ => fail ("unexpected '" ++ w ++ "' in global definition")

/-- Reads a global variable. -/
def parseGlobal (fuel steps : Nat) : Reader Global := do
  let name ← readGlobalName
  expect '='
  let g ← globalPrefix steps { name := name }
  let ty ← parseType fuel
  let g := { g with contentTy := ty }
  let g ← if !(← atLineEnd) && (← peek) ≠ some ',' then
      pure { g with init := some (← parseConstant fuel) }
    else pure g
  globalSuffix steps g

/-- Reads the attributes of a group up to its `}`. -/
def groupAttrs : Nat → Reader (List Attribute)
  | 0 => exhausted
  | steps + 1 => do
    if ← tryChar '}' then return []
    if (← peek).isNone then fail "unterminated attribute group"
    let a ← parseAttribute
    return a :: (← groupAttrs steps)

/-- Reads an attribute group after the word `attributes`. -/
def parseAttrGroup (steps : Nat) : Reader AttrGroupDef := do
  expect '#'
  let id ← readNumber bound32
  expect '='
  expect '{'
  return ⟨id, ← groupAttrs steps⟩

/-- Reads module items to the end of the text. -/
def moduleItems (fuel : Nat) : Nat → Module → Reader Module
  | 0, _ => exhausted
  | steps + 1, m => do
    skipBlanks true
    match ← peek with
    | none => return m
    | some '%' =>
      let d ← parseTypeDef fuel
      moduleItems fuel steps { m with typeDefs := m.typeDefs ++ [d] }
    | some '$' =>
      let c ← parseComdatDef
      moduleItems fuel steps { m with comdats := m.comdats ++ [c] }
    | some '@' =>
      let g ← parseGlobal fuel steps
      moduleItems fuel steps { m with globals := m.globals ++ [g] }
    | some _ =>
      let w ← readWord
      match w with
      | "source_filename" =>
        expect '='
        let s ← readString
        moduleItems fuel steps { m with sourceFilename := some s }
      | "target" =>
        let w2 ← readWord
        match w2 with
        | "datalayout" =>
          expect '='
          let s ← readString
          moduleItems fuel steps { m with dataLayout := some s }
        | "triple" =>
          expect '='
          let s ← readString
          moduleItems fuel steps { m with targetTriple := some s }
        | _ => fail ("unknown target property '" ++ w2 ++ "'")
      | "declare" =>
        let f ← parseDeclare fuel steps
        moduleItems fuel steps { m with funcs := m.funcs ++ [f] }
      | "define" =>
        let f ← parseDefine fuel steps
        moduleItems fuel steps { m with funcs := m.funcs ++ [f] }
      | "attributes" =>
        let a ← parseAttrGroup steps
        moduleItems fuel steps { m with attrGroups := m.attrGroups ++ [a] }
      | _ => fail ("unexpected '" ++ w ++ "' at top level")

end Reader

/-- Reads a module from its text. -/
def parseModule (text : String) : Except IrError Module :=
  let start : Cursor := ⟨text.toList, 0⟩
  let steps := start.rest.length + 1
  match (Reader.moduleItems (Reader.fuelFor start) steps {}).run start with
  | .ok (m, _) => .ok m
  | .error e => .error (e.locate text)

end LlvmAsm.Ast
