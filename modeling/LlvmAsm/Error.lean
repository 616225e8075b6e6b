import LlvmAsm.Text.Escaped

/-!
# Errors

Every way reading, checking or printing a module can fail, as a cause with the data that locates
it, and the one place that words them (`IrError.message`). A failure inside a function carries the
function's name once (`IrError.within`); `IrError.root` looks through that wrapper.
-/

namespace LlvmAsm

/-- The kinds of literal text that can be malformed. -/
inductive LiteralKind where
  | integer
  | floatingPoint
  | integerType
  | characterArray
  deriving Repr, DecidableEq

/-- How a literal kind is named in messages. -/
def LiteralKind.name : LiteralKind → String
  | .integer => "integer"
  | .floatingPoint => "floating-point"
  | .integerType => "integer type"
  | .characterArray => "character array"

/-- The kinds of symbol a reference can name. -/
inductive SymbolKind where
  | global
  | function
  | comdat
  deriving Repr, DecidableEq

/-- How a symbol kind is named in messages. -/
def SymbolKind.name : SymbolKind → String
  | .global => "global"
  | .function => "function"
  | .comdat => "comdat"

/-- The kinds of definition that may not be repeated. -/
inductive DefinitionKind where
  | type
  | comdat
  | global
  | localValue
  deriving Repr, DecidableEq

/-- How a definition kind is named in messages. -/
def DefinitionKind.name : DefinitionKind → String
  | .type => "type"
  | .comdat => "comdat"
  | .global => "global"
  | .localValue => "local"

/-- Why a module could not be read, checked or printed. -/
inductive IrError where
  /-- A value, operand or definition whose type is not the one its place needs. -/
  | typeMismatch (context expected found : String)
  /-- Literal text that does not denote a value of its kind. -/
  | malformedLiteral (kind : LiteralKind) (text reason : String)
  /-- A reference, written with its sigil, to a symbol that does not exist. -/
  | unresolvedSymbol (kind : SymbolKind) (name : String)
  /-- A use of a local that the function does not define. -/
  | unresolvedLocal (func name : String)
  /-- A reference to a named type that is not defined. -/
  | unresolvedType (name : String)
  /-- A block address naming a block its function does not have. -/
  | danglingBlock (func block : String)
  /-- An explicitly numbered local out of the numbering sequence. -/
  | invalidLocalId (func : String) (expected got : Nat)
  /-- A second definition of one name. -/
  | redefinition (kind : DefinitionKind) (name : String)
  /-- Text outside the grammar, at a line and a byte column (both from one). -/
  | parse (line column : Nat) (message : String)
  /-- A failure inside the function of the given name. -/
  | inFunction (func : String) (cause : IrError)
  /-- Implicit numbering ran past the largest 32-bit local number. -/
  | idsExhausted
  deriving Repr, DecidableEq

namespace IrError

/-- A type mismatch from anything that can be shown as text. -/
def mismatch (context expected found : String) : IrError := .typeMismatch context expected found

/-- Attaches the enclosing function, unless the failure already names one or is not about a
function's text. -/
def within (func : String) : IrError → IrError
  | e@(.inFunction ..) => e
  | .idsExhausted => .idsExhausted
  | e => .inFunction func e

/-- The failure under any function wrapper. -/
def root : IrError → IrError
  | .inFunction _ cause => cause.root
  | e => e

/-- The text of a failure. -/
def message : IrError → String
  | .typeMismatch context expected found =>
    "type mismatch in " ++ context ++ "; expected " ++ expected ++ ", got " ++ found
  | .malformedLiteral kind text reason =>
    "malformed " ++ kind.name ++ " literal " ++ Text.escapedLiteral text ++ ": " ++ reason
  | .unresolvedSymbol kind name => "unable to locate " ++ kind.name ++ " " ++ name
  | .unresolvedLocal func name => "unable to locate local " ++ name ++ " in function @" ++ func
  | .unresolvedType name => "unable to locate type %" ++ name
  | .danglingBlock func block => "unable to locate basic block " ++ block ++ " in function @" ++ func
  | .invalidLocalId func expected got =>
    "invalid local ID in function @" ++ func ++ ", expected %" ++ toString expected ++
      ", got %" ++ toString got
  | .redefinition kind name => "redefinition of " ++ kind.name ++ " " ++ name
  | .parse line column message => toString line ++ ":" ++ toString column ++ ": " ++ message
  | .inFunction func cause => "in function @" ++ func ++ ": " ++ cause.message
  | .idsExhausted => "attempt to add with overflow"

end IrError

end LlvmAsm
