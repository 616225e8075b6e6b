import LlvmAsm.Ir.Linkage
import LlvmAsm.Text.Quoted

/-!
# Attributes, comdats and metadata attachments

The decorations that a module carries through unchanged: attributes of functions, parameters and
return values (a keyword with an optional parenthesised argument, an alignment, a quoted
key-value pair or a reference to an attribute group), comdat definitions, metadata attachments
and attribute groups, each with its canonical text.
-/

namespace LlvmAsm

/-- An attribute. -/
inductive Attribute where
  /-- A keyword with an optional argument kept as written, `dereferenceable(8)`. -/
  | keyword (name : String) (arg : Option String)
  /-- `align N`. -/
  | align (n : Nat)
  /-- A quoted key with an optional quoted value, `"key"="value"`. -/
  | pair (key : String) (value : Option String)
  /-- A reference to an attribute group, `#N`. -/
  | group (id : Nat)
  deriving Repr, DecidableEq

/-- The text of an attribute. -/
def Attribute.render : Attribute → String
  | .keyword name none => name
  | .keyword name (some arg) => name ++ "(" ++ arg ++ ")"
  | .align n => "align " ++ toString n
  | .pair key none => Text.quote key.toUTF8.toList
  | .pair key (some value) => Text.quote key.toUTF8.toList ++ "=" ++ Text.quote value.toUTF8.toList
  | .group id => "#" ++ toString id

/-- A comdat: a name and how the linker selects among comdats of that name. -/
structure ComdatDef where
  name : String
  kind : SelectionKind
  deriving Repr, DecidableEq

/-- The definition line of a comdat, `$name = comdat kind`. -/
def ComdatDef.definition (c : ComdatDef) : String :=
  Text.comdatName c.name ++ " = comdat " ++ Keyword.keyword c.kind

/-- A reference to a comdat, `comdat($name)`. -/
def ComdatDef.reference (c : ComdatDef) : String := "comdat(" ++ Text.comdatName c.name ++ ")"

/-- A metadata attachment, `!kind !N`. -/
structure MetadataAttachment where
  kind : String
  node : Nat
  deriving Repr, DecidableEq

/-- The text of a metadata attachment. -/
def MetadataAttachment.render (m : MetadataAttachment) : String :=
  "!" ++ Text.ident m.kind ++ " !" ++ toString m.node

/-- An attribute group: a number and its attributes. -/
structure AttrGroupDef where
  id : Nat
  attrs : List Attribute
  deriving Repr, DecidableEq

/-- The definition line of an attribute group, `attributes #N = { a b }`. -/
def AttrGroupDef.render (g : AttrGroupDef) : String :=
  "attributes #" ++ toString g.id ++ " = \x7b" ++ String.join (g.attrs.map (" " ++ ·.render)) ++ " \x7d"

end LlvmAsm
