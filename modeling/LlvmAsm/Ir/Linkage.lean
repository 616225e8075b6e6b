import LlvmAsm.Ir.Keyword

/-!
# Linkage, visibility and calling conventions

The words that qualify a global or a function: linkage, preemption, visibility, DLL storage,
significance of the address, comdat selection, and calling convention. A calling convention is
one of the named ones or a bare number; `CallingConv.ofNumber` maps the numbers of the named ones
to their names, so a number is written `cc N` only when no name has it.
-/

namespace LlvmAsm

/-- How a symbol links with others of the same name. -/
inductive Linkage where
  | «private» | internal | availableExternally | linkOnce | weak | common | appending
  | externWeak | linkOnceOdr | weakOdr | external
  deriving Repr, DecidableEq

instance : Keyword Linkage where
  all := [.«private», .internal, .availableExternally, .linkOnce, .weak, .common, .appending,
    .externWeak, .linkOnceOdr, .weakOdr, .external]
  keyword
    | .«private» => "private" | .internal => "internal"
    | .availableExternally => "available_externally" | .linkOnce => "linkonce"
    | .weak => "weak" | .common => "common" | .appending => "appending"
    | .externWeak => "extern_weak" | .linkOnceOdr => "linkonce_odr" | .weakOdr => "weak_odr"
    | .external => "external"

/-- Whether a symbol may be replaced at run time. -/
inductive Preemption where
  | dsoLocal | dsoPreemptable
  deriving Repr, DecidableEq

instance : Keyword Preemption where
  all := [.dsoLocal, .dsoPreemptable]
  keyword
    | .dsoLocal => "dso_local" | .dsoPreemptable => "dso_preemptable"

/-- Who sees a symbol. -/
inductive Visibility where
  | «default» | hidden | «protected»
  deriving Repr, DecidableEq

instance : Keyword Visibility where
  all := [.«default», .hidden, .«protected»]
  keyword
    | .«default» => "default" | .hidden => "hidden" | .«protected» => "protected"

/-- DLL import or export of a symbol. -/
inductive DllStorage where
  | dllImport | dllExport
  deriving Repr, DecidableEq

instance : Keyword DllStorage where
  all := [.dllImport, .dllExport]
  keyword
    | .dllImport => "dllimport" | .dllExport => "dllexport"

/-- Whether a symbol's address is significant. -/
inductive UnnamedAddr where
  | global | localOnly
  deriving Repr, DecidableEq

instance : Keyword UnnamedAddr where
  all := [.global, .localOnly]
  keyword
    | .global => "unnamed_addr" | .localOnly => "local_unnamed_addr"

/-- How the linker picks among comdats of one name. -/
inductive SelectionKind where
  | any | exactMatch | largest | noDuplicates | sameSize
  deriving Repr, DecidableEq

instance : Keyword SelectionKind where
  all := [.any, .exactMatch, .largest, .noDuplicates, .sameSize]
  keyword
    | .any => "any" | .exactMatch => "exactmatch" | .largest => "largest"
    | .noDuplicates => "noduplicates" | .sameSize => "samesize"

/-- A calling convention: a named one, or any other by number. -/
inductive CallingConv where
  | c | fast | cold | ghc | webKitJs | anyReg | preserveMost | preserveAll | swift | tail
  | numbered (n : Nat)
  deriving Repr, DecidableEq

namespace CallingConv

/-- The named conventions with their words and numbers. -/
def named : List (CallingConv × String × Nat) :=
  [(.c, "ccc", 0), (.fast, "fastcc", 8), (.cold, "coldcc", 9), (.ghc, "ghccc", 10),
   (.webKitJs, "webkit_jscc", 12), (.anyReg, "anyregcc", 13), (.preserveMost, "preserve_mostcc", 14),
   (.preserveAll, "preserve_allcc", 15), (.swift, "swiftcc", 16), (.tail, "tailcc", 18)]

/-- The named convention written as `s`. -/
def ofKeyword? (s : String) : Option CallingConv :=
  (named.find? (·.2.1 == s)).map (·.1)

/-- The convention of a number: the named one with that number, or the number itself. -/
def ofNumber (n : Nat) : CallingConv :=
  match named.find? (·.2.2 == n) with
  | some (cc, _, _) => cc
  | none => .numbered n

/-- The text of a convention as formatting gives it: its word, or `cc N`. Formatting fails
(`none`) for a convention that is neither numbered nor among the named ones. -/
def display? : CallingConv → Option String
  | .numbered n => some ("cc " ++ toString n)
  | cc => (named.find? (·.1 == cc)).map (·.2.1)

/-- **Formatting a convention never fails**: every convention that is not numbered is named. -/
theorem display?_isSome (cc : CallingConv) : (display? cc).isSome := by
  cases cc <;> rfl

/-- The text of a convention: what formatting gives, which it always gives. -/
def render (cc : CallingConv) : String := (display? cc).get (display?_isSome cc)

@[simp] theorem render_numbered (n : Nat) : (numbered n).render = "cc " ++ toString n := rfl

end CallingConv

end LlvmAsm
