import LlvmAsm.Literal.Floating
import LlvmAsm.Text.Quoted

/-!
# Types

The type expressions of the assembly language, with their canonical text, and the table of named
types a module defines.

A named type is a name; the table gives its body, or none when it is opaque. Following names to
bodies (`TypeTable.underlying`) stops at a body that is not a name, or at an opaque type.
Following only names whose body is not a struct (`TypeTable.resolveAlias`) keeps identified
structs nominal, and two types are *equivalent* when they agree after that
(`TypeTable.equivalent`). Both follow at most as many names as the table has, which is enough
because a table built from a module has no chain of names leading back to its start.
-/

namespace LlvmAsm

/-- A type expression. Named types are compared by name. -/
inductive Ty where
  | void
  | int (bits : Nat)
  | float (kind : FloatKind)
  | pointer (elem : Ty) (addrSpace : Nat)
  | array (len : Nat) (elem : Ty)
  | vector (len : Nat) (elem : Ty)
  | struct (packed : Bool) (fields : List Ty)
  | func (ret : Ty) (params : List Ty) (variadic : Bool)
  | label
  | token
  | named (name : String)
  deriving Repr, Inhabited

namespace Ty

/-- `i1`. -/
def i1 : Ty := .int 1

/-- `i8`. -/
def i8 : Ty := .int 8

/-- A pointer in the default address space. -/
def ptr (elem : Ty) : Ty := .pointer elem 0

mutual

/-- The canonical text of a type. -/
def render : Ty → String
  | .void => "void"
  | .int bits => "i" ++ toString bits
  | .float kind => kind.name
  | .pointer elem space =>
    elem.render ++ (if space = 0 then "" else " addrspace(" ++ toString space ++ ")") ++ "*"
  | .array len elem => "[" ++ toString len ++ " x " ++ elem.render ++ "]"
  | .vector len elem => "<" ++ toString len ++ " x " ++ elem.render ++ ">"
  | .struct packed fields =>
    let body := match fields with
      | [] => "\x7b\x7d"
      | _ => "\x7b " ++ renderList fields ++ " \x7d"
    if packed then "<" ++ body ++ ">" else body
  | .func ret params variadic =>
    ret.render ++ " (" ++ renderList params ++
      (if variadic then (if params.isEmpty then "..." else ", ...") else "") ++ ")"
  | .label => "label"
  | .token => "token"
  | .named name => Text.localName name

/-- Types separated by `, `. -/
def renderList : List Ty → String
  | [] => ""
  | [t] => t.render
  | t :: ts => t.render ++ ", " ++ renderList ts

end

mutual

/-- Structural equality of types. -/
def beq : Ty → Ty → Bool
  | .void, .void => true
  | .int m, .int n => m == n
  | .float k, .float l => k == l
  | .pointer e s, .pointer f t => e.beq f && s == t
  | .array n e, .array m f => n == m && e.beq f
  | .vector n e, .vector m f => n == m && e.beq f
  | .struct p fs, .struct q gs => p == q && beqList fs gs
  | .func r ps v, .func s qs w => r.beq s && beqList ps qs && v == w
  | .label, .label => true
  | .token, .token => true
  | .named a, .named b => a == b
  | _, _ => false

/-- Structural equality of type lists. -/
def beqList : List Ty → List Ty → Bool
  | [], [] => true
  | a :: as, b :: bs => a.beq b && beqList as bs
  | _, _ => false

end

mutual

theorem eq_of_beq : ∀ (a b : Ty), a.beq b = true → a = b
  | .void, b, h => by cases b <;> simp_all [beq]
  | .int _, b, h => by cases b <;> simp_all [beq]
  | .float _, b, h => by cases b <;> simp_all [beq]
  | .pointer e s, b, h => by
    cases b with
    | pointer f t =>
      simp only [beq, Bool.and_eq_true, beq_iff_eq] at h
      rw [eq_of_beq e f h.1, h.2]
    | _ => simp [beq] at h
  | .array n e, b, h => by
    cases b with
    | array m f =>
      simp only [beq, Bool.and_eq_true, beq_iff_eq] at h
      rw [h.1, eq_of_beq e f h.2]
    | _ => simp [beq] at h
  | .vector n e, b, h => by
    cases b with
    | vector m f =>
      simp only [beq, Bool.and_eq_true, beq_iff_eq] at h
      rw [h.1, eq_of_beq e f h.2]
    | _ => simp [beq] at h
  | .struct p fs, b, h => by
    cases b with
    | struct q gs =>
      simp only [beq, Bool.and_eq_true, beq_iff_eq] at h
      rw [h.1, eq_of_beqList fs gs h.2]
    | _ => simp [beq] at h
  | .func r ps v, b, h => by
    cases b with
    | func s qs w =>
      simp only [beq, Bool.and_eq_true, beq_iff_eq] at h
      rw [eq_of_beq r s h.1.1, eq_of_beqList ps qs h.1.2, h.2]
    | _ => simp [beq] at h
  | .label, b, h => by cases b <;> simp_all [beq]
  | .token, b, h => by cases b <;> simp_all [beq]
  | .named _, b, h => by cases b <;> simp_all [beq]

theorem eq_of_beqList : ∀ (as bs : List Ty), beqList as bs = true → as = bs
  | [], bs, h => by cases bs <;> simp_all [beqList]
  | a :: as, bs, h => by
    cases bs with
    | nil => simp [beqList] at h
    | cons b bs =>
      simp only [beqList, Bool.and_eq_true] at h
      rw [eq_of_beq a b h.1, eq_of_beqList as bs h.2]

end

mutual

theorem beq_self : ∀ (a : Ty), a.beq a = true
  | .void => rfl
  | .int _ => by simp [beq]
  | .float _ => by simp [beq]
  | .pointer e _ => by simp [beq, beq_self e]
  | .array _ e => by simp [beq, beq_self e]
  | .vector _ e => by simp [beq, beq_self e]
  | .struct _ fs => by simp [beq, beqList_self fs]
  | .func r ps _ => by simp [beq, beq_self r, beqList_self ps]
  | .label => rfl
  | .token => rfl
  | .named _ => by simp [beq]

theorem beqList_self : ∀ (as : List Ty), beqList as as = true
  | [] => rfl
  | a :: as => by simp [beqList, beq_self a, beqList_self as]

end

instance : DecidableEq Ty := fun a b =>
  if h : a.beq b then isTrue (eq_of_beq a b h) else isFalse (fun e => h (e ▸ beq_self a))

/-- Whether a type is `void`. -/
def isVoid : Ty → Bool
  | .void => true
  | _ => false

end Ty

/-- The named types of a module in definition order, each with its body (none when opaque). -/
structure TypeTable where
  defs : List (String × Option Ty) := []
  deriving Repr, Inhabited

namespace TypeTable

/-- The entry of a name: `some body?` when the name is defined. -/
def find? (t : TypeTable) (name : String) : Option (Option Ty) := t.defs.lookup name

/-- Whether a name is defined. -/
def contains (t : TypeTable) (name : String) : Bool := (t.find? name).isSome

/-- The body of a defined, non-opaque name. -/
def body? (t : TypeTable) (name : String) : Option Ty := (t.find? name).join

/-- Follows names to bodies, at most `fuel` times. -/
def underlyingWith (t : TypeTable) : Nat → Ty → Ty
  | 0, ty => ty
  | fuel + 1, .named name =>
    match t.body? name with
    | some b => t.underlyingWith fuel b
    | none => .named name
  | _ + 1, ty => ty

/-- The type under all names: the first body that is not a name, or an opaque named type. -/
def underlying (t : TypeTable) (ty : Ty) : Ty := t.underlyingWith (t.defs.length + 1) ty

/-- Follows names whose body is not a struct, at most `fuel` times. -/
def resolveAliasWith (t : TypeTable) : Nat → Ty → Ty
  | 0, ty => ty
  | fuel + 1, .named name =>
    match t.body? name with
    | some (.struct _ _) => .named name
    | some b => t.resolveAliasWith fuel b
    | none => .named name
  | _ + 1, ty => ty

/-- The type with its non-struct aliases followed; identified structs stay named. -/
def resolveAlias (t : TypeTable) (ty : Ty) : Ty := t.resolveAliasWith (t.defs.length + 1) ty

/-- Equality up to non-struct aliases. -/
def equivalent (t : TypeTable) (a b : Ty) : Bool := t.resolveAlias a == t.resolveAlias b

/-- The signature of a pointer to a function, looking through names. -/
def funcOfPointer? (t : TypeTable) (ty : Ty) : Option (Ty × List Ty × Bool) :=
  match t.underlying ty with
  | .pointer elem _ =>
    match t.underlying elem with
    | .func ret params variadic => some (ret, params, variadic)
    | _ => none
  | _ => none

end TypeTable

end LlvmAsm
