import LlvmAsm.Ir.Keyword

/-!
# Operators

The integer binary operators, the casts and the integer comparison predicates, each a closed set of
words.
-/

namespace LlvmAsm

/-- Integer binary operators. -/
inductive BinaryOp where
  | add | sub | mul | udiv | sdiv | and | or | xor | shl | lshr | ashr
  deriving Repr, DecidableEq

instance : Keyword BinaryOp where
  all := [.add, .sub, .mul, .udiv, .sdiv, .and, .or, .xor, .shl, .lshr, .ashr]
  keyword
    | .add => "add" | .sub => "sub" | .mul => "mul" | .udiv => "udiv" | .sdiv => "sdiv"
    | .and => "and" | .or => "or" | .xor => "xor" | .shl => "shl" | .lshr => "lshr"
    | .ashr => "ashr"

/-- Conversions between types. -/
inductive CastOp where
  | trunc | zext | sext | bitcast | ptrToInt | intToPtr
  deriving Repr, DecidableEq

instance : Keyword CastOp where
  all := [.trunc, .zext, .sext, .bitcast, .ptrToInt, .intToPtr]
  keyword
    | .trunc => "trunc" | .zext => "zext" | .sext => "sext" | .bitcast => "bitcast"
    | .ptrToInt => "ptrtoint" | .intToPtr => "inttoptr"

/-- Integer comparison predicates. -/
inductive IntPredicate where
  | eq | ne | ugt | uge | ult | ule | sgt | sge | slt | sle
  deriving Repr, DecidableEq

instance : Keyword IntPredicate where
  all := [.eq, .ne, .ugt, .uge, .ult, .ule, .sgt, .sge, .slt, .sle]
  keyword
    | .eq => "eq" | .ne => "ne" | .ugt => "ugt" | .uge => "uge" | .ult => "ult"
    | .ule => "ule" | .sgt => "sgt" | .sge => "sge" | .slt => "slt" | .sle => "sle"

end LlvmAsm
