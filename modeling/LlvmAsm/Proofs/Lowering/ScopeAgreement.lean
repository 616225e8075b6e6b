import LlvmAsm.Lowering.Module

/-!
# `Proofs.Lowering.ScopeAgreement` — what a check reads of its scope

Lowering reads a scope through three things only: its named types, its comdats, and the symbol
each name looks up to. Two scopes that agree on these (`Scope.Agrees`) check every type, constant,
global, header and body alike: each check run on one is the same run as on the other
(`Scope.Agrees.lowerConst_eq`, …, `Scope.Agrees.lowerItems_eq`). In particular the order in which
the symbols were declared does not matter once every name is declared once.

The lemmas follow the checks one by one; each unfolds its check on both sides and rewrites every
read of the scope, and the calls to other checks, by the lemmas before it.
-/

namespace LlvmAsm

namespace Scope

/-- **Two scopes agree** when they define the same named types, the same comdats, and look every
name up to the same symbol. -/
structure Agrees (s s' : Scope) : Prop where
  types : s.types = s'.types
  comdats : s.comdats = s'.comdats
  symbol? : ∀ name, s.symbol? name = s'.symbol? name

variable {s s' : Scope}

mutual

/-- Checking a type reads only the named types. -/
theorem lowerType_congr (h : s.types = s'.types) : ∀ ty : Ty, s.lowerType ty = s'.lowerType ty
  | .int _ => by simp only [lowerType]
  | .pointer elem _ => by simp only [lowerType, lowerType_congr h elem]
  | .array _ elem => by simp only [lowerType, lowerType_congr h elem]
  | .vector _ elem => by simp only [lowerType, lowerType_congr h elem]
  | .struct _ fields => by simp only [lowerType, lowerTypes_congr h fields]
  | .func ret params _ => by
    simp only [lowerType, lowerType_congr h ret, lowerTypes_congr h params]
  | .named _ => by simp only [lowerType, h]
  | .void => by simp only [lowerType]
  | .float _ => by simp only [lowerType]
  | .label => by simp only [lowerType]
  | .token => by simp only [lowerType]

theorem lowerTypes_congr (h : s.types = s'.types) :
    ∀ tys : List Ty, s.lowerTypes tys = s'.lowerTypes tys
  | [] => by simp only [lowerTypes]
  | t :: ts => by simp only [lowerTypes, lowerType_congr h t, lowerTypes_congr h ts]

end

namespace Agrees

theorem lowerType_eq (h : s.Agrees s') (ty : Ty) : s.lowerType ty = s'.lowerType ty :=
  lowerType_congr h.types ty

theorem lowerTypes_eq (h : s.Agrees s') (tys : List Ty) : s.lowerTypes tys = s'.lowerTypes tys :=
  lowerTypes_congr h.types tys

theorem lowerSignature_eq (h : s.Agrees s') (hd : Ast.Header) :
    s.lowerSignature hd = s'.lowerSignature hd := by
  simp only [lowerSignature, h.lowerType_eq, h.lowerTypes_eq]

theorem comdat_eq (h : s.Agrees s') (name : String) : s.comdat name = s'.comdat name := by
  simp only [comdat, h.comdats]

theorem lowerComdat_eq (h : s.Agrees s') (owner : String) (c : Ast.ComdatRef) :
    s.lowerComdat owner c = s'.lowerComdat owner c := by
  cases c <;> simp only [lowerComdat, h.comdat_eq]

theorem expressionAt_eq (h : s.Agrees s') (expected : Ty) (e : Const) :
    s.expressionAt expected e = s'.expressionAt expected e := by
  simp only [expressionAt, h.types]

/-! ## Constants -/

mutual

theorem lowerConst_eq (h : s.Agrees s') (expected : Ty) : ∀ c : Ast.Const,
    s.lowerConst expected c = s'.lowerConst expected c
  | .bool _ => by simp only [lowerConst, h.types]
  | .int _ => by simp only [lowerConst, h.types]
  | .float _ => by simp only [lowerConst, h.types]
  | .null => by simp only [lowerConst, h.types]
  | .none => by simp only [lowerConst, h.types]
  | .struct _ fields => by
    -- the field types come out of the expected type, so the fields are checked at any of them
    have ih := fun tys => lowerFields_eq h tys fields
    simp only [lowerConst, h.types, ih]
  | .array elems => by
    have ih := fun context elem => lowerElems_eq h context elem elems
    simp only [lowerConst, h.types, ih]
  | .vector elems => by
    have ih := fun context elem => lowerElems_eq h context elem elems
    simp only [lowerConst, h.types, ih]
  | .chars _ => by simp only [lowerConst, h.types]
  | .zeroInit => by simp only [lowerConst]
  | .undef => by simp only [lowerConst]
  | .blockAddress _ _ => by simp only [lowerConst, h.types, h.symbol?]
  | .global _ => by simp only [lowerConst, h.types, h.symbol?]
  | .cast _ value _ => by
    simp only [lowerConst, h.types, h.lowerType_eq, h.expressionAt_eq, lowerTypedConst_eq h value]
  | .binary _ lhs (.mk _ rhsValue) => by
    have ih := fun ty => lowerConst_eq h ty rhsValue
    simp only [lowerConst, h.types, h.lowerType_eq, h.expressionAt_eq, lowerTypedConst_eq h lhs, ih]
  | .gep _ _ base indices => by
    simp only [lowerConst, h.types, h.lowerType_eq, h.expressionAt_eq, lowerTypedConst_eq h base,
      lowerTypedConsts_eq h indices]

theorem lowerTypedConst_eq (h : s.Agrees s') :
    ∀ c : Ast.TypedConst, s.lowerTypedConst c = s'.lowerTypedConst c
  | .mk _ value => by
    have ih := fun ty => lowerConst_eq h ty value
    simp only [lowerTypedConst, h.lowerType_eq, ih]

theorem lowerTypedConsts_eq (h : s.Agrees s') :
    ∀ cs : List Ast.TypedConst, s.lowerTypedConsts cs = s'.lowerTypedConsts cs
  | [] => by simp only [lowerTypedConsts]
  | c :: cs => by simp only [lowerTypedConsts, lowerTypedConst_eq h c, lowerTypedConsts_eq h cs]

theorem lowerElems_eq (h : s.Agrees s') (context : String) (elem : Ty) :
    ∀ cs : List Ast.TypedConst, s.lowerElems context elem cs = s'.lowerElems context elem cs
  | [] => by simp only [lowerElems]
  | .mk _ value :: rest => by
    simp only [lowerElems, h.types, h.lowerType_eq, lowerConst_eq h elem value,
      lowerElems_eq h context elem rest]

theorem lowerFields_eq (h : s.Agrees s') :
    ∀ (tys : List Ty) (cs : List Ast.TypedConst), s.lowerFields tys cs = s'.lowerFields tys cs
  | fieldTy :: tys, .mk _ value :: rest => by
    simp only [lowerFields, h.types, h.lowerType_eq, lowerConst_eq h fieldTy value,
      lowerFields_eq h tys rest]
  | [], _ => by simp only [lowerFields]
  | _ :: _, [] => by simp only [lowerFields]

end

theorem lowerGlobal_eq (h : s.Agrees s') (g : Ast.Global) : s.lowerGlobal g = s'.lowerGlobal g := by
  have hconst : ∀ ty, s.lowerConst ty = s'.lowerConst ty := fun ty => funext (h.lowerConst_eq ty)
  simp only [lowerGlobal, h.lowerType_eq, h.lowerComdat_eq, hconst]

/-! ## The first pass over a body -/

theorem callSignature_eq (h : s.Agrees s') (c : Ast.Call) :
    s.callSignature c = s'.callSignature c := by
  simp only [callSignature, h.lowerType_eq, h.lowerTypes_eq]

theorem resultType_eq (h : s.Agrees s') (kind : Ast.InstKind) :
    s.resultType kind = s'.resultType kind := by
  cases kind <;> simp only [resultType, h.lowerType_eq, h.callSignature_eq]

theorem declareInst_eq (h : s.Agrees s') (l : Locals) (i : Ast.Instruction) :
    s.declareInst l i = s'.declareInst l i := by
  simp only [declareInst, h.resultType_eq]

theorem declareInsts_eq (h : s.Agrees s') (l : Locals) (insts : List Ast.Instruction) :
    s.declareInsts l insts = s'.declareInsts l insts := by
  induction insts generalizing l with
  | nil => simp only [declareInsts]
  | cons i rest ih => simp only [declareInsts, h.declareInst_eq, ih]

theorem declareTerm_eq (h : s.Agrees s') (l : Locals) (t : Ast.Terminator) :
    s.declareTerm l t = s'.declareTerm l t := by
  cases t <;> simp only [declareTerm, h.callSignature_eq]

theorem declareBlock_eq (h : s.Agrees s') (l : Locals) (b : Ast.Block) :
    s.declareBlock l b = s'.declareBlock l b := by
  simp only [declareBlock, h.declareInsts_eq, h.declareTerm_eq]

theorem declareBlocks_eq (h : s.Agrees s') (l : Locals) (blocks : List Ast.Block) :
    s.declareBlocks l blocks = s'.declareBlocks l blocks := by
  induction blocks generalizing l with
  | nil => simp only [declareBlocks]
  | cons b rest ih => simp only [declareBlocks, h.declareBlock_eq, ih]

theorem declareBody_eq (h : s.Agrees s') (hd : Ast.Header) (sig : FuncSig)
    (blocks : List Ast.Block) :
    s.declareBody hd sig blocks = s'.declareBody hd sig blocks := by
  simp only [declareBody, h.declareBlocks_eq]

/-! ## The second pass over a body -/

variable (l : Locals)

theorem lowerValue_eq (h : s.Agrees s') (expected : Ty) (v : Ast.Value) :
    s.lowerValue l expected v = s'.lowerValue l expected v := by
  cases v <;> simp only [lowerValue, h.types, h.lowerConst_eq]

theorem lowerTypedValue_eq (h : s.Agrees s') (v : Ast.TypedValue) :
    s.lowerTypedValue l v = s'.lowerTypedValue l v := by
  simp only [lowerTypedValue, h.lowerType_eq, h.lowerValue_eq]

theorem lowerCall_eq (h : s.Agrees s') (c : Ast.Call) : s.lowerCall l c = s'.lowerCall l c := by
  have hvalue : s.lowerTypedValue l = s'.lowerTypedValue l := funext (h.lowerTypedValue_eq l)
  simp only [lowerCall, h.types, h.callSignature_eq, h.lowerValue_eq, hvalue]

theorem checkPointee_eq (h : s.Agrees s') (ptr : Value) (ty : Ty) (context : String) :
    s.checkPointee ptr ty context = s'.checkPointee ptr ty context := by
  simp only [checkPointee, h.types]

theorem lowerInst_eq (h : s.Agrees s') (result : Option Nat) (kind : Ast.InstKind) :
    s.lowerInst l result kind = s'.lowerInst l result kind := by
  cases kind <;> simp only [lowerInst, h.types, h.lowerType_eq, h.lowerValue_eq,
    h.lowerTypedValue_eq, h.checkPointee_eq, h.lowerCall_eq]

theorem lowerTerm_eq (h : s.Agrees s') (retTy : Ty) (result : Option Nat) (t : Ast.Terminator) :
    s.lowerTerm l retTy result t = s'.lowerTerm l retTy result t := by
  rcases t with (_ | _) | _ | _ | _ | _ <;>
    simp only [lowerTerm, h.types, h.lowerTypedValue_eq, h.lowerCall_eq]

theorem lowerBlock_eq (h : s.Agrees s') (retTy : Ty) (b : Ast.Block) (d : DeclaredBlock) :
    s.lowerBlock l retTy b d = s'.lowerBlock l retTy b d := by
  simp only [lowerBlock, h.lowerInst_eq, h.lowerTerm_eq]

/-! ## Functions, globals and the items of a module -/

theorem lowerHeader_eq (h : s.Agrees s') (hd : Ast.Header) :
    s.lowerHeader hd = s'.lowerHeader hd := by
  have hconst : s.lowerTypedConst = s'.lowerTypedConst := funext h.lowerTypedConst_eq
  simp only [lowerHeader, h.lowerSignature_eq, h.lowerComdat_eq, hconst]

theorem lowerFunctionIn_eq (h : s.Agrees s') (f : Ast.Function) :
    s.lowerFunctionIn f = s'.lowerFunctionIn f := by
  simp only [lowerFunctionIn, h.lowerHeader_eq, h.declareBody_eq, h.lowerBlock_eq,
    h.lowerTypedValue_eq]

theorem lowerFunction_eq (h : s.Agrees s') (f : Ast.Function) :
    s.lowerFunction f = s'.lowerFunction f := by
  simp only [lowerFunction, h.lowerFunctionIn_eq]

/-- **Scopes that agree check the items of a module alike.** -/
theorem lowerItems_eq (h : s.Agrees s') (m : Ast.Module) : s.lowerItems m = s'.lowerItems m := by
  have hglobal : s.lowerGlobal = s'.lowerGlobal := funext h.lowerGlobal_eq
  have hfunction : s.lowerFunction = s'.lowerFunction := funext h.lowerFunction_eq
  simp only [lowerItems, hglobal, hfunction]

end Agrees

end Scope

end LlvmAsm
