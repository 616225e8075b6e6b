import LlvmAsm.Ir.Function

/-!
# `Proofs.Sites` — where a function defines and uses its locals

Read-offs of a function's body, stated over the IR alone:

* its *sites* (`Function.localDefs`): every local it defines, in text order, with its slot, its
  type and its kind — a parameter, a block label, or the result of an instruction or an invoke;
* the operands it uses (`Function.values`), and among them the locals used with the type written
  at the use (`Function.localUses`);
* its *block targets* (`Function.blockTargets`): the slots named in block position, by a phi's
  incoming blocks, a branch or an invoke's destinations.

Numbering visits exactly the sites that are not `void` results of calls (`visitOrder_eq`); a load
or phi of type `void` is a site that numbering visits like any other result.
-/

namespace LlvmAsm

/-- What defines a local. -/
inductive LocalKind where
  | param
  | block
  /-- The result of an instruction or invoke; `call` for calls and invokes. -/
  | result (call : Bool)
  deriving DecidableEq, Repr

/-- Whether a local is the result of an instruction or invoke. -/
def LocalKind.isResult : LocalKind → Bool
  | .result _ => true
  | _ => false

/-- A local a function defines: its slot, its type and what defines it. -/
structure LocalDef where
  slot : Nat
  ty : Ty
  kind : LocalKind
  deriving DecidableEq, Repr

/-- Whether numbering visits a site: every site but the `void` result of a call or invoke. -/
def LocalDef.numbered (d : LocalDef) : Bool := !(d.kind == .result true && d.ty.isVoid)

theorem Ty.isVoid_eq_true_iff {ty : Ty} : ty.isVoid = true ↔ ty = .void := by
  cases ty <;> simp [Ty.isVoid]

theorem LocalDef.numbered_eq_false_iff {d : LocalDef} :
    d.numbered = false ↔ d.kind = .result true ∧ d.ty.isVoid = true := by
  simp [LocalDef.numbered]

/-- A load or phi of type `void`: a result of type `void` that is not a call's. Numbering visits
it like any other result. -/
def LocalDef.IsVoidValue (d : LocalDef) : Prop := d.kind = .result false ∧ d.ty = .void

instance (d : LocalDef) : Decidable d.IsVoidValue := inferInstanceAs (Decidable (_ ∧ _))

/-- The type of an instruction's result (`void` for a store, which has none). -/
def InstKind.resultTy : InstKind → Ty
  | .binary _ lhs _ => lhs.ty
  | .icmp .. => .i1
  | .alloca elem => .ptr elem
  | .load ty _ => ty
  | .store .. => .void
  | .phi ty _ => ty
  | .call c => c.sig.ret

/-- Whether an instruction is a call. -/
def InstKind.isCall : InstKind → Bool
  | .call _ => true
  | _ => false

/-- The site of an instruction with a result slot. -/
def Instruction.localDef? (i : Instruction) : Option LocalDef :=
  i.result.map fun slot => ⟨slot, i.kind.resultTy, .result i.kind.isCall⟩

/-- The site of an invoke's result. -/
def Terminator.localDef? : Terminator → Option LocalDef
  | .invoke result c _ _ => some ⟨result, c.sig.ret, .result true⟩
  | _ => none

/-- The sites of a block: its label, the results of its instructions and of its invoke. -/
def Block.localDefs (b : Block) : List LocalDef :=
  ⟨b.label, .label, .block⟩ :: (b.insts.filterMap (·.localDef?) ++ b.term.localDef?.toList)

/-- The sites of a function in text order: its parameters, then the sites of each block. -/
def Function.localDefs (f : Function) : List LocalDef :=
  f.params.map (fun p => ⟨p.slot, p.ty, .param⟩) ++ f.blocks.flatMap Block.localDefs

/-- Whether a function has a load or phi of type `void`. -/
def Function.HasVoidValue (f : Function) : Prop := ∃ d ∈ f.localDefs, d.IsVoidValue

instance (f : Function) : Decidable f.HasVoidValue :=
  inferInstanceAs (Decidable (∃ d ∈ f.localDefs, d.IsVoidValue))

/-! ## Operands and block targets -/

/-- The local an operand uses, with the type written at the use. -/
def Value.use? : Value → Option (Nat × Ty)
  | .reg slot ty => some (slot, ty)
  | .const _ => none

/-- The operands of a call: the callee, then the arguments. -/
def Call.values (c : Call) : List Value := c.callee :: c.args

/-- The operands of an instruction; a phi's incoming values, not its blocks. -/
def InstKind.values : InstKind → List Value
  | .binary _ a b => [a, b]
  | .icmp _ a b => [a, b]
  | .alloca _ => []
  | .load _ p => [p]
  | .store v p => [v, p]
  | .phi _ incoming => incoming.map (·.1)
  | .call c => c.values

/-- The blocks an instruction names: a phi's incoming blocks. -/
def InstKind.targets : InstKind → List Nat
  | .phi _ incoming => incoming.map (·.2)
  | _ => []

/-- The operands of a terminator. -/
def Terminator.values : Terminator → List Value
  | .ret v => v.toList
  | .condBr c _ _ => [c]
  | .invoke _ c _ _ => c.values
  | _ => []

/-- The blocks a terminator names. -/
def Terminator.targets : Terminator → List Nat
  | .br t => [t]
  | .condBr _ a b => [a, b]
  | .invoke _ _ normal unwind => [normal, unwind]
  | _ => []

/-- The operands of a block. -/
def Block.values (b : Block) : List Value := b.insts.flatMap (·.kind.values) ++ b.term.values

/-- The blocks a block names. -/
def Block.targets (b : Block) : List Nat := b.insts.flatMap (·.kind.targets) ++ b.term.targets

/-- The operands of a function body: those of its blocks, then its use-list orders' values. -/
def Function.values (f : Function) : List Value :=
  f.blocks.flatMap Block.values ++ f.useLists.map (·.value)

/-- The locals a function body uses, each with the type written at the use. -/
def Function.localUses (f : Function) : List (Nat × Ty) := f.values.filterMap Value.use?

/-- The slots a function body names in block position. -/
def Function.blockTargets (f : Function) : List Nat := f.blocks.flatMap Block.targets

/-! ## The sites numbering visits -/

theorem Instruction.numberedSlot_eq (i : Instruction) :
    i.numberedSlot = (i.localDef?.filter (·.numbered)).map (·.slot) := by
  rcases i with ⟨_ | slot, kind⟩
  · cases kind <;> simp [Instruction.numberedSlot, Instruction.localDef?]
  · cases kind with
    | call c =>
      cases hv : c.sig.ret.isVoid <;>
        simp [Instruction.numberedSlot, Instruction.localDef?, LocalDef.numbered, InstKind.resultTy,
          InstKind.isCall, Option.filter, hv]
    | _ =>
      simp [Instruction.numberedSlot, Instruction.localDef?, LocalDef.numbered, InstKind.isCall,
        Option.filter]

theorem Terminator.numberedSlot_eq (t : Terminator) :
    t.numberedSlot = (t.localDef?.filter (·.numbered)).map (·.slot) := by
  cases t with
  | invoke result c normal unwind =>
    cases hv : c.sig.ret.isVoid <;>
      simp [Terminator.numberedSlot, Terminator.localDef?, LocalDef.numbered, Option.filter, hv]
  | _ => rfl

theorem filterMap_numberedSlot (insts : List Instruction) :
    insts.filterMap (·.numberedSlot) =
      ((insts.filterMap (·.localDef?)).filter (·.numbered)).map (·.slot) := by
  induction insts with
  | nil => rfl
  | cons i rest ih =>
    rw [List.filterMap_cons, List.filterMap_cons, Instruction.numberedSlot_eq]
    cases hd : i.localDef? with
    | none => simpa using ih
    | some d => by_cases hn : d.numbered <;> simp [hn, ih, Option.filter]

/-- The slots numbering visits in a block are its sites that are not `void` call results. -/
theorem Block.visit_eq (b : Block) :
    b.label :: b.insts.filterMap (·.numberedSlot) ++ b.term.numberedSlot.toList =
      (b.localDefs.filter (·.numbered)).map (·.slot) := by
  have hlabel : (⟨b.label, .label, .block⟩ : LocalDef).numbered = true := rfl
  rw [Block.localDefs, List.filter_cons_of_pos hlabel, List.map_cons, List.filter_append,
    List.map_append, filterMap_numberedSlot, Terminator.numberedSlot_eq]
  cases b.term.localDef? with
  | none => rfl
  | some d => by_cases hn : d.numbered <;> simp [hn, Option.filter]

namespace Function

variable {f : Function}

/-- **Numbering visits the sites** that are not `void` results of calls, in text order. -/
theorem visitOrder_eq (f : Function) :
    f.visitOrder = (f.localDefs.filter (·.numbered)).map (·.slot) := by
  -- every parameter is visited
  have hparams : f.params.filter ((·.numbered) ∘ fun p : Param => (⟨p.slot, p.ty, .param⟩ : LocalDef)) =
      f.params := List.filter_eq_self.mpr fun _ _ => rfl
  rw [visitOrder, localDefs, List.filter_append, List.map_append, List.filter_map, hparams,
    List.map_map, List.filter_flatMap, List.map_flatMap]
  congr 1
  congr 1
  funext b
  exact Block.visit_eq b

/-- A site of kind `block` is the label of one of the function's blocks. -/
theorem block_of_mem_localDefs {d : LocalDef} (hd : d ∈ f.localDefs) (hk : d.kind = .block) :
    ∃ b ∈ f.blocks, d.slot = b.label := by
  rcases List.mem_append.mp hd with hp | hblocks
  · obtain ⟨p, _, rfl⟩ := List.mem_map.mp hp
    cases hk
  · obtain ⟨b, hb, hdb⟩ := List.mem_flatMap.mp hblocks
    rcases List.mem_cons.mp hdb with rfl | hrest
    · exact ⟨b, hb, rfl⟩
    · rcases List.mem_append.mp hrest with hi | ht
      · obtain ⟨i, _, hi⟩ := List.mem_filterMap.mp hi
        obtain ⟨slot, _, rfl⟩ := Option.map_eq_some_iff.mp hi
        cases hk
      · cases t : b.term <;> simp [t, Terminator.localDef?] at ht
        subst ht
        cases hk

end Function

end LlvmAsm
