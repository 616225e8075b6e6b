import LlvmAsm.Proofs.Lowering.Body
import LlvmAsm.Pipeline

/-!
# `Proofs.Resolution` — the locals a checked function refers to

A checked definition refers to its locals by slot. This module shows that every such reference is
to a local the function itself defines:

* its sites take exactly the slots of its table of identities, each once;
* every local an operand uses (in an instruction, a terminator or a use-list order) is a site, with
  a type equivalent to the type written at the use;
* every slot in block position (a branch or invoke destination, a phi's incoming block) is a site
  of type `label`.

That last site need not be a block: checking a branch target only asks for the type `label`, so a
parameter of type `label`, or a load, phi or call returning one, is accepted as a destination
(`label_param_branch_target`). A block target is the label of a block whenever no other site has
type `label`.
-/

namespace LlvmAsm

namespace Scope

variable {s : Scope} {f : Ast.Function} {q q' : FixupQueue} {F : Function}

/-- **Local resolution.** In a checked definition the sites take the slots of the table, each
    once; every local an operand uses is a site whose type is equivalent to the type written at
    the use; every block target is a site of type `label`, and it is the label of a block whenever
    only block labels have type `label`. -/
theorem lowerFunction_resolves_locals {body : Ast.Body}
    (h : (s.lowerFunction f).run.run q = (.ok F, q')) (hbody : f.body = some body) :
    F.localDefs.map (·.slot) = List.range F.locals.size ∧
      (∀ u ∈ F.localUses, ∃ d ∈ F.localDefs, d.slot = u.1 ∧ s.types.equivalent d.ty u.2) ∧
      (∀ t ∈ F.blockTargets, ∃ d ∈ F.localDefs, d.slot = t ∧ d.ty = .label) ∧
      ((∀ d ∈ F.localDefs, d.ty = .label → d.kind = .block) →
        ∀ t ∈ F.blockTargets, ∃ b ∈ F.blocks, b.label = t) := by
  obtain ⟨_, _, _, l, hist, -, -, ht, hlocals, hfit, hvalues, htargets, -⟩ :=
    lowerFunctionIn_sim (lowerFunctionIn_of_lowerFunction h) hbody
  -- an entry of the first pass's table is a record, and each record fits the site at its slot
  have site_of : ∀ r ∈ hist, ∃ d ∈ F.localDefs, RecordFits s.types r d := forall₂_exists_right hfit
  have htarget : ∀ t ∈ F.blockTargets, ∃ d ∈ F.localDefs, d.slot = t ∧ d.ty = .label := by
    intro t htg
    obtain ⟨key, hkey⟩ := htargets t htg
    obtain ⟨r, hr, _, hslot, hty⟩ := ht.realizes.mem_entries hkey
    obtain ⟨d, hd, hfits⟩ := site_of r hr
    exact ⟨d, hd, hfits.slot ▸ hslot, hfits.ty.label hty⟩
  refine ⟨?_, ?_, htarget, ?_⟩
  · rw [← RecordFits.slots_eq hfit, ht.valid.slots, hlocals, ht.realizes.size]
  · intro u hu
    obtain ⟨v, hv, huse⟩ := List.mem_filterMap.mp hu
    obtain ⟨key, declared, hkey, hequiv⟩ := hvalues v hv u.1 u.2 huse
    obtain ⟨r, hr, _, hslot, rfl⟩ := ht.realizes.mem_entries hkey
    obtain ⟨d, hd, hfits⟩ := site_of r hr
    exact ⟨d, hd, hfits.slot ▸ hslot,
      TypeTable.equivalent_trans (TypeTable.equivalent_symm hfits.ty.equiv) hequiv⟩
  · intro honly t htg
    obtain ⟨d, hd, rfl, hlabel⟩ := htarget t htg
    obtain ⟨b, hb, hdb⟩ := Function.block_of_mem_localDefs hd (honly d hd hlabel)
    exact ⟨b, hb, hdb.symm⟩

end Scope

/-- `define void @f(label %l) { br label %l }`, read. -/
def labelParamBranch : Ast.Function :=
  { header := { name := "f", ret := .void, params := [⟨.label, [], some (.name "l")⟩] },
    metadata := [], body := some ⟨[⟨none, [], .br (.name "l")⟩], []⟩ }

/-- Local resolution at a function branching to its `label` parameter. -/
theorem labelParamBranch_resolves :
    ∃ F q', (({} : Scope).lowerFunction labelParamBranch).run.run {} = (.ok F, q') ∧
      F.localDefs.map (·.slot) = List.range F.locals.size ∧
      (∀ u ∈ F.localUses, ∃ d ∈ F.localDefs, d.slot = u.1 ∧ ({} : Scope).types.equivalent d.ty u.2) ∧
      (∀ t ∈ F.blockTargets, ∃ d ∈ F.localDefs, d.slot = t ∧ d.ty = .label) ∧
      ((∀ d ∈ F.localDefs, d.ty = .label → d.kind = .block) →
        ∀ t ∈ F.blockTargets, ∃ b ∈ F.blocks, b.label = t) := by
  obtain ⟨F, q', h⟩ : ∃ F q',
      (({} : Scope).lowerFunction labelParamBranch).run.run {} = (.ok F, q') := ⟨_, _, rfl⟩
  exact ⟨F, q', h, Scope.lowerFunction_resolves_locals h rfl⟩

/-- **A `label` parameter is accepted as a branch target.** The module below is checked; its one
    branch targets slot `0`, the parameter, while its one block has the label in slot `1`. -/
theorem label_param_branch_target :
    (Ast.parseModule "define void @f(label %l) \x7b\n  br label %l\n\x7d\n" >>= lowerModule).toOption.map
      (fun M => M.funcs.map fun F => (F.blockTargets, F.blocks.map (·.label))) = some [([0], [1])] := by
  decide +kernel

end LlvmAsm
