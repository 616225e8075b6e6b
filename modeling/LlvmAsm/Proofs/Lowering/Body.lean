import LlvmAsm.Proofs.Lowering.FirstPass
import LlvmAsm.Proofs.Lowering.SecondPass

/-!
# `Proofs.Lowering.Body` — the locals of a checked function

The two passes over a body meet here. The first pass records one local per definition (the
history); the second builds the function, whose sites (`Function.localDefs`) are its parameters,
labels and results. Record and site correspond one to one, in order (`RecordFits`): same slot, a
fitting type, and no key exactly for a `void` result.

Main statement: `lowerFunctionIn_sim` — when a definition is checked, the first pass's table of
locals tracks a history whose records fit the function's sites one to one, the function's table
of identities is the first pass's table, every operand of the body resolves in it and every block
target is entered as a label.
-/

namespace LlvmAsm

/-- **A record fits a site**: the same slot, a type fitting the declared one, and no key exactly
when the site is a `void` result. -/
structure RecordFits (types : TypeTable) (r : LocalRecord) (d : LocalDef) : Prop where
  slot : r.slot = d.slot
  ty : TypeFits types r.ty d.ty
  keyless : r.key = none ↔ d.kind.isResult = true ∧ d.ty.isVoid = true

namespace RecordFits

variable {types : TypeTable} {r : LocalRecord}

/-- The record of a result fits a result site of a fitting type at its slot. -/
theorem of_result {ty actual : Ty} {call : Bool} (hr : r.IsResult ty) (hfit : TypeFits types ty actual) :
    RecordFits types r ⟨r.slot, actual, .result call⟩ := by
  refine ⟨rfl, hr.ty_eq ▸ hfit, ?_⟩
  rw [hr.keyless, hfit.isVoid_eq]
  simp [LocalKind.isResult]

/-- A keyed record fits a parameter or label site of its own type at its slot. -/
theorem of_keyed {kind : LocalKind} (hkey : r.key.isSome) (hkind : kind.isResult = false) :
    RecordFits types r ⟨r.slot, r.ty, kind⟩ := by
  refine ⟨rfl, TypeFits.refl types r.ty, ?_⟩
  rw [hkind]
  constructor
  · intro hnone
    rw [hnone] at hkey
    cases hkey
  · rintro ⟨h, _⟩
    cases h

/-- Records and the sites they fit take the same slots, in order. -/
theorem slots_eq {types : TypeTable} :
    ∀ {hist : List LocalRecord} {defs : List LocalDef}, List.Forall₂ (RecordFits types) hist defs →
      hist.map (·.slot) = defs.map (·.slot)
  | _, _, .nil => rfl
  | _, _, .cons hfit hrest => by
    rw [List.map_cons, List.map_cons, hfit.slot, slots_eq hrest]

end RecordFits

namespace Scope

variable {s : Scope} {l : Locals} {q q' : FixupQueue} {hist : List LocalRecord}

/-! ## One instruction, one terminator, one block -/

/-- **An instruction's two passes** append the records that fit its site. -/
theorem inst_fits {l₀ l₁ : Locals} {i : Ast.Instruction} {r : Option Nat} {I : Instruction}
    (ht : l₀.Tracks hist) (hd : s.declareInst l₀ i = .ok (r, l₁))
    (hl : (s.lowerInst l r i.kind).run.run q = (.ok I, q')) :
    ∃ recs, l₁.func = l₀.func ∧ l₁.Tracks (hist ++ recs) ∧
      List.Forall₂ (RecordFits s.types) recs I.localDef?.toList := by
  obtain ⟨recs, hf, ht', hcase⟩ := declareInst_tracks ht hd
  obtain ⟨hres, _, _, hfit⟩ := lowerInst_ok hl
  refine ⟨recs, hf, ht', ?_⟩
  rcases hcase with ⟨rfl, rfl, _⟩ | ⟨rec, ty, rfl, rfl, hty, hrec⟩
  · -- a store: no record and no site
    simp [Instruction.localDef?, hres]
  · simp only [Instruction.localDef?, hres, Option.map_some, Option.toList_some]
    exact .cons (RecordFits.of_result hrec (hfit ty hty)) .nil

/-- **An instruction list's two passes** append records that fit its sites, in order. -/
theorem insts_fit :
    ∀ {insts : List Ast.Instruction} {l₀ l₁ : Locals} {hist : List LocalRecord}
      {results : List (Option Nat)} {Is : List Instruction} {q q' : FixupQueue},
      l₀.Tracks hist → s.declareInsts l₀ insts = .ok (results, l₁) →
      ((insts.zip results).mapM fun ((i, r) : Ast.Instruction × Option Nat) =>
        s.lowerInst l r i.kind).run.run q = (.ok Is, q') →
      ∃ recs, l₁.func = l₀.func ∧ l₁.Tracks (hist ++ recs) ∧
        List.Forall₂ (RecordFits s.types) recs (Is.filterMap (·.localDef?))
  | [], l₀, l₁, hist, results, Is, q, q', ht, hd, hl => by
    simp only [declareInsts, Except.ok.injEq, Prod.mk.injEq] at hd
    obtain ⟨rfl, rfl⟩ := hd
    rw [List.zip_nil_left, List.mapM_nil, LowerM.run_pure] at hl
    cases hl
    exact ⟨[], rfl, by simpa using ht, .nil⟩
  | i :: rest, l₀, l₁, hist, results, Is, q, q', ht, hd, hl => by
    simp only [declareInsts] at hd
    obtain ⟨⟨r, l'⟩, hd₁, hd⟩ := Except.bind_eq_ok_iff.mp hd
    obtain ⟨⟨rs, l''⟩, hd₂, hd⟩ := Except.bind_eq_ok_iff.mp hd
    cases hd
    rw [List.zip_cons_cons] at hl
    obtain ⟨I, Is', q₁, hI, hIs, rfl⟩ := LowerM.mapM_cons_ok hl
    obtain ⟨recs₁, hf₁, ht₁, hfit₁⟩ := inst_fits ht hd₁ hI
    obtain ⟨recs₂, hf₂, ht₂, hfit₂⟩ := insts_fit ht₁ hd₂ hIs
    refine ⟨recs₁ ++ recs₂, hf₂.trans hf₁, by simpa using ht₂, ?_⟩
    have hsites : (I :: Is').filterMap (·.localDef?) =
        I.localDef?.toList ++ Is'.filterMap (·.localDef?) := by
      cases hdef : I.localDef? <;> simp [hdef]
    rw [hsites]
    exact List.rel_append hfit₁ hfit₂

/-- **A terminator's two passes** append the record that fits an invoke's result site. -/
theorem term_fits {l₀ l₁ : Locals} {retTy : Ty} {t : Ast.Terminator} {r : Option Nat}
    {T : Terminator} (ht : l₀.Tracks hist) (hd : s.declareTerm l₀ t = .ok (r, l₁))
    (hl : (s.lowerTerm l retTy r t).run.run q = (.ok T, q')) :
    ∃ recs, l₁.func = l₀.func ∧ l₁.Tracks (hist ++ recs) ∧
      List.Forall₂ (RecordFits s.types) recs T.localDef?.toList := by
  obtain ⟨recs, hf, ht', hcase⟩ := declareTerm_tracks ht hd
  obtain ⟨_, _, hnone, hinvoke⟩ := lowerTerm_ok hl
  refine ⟨recs, hf, ht', ?_⟩
  rcases hcase with ⟨rfl, rfl, hne⟩ | ⟨rec, res, c, n, u, sig, rfl, rfl, rfl, hsig, hrec⟩
  · rw [hnone hne]
    exact .nil
  · obtain ⟨sig', hsig', hdef⟩ := hinvoke res c n u rfl
    rw [hsig] at hsig'
    cases hsig'
    rw [hdef]
    exact .cons (RecordFits.of_result hrec (TypeFits.refl _ _)) .nil

/-- **A block's two passes** append records that fit its sites: label, results, invoke. -/
theorem block_fits {l₀ l₁ : Locals} {retTy : Ty} {b : Ast.Block} {d : DeclaredBlock} {B : Block}
    (ht : l₀.Tracks hist) (hd : s.declareBlock l₀ b = .ok (d, l₁))
    (hl : (s.lowerBlock l retTy b d).run.run q = (.ok B, q')) :
    ∃ recs, l₁.func = l₀.func ∧ l₁.Tracks (hist ++ recs) ∧
      List.Forall₂ (RecordFits s.types) recs B.localDefs := by
  unfold declareBlock at hd
  obtain ⟨⟨label, l₂⟩, hlabel, hd⟩ := Except.bind_eq_ok_iff.mp hd
  obtain ⟨⟨results, l₃⟩, hinsts, hd⟩ := Except.bind_eq_ok_iff.mp hd
  obtain ⟨⟨tr, l₄⟩, hterm, hd⟩ := Except.bind_eq_ok_iff.mp hd
  cases hd
  unfold lowerBlock at hl
  obtain ⟨insts, q₁, hIs, hl₁⟩ := LowerM.bind_ok hl
  obtain ⟨term, q₂, hT, hl₂⟩ := LowerM.bind_ok hl₁
  cases hl₂
  obtain ⟨rfl, hf₂, ht₂⟩ := Locals.define_tracks ht hlabel
  obtain ⟨recsI, hf₃, ht₃, hfitI⟩ := insts_fit ht₂ hinsts hIs
  obtain ⟨recsT, hf₄, ht₄, hfitT⟩ := term_fits ht₃ hterm hT
  refine ⟨_ :: (recsI ++ recsT), hf₄.trans (hf₃.trans hf₂), by simpa using ht₄, ?_⟩
  -- the label record is keyed and of type `label`, like the label site
  have hlabelFits : RecordFits s.types (LocalRecord.ofDefine hist b.label .label true)
      ⟨hist.length, .label, .block⟩ :=
    RecordFits.of_keyed (Locals.ofDefine_key_isSome hist b.label .label) rfl
  exact .cons hlabelFits (List.rel_append hfitI hfitT)

/-- **A block list's two passes** append records that fit the sites of the blocks, in order. -/
theorem blocks_fit {retTy : Ty} :
    ∀ {blocks : List Ast.Block} {l₀ l₁ : Locals} {hist : List LocalRecord}
      {ds : List DeclaredBlock} {Bs : List Block} {q q' : FixupQueue},
      l₀.Tracks hist → s.declareBlocks l₀ blocks = .ok (ds, l₁) →
      ((blocks.zip ds).mapM fun ((b, d) : Ast.Block × DeclaredBlock) =>
        s.lowerBlock l retTy b d).run.run q = (.ok Bs, q') →
      ∃ recs, l₁.func = l₀.func ∧ l₁.Tracks (hist ++ recs) ∧
        List.Forall₂ (RecordFits s.types) recs (Bs.flatMap Block.localDefs) ∧
        Bs.length = blocks.length
  | [], l₀, l₁, hist, ds, Bs, q, q', ht, hd, hl => by
    simp only [declareBlocks, Except.ok.injEq, Prod.mk.injEq] at hd
    obtain ⟨rfl, rfl⟩ := hd
    rw [List.zip_nil_left, List.mapM_nil, LowerM.run_pure] at hl
    cases hl
    exact ⟨[], rfl, by simpa using ht, .nil, rfl⟩
  | b :: rest, l₀, l₁, hist, ds, Bs, q, q', ht, hd, hl => by
    simp only [declareBlocks] at hd
    obtain ⟨⟨d, l'⟩, hd₁, hd⟩ := Except.bind_eq_ok_iff.mp hd
    obtain ⟨⟨ds', l''⟩, hd₂, hd⟩ := Except.bind_eq_ok_iff.mp hd
    cases hd
    rw [List.zip_cons_cons] at hl
    obtain ⟨B, Bs', q₁, hB, hBs, rfl⟩ := LowerM.mapM_cons_ok hl
    obtain ⟨recs₁, hf₁, ht₁, hfit₁⟩ := block_fits ht hd₁ hB
    obtain ⟨recs₂, hf₂, ht₂, hfit₂, hlen⟩ := blocks_fit ht₁ hd₂ hBs
    refine ⟨recs₁ ++ recs₂, hf₂.trans hf₁, by simpa using ht₂, ?_, by simp [hlen]⟩
    rw [List.flatMap_cons]
    exact List.rel_append hfit₁ hfit₂

/-! ## Parameters and the whole body -/

/-- **Parameters fit their records**: parameter `i` takes the slot of record `i`, at the type the
    signature gives it. -/
theorem params_fit {types : TypeTable} :
    ∀ {recs : List LocalRecord} {ps : List (Ast.Param × Ty)} (n : Nat),
      List.Forall₂ (fun r (pt : Ast.Param × Ty) => r.ty = pt.2 ∧ r.key.isSome) recs ps →
      List.Forall₂ (RecordFits types) recs
        (((((ps.zipIdx n).map fun (((p, ty), i) : (Ast.Param × Ty) × Nat) =>
            (⟨ty, p.attrs, i⟩ : Param)).zip (recs.map (·.slot))).map
          fun ((p, slot) : Param × Nat) => { p with slot }).map
          fun p => (⟨p.slot, p.ty, .param⟩ : LocalDef))
  | _, _, _, .nil => by simp
  | r :: recs, (p, ty) :: ps, n, .cons ⟨hty, hkey⟩ hrest => by
    simp only [List.zipIdx_cons, List.map_cons, List.zip_cons_cons]
    refine .cons ?_ (params_fit (n + 1) hrest)
    dsimp only at hty ⊢
    rw [← hty]
    exact RecordFits.of_keyed hkey rfl

/-- A checked header has the signature read off it and one parameter per written parameter, at
    the signature's type, parameter `i` in slot `i`; it has no blocks yet. -/
theorem lowerHeader_ok {h : Ast.Header} {func : Function}
    (hh : (s.lowerHeader h).run.run q = (.ok func, q')) :
    s.lowerSignature h = .ok func.sig ∧ func.name = h.name ∧
      func.params = ((h.params.zip func.sig.params).zipIdx.map
        fun (((p, ty), i) : (Ast.Param × Ty) × Nat) => (⟨ty, p.attrs, i⟩ : Param)) ∧
      func.blocks = [] := by
  unfold lowerHeader at hh
  obtain ⟨sig, hsig, h₁⟩ := LowerM.ofExcept_bind_ok hh
  obtain ⟨_, q₁, _, h₂⟩ := LowerM.bind_ok h₁
  obtain ⟨_, q₂, _, h₃⟩ := LowerM.bind_ok h₂
  obtain ⟨_, q₃, _, h₄⟩ := LowerM.bind_ok h₃
  obtain ⟨_, q₄, _, h₅⟩ := LowerM.bind_ok h₄
  cases h₅
  exact ⟨hsig, rfl, rfl, rfl⟩

/-- **The locals of a checked definition.** The first pass over its body tracks a history whose
    records fit the function's sites one to one, in order; the function's table of identities is
    the first pass's table; every operand of the body resolves in it, every block target is
    entered as a label, and each block of the body is checked into one block. -/
theorem lowerFunctionIn_sim {f : Ast.Function} {body : Ast.Body} {F : Function}
    (h : (s.lowerFunctionIn f).run.run q = (.ok F, q')) (hbody : f.body = some body) :
    ∃ sig slots ds l hist, s.lowerSignature f.header = .ok sig ∧
      s.declareBody f.header sig body.blocks = .ok (slots, ds, l) ∧ l.Tracks hist ∧
      F.locals = l.table ∧ List.Forall₂ (RecordFits s.types) hist F.localDefs ∧
      (∀ v ∈ F.values, l.Resolves s.types v) ∧ (∀ t ∈ F.blockTargets, l.LabelSlot t) ∧
      F.blocks.length = body.blocks.length := by
  unfold lowerFunctionIn at h
  obtain ⟨func, q₁, hfunc, h₁⟩ := LowerM.bind_ok h
  obtain ⟨hsig, _, hparams, -⟩ := lowerHeader_ok hfunc
  simp only [hbody] at h₁
  obtain ⟨⟨slots, ds, l⟩, hdecl, h₂⟩ := LowerM.ofExcept_bind_ok h₁
  obtain ⟨Bs, q₂, hBs, h₃⟩ := LowerM.bind_ok h₂
  obtain ⟨us, q₃, hus, h₄⟩ := LowerM.bind_ok h₃
  cases h₄
  -- the first pass defines the parameters, then the locals of the blocks
  have hdecl' := hdecl
  unfold declareBody at hdecl'
  obtain ⟨⟨slots', l₁⟩, hps, hdecl₁⟩ := Except.bind_eq_ok_iff.mp hdecl'
  obtain ⟨⟨ds', l₂⟩, hbs, hdecl₂⟩ := Except.bind_eq_ok_iff.mp hdecl₁
  cases hdecl₂
  obtain ⟨recsP, rfl, hfitP, _, htP⟩ := Locals.defineParams_tracks (Locals.tracks_empty _) hps
  obtain ⟨recsB, _, htB, hfitB, hlenB⟩ := blocks_fit htP hbs hBs
  refine ⟨func.sig, _, _, _, [] ++ recsP ++ recsB, hsig, hdecl, htB, rfl, ?_, ?_, ?_, hlenB⟩
  · rw [List.nil_append]
    simp only [Function.localDefs]
    rw [hparams]
    exact List.rel_append (params_fit 0 hfitP) hfitB
  · -- operands of the blocks, then of the use-list orders
    have hblocks : ∀ B ∈ Bs, (∀ v ∈ B.values, l.Resolves s.types v) ∧
        (∀ t ∈ B.targets, l.LabelSlot t) := by
      refine LowerM.mapM_forall (fun bd _ _ _ B hB => ?_) hBs
      obtain ⟨b, d⟩ := bd
      obtain ⟨_, hv, ht⟩ := lowerBlock_ok hB
      exact ⟨hv, ht⟩
    have huses : ∀ u ∈ us, l.Resolves s.types u.value := by
      refine LowerM.mapM_forall (fun _ _ _ _ u hu => ?_) hus
      obtain ⟨w, q₄, hw, h₅⟩ := LowerM.bind_ok hu
      cases h₅
      exact (lowerTypedValue_ok hw).1
    intro v hv
    rcases List.mem_append.mp hv with hv | hv
    · obtain ⟨B, hB, hvB⟩ := List.mem_flatMap.mp hv
      exact (hblocks B hB).1 v hvB
    · obtain ⟨u, hu, rfl⟩ := List.mem_map.mp hv
      exact huses u hu
  · intro t ht
    obtain ⟨B, hB, htB'⟩ := List.mem_flatMap.mp ht
    refine (LowerM.mapM_forall (P := fun B => ∀ t ∈ B.targets, l.LabelSlot t)
      (fun bd _ _ _ B hB => ?_) hBs) B hB t htB'
    obtain ⟨b, d⟩ := bd
    exact (lowerBlock_ok hB).2.2

/-- A function reported inside its name failed; a success is the success of the function. -/
theorem lowerFunctionIn_of_lowerFunction {f : Ast.Function} {F : Function}
    (h : (s.lowerFunction f).run.run q = (.ok F, q')) : (s.lowerFunctionIn f).run.run q = (.ok F, q') := by
  unfold lowerFunction at h
  rw [LowerM.run_tryCatch] at h
  rcases hin : (s.lowerFunctionIn f).run.run q with ⟨r, q₁⟩
  rw [hin] at h
  cases r with
  | ok a => exact h
  | error e =>
    dsimp only at h
    rw [LowerM.run_throw] at h
    cases h

/-- A declaration is checked into a function without blocks. -/
theorem lowerFunction_blocks_of_declaration {f : Ast.Function} {F : Function}
    (h : (s.lowerFunction f).run.run q = (.ok F, q')) (hbody : f.body = none) : F.blocks = [] := by
  have hin := lowerFunctionIn_of_lowerFunction h
  unfold lowerFunctionIn at hin
  obtain ⟨func, q₁, hfunc, h₁⟩ := LowerM.bind_ok hin
  simp only [hbody] at h₁
  rw [LowerM.run_pure] at h₁
  cases h₁
  exact (lowerHeader_ok hfunc).2.2.2

end Scope

end LlvmAsm
