import LlvmAsm.Proofs.Written.Names
import LlvmAsm.Proofs.NumberExhaustion
import LlvmAsm.Proofs.ItemOrder

/-!
# `Proofs.Written.Function` — a checked function checks back from its written form

Checking the written form of a checked and numbered function gives it back
(`Scope.lowerFunction_toAst`), up to what its text does not show (`Function.canonical`): the
numbers of a declaration's unnamed parameters.

The header checks back field by field: its signature, its comdat, and its prefix, prologue and
personality constants. For a definition, the first pass over the written body defines every site
under its written name (`Scope.declareBody_written`), which needs the first pass to read off each
written instruction the type of its site (`Block.DeclaresSiteTypes`); each checked instruction
comes from a declared one, which gave it a result slot exactly when it defines a result. The
second pass then checks every block back (`Scope.lowerBlock_written`) under the names the written
form rechecks (`Locals.Describes.rechecks_written`), and the table it builds is the numbered one.
-/

namespace LlvmAsm

namespace Scope

variable {s : Scope} {l : Locals} {q q' : FixupQueue} {t : LocalTable}

/-! ## Every checked instruction and block comes from a declared one -/

/-- Each written instruction is declared with the result slot the first pass gives it. -/
theorem declareInsts_declared :
    ∀ {insts : List Ast.Instruction} {l₀ l₁ : Locals} {results : List (Option Nat)},
      s.declareInsts l₀ insts = .ok (results, l₁) →
      ∀ x ∈ insts.zip results, ∃ l₂ l₃, s.declareInst l₂ x.1 = .ok (x.2, l₃)
  | [], l₀, l₁, results, h => by
    simp only [declareInsts, Except.ok.injEq, Prod.mk.injEq] at h
    obtain ⟨rfl, rfl⟩ := h
    intro x hx
    cases hx
  | i :: rest, l₀, l₁, results, h => by
    simp only [declareInsts] at h
    obtain ⟨⟨r, l₂⟩, h₁, h⟩ := Except.bind_eq_ok_iff.mp h
    obtain ⟨⟨rs, l₃⟩, h₂, h⟩ := Except.bind_eq_ok_iff.mp h
    cases h
    intro x hx
    rw [List.zip_cons_cons] at hx
    rcases List.mem_cons.mp hx with rfl | hx
    · exact ⟨l₀, l₂, h₁⟩
    · exact declareInsts_declared h₂ x hx

/-- Each written block is declared with what the first pass gives it. -/
theorem declareBlocks_declared :
    ∀ {blocks : List Ast.Block} {l₀ l₁ : Locals} {ds : List DeclaredBlock},
      s.declareBlocks l₀ blocks = .ok (ds, l₁) →
      ∀ x ∈ blocks.zip ds, ∃ l₂ l₃, s.declareBlock l₂ x.1 = .ok (x.2, l₃)
  | [], l₀, l₁, ds, h => by
    simp only [declareBlocks, Except.ok.injEq, Prod.mk.injEq] at h
    obtain ⟨rfl, rfl⟩ := h
    intro x hx
    cases hx
  | b :: rest, l₀, l₁, ds, h => by
    simp only [declareBlocks] at h
    obtain ⟨⟨d, l₂⟩, h₁, h⟩ := Except.bind_eq_ok_iff.mp h
    obtain ⟨⟨ds', l₃⟩, h₂, h⟩ := Except.bind_eq_ok_iff.mp h
    cases h
    intro x hx
    rw [List.zip_cons_cons] at hx
    rcases List.mem_cons.mp hx with rfl | hx
    · exact ⟨l₀, l₂, h₁⟩
    · exact declareBlocks_declared h₂ x hx

/-- The first pass gives an instruction a result slot exactly when its kind has a result type. -/
theorem declareInst_result {l₀ l₁ : Locals} {i : Ast.Instruction} {r : Option Nat}
    (hd : s.declareInst l₀ i = .ok (r, l₁)) : ∃ rt, s.resultType i.kind = .ok rt ∧ r.isSome = rt.isSome := by
  unfold declareInst at hd
  obtain ⟨rt, hrt, hd⟩ := Except.bind_eq_ok_iff.mp hd
  refine ⟨rt, hrt, ?_⟩
  cases rt with
  | none =>
    dsimp only at hd
    split at hd
    · cases hd
    · cases hd
      rfl
  | some ty =>
    dsimp only at hd
    obtain ⟨⟨slot, l₂⟩, -, hd⟩ := Except.bind_eq_ok_iff.mp hd
    cases hd
    rfl

/-! ## The first pass reads the sites' types off the written form -/

/-- **The first pass reads the type of a checked instruction's site off its written form**, when
    the instruction has a result slot exactly when its kind has a result type. -/
theorem lowerInst_siteType (hb : s.types.BodiesWellFormed) {r : Option Nat} {k : Ast.InstKind}
    {I : Instruction} (h : (s.lowerInst l r k).run.run q = (.ok I, q')) {rt : Option Ty}
    (hrt : s.resultType k = .ok rt) (hr : r.isSome = rt.isSome)
    (hkeep : ∀ c, I.kind.call? = some c → c.KeepsSignature) :
    s.resultType (I.kind.toAst t) = .ok (I.localDef?.map (·.ty)) := by
  -- every kind but a store has a result type, and so a result slot
  have hslot : ∀ T, rt = some T → ∃ slot, r = some slot := fun T hT =>
    Option.isSome_iff_exists.mp (hr.trans (by rw [hT]; rfl))
  cases k with
  | binary op lhs rhs =>
    unfold lowerInst at h
    obtain ⟨a, q₁, ha, h₁⟩ := LowerM.bind_ok h
    dsimp only at h₁
    split at h₁
    · obtain ⟨b, q₂, -, h₂⟩ := LowerM.bind_ok h₁
      cases h₂
      obtain ⟨T, -, hT⟩ := Except.map_eq_ok_iff.mp hrt
      obtain ⟨slot, rfl⟩ := hslot T hT.symm
      simp only [InstKind.toAst, resultType, Value.toTypedAst,
        lowerType_of_wellFormed (lowerTypedValue_ty_wellFormed hb ha)]
      rfl
    · exact absurd h₁ mismatchAt_bind_ne_ok
  | icmp pred lhs rhs =>
    unfold lowerInst at h
    obtain ⟨a, q₁, ha, h₁⟩ := LowerM.bind_ok h
    dsimp only at h₁
    obtain ⟨slot, rfl⟩ := hslot .i1 (by cases hrt; rfl)
    split at h₁
    case h_3 => exact absurd h₁ mismatchAt_bind_ne_ok
    case h_1 | h_2 =>
      obtain ⟨b, q₂, -, h₂⟩ := LowerM.bind_ok h₁
      cases h₂
      rfl
  | alloca elem =>
    unfold lowerInst at h
    obtain ⟨e, he, h₁⟩ := LowerM.ofExcept_bind_ok h
    cases h₁
    obtain ⟨slot, rfl⟩ := hslot (.ptr e) (by
      simp only [resultType, he, bind, Except.bind, pure, Except.pure, Except.ok.injEq] at hrt
      exact hrt.symm)
    simp only [InstKind.toAst, resultType, lowerType_of_wellFormed (wellFormed_of_lowerType he)]
    rfl
  | load ty ptr =>
    unfold lowerInst at h
    obtain ⟨T, hT, h₁⟩ := LowerM.ofExcept_bind_ok h
    obtain ⟨p, q₁, -, h₂⟩ := LowerM.bind_ok h₁
    obtain ⟨_, q₂, -, h₃⟩ := LowerM.bind_ok h₂
    cases h₃
    obtain ⟨T', hT', hsome⟩ := Except.map_eq_ok_iff.mp hrt
    obtain ⟨slot, rfl⟩ := hslot T' hsome.symm
    simp only [InstKind.toAst, resultType, lowerType_of_wellFormed (wellFormed_of_lowerType hT)]
    rfl
  | store value ptr =>
    unfold lowerInst at h
    obtain ⟨v, q₁, -, h₁⟩ := LowerM.bind_ok h
    obtain ⟨p, q₂, -, h₂⟩ := LowerM.bind_ok h₁
    obtain ⟨_, q₃, -, h₃⟩ := LowerM.bind_ok h₂
    cases h₃
    -- a store has no result type, so no result slot
    cases hrt
    have hnone : r = none := by simpa using hr
    subst hnone
    rfl
  | phi ty incoming =>
    unfold lowerInst at h
    obtain ⟨T, hT, h₁⟩ := LowerM.ofExcept_bind_ok h
    obtain ⟨pairs, q₁, -, h₂⟩ := LowerM.bind_ok h₁
    cases h₂
    obtain ⟨T', hT', hsome⟩ := Except.map_eq_ok_iff.mp hrt
    obtain ⟨slot, rfl⟩ := hslot T' hsome.symm
    simp only [InstKind.toAst, resultType, lowerType_of_wellFormed (wellFormed_of_lowerType hT)]
    rfl
  | call c =>
    unfold lowerInst at h
    obtain ⟨C, q₁, hC, h₁⟩ := LowerM.bind_ok h
    cases h₁
    obtain ⟨-, hsig⟩ := lowerCall_ok hC
    obtain ⟨sig, hsig', hsome⟩ := Except.bind_eq_ok_iff.mp hrt
    obtain ⟨slot, rfl⟩ := hslot sig.ret (by cases hsome; rfl)
    simp only [InstKind.toAst, resultType,
      callSignature_toAst (callSignature_wellFormed hsig) (hkeep C rfl)]
    rfl

/-- The first pass reads an invoke's signature off its written call. -/
theorem lowerTerm_callSignature {retTy : Ty} {r : Option Nat} {term : Ast.Terminator}
    {T : Terminator} (h : (s.lowerTerm l retTy r term).run.run q = (.ok T, q'))
    (hkeep : ∀ c, T.call? = some c → c.KeepsSignature) :
    ∀ res c normal unwind, T = .invoke res c normal unwind → s.callSignature (c.toAst t) = .ok c.sig := by
  intro res c normal unwind hT
  cases term
  case invoke res' call n u =>
    simp only [lowerTerm] at h
    obtain ⟨C, q₁, hC, h₁⟩ := LowerM.bind_ok h
    obtain ⟨n', -, h₂⟩ := LowerM.ofExcept_bind_ok h₁
    obtain ⟨u', -, h₃⟩ := LowerM.ofExcept_bind_ok h₂
    cases h₃
    cases hT
    exact callSignature_toAst (callSignature_wellFormed (lowerCall_ok hC).2) (hkeep _ rfl)
  -- only an invoke defines a result
  all_goals
    have hnone := (lowerTerm_ok h).2.2.1 fun _ _ _ _ hc => by cases hc
    rw [hT] at hnone
    cases hnone

/-- **The written form of a checked block declares its sites' types**, when its calls keep their
    signatures in writing. -/
theorem lowerBlock_declaresSiteTypes (hb : s.types.BodiesWellFormed) {l₀ l₁ : Locals} {retTy : Ty}
    {b : Ast.Block} {d : DeclaredBlock} {B : Block} (hd : s.declareBlock l₀ b = .ok (d, l₁))
    (hl : (s.lowerBlock l retTy b d).run.run q = (.ok B, q'))
    (hkeep : ∀ c ∈ B.calls, c.KeepsSignature) : B.DeclaresSiteTypes s t := by
  unfold declareBlock at hd
  obtain ⟨⟨label, l₂⟩, -, hd⟩ := Except.bind_eq_ok_iff.mp hd
  obtain ⟨⟨results, l₃⟩, hinsts, hd⟩ := Except.bind_eq_ok_iff.mp hd
  obtain ⟨⟨tr, l₄⟩, -, hd⟩ := Except.bind_eq_ok_iff.mp hd
  cases hd
  unfold lowerBlock at hl
  obtain ⟨insts, q₁, hIs, hl₁⟩ := LowerM.bind_ok hl
  obtain ⟨term, q₂, hT, hl₂⟩ := LowerM.bind_ok hl₁
  cases hl₂
  refine ⟨fun I hI => ?_,
    lowerTerm_callSignature hT fun c hc => hkeep c (List.mem_append_right _ (by simp [hc]))⟩
  -- each instruction comes from a declared one, which gave it its result slot
  have hsite := LowerM.mapM_forall
    (P := fun I => (∀ c, I.kind.call? = some c → c.KeepsSignature) →
      s.resultType (I.kind.toAst t) = .ok (I.localDef?.map (·.ty)))
    (fun x hx _ _ I' hI' hk => by
      obtain ⟨l₅, l₆, hdecl⟩ := declareInsts_declared hinsts x hx
      obtain ⟨rt, hrt, hr⟩ := declareInst_result hdecl
      obtain ⟨i, r⟩ := x
      exact lowerInst_siteType hb hI' hrt hr hk) hIs I hI
  exact hsite fun c hc => hkeep c (List.mem_append_left _ (List.mem_filterMap.mpr ⟨I, hI, hc⟩))

/-! ## The header -/

/-- **Comdats filed under their own names**, as the comdat definitions of a module file them. -/
def ComdatsNamed (s : Scope) : Prop := ∀ p ∈ s.comdats, p.1 = p.2.name

/-- A comdat found under a name has that name. -/
theorem ComdatsNamed.comdat_name (hcd : s.ComdatsNamed) {n : String} {c : ComdatDef}
    (h : s.comdat n = .ok c) : c.name = n := by
  unfold comdat at h
  split at h
  · rename_i c' hc
    cases h
    obtain ⟨l₁, l₂, heq, -⟩ := List.lookup_eq_some_iff.mp hc
    exact (hcd (n, c) (by rw [heq]; simp)).symm
  · cases h

/-- **The comdat clause written for an item names the comdat it was checked to.** -/
theorem lowerComdat_clause (hcd : s.ComdatsNamed) {owner : String} {ref : Ast.ComdatRef}
    {c : ComdatDef} (h : s.lowerComdat owner ref = .ok c) :
    s.lowerComdat owner (c.clause owner) = .ok c := by
  -- either clause found the comdat under its own name
  have hc : s.comdat c.name = .ok c := by
    cases ref with
    | implicit => rw [hcd.comdat_name h]; exact h
    | named n => rw [hcd.comdat_name h]; exact h
  unfold ComdatDef.clause
  split
  · rename_i hname
    rw [← hname]
    exact hc
  · exact hc

end Scope

/-- An operand of a function whose constants read back reads back. -/
theorem Function.readable_of_constants {F : Function} (h : ∀ k ∈ F.constants, k.Readable)
    {v : Value} (hv : v ∈ F.values) : v.Readable := by
  cases v with
  | reg slot ty => trivial
  | const k => exact h k (List.mem_append_right _ (List.mem_filterMap.mpr ⟨_, hv, rfl⟩))

/-- A parameter a declaration writes reads back as its identity without its number. -/
theorem LocalIdent.placeholder_written (x : LocalIdent) :
    ((if x.isNamed then some x.toName else none).map LocalIdent.ofName).getD (.anon 0) =
      x.forgetNumber := by
  cases x with
  | named n => rfl
  | anon k => rfl

/-- **A declaration's written parameters read back as its identities without their numbers**,
    when parameter `i` has slot `i` and every slot is a parameter's. -/
theorem Function.placeholders_headerAst {F : Function} (hdecl : F.isDeclaration = true)
    (hslots : F.params.map (·.slot) = List.range F.locals.size) :
    (F.headerAst.params.map fun p => (p.name.map LocalIdent.ofName).getD (.anon 0)).toArray =
      F.locals.map LocalIdent.forgetNumber := by
  have hlen : F.params.length = F.locals.size := by simpa using congrArg List.length hslots
  apply Array.ext'
  apply List.ext_getElem
  · simp [Function.headerAst, hlen]
  · intro i h₁ h₂
    have hi : i < F.params.length := by simpa [Function.headerAst] using h₁
    have hslot : F.params[i].slot = i := by
      have h' := List.getElem_of_eq hslots (by simpa using hi)
      simpa using h'
    have hident : F.locals.ident i = F.locals[i] := by
      rw [LocalTable.ident, Array.getElem?_eq_getElem (hlen ▸ hi), Option.getD_some]
    simp only [Function.headerAst, List.getElem_map, Function.paramName, hdecl, hslot, hident,
      Bool.not_true, Bool.false_or, LocalTable.name, Array.getElem_toList, Array.getElem_map]
    exact LocalIdent.placeholder_written _

namespace LowerM

variable {α : Type}

theorem optionMapM_map {γ δ : Type} (f : δ → LowerM α) (k : γ → δ) (o : Option γ) :
    (o.map k).mapM f = o.mapM (f ∘ k) := by
  cases o <;> rfl

/-- **An optional step runs again** on its result, when the step does. -/
theorem optionMapM_rerun {γ : Type} {f : γ → LowerM α} {g : α → LowerM α} {o : Option γ}
    {q q' : FixupQueue} {r : Option α} (h : (o.mapM f).run.run q = (.ok r, q'))
    (hg : ∀ {x q₁ q₂ y}, (f x).run.run q₁ = (.ok y, q₂) → r = some y → (g y).run.run q₁ = (.ok y, q₂)) :
    (r.mapM g).run.run q = (.ok r, q') := by
  cases o with
  | none =>
    rw [Option.mapM_none, run_pure] at h
    cases h
    rfl
  | some x =>
    rw [Option.mapM_some, map_eq_pure_bind] at h
    obtain ⟨y, q₁, hy, h₁⟩ := bind_ok h
    rw [run_pure] at h₁
    cases h₁
    rw [Option.mapM_some, map_eq_pure_bind, run_bind_of_ok (hg hy rfl)]
    rfl

end LowerM

namespace Scope

variable {s : Scope} {q q' : FixupQueue}

/-- A checked header's parameters have the types and attributes written for them. -/
theorem lowerHeader_paramShapes {h : Ast.Header} {func : Function}
    (hh : (s.lowerHeader h).run.run q = (.ok func, q')) :
    func.params.map (fun p => (p.ty, p.attrs)) = h.params.map (fun p => (p.ty, p.attrs)) := by
  obtain ⟨hsig, -, hparams, -⟩ := lowerHeader_ok hh
  obtain ⟨-, hsig'⟩ := lowerSignature_eq_ok_iff.mp hsig
  rw [hparams, hsig']
  apply List.ext_getElem
  · simp [Ast.Header.writtenSig]
  · intro i h₁ h₂
    simp [List.getElem_zipIdx, List.getElem_zip, Ast.Header.writtenSig]

/-- **A comdat clause checks back from the clause written for its comdat.** -/
theorem lowerComdats_written (hcd : s.ComdatsNamed) {owner : String} {o : Option Ast.ComdatRef}
    {r : Option ComdatDef}
    (h : (o.mapM fun c => LowerM.ofExcept (s.lowerComdat owner c)).run.run q = (.ok r, q')) :
    ((r.map (ComdatDef.clause owner)).mapM fun c => LowerM.ofExcept (s.lowerComdat owner c)).run.run q =
      (.ok r, q') := by
  rw [LowerM.optionMapM_map]
  exact LowerM.optionMapM_rerun h fun hx _ => by
    obtain ⟨hc, rfl⟩ := LowerM.ofExcept_ok hx
    rw [Function.comp_apply, LowerM.run_ofExcept, lowerComdat_clause hcd hc]

/-- A checked header gives parameter `i` slot `i`, and has a slot for each parameter. -/
theorem lowerHeader_slots {h : Ast.Header} {func : Function}
    (hh : (s.lowerHeader h).run.run q = (.ok func, q')) :
    func.params.map (·.slot) = List.range func.locals.size := by
  unfold lowerHeader at hh
  obtain ⟨sig, hsig, h₁⟩ := LowerM.ofExcept_bind_ok hh
  obtain ⟨_, q₁, _, h₂⟩ := LowerM.bind_ok h₁
  obtain ⟨_, q₂, _, h₃⟩ := LowerM.bind_ok h₂
  obtain ⟨_, q₃, _, h₄⟩ := LowerM.bind_ok h₃
  obtain ⟨_, q₄, _, h₅⟩ := LowerM.bind_ok h₄
  cases h₅
  obtain ⟨-, rfl⟩ := lowerSignature_eq_ok_iff.mp hsig
  apply List.ext_getElem
  · simp [Ast.Header.writtenSig]
  · intro i h₁ h₂
    simp [List.getElem_zipIdx]

/-- The first pass over a body gives every parameter of its header a slot. -/
theorem declareBody_slots_length {h : Ast.Header} {func : Function}
    (hh : (s.lowerHeader h).run.run q = (.ok func, q')) {blocks : List Ast.Block} {slots : List Nat}
    {ds : List DeclaredBlock} {l : Locals} (hdecl : s.declareBody h func.sig blocks = .ok (slots, ds, l)) :
    func.params.length = slots.length := by
  obtain ⟨-, -, hparams, -⟩ := lowerHeader_ok hh
  unfold declareBody at hdecl
  obtain ⟨⟨slots', l₁⟩, hps, hdecl₁⟩ := Except.bind_eq_ok_iff.mp hdecl
  obtain ⟨⟨ds', l₂⟩, -, hdecl₂⟩ := Except.bind_eq_ok_iff.mp hdecl₁
  cases hdecl₂
  obtain ⟨recs, rfl, hfit, -, -⟩ := Locals.defineParams_tracks (Locals.tracks_empty _) hps
  rw [hparams, List.length_map, List.length_map, hfit.length_eq, List.length_zipIdx]

/-- **A checked function's parameters have the types and attributes written for them**: the first
    pass changes only their slots. -/
theorem lowerFunctionIn_paramShapes {f : Ast.Function} {F : Function}
    (h : (s.lowerFunctionIn f).run.run q = (.ok F, q')) :
    F.params.map (fun p => (p.ty, p.attrs)) = f.header.params.map (fun p => (p.ty, p.attrs)) := by
  unfold lowerFunctionIn at h
  obtain ⟨func, q₁, hfunc, h₁⟩ := LowerM.bind_ok h
  have hshapes := lowerHeader_paramShapes hfunc
  split at h₁
  · cases h₁
    exact hshapes
  · obtain ⟨⟨slots, ds, l⟩, hdecl, h₂⟩ := LowerM.ofExcept_bind_ok h₁
    obtain ⟨Bs, q₂, -, h₃⟩ := LowerM.bind_ok h₂
    obtain ⟨us, q₃, -, h₄⟩ := LowerM.bind_ok h₃
    cases h₄
    have hlen := declareBody_slots_length hfunc hdecl
    rw [← hshapes]
    apply List.ext_getElem
    · simp [hlen]
    · intro i h₁ h₂
      simp [List.getElem_zip]

/-- **A checked header checks back from the written header of a function that keeps it**: the
    same name, signature, qualifiers, comdat and constants, and parameters of the same types and
    attributes. The written parameter names become the placeholder identities. -/
theorem lowerHeader_written (hb : s.types.BodiesWellFormed) (hcd : s.ComdatsNamed)
    {h : Ast.Header} {func G : Function} (hh : (s.lowerHeader h).run.run q = (.ok func, q'))
    (hG : G = { func with
      params := G.params, blocks := G.blocks, locals := G.locals, useLists := G.useLists,
      metadata := G.metadata })
    (hP : G.params.map (fun p => (p.ty, p.attrs)) = h.params.map (fun p => (p.ty, p.attrs)))
    (hread : ∀ k ∈ func.prefixData.toList ++ func.prologue.toList ++ func.personality.toList,
      k.Readable) :
    (s.lowerHeader G.headerAst).run.run q =
      (.ok { func with
        locals := (G.headerAst.params.map fun p => (p.name.map LocalIdent.ofName).getD (.anon 0)).toArray },
        q') := by
  have hty : G.params.map (·.ty) = h.params.map (·.ty) := by
    simpa [Function.comp_def] using congrArg (List.map Prod.fst) hP
  have hattrs : G.params.map (·.attrs) = h.params.map (·.attrs) := by
    simpa [Function.comp_def] using congrArg (List.map Prod.snd) hP
  unfold lowerHeader at hh
  obtain ⟨sig, hsig, h₁⟩ := LowerM.ofExcept_bind_ok hh
  obtain ⟨comdat, q₁, hcomdat, h₂⟩ := LowerM.bind_ok h₁
  obtain ⟨prefixData, q₂, hprefix, h₃⟩ := LowerM.bind_ok h₂
  obtain ⟨prologue, q₃, hprologue, h₄⟩ := LowerM.bind_ok h₃
  obtain ⟨personality, q₄, hpersonality, h₅⟩ := LowerM.bind_ok h₄
  cases h₅
  obtain ⟨hwt, rfl⟩ := lowerSignature_eq_ok_iff.mp hsig
  -- the written header shows the same name, signature, comdat and constants
  have hGsig : G.sig = h.writtenSig := by rw [hG]
  have hGname : G.headerAst.name = h.name := by rw [hG]; rfl
  have hwparams : G.headerAst.params.map (·.ty) = h.params.map (·.ty) := by
    simpa [Function.headerAst, Function.comp_def] using hty
  have hsig' : s.lowerSignature G.headerAst = .ok h.writtenSig := by
    refine lowerSignature_eq_ok_iff.mpr ⟨⟨?_, ?_⟩, ?_⟩
    · show G.sig.ret.WellFormed _
      rw [hGsig]
      exact hwt.1
    · rw [hwparams]
      exact hwt.2
    · simp only [Ast.Header.writtenSig, hwparams]
      show h.writtenSig = ⟨G.sig.ret, _, G.sig.variadic⟩
      rw [hGsig]
      rfl
  have hGcomdat : G.headerAst.comdat = comdat.map (ComdatDef.clause h.name) := by rw [hG]; rfl
  have hGprefix : G.headerAst.prefixData = prefixData.map Const.toTypedAst := by rw [hG]; rfl
  have hGprologue : G.headerAst.prologue = prologue.map Const.toTypedAst := by rw [hG]; rfl
  have hGpersonality : G.headerAst.personality = personality.map Const.toTypedAst := by
    rw [hG]; rfl
  -- each optional part checks back from its written form, from the same queue
  have hcomdat' := lowerComdats_written hcd hcomdat
  have hprefix' := LowerM.optionMapM_rerun hprefix (g := s.lowerTypedConst ∘ Const.toTypedAst)
    fun hx hy => lowerTypedConst_toAst hb hx (hread _ (by simp [hy]))
  have hprologue' := LowerM.optionMapM_rerun hprologue (g := s.lowerTypedConst ∘ Const.toTypedAst)
    fun hx hy => lowerTypedConst_toAst hb hx (hread _ (by simp [hy]))
  have hpersonality' := LowerM.optionMapM_rerun hpersonality
    (g := s.lowerTypedConst ∘ Const.toTypedAst)
    fun hx hy => lowerTypedConst_toAst hb hx (hread _ (by simp [hy]))
  unfold lowerHeader
  rw [LowerM.run_ofExcept_bind_of_ok hsig', hGcomdat, hGname, LowerM.run_bind_of_ok hcomdat', hGprefix, LowerM.optionMapM_map, LowerM.run_bind_of_ok hprefix',
    hGprologue, LowerM.optionMapM_map, LowerM.run_bind_of_ok hprologue', hGpersonality,
    LowerM.optionMapM_map, LowerM.run_bind_of_ok hpersonality', LowerM.run_pure]
  congr 3
  · -- a parameter is checked from its type and attributes alone
    have hlen : G.params.length = h.params.length := by simpa using congrArg List.length hty
    apply List.ext_getElem
    · simp [Function.headerAst, hlen]
    · intro i h₁ h₂
      have hi : i < G.params.length := (by simpa [Function.headerAst] using h₁ : _ ∧ _).1
      have hattr : G.params[i].attrs = h.params[i].attrs := by
        have h' := List.getElem_of_eq hattrs (by simpa using hi)
        rwa [List.getElem_map, List.getElem_map] at h'
      simp [Function.headerAst, List.getElem_zipIdx, List.getElem_zip, hattr]
  -- the other fields are the header's own
  all_goals rw [hG]; rfl

/-! ## Functions -/

/-- **A checked and numbered definition checks back from its written form**, from the same queue
    to the same queue, when it has no load or phi of type `void`, its calls keep their signatures
    in writing and its constants read back. -/
theorem lowerFunctionIn_toAst_of_body (hb : s.types.BodiesWellFormed) (hcd : s.ComdatsNamed)
    {f : Ast.Function} {body : Ast.Body} {F F' : Function}
    (h : (s.lowerFunctionIn f).run.run q = (.ok F, q')) (hbody : f.body = some body)
    (hblocks : body.blocks ≠ []) (hF' : F.assignIds = .ok F') (hnv : ¬ F.HasVoidValue)
    (hcalls : ∀ c ∈ F.calls, c.KeepsSignature) (hconsts : ∀ k ∈ F.constants, k.Readable) :
    (s.lowerFunctionIn F'.toAst).run.run q = (.ok F'.canonical, q') := by
  have hshapes := lowerFunctionIn_paramShapes h
  obtain ⟨sig₀, slots₀, ds₀, l₀, hist, hsig₀, hdecl₀, htracks, hlocals, hfit, -, -, hlen⟩ :=
    lowerFunctionIn_sim h hbody
  have hd : l₀.Describes s.types hist F := ⟨htracks, hfit, hlocals⟩
  -- a definition is numbered
  have hdef : F.isDeclaration = false := by
    rw [Function.isDeclaration, List.isEmpty_eq_false_iff, ← List.length_pos_iff, hlen]
    exact List.length_pos_iff.mpr hblocks
  obtain ⟨hF'F, hnil⟩ | ⟨t, ht, hF'eq⟩ := Function.assignIds_cases hF'
  · rw [Function.isDeclaration, hnil] at hdef
    cases hdef
  unfold lowerFunctionIn at h
  obtain ⟨func, q₁, hfunc, h₁⟩ := LowerM.bind_ok h
  rw [hbody] at h₁
  obtain ⟨⟨slots, ds, l⟩, hdecl, h₂⟩ := LowerM.ofExcept_bind_ok h₁
  obtain ⟨Bs, q₂, hBs, h₃⟩ := LowerM.bind_ok h₂
  obtain ⟨us, q₃, hus, h₄⟩ := LowerM.bind_ok h₃
  rw [LowerM.run_pure, Prod.mk.injEq, Except.ok.injEq] at h₄
  obtain ⟨hX, rfl⟩ := h₄
  -- the first pass of the description is the one the run made
  have hsig : sig₀ = func.sig := Except.ok.inj (hsig₀.symm.trans (lowerHeader_ok hfunc).1)
  subst hsig
  obtain ⟨rfl, rfl, rfl⟩ : slots = slots₀ ∧ ds = ds₀ ∧ l = l₀ := by
    simpa using hdecl.symm.trans hdecl₀
  -- what the numbered function keeps of the checked one
  have hF'def : F'.isDeclaration = false := by rw [hF'eq]; exact hdef
  have hF'blocks : F'.blocks = Bs := by rw [hF'eq, ← hX]
  have hF'locals : F'.locals = t := by rw [hF'eq]
  have hF'uses : F'.useLists = us := by rw [hF'eq, ← hX]
  have hslots : F'.params.map (·.slot) = slots := by
    have hlen := declareBody_slots_length hfunc hdecl
    rw [hF'eq, ← hX]
    apply List.ext_getElem
    · simp [hlen]
    · intro i h₁ h₂
      simp [List.getElem_zip]
  have hheader : (s.lowerHeader F'.toAst.header).run.run q = _ :=
    lowerHeader_written hb hcd hfunc (G := F') (by rw [hF'eq, ← hX]) (by rw [hF'eq]; exact hshapes)
      (fun k hk => hconsts k (by rw [← hX]; exact List.mem_append_left _ hk))
  unfold lowerFunctionIn
  rw [LowerM.run_bind_of_ok hheader]
  have hbody' : F'.toAst.body = some F'.bodyAst := by simp [Function.toAst, hF'def]
  rw [hbody']
  -- the first pass over the written body defines every site under its written name
  have hFsig : F.sig = func.sig := by rw [← hX]
  have hF'sig : F'.sig = func.sig := by rw [hF'eq]; exact hFsig
  have hF'defs : F'.localDefs = F.localDefs := by rw [hF'eq]; rfl
  have hparamsTy : F'.params.map (·.ty) = F'.sig.params := by
    obtain ⟨-, hsig'⟩ := lowerSignature_eq_ok_iff.mp (lowerHeader_ok hfunc).1
    have hty := congrArg (List.map Prod.fst) hshapes
    simp only [List.map_map, Function.comp_def] at hty
    rw [hF'sig, hsig', hF'eq]
    exact hty
  have hsites : ∀ B ∈ F'.blocks, B.DeclaresSiteTypes s F'.locals := by
    unfold declareBody at hdecl
    obtain ⟨⟨slotsP, lP⟩, -, hdecl₁⟩ := Except.bind_eq_ok_iff.mp hdecl
    obtain ⟨⟨ds', l₂⟩, hblocks', hdecl₂⟩ := Except.bind_eq_ok_iff.mp hdecl₁
    cases hdecl₂
    rw [hF'blocks, hF'locals]
    intro B hB
    refine LowerM.mapM_forall
      (P := fun B => (∀ c ∈ B.calls, c.KeepsSignature) → B.DeclaresSiteTypes s t)
      (fun x hx _ _ B' hB' hkeep => ?_) hBs B hB ?_
    · obtain ⟨l₃, l₄, hdB⟩ := declareBlocks_declared hblocks' x hx
      exact lowerBlock_declaresSiteTypes hb hdB hB' hkeep
    · intro c hc
      exact hcalls c (List.mem_flatMap.mpr ⟨B, by rw [← hX]; exact hB, hc⟩)
  have hws : WrittenSites F'.locals [] F'.localDefs := by
    rw [hF'locals, hF'defs]
    exact hd.writtenSites hnv ht
  obtain ⟨l', hdecl', -, htracks'⟩ := declareBody_written hF'def hparamsTy hsites hws
  rw [hF'defs, hF'locals] at htracks'
  rw [hF'sig] at hdecl'
  have hR := hd.rechecks_written hnv ht htracks'
  refine (LowerM.run_ofExcept_bind_of_ok hdecl').trans ?_
  dsimp only
  -- the second pass checks every written block back, then every written use-list order
  have hzip : F'.bodyAst.blocks.zip (F'.blocks.map Block.declared) =
      Bs.map fun B => (B.toAst t, B.declared) := by
    simp only [Function.bodyAst, hF'blocks, hF'locals, List.zip_map']
  have huses : F'.bodyAst.useLists = us.map (UseListOrder.toAst t) := by
    simp only [Function.bodyAst, hF'uses, hF'locals]
  have hFblocks : F.blocks = Bs := by rw [← hX]
  have hFuses : F.useLists = us := by rw [← hX]
  rw [hzip, huses, List.mapM_map, List.mapM_map]
  refine (LowerM.run_bind_of_ok (LowerM.mapM_rerun hBs ?_)).trans ?_
  · intro x q₄ q₅ B hB hmem
    obtain ⟨b, d⟩ := x
    refine lowerBlock_written hb hR hB (fun v hv => ?_) (fun c hc => ?_)
    · exact Function.readable_of_constants hconsts
        (List.mem_append_left _ (List.mem_flatMap.mpr ⟨B, hFblocks ▸ hmem, hv⟩))
    · exact hcalls c (List.mem_flatMap.mpr ⟨B, hFblocks ▸ hmem, hc⟩)
  refine (LowerM.run_bind_of_ok (LowerM.mapM_rerun hus ?_)).trans ?_
  · intro u q₄ q₅ U hU hmem
    obtain ⟨w, q₆, hw, h₅⟩ := LowerM.bind_ok hU
    cases h₅
    refine (LowerM.run_bind_of_ok (lowerTypedValue_written hb hR hw ?_)).trans rfl
    exact Function.readable_of_constants hconsts
      (List.mem_append_right _ (List.mem_map.mpr ⟨_, hFuses ▸ hmem, rfl⟩))
  -- the function built is the numbered one: its table is the numbered table
  have hcanon : F'.canonical = F' := by simp [Function.canonical, hF'def]
  rw [hcanon, LowerM.run_pure, hslots, hd.table_written hnv ht htracks', hF'eq, ← hX]
  rfl

/-- **A checked declaration checks back from its written form**, up to the numbers of its unnamed
    parameters, when its constants read back. -/
theorem lowerFunctionIn_toAst_of_declaration (hb : s.types.BodiesWellFormed)
    (hcd : s.ComdatsNamed) {f : Ast.Function} {F : Function}
    (h : (s.lowerFunctionIn f).run.run q = (.ok F, q')) (hbody : f.body = none)
    (hconsts : ∀ k ∈ F.constants, k.Readable) :
    (s.lowerFunctionIn F.toAst).run.run q = (.ok F.canonical, q') := by
  have hshapes := lowerFunctionIn_paramShapes h
  unfold lowerFunctionIn at h
  obtain ⟨func, q₁, hfunc, h₁⟩ := LowerM.bind_ok h
  rw [hbody] at h₁
  dsimp only at h₁
  rw [LowerM.run_pure, Prod.mk.injEq, Except.ok.injEq] at h₁
  obtain ⟨hX, rfl⟩ := h₁
  have hdecl : F.isDeclaration = true := by
    rw [← hX, Function.isDeclaration, (lowerHeader_ok hfunc).2.2.2]
    rfl
  have hslots : F.params.map (·.slot) = List.range F.locals.size := by
    have hslots := lowerHeader_slots hfunc
    rw [← hX]
    exact hslots
  have hheader : (s.lowerHeader F.toAst.header).run.run q = _ :=
    lowerHeader_written hb hcd hfunc (G := F) (by rw [← hX]) hshapes
      (fun k hk => hconsts k (by rw [← hX]; exact List.mem_append_left _ hk))
  have hbody' : F.toAst.body = none := by simp [Function.toAst, hdecl]
  unfold lowerFunctionIn
  rw [LowerM.run_bind_of_ok hheader, hbody']
  dsimp only
  -- the written parameters read back as the identities without their numbers
  rw [LowerM.run_pure, Function.placeholders_headerAst hdecl hslots, Function.canonical, if_pos hdecl]
  subst hX
  rfl

/-- **A checked and numbered function checks back from its written form**, from the same queue to
    the same queue, up to what its text does not show, when it was written with a block if with a
    body, has no load or phi of type `void`, its calls keep their signatures in writing and its
    constants read back. -/
theorem lowerFunction_toAst (hb : s.types.BodiesWellFormed) (hcd : s.ComdatsNamed)
    {f : Ast.Function} {F F' : Function} (h : (s.lowerFunction f).run.run q = (.ok F, q'))
    (hblocks : ∀ body, f.body = some body → body.blocks ≠ []) (hF' : F.assignIds = .ok F')
    (hnv : ¬ F.HasVoidValue) (hcalls : ∀ c ∈ F.calls, c.KeepsSignature)
    (hconsts : ∀ k ∈ F.constants, k.Readable) :
    (s.lowerFunction F'.toAst).run.run q = (.ok F'.canonical, q') := by
  have hin := lowerFunctionIn_of_lowerFunction h
  have hin' : (s.lowerFunctionIn F'.toAst).run.run q = (.ok F'.canonical, q') := by
    cases hbody : f.body with
    | none =>
      -- a declaration is not renumbered
      have hdecl : F.isDeclaration = true := by
        rw [Function.isDeclaration, lowerFunction_blocks_of_declaration h hbody]
        rfl
      have hF'F : F' = F := by
        unfold Function.assignIds at hF'
        rw [if_pos hdecl] at hF'
        exact (Except.ok.inj hF').symm
      subst hF'F
      exact lowerFunctionIn_toAst_of_declaration hb hcd hin hbody hconsts
    | some body =>
      exact lowerFunctionIn_toAst_of_body hb hcd hin hbody (hblocks body hbody) hF' hnv hcalls hconsts
  unfold lowerFunction
  rw [LowerM.run_tryCatch, hin']

end Scope

end LlvmAsm
