import LlvmAsm.Proofs.Written.Function
import LlvmAsm.Proofs.StableNumbering

/-!
# `Proofs.Written.Module` — a checked module checks back from its written form

Checking the written form of a checked module gives it back up to what its text does not show
(`lowerModule_toAst`): each global is checked back to its written linkage, each function to its
canonical form. The written module has the same scope: the type definitions it writes are those
read, its comdats are the same, and every item declares the same symbol. Its items are checked in
the same order from the same queue and queue the same block addresses, so the queue drains in the
written module as in the first; and numbering leaves the canonical functions as they are.

What the statement needs of the checked module is what `Scope.lowerFunction_toAst` needs of each
function and that every global's initializer reads back; of the module read, that every body has a
block, as every body the reader gives has.
-/

namespace LlvmAsm

namespace LowerM

variable {α β γ δ : Type}

/-- **A traversal runs again on partners of its results**: when each step, run again on a partner
    of its result, gives `c` of that partner from the same queue to the same queue. -/
theorem mapM_rerun_forall₂ {R : α → δ → Prop} {f : γ → LowerM α} {g : δ → LowerM β} {c : δ → β}
    {xs : List γ} {ys : List α} {zs : List δ} {q q' : FixupQueue}
    (h : (xs.mapM f).run.run q = (.ok ys, q')) (hR : List.Forall₂ R ys zs)
    (hg : ∀ {x q₁ q₂ y z}, x ∈ xs → z ∈ zs → (f x).run.run q₁ = (.ok y, q₂) → R y z →
      (g z).run.run q₁ = (.ok (c z), q₂)) :
    (zs.mapM g).run.run q = (.ok (zs.map c), q') := by
  induction xs generalizing ys zs q with
  | nil =>
    rw [List.mapM_nil, run_pure] at h
    cases h
    cases hR
    rfl
  | cons x xs ih =>
    obtain ⟨y, ys', q₁, hy, hys, rfl⟩ := mapM_cons_ok h
    cases hR with
    | cons hyz hrest =>
      -- the first step runs again on its partner, then the rest on theirs
      have hfirst := hg List.mem_cons_self List.mem_cons_self hy hyz
      have hrest' := ih hys hrest fun hx hz hstep hr =>
        hg (List.mem_cons_of_mem _ hx) (List.mem_cons_of_mem _ hz) hstep hr
      rw [List.mapM_cons, run_bind_of_ok hfirst, run_bind_of_ok hrest']
      rfl

end LowerM

/-! ## The scope of a module -/

namespace TypeTable

/-- Every body a run from a staged table installs is well formed over all the names. -/
theorem defineBodies_staged_wellFormed {todo : List Ast.TypeDef} :
    ∀ {done : List Ast.TypeDef} {t' : TypeTable}, ((done ++ todo).map (·.name)).Nodup →
      defineBodies (staged done todo) todo = .ok t' →
      ∀ d ∈ todo, ∀ b, d.body = some b → b.WellFormed (· ∈ (done ++ todo).map (·.name)) := by
  induction todo with
  | nil => exact fun _ _ d hd => absurd hd List.not_mem_nil
  | cons d todo ih =>
    intro done t' hnd h e he b heb
    have hnd' : (((done ++ [d]) ++ todo).map (·.name)).Nodup := by simpa using hnd
    have hnames : (done ++ [d]) ++ todo = done ++ d :: todo := by simp
    cases hb : d.body with
    | none =>
      simp only [defineBodies, hb, staged_cons_of_body_none hb] at h
      rcases List.mem_cons.mp he with rfl | he
      · rw [hb] at heb
        cases heb
      · exact hnames ▸ ih hnd' h e he b heb
    | some b' =>
      obtain ⟨b'', hlow, -, hrest⟩ := defineBodies_cons_ok hb h
      obtain ⟨hwf, rfl⟩ := (Scope.lowerType_eq_ok_iff _ b' b'').mp hlow
      rw [setBody_staged hnd hb] at hrest
      rcases List.mem_cons.mp he with rfl | he
      · -- the body was checked against the staged table, which declares every name
        rw [hb] at heb
        cases heb
        have hpred : (fun n => (staged done (e :: todo)).contains n = true) =
            (· ∈ (done ++ e :: todo).map (·.name)) :=
          funext fun n => propext (contains_iff_mem_names.trans (by rw [staged_names]))
        exact hpred ▸ hwf
      · exact hnames ▸ ih hnd' hrest e he b heb

/-- **The table `define` builds has well-formed bodies.** -/
theorem define_bodiesWellFormed {defs : List Ast.TypeDef} {t : TypeTable} (h : define defs = .ok t) :
    t.BodiesWellFormed := by
  obtain ⟨hnd, hrun⟩ := define_eq_ok_iff.mp h
  have hwf := @defineBodies_staged_wellFormed defs [] _ (by simpa using hnd) hrun
  rw [List.nil_append] at hwf
  rw [define_eq_ok h]
  intro name body hbody
  -- the body of a name is the body of its definition
  have hlookup : ((ofDefs defs).defs.lookup name).join = some body := hbody
  obtain ⟨d, hd, hdname, hdbody⟩ : ∃ d ∈ defs, d.name = name ∧ d.body = some body := by
    cases hl : (ofDefs defs).defs.lookup name with
    | none =>
      rw [hl] at hlookup
      cases hlookup
    | some b =>
      rw [hl] at hlookup
      obtain ⟨l₁, l₂, heq, -⟩ := List.lookup_eq_some_iff.mp hl
      have hmem : (name, b) ∈ (ofDefs defs).defs := by rw [heq]; simp
      obtain ⟨d, hd, hdb⟩ := List.mem_map.mp hmem
      simp only [Prod.mk.injEq] at hdb
      exact ⟨d, hd, hdb.1, hdb.2.trans hlookup⟩
  have hpred : (fun n => (ofDefs defs).contains n = true) = (· ∈ defs.map (·.name)) :=
    funext fun n => propext (contains_iff_mem_names.trans (by simp [names, ofDefs]))
  exact hpred ▸ hwf d hd body hdbody

end TypeTable

namespace Scope

variable {s : Scope} {q q' : FixupQueue}

/-- Defining comdats files each under its own name. -/
theorem defineComdats_named {cs : List ComdatDef} :
    ∀ {s s' : Scope}, s.ComdatsNamed → s.defineComdats cs = .ok s' → s'.ComdatsNamed := by
  induction cs with
  | nil =>
    intro s s' hs h
    cases h
    exact hs
  | cons c cs ih =>
    intro s s' hs h
    simp only [defineComdats] at h
    split at h
    · cases h
    · refine ih (fun p hp => ?_) h
      rcases List.mem_append.mp hp with hp | hp
      · exact hs p hp
      · rw [List.mem_singleton.mp hp]

/-! ## Globals -/

/-- A checked global has the name and the content type written for it, which is well formed. -/
theorem lowerGlobal_ok {g : Ast.Global} {G : Global} (h : (s.lowerGlobal g).run.run q = (.ok G, q')) :
    G.name = g.name ∧ G.contentTy = g.contentTy ∧
      g.contentTy.WellFormed (s.types.contains · = true) := by
  unfold lowerGlobal at h
  obtain ⟨ty, hty, h₁⟩ := LowerM.ofExcept_bind_ok h
  obtain ⟨init, q₁, -, h₂⟩ := LowerM.bind_ok h₁
  obtain ⟨comdat, q₂, -, h₃⟩ := LowerM.bind_ok h₂
  cases h₃
  obtain ⟨hwf, rfl⟩ := (lowerType_eq_ok_iff s _ _).mp hty
  exact ⟨rfl, rfl, hwf⟩

/-- **A checked global checks back from its written form**, up to its written linkage, when its
    initializer reads back. -/
theorem lowerGlobal_toAst (hb : s.types.BodiesWellFormed) (hcd : s.ComdatsNamed) {g : Ast.Global}
    {G : Global} (h : (s.lowerGlobal g).run.run q = (.ok G, q')) (hread : ∀ k ∈ G.init, k.Readable) :
    (s.lowerGlobal G.toAst).run.run q = (.ok G.canonical, q') := by
  unfold lowerGlobal at h
  obtain ⟨ty, hty, h₁⟩ := LowerM.ofExcept_bind_ok h
  obtain ⟨init, q₁, hinit, h₂⟩ := LowerM.bind_ok h₁
  obtain ⟨comdat, q₂, hcomdat, h₃⟩ := LowerM.bind_ok h₂
  cases h₃
  have hwf := wellFormed_of_lowerType hty
  -- the initializer checks back at the content type, the comdat from its clause
  have hinit' := LowerM.optionMapM_rerun hinit (g := s.lowerConst ty ∘ Const.toAst)
    fun hx hy => lowerConst_toAst hb hx hwf (hread _ hy)
  have hcomdat' := lowerComdats_written hcd hcomdat
  unfold lowerGlobal
  dsimp only [Global.toAst]
  rw [LowerM.run_ofExcept_bind_of_ok (lowerType_of_wellFormed hwf), LowerM.optionMapM_map,
    LowerM.run_bind_of_ok hinit', LowerM.run_bind_of_ok hcomdat']
  rfl

/-- **The checked items** hold one checked global for each global of the module, in order. -/
theorem lowerItems_globals {m : Ast.Module} {globals : List Global} {funcs : List Function}
    (h : (s.lowerItems m).run.run q = (.ok (globals, funcs), q')) :
    List.Forall₂ (fun g G => ∃ q₁ q₂, (s.lowerGlobal g).run.run q₁ = (.ok G, q₂)) m.globals globals := by
  unfold lowerItems at h
  obtain ⟨globals', q₁, hglobals, h⟩ := LowerM.bind_ok h
  obtain ⟨funcs', q₂, -, h⟩ := LowerM.bind_ok h
  rw [LowerM.run_pure] at h
  cases h
  exact LowerM.mapM_forall₂ hglobals

/-! ## Functions -/

/-- A checked function has the signature its header declares. -/
theorem lowerFunction_sig {f : Ast.Function} {F : Function}
    (h : (s.lowerFunction f).run.run q = (.ok F, q')) : F.sig = f.header.writtenSig := by
  have hin := lowerFunctionIn_of_lowerFunction h
  unfold lowerFunctionIn at hin
  obtain ⟨func, q₁, hfunc, h₁⟩ := LowerM.bind_ok hin
  obtain ⟨-, hsig⟩ := lowerSignature_eq_ok_iff.mp (lowerHeader_ok hfunc).1
  split at h₁
  · cases h₁
    exact hsig
  · obtain ⟨_, -, h₂⟩ := LowerM.ofExcept_bind_ok h₁
    obtain ⟨_, _, -, h₃⟩ := LowerM.bind_ok h₂
    obtain ⟨_, _, -, h₄⟩ := LowerM.bind_ok h₃
    cases h₄
    exact hsig

/-- **The written header of a checked and numbered function declares what its header did**: the
    same name and signature. -/
theorem lowerFunction_headerAst {f : Ast.Function} {F F' : Function}
    (h : (s.lowerFunction f).run.run q = (.ok F, q')) (hF' : F.assignIds = .ok F') :
    F'.headerAst.name = f.header.name ∧ F'.headerAst.writtenSig = f.header.writtenSig := by
  have hty := congrArg (List.map Prod.fst)
    (lowerFunctionIn_paramShapes (lowerFunctionIn_of_lowerFunction h))
  simp only [List.map_map, Function.comp_def] at hty
  rw [Function.assignIds_eq_ok_locals hF']
  refine ⟨lowerFunction_name h, ?_⟩
  simp only [Function.headerAst, Ast.Header.writtenSig, lowerFunction_sig h, List.map_map,
    Function.comp_def, hty]

end Scope

/-- Whether a header's types are well formed depends on the signature it declares alone. -/
theorem Ast.Header.wellTyped_iff_of_writtenSig {known : String → Prop} {h h' : Ast.Header}
    (hsig : h.writtenSig = h'.writtenSig) : h.WellTyped known ↔ h'.WellTyped known := by
  have hret : h.ret = h'.ret := congrArg FuncSig.ret hsig
  have hparams : h.params.map (·.ty) = h'.params.map (·.ty) := congrArg FuncSig.params hsig
  simp only [Ast.Header.WellTyped, hret, hparams]

namespace Function

/-- Numbering keeps the sites, the calls and the constants of a function. -/
theorem assignIds_keeps {F F' : Function} (h : F.assignIds = .ok F') :
    F'.localDefs = F.localDefs ∧ F'.calls = F.calls ∧ F'.constants = F.constants := by
  rw [assignIds_eq_ok_locals h]
  exact ⟨rfl, rfl, rfl⟩

/-- A numbered function's canonical form is numbered too. -/
theorem assignIds_canonical {F : Function} (h : F.assignIds = .ok F) :
    F.canonical.assignIds = .ok F.canonical := by
  unfold canonical
  split
  · rename_i hdecl
    exact assignIds_of_blocks_nil (List.isEmpty_iff.mp hdecl)
  · exact h

theorem name_canonical (F : Function) : F.canonical.name = F.name := by
  unfold canonical
  split <;> rfl

/-- A block is found in the canonical form as in the function: a declaration has none. -/
theorem findBlock?_canonical (F : Function) (ident : LocalIdent) :
    F.canonical.findBlock? ident = F.findBlock? ident := by
  unfold canonical
  split
  · rename_i hdecl
    simp only [findBlock?, List.isEmpty_iff.mp hdecl, List.find?_nil]
  · rfl

end Function

/-- A module whose functions are in canonical form finds each function's canonical form. -/
theorem Module.func?_canonical (M : Module) (name : String) :
    ({ M with funcs := M.funcs.map Function.canonical } : Module).func? name =
      (M.func? name).map Function.canonical := by
  simp only [func?, List.find?_map]
  congr 2
  funext F
  simp [Function.name_canonical]

/-- A block address resolves in a module with canonical functions as in the module. -/
theorem BlockRef.resolve_canonical (M : Module) (r : BlockRef) :
    r.resolve { M with funcs := M.funcs.map Function.canonical } = r.resolve M := by
  unfold BlockRef.resolve
  rw [Module.func?_canonical]
  cases M.func? r.func with
  | none => rfl
  | some F => simp only [Option.map_some, Function.findBlock?_canonical, Function.name_canonical]

/-- The queue drains in a module with canonical functions as in the module. -/
theorem FixupQueue.drain_canonical {q : FixupQueue} {M M' : Module}
    (hf : M'.funcs = M.funcs.map Function.canonical) : (q.drain M').1 = (q.drain M).1 := by
  have hresolve : BlockRef.resolve M' = BlockRef.resolve M := by
    funext r
    rw [← BlockRef.resolve_canonical M r]
    exact BlockRef.resolve_congr (by simp only [Module.func?, hf])
  simp only [FixupQueue.drain, hresolve]

/-! ## The module -/

/-- **A checked module checks back from its written form**, up to what its text does not show
    (`Module.canonical`): when every body read has a block, no function has a load or phi of type
    `void`, every call keeps its signature in writing, and every constant reads back. -/
theorem lowerModule_toAst {m : Ast.Module} {M : Module} (h : lowerModule m = .ok M)
    (hblocks : ∀ f ∈ m.funcs, ∀ body, f.body = some body → body.blocks ≠ [])
    (hnv : ∀ F ∈ M.funcs, ¬ F.HasVoidValue)
    (hcalls : ∀ F ∈ M.funcs, ∀ c ∈ F.calls, c.KeepsSignature)
    (hconsts : ∀ F ∈ M.funcs, ∀ k ∈ F.constants, k.Readable)
    (hinits : ∀ G ∈ M.globals, ∀ k ∈ G.init, k.Readable) :
    lowerModule M.toAst = .ok M.canonical := by
  obtain ⟨s, globals, funcs, queue, hs, hitems⟩ := lowerModule_stages h
  have hnum := lowerModule_funcs hs hitems h
  have hnumbered := lowerModule_funcs_numbered h
  have hgs := Scope.lowerItems_globals hitems
  have hfs := Scope.lowerItems_funcs hitems
  rw [lowerModule_of_items hs hitems] at h
  obtain ⟨M₁, hM₁, h⟩ := Except.bind_eq_ok_iff.mp h
  obtain ⟨n, hdrain, h⟩ := Except.bind_eq_ok_iff.mp h
  unfold Module.assignIds at hM₁
  obtain ⟨funcs', hfuncs', hM₁⟩ := Except.bind_eq_ok_iff.mp hM₁
  have hM₁f : M₁.funcs = funcs' := by cases hM₁; rfl
  have hM : M =
      { sourceFilename := m.sourceFilename, dataLayout := m.dataLayout,
        targetTriple := m.targetTriple, types := s.types, comdats := m.comdats, globals,
        funcs := funcs', attrGroups := m.attrGroups } := by
    cases hM₁
    cases h
    rfl
  have hMg : M.globals = globals := by rw [hM]
  have hMf : M.funcs = funcs' := by rw [hM]
  rw [hMg] at hinits
  rw [hMf] at hnv hcalls hconsts hnum hnumbered
  obtain ⟨types, s₀, htypes, hs₀, hwfg, hwff, hnd, hseq⟩ := Scope.ofModule_eq_ok_iff.mp hs
  have hty₀ : s₀.types = types := Scope.defineComdats_types hs₀
  have hstypes : s.types = types := by rw [hseq]; exact hty₀
  have hb : s.types.BodiesWellFormed := hstypes ▸ TypeTable.define_bodiesWellFormed htypes
  have hcd : s.ComdatsNamed := by
    have hcd₀ := Scope.defineComdats_named (fun p hp => absurd hp List.not_mem_nil) hs₀
    rw [hseq]
    exact hcd₀
  -- the written module is the module read with its items written back
  have hMtoAst : M.toAst = { m with
      globals := globals.map Global.toAst, funcs := funcs'.map Function.toAst } := by
    have htd : s₀.types.defs.map (fun entry => (⟨entry.1, entry.2⟩ : Ast.TypeDef)) = m.typeDefs := by
      rw [hty₀, TypeTable.define_eq_ok htypes, TypeTable.ofDefs, List.map_map]
      exact List.map_id _
    rw [hM]
    dsimp only [Module.toAst]
    rw [hseq, htd]
  -- each written global and function declares the symbol its original did
  have hgsym : (globals.map Global.toAst).map Ast.Global.symbol = m.globals.map Ast.Global.symbol := by
    rw [List.map_map]
    refine (map_eq_of_forall₂ (hgs.imp fun g G hgG => ?_)).symm
    obtain ⟨_, _, hG⟩ := hgG
    obtain ⟨hname, hty, -⟩ := Scope.lowerGlobal_ok hG
    simp only [Function.comp_apply, Ast.Global.symbol, Global.toAst, hname, hty]
  have hfun : List.Forall₂ (fun f F' => F'.headerAst.name = f.header.name ∧
      F'.headerAst.writtenSig = f.header.writtenSig) m.funcs funcs' :=
    forall₂_comp (fun hstep hyz => by
      obtain ⟨_, _, hF⟩ := hstep
      exact Scope.lowerFunction_headerAst hF hyz) hfs hnum
  have hfsym : (funcs'.map Function.toAst).map Ast.Function.symbol =
      m.funcs.map Ast.Function.symbol := by
    rw [List.map_map]
    refine (map_eq_of_forall₂ (hfun.imp fun f F' hfF => ?_)).symm
    obtain ⟨hname, hsig⟩ := hfF
    simp only [Function.comp_apply, Ast.Function.symbol, Function.toAst, hname, hsig]
  -- so the written module has the same scope
  have hs' : Scope.ofModule { m with
      globals := globals.map Global.toAst, funcs := funcs'.map Function.toAst } = .ok s := by
    refine Scope.ofModule_eq_ok_iff.mpr ⟨types, s₀, htypes, hs₀, ?_, ?_, ?_, ?_⟩
    · intro g hg
      obtain ⟨G, hG, rfl⟩ := List.mem_map.mp hg
      obtain ⟨g₀, -, _, _, hlow⟩ := forall₂_exists_left hgs G hG
      obtain ⟨-, hty, hwf⟩ := Scope.lowerGlobal_ok hlow
      rw [hstypes] at hwf
      rw [← hty] at hwf
      exact hwf
    · intro f hf
      obtain ⟨F', hF', rfl⟩ := List.mem_map.mp hf
      obtain ⟨f₀, hf₀, -, hsig⟩ := forall₂_exists_left hfun F' hF'
      exact (Ast.Header.wellTyped_iff_of_writtenSig hsig).mpr (hwff f₀ hf₀)
    · have hg := congrArg (List.map Prod.fst) hgsym
      have hf := congrArg (List.map Prod.fst) hfsym
      simp only [List.map_map, Function.comp_def, Ast.Global.symbol_fst,
        Ast.Function.symbol_fst] at hg hf
      simpa [List.map_map, Function.comp_def, hg, hf] using hnd
    · rw [hseq, hgsym, hfsym]
  -- its items check back from the same queue to the same queue
  have hitems' : (s.lowerItems { m with
      globals := globals.map Global.toAst, funcs := funcs'.map Function.toAst }).run.run {} =
      (.ok (globals.map Global.canonical, funcs'.map Function.canonical), queue) := by
    unfold Scope.lowerItems at hitems ⊢
    obtain ⟨gs, q₁, hgs', h₁⟩ := LowerM.bind_ok hitems
    obtain ⟨fs, q₂, hfs', h₂⟩ := LowerM.bind_ok h₁
    rw [LowerM.run_pure] at h₂
    cases h₂
    have hG := LowerM.mapM_rerun_forall₂ (R := Eq) (g := s.lowerGlobal ∘ Global.toAst)
      (c := Global.canonical) hgs' (List.forall₂_same.mpr fun _ _ => rfl)
      fun _ hz hstep hyz => by
        subst hyz
        exact Scope.lowerGlobal_toAst hb hcd hstep (hinits _ hz)
    have hF := LowerM.mapM_rerun_forall₂ (g := s.lowerFunction ∘ Function.toAst)
      (c := Function.canonical) hfs' hnum fun hx hz hstep hyz => by
        obtain ⟨hdefs, hcs, hks⟩ := Function.assignIds_keeps hyz
        refine Scope.lowerFunction_toAst hb hcd hstep (hblocks _ hx) hyz ?_ ?_ ?_
        · intro hv
          obtain ⟨d, hd, hvd⟩ := hv
          exact hnv _ hz ⟨d, hdefs ▸ hd, hvd⟩
        · intro c hc
          exact hcalls _ hz c (hcs ▸ hc)
        · intro k hk
          exact hconsts _ hz k (hks ▸ hk)
    dsimp only
    rw [List.mapM_map, List.mapM_map, LowerM.run_bind_of_ok hG, LowerM.run_bind_of_ok hF]
    rfl
  -- numbering leaves the canonical functions as they are
  have hcanon : (funcs'.map Function.canonical).mapM Function.assignIds =
      .ok (funcs'.map Function.canonical) := by
    rw [List.mapM_map]
    exact Except.mapM_eq_ok_map fun F hF => Function.assignIds_canonical (hnumbered F hF).2
  rw [hMtoAst, lowerModule_of_items hs' hitems', Module.assignIds_of_funcs hcanon]
  -- the queue drains in the written module as in the first
  refine Except.bind_eq_ok_iff.mpr ⟨_, rfl, Except.bind_eq_ok_iff.mpr ⟨n, ?_, ?_⟩⟩
  · rw [FixupQueue.drain_canonical (M := M₁) (by rw [hM₁f])]
    exact hdrain
  · rw [hM]
    rfl

end LlvmAsm
