import LlvmAsm.Proofs.Written.Form
import LlvmAsm.Proofs.Lowering.FirstPass

/-!
# `Proofs.Written.FirstPass` — the first pass over the written form of a function

The written form of a checked function names every local it defines: a parameter, a label and a
numbered result by the name it is printed with, the `void` result of a call not at all
(`LocalDef.writtenKey`). The first pass over it therefore defines, site by site in text order, a
local under that name, and records it as the written form shows it (`LocalDef.writtenRecord`):
with the identity it is printed with and the type of its site.

For that the sites must take the next slots in order, their written names must be new and
distinct, and none may be a load or phi of type `void`, whose written name the first pass refuses
(`WrittenSites`); and the first pass must read off each written instruction the type of its site
(`Block.DeclaresSiteTypes`). Main statement: `Scope.declareBody_written`.
-/

namespace LlvmAsm

namespace LocalDef

/-- The name the written form of a function gives a site: the name it is printed with, none for
a site numbering skips (the `void` result of a call). -/
def writtenKey (t : LocalTable) (d : LocalDef) : Option Ast.LocalName :=
  if d.numbered then some (t.name d.slot) else none

/-- The record the first pass over the written form makes for a site. -/
def writtenRecord (t : LocalTable) (d : LocalDef) : LocalRecord where
  slot := d.slot
  ident := if d.numbered then t.ident d.slot else .anon 0
  key := d.writtenKey t
  ty := d.ty

theorem writtenRecord_key (t : LocalTable) (d : LocalDef) : (d.writtenRecord t).key = d.writtenKey t :=
  rfl

/-- Defining a site under its written name records it as the written form shows it. -/
theorem ofDefine_writtenKey {t : LocalTable} {d : LocalDef} {hist : List LocalRecord}
    (hslot : d.slot = hist.length) :
    LocalRecord.ofDefine hist (d.writtenKey t) d.ty d.numbered = d.writtenRecord t := by
  unfold LocalRecord.ofDefine writtenRecord writtenKey
  cases d.numbered <;> simp [hslot, LocalTable.name, LocalIdent.ofName_toName]

/-- A parameter, a label, or a result that is not a `void` value of a call is numbered. -/
theorem numbered_of_not_void {d : LocalDef} (h : d.ty.isVoid = false) : d.numbered = true := by
  simp [numbered, h]

/-- The site of a result of type `void` that is not a load or phi is a call's, and is not
numbered. -/
theorem numbered_of_void {d : LocalDef} (hres : d.kind.isResult = true) (hv : ¬ d.IsVoidValue)
    (hvoid : d.ty.isVoid = true) : d.numbered = false := by
  obtain ⟨slot, ty, kind⟩ := d
  cases kind with
  | param => cases hres
  | block => cases hres
  | result call =>
    cases call with
    | false => exact absurd ⟨rfl, Ty.isVoid_eq_true_iff.mp hvoid⟩ hv
    | true => simp [numbered, hvoid]

end LocalDef

/-- **Sites the first pass can define under their written names** after the records `hist`: they
take the next slots in order, their written names are distinct and new, and none is a load or phi
of type `void`. -/
structure WrittenSites (t : LocalTable) (hist : List LocalRecord) (sites : List LocalDef) : Prop where
  slots : sites.map (·.slot) = List.range' hist.length sites.length
  nodup : (sites.filterMap (·.writtenKey t)).Nodup
  fresh : ∀ r ∈ hist, ∀ d ∈ sites, ∀ k, d.writtenKey t = some k → r.key ≠ some k
  noVoid : ∀ d ∈ sites, ¬ d.IsVoidValue

namespace WrittenSites

variable {t : LocalTable} {hist : List LocalRecord}

/-- The first site takes the next slot under a new name, and is no `void` value. -/
theorem head {d : LocalDef} {rest : List LocalDef} (h : WrittenSites t hist (d :: rest)) :
    d.slot = hist.length ∧ (∀ k, d.writtenKey t = some k → ∀ r ∈ hist, r.key ≠ some k) ∧
      ¬ d.IsVoidValue := by
  have hslots := h.slots
  rw [List.map_cons, List.length_cons, List.range'_succ, List.cons.injEq] at hslots
  exact ⟨hslots.1, fun k hk r hr => h.fresh r hr d List.mem_cons_self k hk,
    h.noVoid d List.mem_cons_self⟩

/-- Sites split in two: the first part can be defined, then the second after its records. -/
theorem append {A B : List LocalDef} (h : WrittenSites t hist (A ++ B)) :
    WrittenSites t hist A ∧ WrittenSites t (hist ++ A.map (·.writtenRecord t)) B := by
  have hslots := h.slots
  rw [List.map_append, List.length_append, ← List.range'_append, Nat.one_mul] at hslots
  obtain ⟨hA, hB⟩ := List.append_inj hslots (by simp)
  have hnodup := h.nodup
  rw [List.filterMap_append, List.nodup_append] at hnodup
  refine ⟨⟨hA, hnodup.1, fun r hr d hd => h.fresh r hr d (List.mem_append_left _ hd),
      fun d hd => h.noVoid d (List.mem_append_left _ hd)⟩,
    ⟨by rw [hB, List.length_append, List.length_map], hnodup.2.1, ?_,
      fun d hd => h.noVoid d (List.mem_append_right _ hd)⟩⟩
  intro r hr d hd k hk hrk
  rcases List.mem_append.mp hr with hr | hr
  · exact h.fresh r hr d (List.mem_append_right _ hd) k hk hrk
  · -- a record of the first part has the written name of its site, which the second part lacks
    obtain ⟨d', hd', rfl⟩ := List.mem_map.mp hr
    exact hnodup.2.2 k (List.mem_filterMap.mpr ⟨d', hd', hrk⟩) k
      (List.mem_filterMap.mpr ⟨d, hd, hk⟩) rfl

end WrittenSites

namespace Locals

variable {l : Locals} {hist : List LocalRecord} {t : LocalTable}

/-- Defining under a new name, or as an unnumbered local without one, succeeds. -/
theorem define_ok_of_fresh (h : l.Realizes hist) {name : Option Ast.LocalName} {ty : Ty}
    {numbered : Bool} (hfresh : ∀ k, name = some k → ∀ r ∈ hist, r.key ≠ some k)
    (hnone : name = none → numbered = false) : ∃ p, l.define name ty numbered = .ok p := by
  have hnew : ∀ k, name = some k → (l.entries.lookup k).isSome = false := by
    intro k hk
    rw [Bool.eq_false_iff]
    intro hsome
    obtain ⟨r, hr, hrk⟩ := (h.lookup_isSome k).mp hsome
    exact hfresh k hk r hr hrk
  match name, hnew, hnone with
  | none, _, hnone => simp [define, hnone rfl]
  | some (.name n), hnew, _ => simp [define, bind, hnew _ rfl]
  | some (.number k), hnew, _ => simp [define, bind, hnew _ rfl]

/-- **The step lemma of the written first pass**: a site is defined under its written name, at
    its slot, and recorded as the written form shows it. -/
theorem define_written {d : LocalDef} (h : l.Tracks hist) (hs : WrittenSites t hist [d]) :
    ∃ l', l.define (d.writtenKey t) d.ty d.numbered = .ok (d.slot, l') ∧ l'.func = l.func ∧
      l'.Tracks (hist ++ [d.writtenRecord t]) := by
  obtain ⟨hslot, hfresh, -⟩ := hs.head
  have hnone : d.writtenKey t = none → d.numbered = false := by
    unfold LocalDef.writtenKey
    cases d.numbered <;> simp
  obtain ⟨⟨slot, l'⟩, hdef⟩ := define_ok_of_fresh h.realizes hfresh hnone
  obtain ⟨rfl, hfunc, ht⟩ := define_tracks h hdef
  rw [LocalDef.ofDefine_writtenKey hslot] at ht
  exact ⟨l', by rw [hdef, hslot], hfunc, ht⟩

/-- The written result of a site that is no `void` value is defined as the site says. -/
theorem defineResult_written {d : LocalDef} (hres : d.kind.isResult = true) (hv : ¬ d.IsVoidValue) :
    l.defineResult (d.writtenKey t) d.ty = l.define (d.writtenKey t) d.ty d.numbered := by
  unfold defineResult
  cases hvoid : d.ty.isVoid
  · rw [LocalDef.numbered_of_not_void hvoid]
    rfl
  · have hn := LocalDef.numbered_of_void hres hv hvoid
    simp only [if_true, LocalDef.writtenKey, hn, Bool.false_eq_true, if_false]

/-- The parameters of a definition, each written with its name, are defined in order. -/
theorem defineParams_written :
    ∀ {ps : List Param} {l : Locals} {hist : List LocalRecord}, l.Tracks hist →
      WrittenSites t hist (ps.map fun p => ⟨p.slot, p.ty, .param⟩) →
      ∃ l', l.defineParams (ps.map fun p => ((⟨p.ty, p.attrs, some (t.name p.slot)⟩ : Ast.Param), p.ty)) =
          .ok (ps.map (·.slot), l') ∧ l'.func = l.func ∧
        l'.Tracks (hist ++ (ps.map fun p => (⟨p.slot, p.ty, .param⟩ : LocalDef)).map (·.writtenRecord t))
  | [], l, hist, h, _ => ⟨l, rfl, rfl, by simpa using h⟩
  | p :: ps, l, hist, h, hs => by
    rw [List.map_cons, ← List.singleton_append] at hs
    obtain ⟨hp, hrest⟩ := hs.append
    obtain ⟨l₁, hdef, hf₁, ht₁⟩ := define_written h hp
    obtain ⟨l₂, hdefs, hf₂, ht₂⟩ := defineParams_written ht₁ hrest
    refine ⟨l₂, ?_, hf₂.trans hf₁, by simpa using ht₂⟩
    rw [List.map_cons, defineParams]
    exact Except.bind_eq_ok_iff.mpr ⟨_, hdef, Except.bind_eq_ok_iff.mpr ⟨_, hdefs, rfl⟩⟩

end Locals

/-- **The first pass reads the types of a block's sites off its written form**: each written
instruction declares the type of its site (none for a store), and a written invoke the signature
of its call. -/
def Block.DeclaresSiteTypes (s : Scope) (t : LocalTable) (B : Block) : Prop :=
  (∀ I ∈ B.insts, s.resultType (I.kind.toAst t) = .ok (I.localDef?.map (·.ty))) ∧
    ∀ res c normal unwind, B.term = .invoke res c normal unwind → s.callSignature (c.toAst t) = .ok c.sig

/-- What the first pass gives a block: its label's slot, its instructions' result slots and an
invoke's result slot. -/
def Block.declared (B : Block) : DeclaredBlock :=
  ⟨B.label, B.insts.map (·.result), B.term.localDef?.map (·.slot)⟩

namespace Scope

variable {s : Scope} {l : Locals} {hist : List LocalRecord} {t : LocalTable}

theorem Instruction.localDef?_result {I : Instruction} {d : LocalDef} (h : I.localDef? = some d) :
    I.result = some d.slot ∧ d.kind.isResult = true ∧
      (I.numberedSlot).map t.name = d.writtenKey t := by
  rcases I with ⟨_ | slot, kind⟩
  · cases h
  · simp only [Instruction.localDef?, Option.map_some, Option.some.injEq] at h
    subst h
    refine ⟨rfl, rfl, ?_⟩
    rw [Instruction.numberedSlot_eq]
    simp only [Instruction.localDef?, Option.map_some, LocalDef.writtenKey]
    cases hn : (⟨slot, kind.resultTy, .result kind.isCall⟩ : LocalDef).numbered <;>
      simp [Option.filter, hn]

/-- **One written instruction** defines its site, if it has one, under its written name. -/
theorem declareInst_written {I : Instruction} (h : l.Tracks hist)
    (hres : s.resultType (I.kind.toAst t) = .ok (I.localDef?.map (·.ty)))
    (hs : WrittenSites t hist I.localDef?.toList) :
    ∃ l', s.declareInst l (I.toAst t) = .ok (I.result, l') ∧ l'.func = l.func ∧
      l'.Tracks (hist ++ I.localDef?.toList.map (·.writtenRecord t)) := by
  unfold declareInst
  cases hI : I.localDef? with
  | none =>
    have hnone : I.result = none := by
      cases hr : I.result with
      | none => rfl
      | some slot => simp [Instruction.localDef?, hr] at hI
    have hnum : (I.toAst t).result = none := by
      simp [Instruction.toAst, Instruction.numberedSlot_eq, hI]
    rw [hI] at hres
    refine ⟨l, Except.bind_eq_ok_iff.mpr ⟨none, hres, ?_⟩, rfl, by simpa using h⟩
    simp only [hnum, hnone]
    rfl
  | some d =>
    obtain ⟨hresult, hkindRes, hkey⟩ := Instruction.localDef?_result (t := t) hI
    rw [hI, Option.toList_some] at hs
    rw [hI] at hres
    obtain ⟨l', hdef, hf, ht⟩ := Locals.define_written h hs
    have hres' : (I.toAst t).result = d.writtenKey t := hkey
    refine ⟨l', Except.bind_eq_ok_iff.mpr ⟨some d.ty, hres, ?_⟩, hf, by simpa using ht⟩
    rw [Except.bind_eq_ok_iff, hres', Locals.defineResult_written hkindRes hs.head.2.2, hdef, hresult]
    exact ⟨_, rfl, rfl⟩

/-- **Written instructions** define their sites in order. -/
theorem declareInsts_written :
    ∀ {insts : List Instruction} {l : Locals} {hist : List LocalRecord}, l.Tracks hist →
      (∀ I ∈ insts, s.resultType (I.kind.toAst t) = .ok (I.localDef?.map (·.ty))) →
      WrittenSites t hist (insts.filterMap (·.localDef?)) →
      ∃ l', s.declareInsts l (insts.map (·.toAst t)) = .ok (insts.map (·.result), l') ∧
        l'.func = l.func ∧
        l'.Tracks (hist ++ (insts.filterMap (·.localDef?)).map (·.writtenRecord t))
  | [], l, hist, h, _, _ => ⟨l, rfl, rfl, by simpa using h⟩
  | I :: rest, l, hist, h, hres, hs => by
    have hsplit : (I :: rest).filterMap (·.localDef?) =
        I.localDef?.toList ++ rest.filterMap (·.localDef?) := by
      cases hI : I.localDef? <;> simp [hI]
    rw [hsplit] at hs
    obtain ⟨hI, hrest⟩ := hs.append
    obtain ⟨l₁, hdecl, hf₁, ht₁⟩ := declareInst_written h (hres I List.mem_cons_self) hI
    obtain ⟨l₂, hdecls, hf₂, ht₂⟩ :=
      declareInsts_written ht₁ (fun J hJ => hres J (List.mem_cons_of_mem _ hJ)) hrest
    refine ⟨l₂, ?_, hf₂.trans hf₁, by rw [hsplit, List.map_append, ← List.append_assoc]; exact ht₂⟩
    rw [List.map_cons, declareInsts]
    exact Except.bind_eq_ok_iff.mpr ⟨_, hdecl, Except.bind_eq_ok_iff.mpr ⟨_, hdecls, rfl⟩⟩

/-- **A written terminator** defines an invoke's result under its written name. -/
theorem declareTerm_written {T : Terminator} (h : l.Tracks hist)
    (hsig : ∀ res c normal unwind, T = .invoke res c normal unwind →
      s.callSignature (c.toAst t) = .ok c.sig)
    (hs : WrittenSites t hist T.localDef?.toList) :
    ∃ l', s.declareTerm l (T.toAst t) = .ok (T.localDef?.map (·.slot), l') ∧ l'.func = l.func ∧
      l'.Tracks (hist ++ T.localDef?.toList.map (·.writtenRecord t)) := by
  cases T with
  | invoke res c normal unwind =>
    simp only [Terminator.localDef?, Option.toList_some] at hs
    obtain ⟨l', hdef, hf, ht⟩ := Locals.define_written h hs
    refine ⟨l', ?_, hf, by simpa [Terminator.localDef?] using ht⟩
    have hkey : (Terminator.invoke res c normal unwind).numberedSlot.map t.name =
        (⟨res, c.sig.ret, .result true⟩ : LocalDef).writtenKey t := by
      rw [Terminator.numberedSlot_eq]
      simp only [Terminator.localDef?, LocalDef.writtenKey]
      cases hn : (⟨res, c.sig.ret, .result true⟩ : LocalDef).numbered <;> simp [Option.filter, hn]
    simp only [Terminator.toAst, declareTerm, hsig res c normal unwind rfl, bind, Except.bind,
      hkey, Locals.defineResult_written rfl hs.head.2.2, hdef]
    rfl
  | ret value => exact ⟨l, rfl, rfl, by simpa [Terminator.localDef?] using h⟩
  | br target => exact ⟨l, rfl, rfl, by simpa [Terminator.localDef?] using h⟩
  | condBr cond a b => exact ⟨l, rfl, rfl, by simpa [Terminator.localDef?] using h⟩
  | unreachable => exact ⟨l, rfl, rfl, by simpa [Terminator.localDef?] using h⟩

/-- **A written block** defines its label, then the sites of its instructions and invoke. -/
theorem declareBlock_written {B : Block} (h : l.Tracks hist) (hB : B.DeclaresSiteTypes s t)
    (hs : WrittenSites t hist B.localDefs) :
    ∃ l', s.declareBlock l (B.toAst t) = .ok (B.declared, l') ∧ l'.func = l.func ∧
      l'.Tracks (hist ++ B.localDefs.map (·.writtenRecord t)) := by
  rw [Block.localDefs, ← List.singleton_append] at hs
  obtain ⟨hlabel, hs⟩ := hs.append
  obtain ⟨hinsts, hterm⟩ := hs.append
  obtain ⟨l₁, hdef, hf₁, ht₁⟩ := Locals.define_written h hlabel
  obtain ⟨l₂, hdecls, hf₂, ht₂⟩ := declareInsts_written ht₁ hB.1 hinsts
  obtain ⟨l₃, hterm', hf₃, ht₃⟩ := declareTerm_written ht₂ (hB.2 · · · · ·) hterm
  refine ⟨l₃, ?_, hf₃.trans (hf₂.trans hf₁), by simpa [Block.localDefs] using ht₃⟩
  unfold declareBlock
  exact Except.bind_eq_ok_iff.mpr ⟨_, hdef, Except.bind_eq_ok_iff.mpr ⟨_, hdecls,
    Except.bind_eq_ok_iff.mpr ⟨_, hterm', rfl⟩⟩⟩

/-- **Written blocks** define their sites in order. -/
theorem declareBlocks_written :
    ∀ {Bs : List Block} {l : Locals} {hist : List LocalRecord}, l.Tracks hist →
      (∀ B ∈ Bs, B.DeclaresSiteTypes s t) → WrittenSites t hist (Bs.flatMap Block.localDefs) →
      ∃ l', s.declareBlocks l (Bs.map (·.toAst t)) = .ok (Bs.map Block.declared, l') ∧
        l'.func = l.func ∧ l'.Tracks (hist ++ (Bs.flatMap Block.localDefs).map (·.writtenRecord t))
  | [], l, hist, h, _, _ => ⟨l, rfl, rfl, by simpa using h⟩
  | B :: rest, l, hist, h, hB, hs => by
    rw [List.flatMap_cons] at hs
    obtain ⟨hfirst, hrest⟩ := hs.append
    obtain ⟨l₁, hdecl, hf₁, ht₁⟩ := declareBlock_written h (hB B List.mem_cons_self) hfirst
    obtain ⟨l₂, hdecls, hf₂, ht₂⟩ :=
      declareBlocks_written ht₁ (fun B' hB' => hB B' (List.mem_cons_of_mem _ hB')) hrest
    refine ⟨l₂, ?_, hf₂.trans hf₁, by simpa using ht₂⟩
    rw [List.map_cons, declareBlocks]
    exact Except.bind_eq_ok_iff.mpr ⟨_, hdecl, Except.bind_eq_ok_iff.mpr ⟨_, hdecls, rfl⟩⟩

/-- **The first pass over the written form of a definition** defines its parameters and the
    sites of its blocks under their written names, in order, and records them as the written form
    shows them; it gives back the parameters' slots and what each block declares. -/
theorem declareBody_written {F : Function} (hdef : F.isDeclaration = false)
    (hparams : F.params.map (·.ty) = F.sig.params)
    (hB : ∀ B ∈ F.blocks, B.DeclaresSiteTypes s F.locals)
    (hs : WrittenSites F.locals [] F.localDefs) :
    ∃ l', s.declareBody F.headerAst F.sig F.bodyAst.blocks =
        .ok (F.params.map (·.slot), F.blocks.map Block.declared, l') ∧
      l'.func = F.name ∧ l'.Tracks (F.localDefs.map (·.writtenRecord F.locals)) := by
  rw [Function.localDefs] at hs
  obtain ⟨hps, hblocks⟩ := hs.append
  obtain ⟨l₁, hdefs, hf₁, ht₁⟩ :=
    Locals.defineParams_written (Locals.tracks_empty F.name) hps
  obtain ⟨l₂, hdecls, hf₂, ht₂⟩ := declareBlocks_written ht₁ hB hblocks
  refine ⟨l₂, ?_, hf₂.trans hf₁, by simpa [Function.localDefs] using ht₂⟩
  -- a definition writes every parameter with its name, at the type the signature gives it
  have hzip : F.headerAst.params.zip F.sig.params =
      F.params.map fun p => ((⟨p.ty, p.attrs, some (F.locals.name p.slot)⟩ : Ast.Param), p.ty) := by
    rw [← hparams]
    simp only [Function.headerAst, Function.paramName, hdef, Bool.not_false, Bool.true_or, if_true]
    exact List.zip_map'
  rw [← hzip] at hdefs
  unfold declareBody
  exact Except.bind_eq_ok_iff.mpr ⟨_, hdefs, Except.bind_eq_ok_iff.mpr ⟨_, hdecls, rfl⟩⟩

end Scope

end LlvmAsm
