import LlvmAsm.Proofs.Printed.Module
import LlvmAsm.Proofs.Written.Module

/-!
# `Proofs.CanonicalText` — when formatting the canonical text gives it back

`formatModule` reads a text, checks it and prints the checked module. Formatting the printed text
again reads it back as the module's written form (`Module.parseModule_print`), checks that form back
to the module up to what its text does not show (`lowerModule_toAst`), and prints the same text
(`Module.print_canonical`). So the canonical text is a fixed point of formatting, for every module
that meets the conditions the two halves need (`Module.Reformats`): no load or phi of type `void`,
calls that keep their signature in writing, constants that read back, and a text whose every part
reads back.

The check back needs one fact of reading alone: every body a text is read into has a block, since
reading refuses a body with none (`parseModule_bodiesHaveBlocks`). It is an invariant of the results
of the readers (`Reader.Gives`), carried from the body's items to the module's.
-/

namespace LlvmAsm

open Ast Reader

/-! ## Every body read has a block -/

namespace Ast.Reader

/-- Every value a reader returns, from any cursor, has the property. -/
def Gives {α : Type} (x : Reader α) (P : α → Prop) : Prop :=
  ∀ c a c', x.run c = .ok (a, c') → P a

namespace Gives

variable {α β : Type} {P : β → Prop}

theorem bind {x : Reader α} {f : α → Reader β} {Q : α → Prop} (hx : Gives x Q)
    (hf : ∀ a, Q a → Gives (f a) P) : Gives (x >>= f) P := by
  intro c b c' h
  simp only [StateT.run_bind] at h
  cases hrun : x.run c with
  | error e =>
    rw [hrun] at h
    cases h
  | ok p =>
    obtain ⟨a, c₁⟩ := p
    rw [hrun] at h
    exact hf a (hx c a c₁ hrun) c₁ b c' h

theorem any (x : Reader α) : Gives x fun _ => True := fun _ _ _ _ => trivial

theorem pure {b : β} (h : P b) : Gives (Pure.pure b) P := by
  intro c b' c' hrun
  cases hrun
  exact h

theorem fail (msg : String) : Gives (Reader.fail msg : Reader β) P := by
  intro c b c' h
  cases h

end Gives

/-- **A body read has a block**: the closing brace of a body with none is refused. -/
theorem gives_bodyItems (fuel steps : Nat) : ∀ blocks uses,
    Gives (bodyItems fuel steps blocks uses) fun body => body.blocks ≠ [] := by
  induction steps with
  | zero => exact fun _ _ => Gives.fail _
  | succ steps ih =>
    intro blocks uses
    unfold bodyItems
    refine Gives.bind (Gives.any _) fun _ _ => Gives.bind (Gives.any _) fun _ _ => ?_
    split
    · -- the closing brace: the blocks read so far, when there are some
      refine Gives.bind (Gives.any _) fun _ _ => ?_
      split
      · exact Gives.fail _
      · rename_i hne
        exact Gives.pure (by simpa using hne)
    · exact Gives.fail _
    · -- a use-list order or a block, and the items after it
      refine Gives.bind (Gives.any _) fun _ _ => ?_
      split
      · exact Gives.bind (Gives.any _) fun _ _ => ih _ _
      · refine Gives.bind (Gives.any _) fun _ _ => ?_
        split
        · exact Gives.fail _
        · exact Gives.bind (Gives.any _) fun _ _ => ih _ _

theorem gives_parseDefine (fuel steps : Nat) :
    Gives (parseDefine fuel steps) fun f => ∀ body, f.body = some body → body.blocks ≠ [] := by
  unfold parseDefine parseBody
  refine Gives.bind (Gives.any _) fun _ _ => Gives.bind (Gives.any _) fun _ _ =>
    Gives.bind (Gives.any _) fun _ _ =>
      Gives.bind (Gives.bind (Gives.any _) fun _ _ => gives_bodyItems fuel steps [] [])
        fun body hbody => Gives.pure fun b hb => ?_
  cases hb
  exact hbody

theorem gives_parseDeclare (fuel steps : Nat) :
    Gives (parseDeclare fuel steps) fun f => ∀ body, f.body = some body → body.blocks ≠ [] := by
  unfold parseDeclare
  exact Gives.bind (Gives.any _) fun _ _ => Gives.bind (Gives.any _) fun _ _ =>
    Gives.bind (Gives.any _) fun _ _ => Gives.pure fun _ hb => by cases hb

end Ast.Reader

/-- Every body of a module's functions has a block. -/
def Ast.Module.BodiesHaveBlocks (m : Ast.Module) : Prop :=
  ∀ f ∈ m.funcs, ∀ body, f.body = some body → body.blocks ≠ []

theorem Ast.Module.BodiesHaveBlocks.append {m : Ast.Module} (hm : m.BodiesHaveBlocks)
    {f : Ast.Function} (hf : ∀ body, f.body = some body → body.blocks ≠ []) :
    { m with funcs := m.funcs ++ [f] }.BodiesHaveBlocks := by
  intro g hg
  rcases List.mem_append.mp hg with hg | hg
  · exact hm g hg
  · rw [List.mem_singleton.mp hg]
    exact hf

/-- The module loop keeps every body with a block: a function it adds was read by
`parseDeclare` or `parseDefine`, and the other items leave the functions as they are. -/
theorem Ast.Reader.gives_moduleItems (fuel steps : Nat) : ∀ m : Ast.Module, m.BodiesHaveBlocks →
    Gives (moduleItems fuel steps m) Ast.Module.BodiesHaveBlocks := by
  induction steps with
  | zero => exact fun _ _ => Gives.fail _
  | succ steps ih =>
    intro m hm
    unfold moduleItems
    refine Gives.bind (Gives.any _) fun _ _ => Gives.bind (Gives.any _) fun _ _ => ?_
    -- one case for the end, each first character and each leading word
    split
    · exact Gives.pure hm
    · exact Gives.bind (Gives.any _) fun _ _ => ih _ hm
    · exact Gives.bind (Gives.any _) fun _ _ => ih _ hm
    · exact Gives.bind (Gives.any _) fun _ _ => ih _ hm
    · refine Gives.bind (Gives.any _) fun _ _ => ?_
      split
      · exact Gives.bind (Gives.any _) fun _ _ => Gives.bind (Gives.any _) fun _ _ => ih _ hm
      · refine Gives.bind (Gives.any _) fun _ _ => ?_
        split
        · exact Gives.bind (Gives.any _) fun _ _ => Gives.bind (Gives.any _) fun _ _ => ih _ hm
        · exact Gives.bind (Gives.any _) fun _ _ => Gives.bind (Gives.any _) fun _ _ => ih _ hm
        · exact Gives.fail _
      · exact Gives.bind (gives_parseDeclare fuel steps) fun _ hf => ih _ (hm.append hf)
      · exact Gives.bind (gives_parseDefine fuel steps) fun _ hf => ih _ (hm.append hf)
      · exact Gives.bind (Gives.any _) fun _ _ => ih _ hm
      · exact Gives.fail _

/-- **Every body a text is read into has a block.** -/
theorem parseModule_bodiesHaveBlocks {text : String} {tree : Ast.Module}
    (h : parseModule text = .ok tree) : tree.BodiesHaveBlocks := by
  unfold parseModule at h
  dsimp only at h
  split at h
  · rename_i m c hrun
    cases h
    exact Reader.gives_moduleItems _ _ {} (fun _ h => by cases h) _ _ _ hrun
  · cases h

/-! ## The canonical text is a fixed point -/

/-- **What a checked module needs for its canonical text to format to itself**: no function has a
load or phi of type `void`, every call keeps its signature in writing, every constant of a function
reads back, and every part of its text reads back. -/
structure Module.Reformats (M : Module) : Prop where
  noVoid : ∀ F ∈ M.funcs, ¬ F.HasVoidValue
  calls : ∀ F ∈ M.funcs, ∀ c ∈ F.calls, c.KeepsSignature
  consts : ∀ F ∈ M.funcs, ∀ k ∈ F.constants, k.Readable
  rereads : M.Rereads

/-- **The canonical text is a fixed point of formatting**: the text a module checked from any text
prints to formats to itself, when the module meets `Module.Reformats`. -/
theorem formatModule_printed_fixed {text out : String} {tree : Ast.Module} {M : Module}
    (hparse : parseModule text = .ok tree) (hlower : lowerModule tree = .ok M)
    (hprint : M.print = .ok out) (hM : M.Reformats) : formatModule out = .ok out := by
  -- reading the text back gives the written form, and checking that gives the module back
  have hnum : ∀ F ∈ M.funcs, F.assignIds = .ok F := fun F hF =>
    (lowerModule_funcs_numbered hlower F hF).2
  have hread := Module.parseModule_print hM.rereads hnum hprint
  have hcheck := lowerModule_toAst hlower (parseModule_bodiesHaveBlocks hparse) hM.noVoid hM.calls
    hM.consts fun G hG => (hM.rereads.globals G hG).init
  simp only [formatModule, hread, hcheck, bind, Except.bind, Module.print_canonical, hprint]

/-- A module in canonical form: a header line, a recursive type, a comdat and a declaration. -/
def canonicalSample : String :=
  "source_filename = \"a.c\"\n\n%T = type \x7b i32, %T* \x7d\n\n$c = comdat any\n\ndeclare %T* @f()\n"

/-- The sample formats to itself. -/
theorem canonicalSample_fixed : formatModule canonicalSample = .ok canonicalSample := by
  -- the stages and the facts the module needs, evaluated once by the kernel
  have hrun : (match parseModule canonicalSample with
      | .ok tree => match lowerModule tree with
        | .ok M => M.globals.isEmpty && M.attrGroups.isEmpty &&
            M.types.defs.all (fun e => e.2.all Ty.fits) &&
            M.funcs.all (fun F => F.callingConv.isNone && F.returnAttrs.isEmpty && F.sig.ret.fits &&
              F.params.isEmpty && F.funcAttrs.isEmpty && F.suffixConsts.isEmpty && F.metadata.isEmpty &&
              F.locals.isEmpty && F.blocks.isEmpty && F.useLists.isEmpty && F.constants.isEmpty &&
              decide (¬ F.HasVoidValue)) &&
            decide (M.print = .ok canonicalSample)
        | .error _ => false
      | .error _ => false) = true := by
    decide +kernel
  cases hp : parseModule canonicalSample with
  | error e =>
    rw [hp] at hrun
    cases hrun
  | ok tree =>
    rw [hp] at hrun
    dsimp only at hrun
    cases hl : lowerModule tree with
    | error e =>
      rw [hl] at hrun
      cases hrun
    | ok M =>
      rw [hl] at hrun
      simp only [Bool.and_eq_true, List.isEmpty_iff, List.all_eq_true, Option.all_eq_true,
        Option.isNone_iff_eq_none, Array.isEmpty_iff, decide_eq_true_eq] at hrun
      obtain ⟨⟨⟨⟨hg, ha⟩, ht⟩, hfs⟩, hprint⟩ := hrun
      have hnone : ∀ {α : Type} {P : α → Prop} {xs : List α}, xs = [] → ∀ x ∈ xs, P x :=
        fun h x hx => by subst h; cases hx
      -- the declaration has nothing a text could fail to read back
      have hfunc : ∀ F ∈ M.funcs, F.Rereads ∧ ¬ F.HasVoidValue ∧ F.calls = [] ∧ F.constants = [] := by
        intro F hF
        obtain ⟨⟨⟨⟨⟨⟨⟨⟨⟨⟨⟨hcc, hra⟩, hret⟩, hps⟩, hfa⟩, hsc⟩, hmd⟩, hloc⟩, hbs⟩, hus⟩, hks⟩, hnv⟩ := hfs F hF
        refine ⟨⟨⟨fun cc h => (by rw [hcc] at h; cases h), hnone hra, hret, hnone hps,
          ⟨hnone hfa, hnone hsc⟩⟩, fun _ _ _ _ a h => (by rw [hra] at h; cases h), hnone hmd,
          fun slot id h => ?_, hnone hbs, hnone hus⟩, hnv, (by simp [Function.calls, hbs]), hks⟩
        simp [LocalTable.ident, hloc] at h
        subst h
        decide
      refine formatModule_printed_fixed hp hl hprint ⟨fun F hF => ?_, fun F hF => ?_, fun F hF => ?_,
        ⟨ht, hnone hg, fun F hF => (hfunc F hF).1, hnone ha⟩⟩
      · exact (hfunc F hF).2.1
      · obtain ⟨-, -, hcalls, -⟩ := hfunc F hF
        exact hnone hcalls
      · obtain ⟨-, -, -, hks⟩ := hfunc F hF
        exact hnone hks

end LlvmAsm
