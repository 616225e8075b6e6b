import LlvmAsm.Proofs.Reading.Progress
import LlvmAsm.Ast.Grammar.Constant

/-!
# `Proofs.Reading.Nesting` — the nesting bound is never what stops reading

Types and constants are read by mutually recursive rules that take a `fuel` bound on their depth
and answer `exhausted` when it runs out. The bound that reading is given, `fuelFor`, is four per
remaining character and four more; this module shows that it never runs out.

The invariant is a bound per rule: rule `R` moves forward (`Progress`) whenever
`4 * remaining + m R ≤ fuel`, with a margin `m R` between 1 and 4. A rule spends one unit of fuel
to call another, so the callee may need up to one more unit per character than the caller had,
less three for each character read before the call. The margins are chosen so that every call
meets its callee's bound:

* a type (`m = 1`) reads a character before its lists (`m = 3`) and suffixes (`m = 1`); a list
  (`m = 3`) and a parameter list (`m = 3`) call their rest (`m = 2`) where they stand, and a rest
  calls a type where it stands;
* a constant (`m = 2`) calls a word constant (`m = 1`) where it stands and its lists (`m = 4`)
  after a bracket; a word constant reads its word before it calls a type, a typed constant
  (`m = 2`) or the indices of an element address (`m = 3`); a typed constant reads its type
  before its constant.

Each rule's step is proved from the bounds of the rules it calls at one unit less of fuel
(`TypesProgress.succ`, `ConstsProgress.succ`), and induction on the fuel gives them all
(`typesProgress`, `constsProgress`). Every step that reads at least one character says so
(`Progress _ _ 1`): those are the steps that pay for the calls after them.
-/

namespace LlvmAsm.Ast.Reader

open Cursor

/-! ## Types -/

/-- The rules for types move forward at `fuel`, each within its own bound. -/
structure TypesProgress (fuel : Nat) : Prop where
  type : ∀ c : Cursor, 4 * c.rest.length + 1 ≤ fuel → Progress (parseType fuel) c 1
  list : ∀ (c : Cursor) (close : Char), 4 * c.rest.length + 3 ≤ fuel →
    Progress (parseTypeList fuel close) c 0
  listRest : ∀ (c : Cursor) (close : Char), 4 * c.rest.length + 2 ≤ fuel →
    Progress (typeListRest fuel close) c 0
  params : ∀ c : Cursor, 4 * c.rest.length + 3 ≤ fuel → Progress (funcTypeParams fuel) c 0
  paramsRest : ∀ c : Cursor, 4 * c.rest.length + 2 ≤ fuel →
    Progress (funcTypeParamsRest fuel) c 0
  suffixes : ∀ (c : Cursor) (ty : Ty), 4 * c.rest.length + 1 ≤ fuel →
    Progress (typeSuffixes fuel ty) c 0

theorem progress_atEllipsis (c : Cursor) : Progress atEllipsis c 0 :=
  Moves.get_bind (Moves.pure _)

/-- A scalar type keyword is a word, so reading one reads a character. -/
theorem progress_scalarType (c : Cursor) : Progress scalarType c 1 := by
  rw [scalarType]
  refine Moves.bind (Reaches.refl c) (progress_readWord c) fun w c' _ hbc _ => ?_
  split
  case h_7 =>
    dsimp only
    split
    · split
      · exact Moves.pure _
      · exact Moves.fail hbc (append_append_ne_nests _ _ (by decide))
    · exact Moves.fail hbc (append_append_ne_nests _ _ (by decide))
  -- the six keywords that are whole types
  all_goals exact Moves.pure _

theorem TypesProgress.zero : TypesProgress 0 where
  type _ h := absurd h (by omega)
  list _ _ h := absurd h (by omega)
  listRest _ _ h := absurd h (by omega)
  params _ h := absurd h (by omega)
  paramsRest _ h := absurd h (by omega)
  suffixes _ _ h := absurd h (by omega)

section Types

variable {fuel : Nat} (ih : TypesProgress fuel)
include ih

/-- A type reads its base, which is at least one character, then its suffixes. -/
theorem TypesProgress.type_succ (c : Cursor) (h : 4 * c.rest.length + 1 ≤ fuel + 1) :
    Progress (parseType (fuel + 1)) c 1 := by
  have hskip := (reaches_skipBlanks c true).length_le
  -- the suffixes come after a base of at least one character
  have hsuffixes : ∀ (base : Ty) (c' : Cursor), c.Reaches c' →
      c'.rest.length + 1 ≤ (c.skipBlanks true).rest.length → Moves c (typeSuffixes fuel base) c' 0 :=
    fun base c' hbc' hlen => (ih.suffixes c' base (by omega)).lift hbc'
  rw [parseType]
  refine Moves.skipBlanks_bind (Reaches.refl c) fun hbc => Moves.peek_bind ?_
  dsimp only
  split
  · -- `%name` or `%N`
    refine Moves.bind hbc (progress_readLocal _) fun l c' _ hbc' hlen => ?_
    split
    · exact Moves.pure_bind (hsuffixes _ c' hbc' hlen)
    · exact Moves.pure_bind (hsuffixes _ c' hbc' hlen)
  · -- `[N x type]`
    next hhead =>
    refine Moves.bind hbc (progress_advance_of_head? _ hhead le_rfl) fun _ c₁ _ hbc₁ hlen₁ => ?_
    refine Moves.bind_tail hbc₁ (progress_readNumber c₁ _) fun _ c₂ _ hbc₂ hlen₂ => ?_
    refine Moves.bind_tail hbc₂ (progress_expectWord c₂ _) fun _ c₃ _ hbc₃ hlen₃ => ?_
    refine Moves.bind_tail hbc₃ (ih.type c₃ (by omega)) fun _ c₄ _ hbc₄ hlen₄ => ?_
    refine Moves.bind_tail hbc₄ (progress_expect c₄ _) fun _ c₅ _ hbc₅ hlen₅ => ?_
    exact Moves.pure_bind (hsuffixes _ c₅ hbc₅ (by omega))
  · -- `{types}`
    next hhead =>
    refine Moves.bind hbc (progress_advance_of_head? _ hhead le_rfl) fun _ c₁ _ hbc₁ hlen₁ => ?_
    refine Moves.bind_tail hbc₁ (ih.list c₁ _ (by omega)) fun _ c₂ _ hbc₂ hlen₂ => ?_
    exact Moves.pure_bind (hsuffixes _ c₂ hbc₂ (by omega))
  · -- `<{types}>` or `<N x type>`
    next hhead =>
    refine Moves.bind hbc (progress_advance_of_head? _ hhead le_rfl) fun _ c₁ _ hbc₁ hlen₁ => ?_
    refine Moves.bind_tail hbc₁ (progress_tryChar c₁ _) fun _ c₂ _ hbc₂ hlen₂ => ?_
    split
    · refine Moves.bind_tail hbc₂ (ih.list c₂ _ (by omega)) fun _ c₃ _ hbc₃ hlen₃ => ?_
      refine Moves.bind_tail hbc₃ (progress_expect c₃ _) fun _ c₄ _ hbc₄ hlen₄ => ?_
      exact Moves.pure_bind (hsuffixes _ c₄ hbc₄ (by omega))
    · refine Moves.bind_tail hbc₂ (progress_readNumber c₂ _) fun _ c₃ _ hbc₃ hlen₃ => ?_
      refine Moves.bind_tail hbc₃ (progress_expectWord c₃ _) fun _ c₄ _ hbc₄ hlen₄ => ?_
      refine Moves.bind_tail hbc₄ (ih.type c₄ (by omega)) fun _ c₅ _ hbc₅ hlen₅ => ?_
      refine Moves.bind_tail hbc₅ (progress_expect c₅ _) fun _ c₆ _ hbc₆ hlen₆ => ?_
      exact Moves.pure_bind (hsuffixes _ c₆ hbc₆ (by omega))
  · -- a scalar keyword
    exact Moves.bind hbc (progress_scalarType _) fun _ c' _ hbc' hlen =>
      hsuffixes _ c' hbc' hlen

theorem TypesProgress.list_succ (c : Cursor) (close : Char) (h : 4 * c.rest.length + 3 ≤ fuel + 1) :
    Progress (parseTypeList (fuel + 1) close) c 0 := by
  rw [parseTypeList]
  refine Moves.bind_tail (Reaches.refl c) (progress_tryChar c _) fun _ c' _ hbc hlen => ?_
  split
  · exact Moves.pure _
  · exact (ih.listRest c' _ (by omega)).lift hbc

theorem TypesProgress.listRest_succ (c : Cursor) (close : Char)
    (h : 4 * c.rest.length + 2 ≤ fuel + 1) : Progress (typeListRest (fuel + 1) close) c 0 := by
  rw [typeListRest]
  refine Moves.bind_tail (Reaches.refl c) (ih.type c (by omega)) fun _ c₁ _ hbc₁ hlen₁ => ?_
  refine Moves.bind_tail hbc₁ (progress_tryChar c₁ _) fun _ c₂ _ hbc₂ hlen₂ => ?_
  split
  · exact Moves.pure _
  · refine Moves.bind_tail hbc₂ (progress_expect c₂ _) fun _ c₃ _ hbc₃ hlen₃ => ?_
    refine Moves.bind_tail hbc₃ (ih.listRest c₃ _ (by omega)) fun _ _ _ _ _ => ?_
    exact Moves.pure _

theorem TypesProgress.params_succ (c : Cursor) (h : 4 * c.rest.length + 3 ≤ fuel + 1) :
    Progress (funcTypeParams (fuel + 1)) c 0 := by
  rw [funcTypeParams]
  refine Moves.bind_tail (Reaches.refl c) (progress_tryChar c _) fun _ c' _ hbc hlen => ?_
  split
  · exact Moves.pure _
  · exact (ih.paramsRest c' (by omega)).lift hbc

theorem TypesProgress.paramsRest_succ (c : Cursor) (h : 4 * c.rest.length + 2 ≤ fuel + 1) :
    Progress (funcTypeParamsRest (fuel + 1)) c 0 := by
  have hskip := (reaches_skipBlanks c true).length_le
  rw [funcTypeParamsRest]
  refine Moves.skipBlanks_bind (Reaches.refl c) fun hbc => ?_
  refine Moves.bind_tail hbc (progress_atEllipsis _) fun _ c₁ _ hbc₁ hlen₁ => ?_
  split
  · -- `...)`
    refine Moves.bind_tail hbc₁ (progress_advance c₁ 3) fun _ c₂ _ hbc₂ _ => ?_
    refine Moves.bind_tail hbc₂ (progress_expect c₂ _) fun _ _ _ _ _ => ?_
    exact Moves.pure _
  · refine Moves.bind_tail hbc₁ (ih.type c₁ (by omega)) fun _ c₂ _ hbc₂ hlen₂ => ?_
    refine Moves.bind_tail hbc₂ (progress_tryChar c₂ _) fun _ c₃ _ hbc₃ hlen₃ => ?_
    split
    · exact Moves.pure _
    · refine Moves.bind_tail hbc₃ (progress_expect c₃ _) fun _ c₄ _ hbc₄ hlen₄ => ?_
      refine Moves.bind_tail hbc₄ (ih.paramsRest c₄ (by omega)) fun p _ _ _ _ => ?_
      obtain ⟨ts, variadic⟩ := p
      exact Moves.pure _

/-- The suffixes each read a character or a word before the next ones. -/
theorem TypesProgress.suffixes_succ (c : Cursor) (ty : Ty) (h : 4 * c.rest.length + 1 ≤ fuel + 1) :
    Progress (typeSuffixes (fuel + 1) ty) c 0 := by
  have hskip := (reaches_skipBlanks c false).length_le
  rw [typeSuffixes]
  refine Moves.skipBlanks_bind (Reaches.refl c) fun hbc => Moves.peek_bind ?_
  split
  · -- `*`
    next hhead =>
    refine Moves.bind_tail hbc (progress_advance_of_head? _ hhead le_rfl)
      fun _ c₁ _ hbc₁ hlen₁ => ?_
    exact (ih.suffixes c₁ _ (by omega)).lift hbc₁
  · -- `(params)`
    next hhead =>
    refine Moves.bind_tail hbc (progress_advance_of_head? _ hhead le_rfl)
      fun _ c₁ _ hbc₁ hlen₁ => ?_
    refine Moves.bind_tail hbc₁ (ih.params c₁ (by omega)) fun p c₂ _ hbc₂ hlen₂ => ?_
    obtain ⟨params, variadic⟩ := p
    exact (ih.suffixes c₂ _ (by omega)).lift hbc₂
  · -- `addrspace(N)*`, or no more suffixes
    refine Moves.bind_tail hbc (progress_wordAt _) fun w c₁ hrun hbc₁ _ => ?_
    split
    · next hw =>
      refine Moves.bind_tail hbc₁ (progress_advance_of_wordAt _ (hw ▸ hrun) (by decide))
        fun _ c₂ _ hbc₂ hlen₂ => ?_
      refine Moves.bind_tail hbc₂ (progress_expect c₂ _) fun _ c₃ _ hbc₃ hlen₃ => ?_
      refine Moves.bind_tail hbc₃ (progress_readNumber c₃ _) fun _ c₄ _ hbc₄ hlen₄ => ?_
      refine Moves.bind_tail hbc₄ (progress_expect c₄ _) fun _ c₅ _ hbc₅ hlen₅ => ?_
      refine Moves.bind_tail hbc₅ (progress_expect c₅ _) fun _ c₆ _ hbc₆ hlen₆ => ?_
      exact (ih.suffixes c₆ _ (by omega)).lift hbc₆
    · exact Moves.pure _

theorem TypesProgress.succ : TypesProgress (fuel + 1) where
  type := ih.type_succ
  list := ih.list_succ
  listRest := ih.listRest_succ
  params := ih.params_succ
  paramsRest := ih.paramsRest_succ
  suffixes := ih.suffixes_succ

end Types

/-- The rules for types move forward whenever their bounds are met, whatever the fuel. -/
theorem typesProgress (fuel : Nat) : TypesProgress fuel := by
  induction fuel with
  | zero => exact TypesProgress.zero
  | succ fuel ih => exact ih.succ

/-- Types are read within their bound whatever the fuel. -/
theorem progress_parseType {fuel : Nat} {c : Cursor} (h : 4 * c.rest.length + 1 ≤ fuel) :
    Progress (parseType fuel) c 1 :=
  (typesProgress fuel).type c h

/-! ## Constants -/

/-- The rules for constants move forward at `fuel`, each within its own bound. -/
structure ConstsProgress (fuel : Nat) : Prop where
  const : ∀ c : Cursor, 4 * c.rest.length + 2 ≤ fuel → Progress (parseConstant fuel) c 0
  word : ∀ c : Cursor, 4 * c.rest.length + 1 ≤ fuel → Progress (wordConstant fuel) c 1
  typed : ∀ c : Cursor, 4 * c.rest.length + 2 ≤ fuel → Progress (parseTypedConst fuel) c 1
  list : ∀ (c : Cursor) (close : Char), 4 * c.rest.length + 4 ≤ fuel →
    Progress (parseTypedConstList fuel close) c 0
  listRest : ∀ (c : Cursor) (close : Char), 4 * c.rest.length + 3 ≤ fuel →
    Progress (typedConstListRest fuel close) c 0
  gep : ∀ c : Cursor, 4 * c.rest.length + 3 ≤ fuel → Progress (gepIndices fuel) c 0

theorem progress_parseNumber (c : Cursor) : Progress parseNumber c 0 := by
  rw [parseNumber]
  refine Moves.get_bind ?_
  dsimp only
  refine Moves.bind_tail (Reaches.refl c) (progress_advance c _) fun _ c' _ _ _ => ?_
  -- the sign is dropped, then the literal is a float or an integer
  split <;> split <;> exact Moves.pure _

theorem progress_tryFlag (c : Cursor) : Progress tryFlag c 0 := by
  rw [tryFlag]
  refine Moves.bind_tail (Reaches.refl c) (progress_tryWord c _) fun _ c₁ _ hbc₁ _ => ?_
  split
  · exact Moves.pure _
  · refine Moves.bind_tail hbc₁ (progress_tryWord c₁ _) fun _ c₂ _ hbc₂ _ => ?_
    split
    · exact Moves.pure _
    · exact (progress_tryWord c₂ _).lift hbc₂

/-- Flags are skipped one word at a time, and skipping never fails. -/
theorem progress_skipFlags (steps : Nat) (c : Cursor) : Progress (skipFlags steps) c 0 := by
  induction steps generalizing c with
  | zero =>
    rw [skipFlags]
    exact Moves.pure _
  | succ steps ih =>
    rw [skipFlags]
    refine Moves.bind_tail (Reaches.refl c) (progress_tryFlag c) fun _ c' _ hbc _ => ?_
    split
    · exact (ih c').lift hbc
    · exact Moves.pure _

theorem ConstsProgress.zero : ConstsProgress 0 where
  const _ h := absurd h (by omega)
  word _ h := absurd h (by omega)
  typed _ h := absurd h (by omega)
  list _ _ h := absurd h (by omega)
  listRest _ _ h := absurd h (by omega)
  gep _ h := absurd h (by omega)

section Consts

variable {fuel : Nat} (ih : ConstsProgress fuel)
include ih

/-- A constant reads a bracket before its elements; a word stays where the constant stands. -/
theorem ConstsProgress.const_succ (c : Cursor) (h : 4 * c.rest.length + 2 ≤ fuel + 1) :
    Progress (parseConstant (fuel + 1)) c 0 := by
  have hskip := (reaches_skipBlanks c true).length_le
  -- the elements of a bracketed constant, after its bracket
  have helements : ∀ (close : Char) (c₁ : Cursor),
      c₁.rest.length + 1 ≤ (c.skipBlanks true).rest.length →
      Progress (parseTypedConstList fuel close) c₁ 0 :=
    fun close c₁ hlen₁ => ih.list c₁ close (by omega)
  rw [parseConstant]
  refine Moves.skipBlanks_bind (Reaches.refl c) fun hbc => Moves.peek_bind ?_
  split
  · -- `@name`
    exact Moves.bind_tail hbc (progress_readGlobalName _) fun _ _ _ _ _ => Moves.pure _
  · -- `{consts}`
    next hhead =>
    refine Moves.bind_tail hbc (progress_advance_of_head? _ hhead le_rfl)
      fun _ c₁ _ hbc₁ hlen₁ => ?_
    exact Moves.bind_tail hbc₁ (helements _ c₁ hlen₁) fun _ _ _ _ _ => Moves.pure _
  · -- `<{consts}>` or `<consts>`
    next hhead =>
    refine Moves.bind_tail hbc (progress_advance_of_head? _ hhead le_rfl)
      fun _ c₁ _ hbc₁ hlen₁ => ?_
    refine Moves.bind_tail hbc₁ (progress_tryChar c₁ _) fun _ c₂ _ hbc₂ hlen₂ => ?_
    split
    · refine Moves.bind_tail hbc₂ (helements _ c₂ (by omega)) fun _ c₃ _ hbc₃ _ => ?_
      exact Moves.bind_tail hbc₃ (progress_expect c₃ _) fun _ _ _ _ _ => Moves.pure _
    · exact Moves.bind_tail hbc₂ (helements _ c₂ (by omega)) fun _ _ _ _ _ => Moves.pure _
  · -- `[consts]`
    next hhead =>
    refine Moves.bind_tail hbc (progress_advance_of_head? _ hhead le_rfl)
      fun _ c₁ _ hbc₁ hlen₁ => ?_
    exact Moves.bind_tail hbc₁ (helements _ c₁ hlen₁) fun _ _ _ _ _ => Moves.pure _
  · -- `c"…"`, a number, or a word
    refine Moves.get_bind ?_
    split
    · refine Moves.bind_tail hbc (progress_advance _ 1) fun _ c₁ _ hbc₁ _ => ?_
      exact Moves.bind_tail hbc₁ (progress_readRawString c₁) fun _ _ _ _ _ => Moves.pure _
    · split
      · exact (progress_parseNumber _).lift hbc
      · exact ((ih.word _ (by omega)).lift hbc).mono (Nat.zero_le _)
  · -- the end of the text: a word constant fails there
    exact ((ih.word _ (by omega)).lift hbc).mono (Nat.zero_le _)

/-- A word constant reads its word before the types and constants it holds; a word that starts
no constant is reported where the word starts. -/
theorem ConstsProgress.word_succ (c : Cursor) (h : 4 * c.rest.length + 1 ≤ fuel + 1) :
    Progress (wordConstant (fuel + 1)) c 1 := by
  have hskip := reaches_skipBlanks c true
  have hlen := hskip.length_le
  rw [wordConstant]
  refine Moves.skipBlanks_bind (Reaches.refl c) fun hbc => Moves.get_bind ?_
  refine Moves.bind hbc (progress_readWord _) fun w c₁ _ hbc₁ hlen₁ => ?_
  split
  case h_7 =>
    -- `blockaddress(@f, %b)`
    refine Moves.bind_tail hbc₁ (progress_expect c₁ _) fun _ c₂ _ hbc₂ _ => ?_
    refine Moves.bind_tail hbc₂ (progress_readGlobalName c₂) fun _ c₃ _ hbc₃ _ => ?_
    refine Moves.bind_tail hbc₃ (progress_expect c₃ _) fun _ c₄ _ hbc₄ _ => ?_
    refine Moves.bind_tail hbc₄ (progress_readLocal c₄) fun _ c₅ _ hbc₅ _ => ?_
    exact Moves.bind_tail hbc₅ (progress_expect c₅ _) fun _ _ _ _ _ => Moves.pure _
  case h_8 =>
    -- `getelementptr inbounds? (type, tconst, indices)`
    refine Moves.bind_tail hbc₁ (progress_tryWord c₁ _) fun _ c₂ _ hbc₂ hlen₂ => ?_
    refine Moves.bind_tail hbc₂ (progress_expect c₂ _) fun _ c₃ _ hbc₃ hlen₃ => ?_
    refine Moves.bind_tail hbc₃ (progress_parseType (by omega)) fun _ c₄ _ hbc₄ hlen₄ => ?_
    refine Moves.bind_tail hbc₄ (progress_expect c₄ _) fun _ c₅ _ hbc₅ hlen₅ => ?_
    refine Moves.bind_tail hbc₅ (ih.typed c₅ (by omega)) fun _ c₆ _ hbc₆ hlen₆ => ?_
    refine Moves.bind_tail hbc₆ (ih.gep c₆ (by omega)) fun _ c₇ _ hbc₇ _ => ?_
    exact Moves.bind_tail hbc₇ (progress_expect c₇ _) fun _ _ _ _ _ => Moves.pure _
  case h_9 =>
    split
    · exact Moves.pure _
    · split
      · -- a cast: `op (tconst to type)`
        refine Moves.bind_tail hbc₁ (progress_expect c₁ _) fun _ c₂ _ hbc₂ hlen₂ => ?_
        refine Moves.bind_tail hbc₂ (ih.typed c₂ (by omega)) fun _ c₃ _ hbc₃ hlen₃ => ?_
        refine Moves.bind_tail hbc₃ (progress_expectWord c₃ _) fun _ c₄ _ hbc₄ hlen₄ => ?_
        refine Moves.bind_tail hbc₄ (progress_parseType (by omega)) fun _ c₅ _ hbc₅ _ => ?_
        exact Moves.bind_tail hbc₅ (progress_expect c₅ _) fun _ _ _ _ _ => Moves.pure _
      · split
        · -- a binary operation: `op flags (tconst, tconst)`
          refine Moves.bind_tail hbc₁ (progress_skipFlags _ c₁) fun _ c₂ _ hbc₂ hlen₂ => ?_
          refine Moves.bind_tail hbc₂ (progress_expect c₂ _) fun _ c₃ _ hbc₃ hlen₃ => ?_
          refine Moves.bind_tail hbc₃ (ih.typed c₃ (by omega)) fun _ c₄ _ hbc₄ hlen₄ => ?_
          refine Moves.bind_tail hbc₄ (progress_expect c₄ _) fun _ c₅ _ hbc₅ hlen₅ => ?_
          refine Moves.bind_tail hbc₅ (ih.typed c₅ (by omega)) fun _ c₆ _ hbc₆ _ => ?_
          exact Moves.bind_tail hbc₆ (progress_expect c₆ _) fun _ _ _ _ _ => Moves.pure _
        · exact Moves.set_fail hskip (append_append_ne_nests _ _ (by decide))
  -- the words that are whole constants
  all_goals exact Moves.pure _

/-- A typed constant reads its type, at least one character, before its constant. -/
theorem ConstsProgress.typed_succ (c : Cursor) (h : 4 * c.rest.length + 2 ≤ fuel + 1) :
    Progress (parseTypedConst (fuel + 1)) c 1 := by
  rw [parseTypedConst]
  refine Moves.bind (Reaches.refl c) (progress_parseType (by omega)) fun _ c₁ _ hbc₁ hlen₁ => ?_
  exact Moves.bind_tail hbc₁ (ih.const c₁ (by omega)) fun _ _ _ _ _ => Moves.pure _

theorem ConstsProgress.list_succ (c : Cursor) (close : Char)
    (h : 4 * c.rest.length + 4 ≤ fuel + 1) : Progress (parseTypedConstList (fuel + 1) close) c 0 := by
  rw [parseTypedConstList]
  refine Moves.bind_tail (Reaches.refl c) (progress_tryChar c _) fun _ c' _ hbc hlen => ?_
  split
  · exact Moves.pure _
  · exact (ih.listRest c' _ (by omega)).lift hbc

theorem ConstsProgress.listRest_succ (c : Cursor) (close : Char)
    (h : 4 * c.rest.length + 3 ≤ fuel + 1) :
    Progress (typedConstListRest (fuel + 1) close) c 0 := by
  rw [typedConstListRest]
  refine Moves.bind_tail (Reaches.refl c) (ih.typed c (by omega)) fun _ c₁ _ hbc₁ hlen₁ => ?_
  refine Moves.bind_tail hbc₁ (progress_tryChar c₁ _) fun _ c₂ _ hbc₂ hlen₂ => ?_
  split
  · exact Moves.pure _
  · refine Moves.bind_tail hbc₂ (progress_expect c₂ _) fun _ c₃ _ hbc₃ hlen₃ => ?_
    exact Moves.bind_tail hbc₃ (ih.listRest c₃ _ (by omega)) fun _ _ _ _ _ => Moves.pure _

/-- Each index of an element address is a typed constant, which reads a character. -/
theorem ConstsProgress.gep_succ (c : Cursor) (h : 4 * c.rest.length + 3 ≤ fuel + 1) :
    Progress (gepIndices (fuel + 1)) c 0 := by
  rw [gepIndices]
  refine Moves.bind_tail (Reaches.refl c) (progress_tryChar c _) fun _ c₁ _ hbc₁ hlen₁ => ?_
  split
  · refine Moves.bind_tail hbc₁ (ih.typed c₁ (by omega)) fun _ c₂ _ hbc₂ hlen₂ => ?_
    exact Moves.bind_tail hbc₂ (ih.gep c₂ (by omega)) fun _ _ _ _ _ => Moves.pure _
  · exact Moves.pure _

theorem ConstsProgress.succ : ConstsProgress (fuel + 1) where
  const := ih.const_succ
  word := ih.word_succ
  typed := ih.typed_succ
  list := ih.list_succ
  listRest := ih.listRest_succ
  gep := ih.gep_succ

end Consts

/-- The rules for constants move forward whenever their bounds are met, whatever the fuel. -/
theorem constsProgress (fuel : Nat) : ConstsProgress fuel := by
  induction fuel with
  | zero => exact ConstsProgress.zero
  | succ fuel ih => exact ih.succ

theorem progress_parseConstant {fuel : Nat} {c : Cursor} (h : 4 * c.rest.length + 2 ≤ fuel) :
    Progress (parseConstant fuel) c 0 :=
  (constsProgress fuel).const c h

theorem progress_parseTypedConst {fuel : Nat} {c : Cursor} (h : 4 * c.rest.length + 2 ≤ fuel) :
    Progress (parseTypedConst fuel) c 1 :=
  (constsProgress fuel).typed c h

/-- An operand is a local or a constant. -/
theorem progress_parseValue {fuel : Nat} {c : Cursor} (h : 4 * c.rest.length + 2 ≤ fuel) :
    Progress (parseValue fuel) c 0 := by
  have hskip := (reaches_skipBlanks c true).length_le
  rw [parseValue]
  refine Moves.skipBlanks_bind (Reaches.refl c) fun hbc => Moves.peek_bind ?_
  split
  · exact Moves.bind_tail hbc (progress_readLocal _) fun _ _ _ _ _ => Moves.pure _
  · exact Moves.bind_tail hbc (progress_parseConstant (by omega)) fun _ _ _ _ _ => Moves.pure _

/-- A typed operand reads its type, at least one character, before its operand. -/
theorem progress_parseTypedValue {fuel : Nat} {c : Cursor} (h : 4 * c.rest.length + 1 ≤ fuel) :
    Progress (parseTypedValue fuel) c 1 := by
  rw [parseTypedValue]
  refine Moves.bind (Reaches.refl c) (progress_parseType h) fun _ c₁ _ hbc₁ hlen₁ => ?_
  exact Moves.bind_tail hbc₁ (progress_parseValue (by omega)) fun _ _ _ _ _ => Moves.pure _

end LlvmAsm.Ast.Reader
