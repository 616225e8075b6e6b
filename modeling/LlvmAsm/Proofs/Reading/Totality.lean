import LlvmAsm.Proofs.Reading.Nesting
import LlvmAsm.Ast.Grammar.Module

/-!
# `Proofs.Reading.Totality` — reading a module always ends in a module or a syntax error

The loops of the function and module grammars take a `steps` bound on their iterations and
answer `exhausted` when it runs out, as the recursion of types and constants does with its
`fuel`. `parseModule` gives the loops one step per character of the text and one more, and the
recursion `fuelFor` of the text. This module shows that neither bound is ever what stops reading
(`parseModule_total`): whatever the text, reading gives a module, or a syntax error located at a
character boundary of the text with a message of the grammar.

Each loop is proved by induction on its bound, with the invariant `remaining + 1 ≤ steps`
(`remaining + 2` for the items of a body, whose blocks may start without reading anything when
they have no label). Every iteration reads at least one character before the next one, so the
invariant passes from one iteration to the next; the recursion inside a loop gets the same fuel
at a cursor further on, so `4 * remaining + 4 ≤ fuel` passes to it too.

A block label that turns out not to be one sends the cursor back to where it stood
(`tryLabel`); `Within` follows such a run, judged from where the label was tried.
-/

namespace LlvmAsm.Ast.Reader

open Cursor

/-! ## Attributes and function headers -/

/-- A parenthesised argument is read to its closing parenthesis, or to the end of the text. -/
theorem progress_readBalanced (c : Cursor) : Progress readBalanced c 0 := by
  rw [readBalanced]
  refine Moves.get_bind ?_
  dsimp only
  split
  · exact Moves.bind_tail (Reaches.refl c) (progress_advance c _) fun _ _ _ _ _ => Moves.pure _
  · exact Moves.bind_tail (Reaches.refl c) (progress_advance c _) fun _ _ _ hbc _ =>
      Moves.fail hbc (by decide)

/-- An attribute starts with `#`, a quote or a word, so reading one reads a character. -/
theorem progress_parseAttribute (c : Cursor) : Progress parseAttribute c 1 := by
  rw [parseAttribute]
  refine Moves.skipBlanks_bind (Reaches.refl c) fun hbc => Moves.peek_bind ?_
  split
  · -- `#N`
    next hhead =>
    refine Moves.bind hbc (progress_advance_of_head? _ hhead le_rfl) fun _ c₁ _ hbc₁ _ => ?_
    exact Moves.bind_tail hbc₁ (progress_readNumber c₁ _) fun _ _ _ _ _ => Moves.pure _
  · -- `"key"` or `"key"="value"`
    refine Moves.bind hbc (progress_readString _) fun _ c₁ _ hbc₁ _ => Moves.peek_bind ?_
    split
    · next hhead =>
      refine Moves.bind_tail hbc₁ (progress_advance_of_head? _ hhead le_rfl)
        fun _ c₂ _ hbc₂ _ => ?_
      exact Moves.bind_tail hbc₂ (progress_readString c₂) fun _ _ _ _ _ => Moves.pure _
    · exact Moves.pure _
  · -- a keyword, `align N`, or a keyword with a parenthesised argument
    refine Moves.bind hbc (progress_readWord _) fun _ c₁ _ hbc₁ _ => ?_
    split
    · exact Moves.bind_tail hbc₁ (progress_readNumber c₁ _) fun _ _ _ _ _ => Moves.pure _
    · refine Moves.peek_bind ?_
      split
      · exact Moves.bind_tail hbc₁ (progress_readBalanced c₁) fun _ _ _ _ _ => Moves.pure _
      · exact Moves.pure _

/-- Each attachment reads its `!` before the next. -/
theorem progress_metadataAttachments (steps : Nat) :
    ∀ c : Cursor, c.rest.length + 1 ≤ steps → Progress (metadataAttachments steps) c 0 := by
  induction steps with
  | zero => exact fun _ h => absurd h (by omega)
  | succ steps ih =>
    intro c hsteps
    have hskip := (reaches_skipBlanks c false).length_le
    rw [metadataAttachments]
    refine Moves.skipBlanks_bind (Reaches.refl c) fun hbc => Moves.peek_bind ?_
    split
    · exact Moves.pure _
    · next hne =>
      have hhead : (c.skipBlanks false).rest.head? = some '!' := not_not.mp hne
      refine Moves.bind_tail hbc (progress_advance_of_head? _ hhead le_rfl)
        fun _ c₁ _ hbc₁ hlen₁ => ?_
      refine Moves.bind_tail hbc₁ (progress_readName c₁) fun _ c₂ _ hbc₂ hlen₂ => ?_
      refine Moves.bind_tail hbc₂ (progress_expect c₂ _) fun _ c₃ _ hbc₃ hlen₃ => ?_
      refine Moves.bind_tail hbc₃ (progress_readNumber c₃ _) fun _ c₄ _ hbc₄ hlen₄ => ?_
      exact Moves.bind_tail hbc₄ (ih c₄ (by omega)) fun _ _ _ _ _ => Moves.pure _

theorem progress_tryKeyword (α : Type) [Keyword α] (c : Cursor) : Progress (tryKeyword α) c 0 := by
  rw [tryKeyword]
  refine Moves.bind_tail (Reaches.refl c) (progress_peekWord c) fun _ c₁ _ hbc₁ _ => ?_
  split
  · exact Moves.bind_tail hbc₁ (progress_advance c₁ _) fun _ _ _ _ _ => Moves.pure _
  · exact Moves.pure _

theorem progress_comdatClause (c : Cursor) : Progress comdatClause c 0 := by
  rw [comdatClause]
  refine Moves.peek_bind ?_
  split
  · refine Moves.bind_tail (Reaches.refl c) (progress_advance c 1) fun _ c₁ _ hbc₁ _ => ?_
    refine Moves.bind_tail hbc₁ (progress_readComdatName c₁) fun _ c₂ _ hbc₂ _ => ?_
    exact Moves.bind_tail hbc₂ (progress_expect c₂ _) fun _ _ _ _ _ => Moves.pure _
  · exact Moves.pure _

/-- The words before the return type are read one at a time, each of at least one character. -/
theorem progress_headerPrefix (steps : Nat) : ∀ (h : Header) (c : Cursor),
    c.rest.length + 1 ≤ steps → Progress (headerPrefix steps h) c 0 := by
  induction steps with
  | zero => exact fun _ _ h => absurd h (by omega)
  | succ steps ih =>
    intro h c hsteps
    have hskip := (reaches_skipBlanks c true).length_le
    have hnext : ∀ (h' : Header) (c₁ : Cursor), c.Reaches c₁ →
        c₁.rest.length + 1 ≤ (c.skipBlanks true).rest.length →
        Moves c (headerPrefix steps h') c₁ 0 :=
      fun h' c₁ hbc₁ hlen₁ => (ih h' c₁ (by omega)).lift hbc₁
    rw [headerPrefix]
    refine Moves.skipBlanks_bind (Reaches.refl c) fun hbc => Moves.peek_bind ?_
    split
    case h_5 =>
      -- a quoted return attribute
      exact Moves.bind_tail hbc (progress_parseAttribute _) fun _ c₁ _ hbc₁ hlen₁ =>
        hnext _ c₁ hbc₁ hlen₁
    case h_6 =>
      refine Moves.bind_tail hbc (progress_wordAt _) fun w c₁ hword hbc₁ _ => ?_
      split
      · exact Moves.found_bind _ fun _ => Moves.fail hbc₁ (append_ne_nests _ (by decide))
      · next word =>
        obtain ⟨rfl, hpos, hle⟩ := run_wordAt_some _ hword
        -- a keyword of the prefix is moved past whole
        have hkeyword : ∀ h', Moves c (advance word.length >>= fun _ => headerPrefix steps h')
            (c.skipBlanks true) 0 := fun h' =>
          Moves.bind_tail hbc₁ ((progress_advance _ word.length).mono (j := 1) (by omega))
            fun _ c₂ _ hbc₂ hlen₂ => hnext h' c₂ hbc₂ hlen₂
        split
        · exact Moves.pure _
        · split
          · exact hkeyword _
          · split
            · exact hkeyword _
            · split
              · exact hkeyword _
              · split
                · exact hkeyword _
                · split
                  · -- `cc N`
                    refine Moves.bind_tail hbc₁ (progress_advance_of_wordAt _ hword (by decide))
                      fun _ c₂ _ hbc₂ hlen₂ => ?_
                    exact Moves.bind_tail hbc₂ (progress_readNumber c₂ _) fun _ c₃ _ hbc₃ hlen₃ =>
                      hnext _ c₃ hbc₃ (by omega)
                  · -- any other word is a return attribute
                    exact Moves.bind_tail hbc₁ (progress_parseAttribute _) fun _ c₂ _ hbc₂ hlen₂ =>
                      hnext _ c₂ hbc₂ hlen₂
    -- a type bracket ends the words
    all_goals exact Moves.pure _

/-- Each attribute of a parameter is read whole before the next. -/
theorem progress_paramAttrs (steps : Nat) :
    ∀ c : Cursor, c.rest.length + 1 ≤ steps → Progress (paramAttrs steps) c 0 := by
  induction steps with
  | zero => exact fun _ h => absurd h (by omega)
  | succ steps ih =>
    intro c hsteps
    have hskip := (reaches_skipBlanks c true).length_le
    rw [paramAttrs]
    refine Moves.skipBlanks_bind (Reaches.refl c) fun hbc => Moves.peek_bind ?_
    split
    case h_5 =>
      refine Moves.bind_tail hbc (progress_parseAttribute _) fun _ c₁ _ hbc₁ hlen₁ => ?_
      exact Moves.bind_tail hbc₁ (ih c₁ (by omega)) fun _ _ _ _ _ => Moves.pure _
    -- `,`, `)`, `%` or the end close the attributes
    all_goals exact Moves.pure _

/-- Each parameter reads its type before the next parameter. -/
theorem progress_paramsRest (fuel steps : Nat) : ∀ c : Cursor, 4 * c.rest.length + 4 ≤ fuel →
    c.rest.length + 1 ≤ steps → Progress (paramsRest fuel steps) c 0 := by
  induction steps with
  | zero => exact fun _ _ h => absurd h (by omega)
  | succ steps ih =>
    intro c hfuel hsteps
    have hskip := (reaches_skipBlanks c true).length_le
    rw [paramsRest]
    refine Moves.skipBlanks_bind (Reaches.refl c) fun hbc => ?_
    refine Moves.bind_tail hbc (progress_atEllipsis _) fun _ c₁ _ hbc₁ hlen₁ => ?_
    split
    · -- `...)`
      refine Moves.bind_tail hbc₁ (progress_advance c₁ 3) fun _ c₂ _ hbc₂ _ => ?_
      exact Moves.bind_tail hbc₂ (progress_expect c₂ _) fun _ _ _ _ _ => Moves.pure _
    · refine Moves.bind_tail hbc₁ (progress_parseType (by omega)) fun _ c₂ _ hbc₂ hlen₂ => ?_
      refine Moves.bind_tail hbc₂ (progress_paramAttrs steps c₂ (by omega))
        fun _ c₃ _ hbc₃ hlen₃ => Moves.peek_bind ?_
      lift_lets
      intro next
      -- after the optional name, `)` ends the parameters and `,` goes on to the next one
      have hnext : ∀ name c₄, c.Reaches c₄ → c₄.rest.length ≤ c₃.rest.length →
          Moves c (next name) c₄ 0 := by
        intro name c₄ hbc₄ hlen₄
        simp only [next]
        refine Moves.bind_tail hbc₄ (progress_tryChar c₄ _) fun _ c₅ _ hbc₅ hlen₅ => ?_
        split
        · exact Moves.pure _
        · refine Moves.bind_tail hbc₅ (progress_expect c₅ _) fun _ c₆ _ hbc₆ hlen₆ => ?_
          refine Moves.bind_tail hbc₆ (ih c₆ (by omega) (by omega)) fun p _ _ _ _ => ?_
          obtain ⟨ps, variadic⟩ := p
          exact Moves.pure _
      split
      · exact Moves.bind_tail hbc₃ (Moves.map (Reaches.refl _) (progress_readLocal c₃))
          fun _ c₄ _ hbc₄ hlen₄ => hnext _ c₄ hbc₄ (by omega)
      · exact Moves.pure_bind (hnext _ c₃ hbc₃ le_rfl)

theorem progress_parseParams (fuel steps : Nat) (c : Cursor) (hfuel : 4 * c.rest.length + 4 ≤ fuel)
    (hsteps : c.rest.length + 1 ≤ steps) : Progress (parseParams fuel steps) c 0 := by
  rw [parseParams]
  refine Moves.bind_tail (Reaches.refl c) (progress_expect c _) fun _ c₁ _ hbc₁ hlen₁ => ?_
  refine Moves.bind_tail hbc₁ (progress_tryChar c₁ _) fun _ c₂ _ hbc₂ hlen₂ => ?_
  split
  · exact Moves.pure _
  · exact (progress_paramsRest fuel steps c₂ (by omega) (by omega)).lift hbc₂

/-- The words after the parameters are read one at a time, each of at least one character. -/
theorem progress_headerSuffix (fuel steps : Nat) : ∀ (h : Header) (c : Cursor),
    4 * c.rest.length + 4 ≤ fuel → c.rest.length + 1 ≤ steps →
    Progress (headerSuffix fuel steps h) c 0 := by
  induction steps with
  | zero => exact fun _ _ _ h => absurd h (by omega)
  | succ steps ih =>
    intro h c hfuel hsteps
    have hskip := (reaches_skipBlanks c false).length_le
    have hnext : ∀ (h' : Header) (c₁ : Cursor), c.Reaches c₁ →
        c₁.rest.length + 1 ≤ (c.skipBlanks false).rest.length →
        Moves c (headerSuffix fuel steps h') c₁ 0 :=
      fun h' c₁ hbc₁ hlen₁ => (ih h' c₁ (by omega) (by omega)).lift hbc₁
    rw [headerSuffix]
    refine Moves.skipBlanks_bind (Reaches.refl c) fun hbc => Moves.peek_bind ?_
    split
    case h_5 | h_6 =>
      -- `#N` or a quoted attribute
      exact Moves.bind_tail hbc (progress_parseAttribute _) fun _ c₁ _ hbc₁ hlen₁ =>
        hnext _ c₁ hbc₁ hlen₁
    case h_7 =>
      refine Moves.bind_tail hbc (progress_wordAt _) fun w c₁ hword hbc₁ hlen₁ => ?_
      -- a keyword seen here is moved past before what follows it
      split
      case h_1 | h_2 =>
        -- `unnamed_addr`, `local_unnamed_addr`
        exact Moves.bind_tail hbc₁ (progress_advance_of_wordAt _ hword (by decide)) fun _ c₂ _ hbc₂ hlen₂ =>
          hnext _ c₂ hbc₂ (by omega)
      case h_3 | h_5 =>
        -- `section "name"`, `gc "name"`
        refine Moves.bind_tail hbc₁ (progress_advance_of_wordAt _ hword (by decide)) fun _ c₂ _ hbc₂ hlen₂ => ?_
        exact Moves.bind_tail hbc₂ (progress_readString c₂) fun _ c₃ _ hbc₃ hlen₃ =>
          hnext _ c₃ hbc₃ (by omega)
      case h_4 =>
        -- `comdat` and its clause
        refine Moves.bind_tail hbc₁ (progress_advance_of_wordAt _ hword (by decide)) fun _ c₂ _ hbc₂ hlen₂ => ?_
        exact Moves.bind_tail hbc₂ (progress_comdatClause c₂) fun _ c₃ _ hbc₃ hlen₃ =>
          hnext _ c₃ hbc₃ (by omega)
      case h_6 | h_7 | h_8 =>
        -- `prefix`, `prologue`, `personality` and a typed constant
        refine Moves.bind_tail hbc₁ (progress_advance_of_wordAt _ hword (by decide)) fun _ c₂ _ hbc₂ hlen₂ => ?_
        exact Moves.bind_tail hbc₂ (progress_parseTypedConst (by omega)) fun _ c₃ _ hbc₃ hlen₃ =>
          hnext _ c₃ hbc₃ (by omega)
      case h_9 =>
        -- any other word is a function attribute
        exact Moves.bind_tail hbc₁ (progress_parseAttribute _) fun _ c₂ _ hbc₂ hlen₂ =>
          hnext _ c₂ hbc₂ (by omega)
    -- the end of the line, `{` or `!` ends the words
    all_goals exact Moves.pure _

/-- A header: the words before the return type, the type, the name, the parameters and the words
after them. -/
theorem progress_parseHeader (fuel steps : Nat) (linkage : Option Linkage) (c : Cursor)
    (hfuel : 4 * c.rest.length + 4 ≤ fuel) (hsteps : c.rest.length + 1 ≤ steps) :
    Progress (parseHeader fuel steps linkage) c 0 := by
  rw [parseHeader]
  refine Moves.bind_tail (Reaches.refl c) (progress_headerPrefix steps _ c hsteps)
    fun _ c₁ _ hbc₁ hlen₁ => ?_
  refine Moves.bind_tail hbc₁ (progress_parseType (by omega)) fun _ c₂ _ hbc₂ hlen₂ => ?_
  refine Moves.bind_tail hbc₂ (progress_readGlobalName c₂) fun _ c₃ _ hbc₃ hlen₃ => ?_
  refine Moves.bind_tail hbc₃ (progress_parseParams fuel steps c₃ (by omega) (by omega))
    fun p c₄ _ hbc₄ hlen₄ => ?_
  obtain ⟨params, variadic⟩ := p
  exact (progress_headerSuffix fuel steps _ c₄ (by omega) (by omega)).lift hbc₄

/-! ## Function bodies -/

/-- Each argument reads its type before the next argument. -/
theorem progress_callArgs (fuel steps : Nat) : ∀ c : Cursor, 4 * c.rest.length + 4 ≤ fuel →
    c.rest.length + 1 ≤ steps → Progress (callArgs fuel steps) c 0 := by
  induction steps with
  | zero => exact fun _ _ h => absurd h (by omega)
  | succ steps ih =>
    intro c hfuel hsteps
    rw [callArgs]
    refine Moves.bind_tail (Reaches.refl c) (progress_parseTypedValue (by omega))
      fun _ c₁ _ hbc₁ hlen₁ => ?_
    refine Moves.bind_tail hbc₁ (progress_tryChar c₁ _) fun _ c₂ _ hbc₂ hlen₂ => ?_
    split
    · exact Moves.pure _
    · refine Moves.bind_tail hbc₂ (progress_expect c₂ _) fun _ c₃ _ hbc₃ hlen₃ => ?_
      exact Moves.bind_tail hbc₃ (ih c₃ (by omega) (by omega)) fun _ _ _ _ _ => Moves.pure _

theorem progress_parseCall (fuel steps : Nat) (c : Cursor) (hfuel : 4 * c.rest.length + 4 ≤ fuel)
    (hsteps : c.rest.length + 1 ≤ steps) : Progress (parseCall fuel steps) c 0 := by
  rw [parseCall]
  refine Moves.bind_tail (Reaches.refl c) (progress_parseType (by omega))
    fun _ c₁ _ hbc₁ hlen₁ => ?_
  refine Moves.bind_tail hbc₁ (progress_parseValue (by omega)) fun _ c₂ _ hbc₂ hlen₂ => ?_
  refine Moves.bind_tail hbc₂ (progress_expect c₂ _) fun _ c₃ _ hbc₃ hlen₃ => ?_
  refine Moves.bind_tail hbc₃ (progress_tryChar c₃ _) fun _ c₄ _ hbc₄ hlen₄ => ?_
  dsimp only
  split
  · exact Moves.pure_bind (Moves.pure _)
  · exact Moves.bind_tail hbc₄ (progress_callArgs fuel steps c₄ (by omega) (by omega))
      fun _ _ _ _ _ => Moves.pure _

/-- Each incoming pair reads its `[` before the next pair. -/
theorem progress_phiIncoming (fuel steps : Nat) : ∀ c : Cursor, 4 * c.rest.length + 4 ≤ fuel →
    c.rest.length + 1 ≤ steps → Progress (phiIncoming fuel steps) c 0 := by
  induction steps with
  | zero => exact fun _ _ h => absurd h (by omega)
  | succ steps ih =>
    intro c hfuel hsteps
    rw [phiIncoming]
    refine Moves.bind_tail (Reaches.refl c) (progress_expect c _) fun _ c₁ _ hbc₁ hlen₁ => ?_
    refine Moves.bind_tail hbc₁ (progress_parseValue (by omega)) fun _ c₂ _ hbc₂ hlen₂ => ?_
    refine Moves.bind_tail hbc₂ (progress_expect c₂ _) fun _ c₃ _ hbc₃ hlen₃ => ?_
    refine Moves.bind_tail hbc₃ (progress_readLocal c₃) fun _ c₄ _ hbc₄ hlen₄ => ?_
    refine Moves.bind_tail hbc₄ (progress_expect c₄ _) fun _ c₅ _ hbc₅ hlen₅ => ?_
    refine Moves.bind_tail hbc₅ (progress_tryChar c₅ _) fun _ c₆ _ hbc₆ hlen₆ => ?_
    split
    · exact Moves.bind_tail hbc₆ (ih c₆ (by omega) (by omega)) fun _ _ _ _ _ => Moves.pure _
    · exact Moves.pure _

theorem progress_parseInstKind (fuel steps : Nat) (opcode : String) (c : Cursor)
    (hfuel : 4 * c.rest.length + 4 ≤ fuel) (hsteps : c.rest.length + 1 ≤ steps) :
    Progress (parseInstKind fuel steps opcode) c 0 := by
  unfold parseInstKind
  split
  · -- a binary operation
    refine Moves.bind_tail (Reaches.refl c) (progress_skipFlags steps c)
      fun _ c₁ _ hbc₁ hlen₁ => ?_
    refine Moves.bind_tail hbc₁ (progress_parseTypedValue (by omega))
      fun _ c₂ _ hbc₂ hlen₂ => ?_
    refine Moves.bind_tail hbc₂ (progress_expect c₂ _) fun _ c₃ _ hbc₃ hlen₃ => ?_
    exact Moves.bind_tail hbc₃ (progress_parseValue (by omega)) fun _ _ _ _ _ => Moves.pure _
  · split
    case h_1 =>
      -- `icmp pred tvalue, value`
      refine Moves.bind_tail (Reaches.refl c) (progress_readWord c) fun _ c₁ _ hbc₁ hlen₁ => ?_
      split
      · exact Moves.fail hbc₁ (append_append_ne_nests _ _ (by decide))
      · refine Moves.bind_tail hbc₁ (progress_parseTypedValue (by omega))
          fun _ c₂ _ hbc₂ hlen₂ => ?_
        refine Moves.bind_tail hbc₂ (progress_expect c₂ _) fun _ c₃ _ hbc₃ hlen₃ => ?_
        exact Moves.bind_tail hbc₃ (progress_parseValue (by omega)) fun _ _ _ _ _ =>
          Moves.pure _
    case h_2 =>
      -- `alloca type`
      exact Moves.bind_tail (Reaches.refl c) (progress_parseType (by omega)) fun _ _ _ _ _ =>
        Moves.pure _
    case h_3 =>
      -- `load type, tvalue`
      refine Moves.bind_tail (Reaches.refl c) (progress_parseType (by omega))
        fun _ c₁ _ hbc₁ hlen₁ => ?_
      refine Moves.bind_tail hbc₁ (progress_expect c₁ _) fun _ c₂ _ hbc₂ hlen₂ => ?_
      exact Moves.bind_tail hbc₂ (progress_parseTypedValue (by omega)) fun _ _ _ _ _ =>
        Moves.pure _
    case h_4 =>
      -- `store tvalue, tvalue`
      refine Moves.bind_tail (Reaches.refl c) (progress_parseTypedValue (by omega))
        fun _ c₁ _ hbc₁ hlen₁ => ?_
      refine Moves.bind_tail hbc₁ (progress_expect c₁ _) fun _ c₂ _ hbc₂ hlen₂ => ?_
      exact Moves.bind_tail hbc₂ (progress_parseTypedValue (by omega)) fun _ _ _ _ _ =>
        Moves.pure _
    case h_5 =>
      -- `phi type [value, %label], …`
      refine Moves.bind_tail (Reaches.refl c) (progress_parseType (by omega))
        fun _ c₁ _ hbc₁ hlen₁ => ?_
      exact Moves.bind_tail hbc₁ (progress_phiIncoming fuel steps c₁ (by omega) (by omega))
        fun _ _ _ _ _ => Moves.pure _
    case h_6 =>
      -- `call`
      exact Moves.bind_tail (Reaches.refl c) (progress_parseCall fuel steps c hfuel hsteps)
        fun _ _ _ _ _ => Moves.pure _
    case h_7 =>
      exact Moves.fail (Reaches.refl c) (append_append_ne_nests _ _ (by decide))

theorem progress_parseTerminator (fuel : Nat) (opcode : String) (c : Cursor)
    (hfuel : 4 * c.rest.length + 4 ≤ fuel) : Progress (parseTerminator fuel opcode) c 0 := by
  unfold parseTerminator
  split
  case h_1 =>
    -- `ret void` or `ret tvalue`
    refine Moves.bind_tail (Reaches.refl c) (progress_parseType (by omega))
      fun _ c₁ _ hbc₁ hlen₁ => ?_
    split
    · exact Moves.pure _
    · exact Moves.bind_tail hbc₁ (progress_parseValue (by omega)) fun _ _ _ _ _ => Moves.pure _
  case h_2 =>
    -- `br label %l` or `br tvalue, label %t, label %f`
    refine Moves.bind_tail (Reaches.refl c) (progress_tryWord c _) fun _ c₁ _ hbc₁ hlen₁ => ?_
    split
    · exact Moves.bind_tail hbc₁ (progress_readLocal c₁) fun _ _ _ _ _ => Moves.pure _
    · refine Moves.bind_tail hbc₁ (progress_parseTypedValue (by omega))
        fun _ c₂ _ hbc₂ _ => ?_
      refine Moves.bind_tail hbc₂ (progress_expect c₂ _) fun _ c₃ _ hbc₃ _ => ?_
      refine Moves.bind_tail hbc₃ (progress_expectWord c₃ _) fun _ c₄ _ hbc₄ _ => ?_
      refine Moves.bind_tail hbc₄ (progress_readLocal c₄) fun _ c₅ _ hbc₅ _ => ?_
      refine Moves.bind_tail hbc₅ (progress_expect c₅ _) fun _ c₆ _ hbc₆ _ => ?_
      refine Moves.bind_tail hbc₆ (progress_expectWord c₆ _) fun _ c₇ _ hbc₇ _ => ?_
      exact Moves.bind_tail hbc₇ (progress_readLocal c₇) fun _ _ _ _ _ => Moves.pure _
  case h_3 => exact Moves.pure _

/-- Each instruction reads its opcode, a word, before the next instruction. -/
theorem progress_blockRest (fuel : Nat) (label : Option LocalName) (steps : Nat) :
    ∀ (insts : List Instruction) (c : Cursor), 4 * c.rest.length + 4 ≤ fuel →
      c.rest.length + 1 ≤ steps → Progress (blockRest fuel label steps insts) c 1 := by
  induction steps with
  | zero => exact fun _ _ _ h => absurd h (by omega)
  | succ steps ih =>
    intro insts c hfuel hsteps
    have hskip := (reaches_skipBlanks c true).length_le
    rw [blockRest]
    refine Moves.skipBlanks_bind (Reaches.refl c) fun hbc => Moves.peek_bind ?_
    lift_lets
    intro instruction
    -- after the optional `%r =`: the opcode, and what it reads
    have hinstruction : ∀ result c₁, c.Reaches c₁ → c₁.rest.length ≤ c.rest.length →
        Moves c (instruction result) c₁ 1 := by
      intro result c₁ hbc₁ hlen₁
      simp only [instruction]
      refine Moves.bind hbc₁ (progress_readWord c₁) fun opcode c₂ _ hbc₂ hlen₂ => ?_
      split
      case h_1 =>
        -- `invoke call to label %n unwind label %u`
        refine Moves.bind_tail hbc₂ (progress_parseCall fuel steps c₂ (by omega) (by omega))
          fun _ c₃ _ hbc₃ _ => ?_
        refine Moves.bind_tail hbc₃ (progress_expectWord c₃ _) fun _ c₄ _ hbc₄ _ => ?_
        refine Moves.bind_tail hbc₄ (progress_expectWord c₄ _) fun _ c₅ _ hbc₅ _ => ?_
        refine Moves.bind_tail hbc₅ (progress_readLocal c₅) fun _ c₆ _ hbc₆ _ => ?_
        refine Moves.bind_tail hbc₆ (progress_expectWord c₆ _) fun _ c₇ _ hbc₇ _ => ?_
        refine Moves.bind_tail hbc₇ (progress_expectWord c₇ _) fun _ c₈ _ hbc₈ _ => ?_
        exact Moves.bind_tail hbc₈ (progress_readLocal c₈) fun _ _ _ _ _ => Moves.pure _
      case h_5 =>
        -- an instruction that ends no block, then the rest of the block
        refine Moves.bind_tail hbc₂ (progress_parseInstKind fuel steps _ c₂ (by omega) (by omega))
          fun _ c₃ _ hbc₃ hlen₃ => ?_
        exact ((ih _ c₃ (by omega) (by omega)).lift hbc₃).mono (Nat.zero_le _)
      -- `ret`, `br` and `unreachable` end the block and produce no value
      all_goals
        split
        · exact Moves.fail_bind hbc₂ (append_append_ne_nests _ _ (by decide))
        · exact Moves.bind_tail hbc₂ (progress_parseTerminator fuel _ c₂ (by omega))
            fun _ _ _ _ _ => Moves.pure _
    split
    · refine Moves.bind_tail hbc (progress_readLocal _) fun _ c₁ _ hbc₁ hlen₁ => ?_
      refine Moves.bind_tail hbc₁ (progress_expect c₁ _) fun _ c₂ _ hbc₂ hlen₂ => ?_
      exact Moves.pure_bind (hinstruction _ c₂ hbc₂ (by omega))
    · exact Moves.pure_bind (hinstruction _ _ hbc hskip)

/-! ## Labels that turn out not to be labels -/

section Within

variable {α β : Type} {b c : Cursor} {x : Reader α}

/-- A run that may go back to the base `b`: it ends, or fails, only at cursors reached from `b`. -/
structure Within (b : Cursor) (x : Reader α) (c : Cursor) : Prop where
  ok : ∀ a c', x.run c = .ok (a, c') → b.Reaches c'
  error : ∀ e, x.run c = .error e →
    e.message ≠ "input nests too deeply" ∧ ∃ c', b.Reaches c' ∧ e.pos = c'.pos

theorem Within.of_moves {k : Nat} (h : Moves b x c k) (hbc : b.Reaches c) : Within b x c where
  ok a c' hx := hbc.trans (h.ok a c' hx).1
  error := h.error

/-- A run that stays on the text from where it starts moves forward from there. -/
theorem Within.progress (h : Within c x c) : Progress x c 0 where
  ok a c' hx := ⟨h.ok a c' hx, by have := (h.ok a c' hx).length_le; omega⟩
  error := h.error

theorem Within.of_run_eq {y : Reader α} {c' : Cursor} (hrun : x.run c = y.run c')
    (h : Within b y c') : Within b x c where
  ok a c'' hx := h.ok a c'' (hrun ▸ hx)
  error e hx := h.error e (hrun ▸ hx)

theorem Within.bind {k : Nat} {f : α → Reader β} (hbc : b.Reaches c) (hx : Progress x c k)
    (hf : ∀ a c', x.run c = .ok (a, c') → b.Reaches c' → Within b (f a) c') :
    Within b (x >>= f) c where
  ok r c'' h := by
    obtain ⟨a, c', hx₁, hf₁⟩ := run_bind_eq_ok h
    exact (hf a c' hx₁ (hbc.trans (hx.ok a c' hx₁).1)).ok r c'' hf₁
  error e h := by
    rcases run_bind_eq_error h with hx₁ | ⟨a, c', hx₁, hf₁⟩
    · exact (hx.lift hbc).error e hx₁
    · exact (hf a c' hx₁ (hbc.trans (hx.ok a c' hx₁).1)).error e hf₁

theorem Within.pure_bind {a : α} {f : α → Reader β} (h : Within b (f a) c) :
    Within b (pure a >>= f) c :=
  Within.of_run_eq (run_bind_ok (run_pure a c)) h

/-- Going back to a cursor reached from the base. -/
theorem Within.set_pure {start : Cursor} {a : α} (hstart : b.Reaches start) :
    Within b ((set start : Reader PUnit) >>= fun _ => pure a) c where
  ok a' c' hx := by
    cases hx
    exact hstart
  error e hx := by cases hx

end Within

/-- A label is tried where the blanks end; when no `:` follows it, reading goes back there. -/
theorem progress_tryLabel (c : Cursor) : Progress tryLabel c 0 := by
  have hskip := reaches_skipBlanks c true
  refine Within.progress ?_
  rw [tryLabel]
  refine Within.of_run_eq (run_bind_ok (run_skipBlanks true c)) ?_
  refine Within.of_run_eq (run_bind_ok (run_get _)) (Within.of_run_eq (run_bind_ok (run_peek _)) ?_)
  lift_lets
  intro finish ds v
  -- a label is one when `:` follows it; otherwise the cursor goes back to where it was tried
  have hfinish : ∀ label c₁, c.Reaches c₁ → Within c (finish label) c₁ := by
    intro label c₁ hbc₁
    simp only [finish]
    split
    · exact Within.of_moves (Moves.pure _) hbc₁
    · refine Within.of_run_eq (run_bind_ok (run_peek c₁)) ?_
      split
      · exact Within.of_moves (Moves.bind_tail hbc₁ (progress_advance c₁ 1) fun _ _ _ _ _ =>
          Moves.pure _) hbc₁
      · exact Within.set_pure hskip
  clear_value finish
  split
  · -- a quoted label
    exact Within.bind hskip (progress_readString _) fun _ c₁ _ hbc₁ =>
      Within.pure_bind (hfinish _ c₁ hbc₁)
  · split
    · -- a number label
      refine Within.bind hskip (progress_advance _ _) fun _ c₁ _ hbc₁ => ?_
      split
      · exact Within.pure_bind (hfinish _ c₁ hbc₁)
      · exact Within.of_moves (Moves.fail_bind (k := 0) hbc₁
          (append_append_ne_nests _ _ (by decide))) hbc₁
    · split
      · -- a bare name
        exact Within.bind hskip (progress_readName _) fun _ c₁ _ hbc₁ =>
          Within.pure_bind (hfinish _ c₁ hbc₁)
      · exact Within.pure_bind (hfinish _ _ hskip)
  · exact Within.pure_bind (hfinish _ _ hskip)

/-- Each index of a use-list order is a number, read before the next. -/
theorem progress_useListIndices (steps : Nat) :
    ∀ c : Cursor, c.rest.length + 1 ≤ steps → Progress (useListIndices steps) c 0 := by
  induction steps with
  | zero => exact fun _ h => absurd h (by omega)
  | succ steps ih =>
    intro c hsteps
    rw [useListIndices]
    refine Moves.bind_tail (Reaches.refl c) (progress_readNumber c _) fun _ c₁ _ hbc₁ hlen₁ => ?_
    refine Moves.bind_tail hbc₁ (progress_tryChar c₁ _) fun _ c₂ _ hbc₂ hlen₂ => ?_
    split
    · exact Moves.pure _
    · refine Moves.bind_tail hbc₂ (progress_expect c₂ _) fun _ c₃ _ hbc₃ hlen₃ => ?_
      exact Moves.bind_tail hbc₃ (ih c₃ (by omega)) fun _ _ _ _ _ => Moves.pure _

/-- A use-list order reads its typed operand, at least one character, first. -/
theorem progress_parseUseListOrder (fuel steps : Nat) (c : Cursor)
    (hfuel : 4 * c.rest.length + 4 ≤ fuel) (hsteps : c.rest.length + 1 ≤ steps) :
    Progress (parseUseListOrder fuel steps) c 1 := by
  rw [parseUseListOrder]
  refine Moves.bind (Reaches.refl c) (progress_parseTypedValue (by omega))
    fun _ c₁ _ hbc₁ hlen₁ => ?_
  refine Moves.bind_tail hbc₁ (progress_expect c₁ _) fun _ c₂ _ hbc₂ hlen₂ => ?_
  refine Moves.bind_tail hbc₂ (progress_expect c₂ _) fun _ c₃ _ hbc₃ hlen₃ => ?_
  exact Moves.bind_tail hbc₃ (progress_useListIndices steps c₃ (by omega)) fun _ _ _ _ _ =>
    Moves.pure _

/-- Each item of a body reads at least one character before the next: a use-list order its
operand, a block its instructions. A block without a label starts where the item does, which is
why the bound is two steps above the characters left. -/
theorem progress_bodyItems (fuel steps : Nat) : ∀ (blocks : List Block) (uses : List UseListOrder)
    (c : Cursor), 4 * c.rest.length + 4 ≤ fuel → c.rest.length + 2 ≤ steps →
    Progress (bodyItems fuel steps blocks uses) c 0 := by
  induction steps with
  | zero => exact fun _ _ _ _ h => absurd h (by omega)
  | succ steps ih =>
    intro blocks uses c hfuel hsteps
    have hskip := (reaches_skipBlanks c true).length_le
    rw [bodyItems]
    refine Moves.skipBlanks_bind (Reaches.refl c) fun hbc => Moves.peek_bind ?_
    split
    · -- `}`
      refine Moves.bind_tail hbc (progress_advance _ 1) fun _ c₁ _ hbc₁ _ => ?_
      dsimp only
      split
      · exact Moves.fail_bind hbc₁ (by decide)
      · exact Moves.pure _
    · exact Moves.fail hbc (by decide)
    · refine Moves.bind_tail hbc (progress_tryWord _ _) fun _ c₁ _ hbc₁ hlen₁ => ?_
      split
      · refine Moves.bind_tail hbc₁
          (progress_parseUseListOrder fuel steps c₁ (by omega) (by omega))
          fun _ c₂ _ hbc₂ hlen₂ => ?_
        exact (ih _ _ c₂ (by omega) (by omega)).lift hbc₂
      · refine Moves.bind_tail hbc₁ (progress_tryLabel c₁) fun _ c₂ _ hbc₂ hlen₂ => ?_
        dsimp only
        split
        · exact Moves.fail_bind hbc₂ (by decide)
        · refine Moves.bind_tail hbc₂ (progress_blockRest fuel _ steps [] c₂ (by omega) (by omega))
            fun _ c₃ _ hbc₃ hlen₃ => ?_
          exact (ih _ _ c₃ (by omega) (by omega)).lift hbc₃

theorem progress_parseBody (fuel steps : Nat) (c : Cursor) (hfuel : 4 * c.rest.length + 4 ≤ fuel)
    (hsteps : c.rest.length + 1 ≤ steps) : Progress (parseBody fuel steps) c 0 := by
  rw [parseBody]
  exact Moves.bind_tail (Reaches.refl c) (progress_expect c _) fun _ c₁ _ hbc₁ hlen₁ =>
    (progress_bodyItems fuel steps [] [] c₁ (by omega) (by omega)).lift hbc₁

theorem progress_parseDeclare (fuel steps : Nat) (c : Cursor)
    (hfuel : 4 * c.rest.length + 4 ≤ fuel) (hsteps : c.rest.length + 1 ≤ steps) :
    Progress (parseDeclare fuel steps) c 0 := by
  rw [parseDeclare]
  refine Moves.bind_tail (Reaches.refl c) (progress_metadataAttachments steps c hsteps)
    fun _ c₁ _ hbc₁ hlen₁ => ?_
  refine Moves.bind_tail hbc₁ (progress_tryKeyword _ c₁) fun _ c₂ _ hbc₂ hlen₂ => ?_
  exact Moves.bind_tail hbc₂ (progress_parseHeader fuel steps _ c₂ (by omega) (by omega))
    fun _ _ _ _ _ => Moves.pure _

theorem progress_parseDefine (fuel steps : Nat) (c : Cursor)
    (hfuel : 4 * c.rest.length + 4 ≤ fuel) (hsteps : c.rest.length + 1 ≤ steps) :
    Progress (parseDefine fuel steps) c 0 := by
  rw [parseDefine]
  refine Moves.bind_tail (Reaches.refl c) (progress_tryKeyword _ c) fun _ c₁ _ hbc₁ hlen₁ => ?_
  refine Moves.bind_tail hbc₁ (progress_parseHeader fuel steps _ c₁ (by omega) (by omega))
    fun _ c₂ _ hbc₂ hlen₂ => ?_
  refine Moves.bind_tail hbc₂ (progress_metadataAttachments steps c₂ (by omega))
    fun _ c₃ _ hbc₃ hlen₃ => ?_
  exact Moves.bind_tail hbc₃ (progress_parseBody fuel steps c₃ (by omega) (by omega))
    fun _ _ _ _ _ => Moves.pure _

/-! ## Module items -/

theorem progress_parseTypeDef (fuel : Nat) (c : Cursor) (hfuel : 4 * c.rest.length + 4 ≤ fuel) :
    Progress (parseTypeDef fuel) c 1 := by
  rw [parseTypeDef]
  refine Moves.bind (Reaches.refl c) (progress_readLocal c) fun _ c₁ _ hbc₁ hlen₁ => ?_
  lift_lets
  intro definition
  -- after the name: `= type opaque` or `= type ty`
  have hdefinition : ∀ name, Moves c (definition name) c₁ 0 := by
    intro name
    simp only [definition]
    refine Moves.bind_tail hbc₁ (progress_expect c₁ _) fun _ c₂ _ hbc₂ hlen₂ => ?_
    refine Moves.bind_tail hbc₂ (progress_expectWord c₂ _) fun _ c₃ _ hbc₃ hlen₃ => ?_
    refine Moves.bind_tail hbc₃ (progress_tryWord c₃ _) fun _ c₄ _ hbc₄ hlen₄ => ?_
    split
    · exact Moves.pure _
    · exact Moves.bind_tail hbc₄ (progress_parseType (by omega)) fun _ _ _ _ _ => Moves.pure _
  clear_value definition
  split
  · exact Moves.pure_bind (hdefinition _)
  · exact Moves.pure_bind (hdefinition _)

theorem progress_parseComdatDef (c : Cursor) : Progress parseComdatDef c 1 := by
  rw [parseComdatDef]
  refine Moves.bind (Reaches.refl c) (progress_readComdatName c) fun _ c₁ _ hbc₁ _ => ?_
  refine Moves.bind_tail hbc₁ (progress_expect c₁ _) fun _ c₂ _ hbc₂ _ => ?_
  refine Moves.bind_tail hbc₂ (progress_expectWord c₂ _) fun _ c₃ _ hbc₃ _ => ?_
  refine Moves.bind_tail hbc₃ (progress_readWord c₃) fun _ c₄ _ hbc₄ _ => ?_
  split
  · exact Moves.pure _
  · exact Moves.fail hbc₄ (append_append_ne_nests _ _ (by decide))

/-- Each word before `global` or `constant` is read before the next. -/
theorem progress_globalPrefix (steps : Nat) : ∀ (g : Global) (c : Cursor),
    c.rest.length + 1 ≤ steps → Progress (globalPrefix steps g) c 0 := by
  induction steps with
  | zero => exact fun _ _ h => absurd h (by omega)
  | succ steps ih =>
    intro g c hsteps
    rw [globalPrefix]
    refine Moves.bind_tail (Reaches.refl c) (progress_readWord c) fun w c₁ _ hbc₁ hlen₁ => ?_
    -- a linkage, preemption, visibility, storage or address keyword, then the next word
    have hnext : ∀ g', Moves c (globalPrefix steps g') c₁ 0 :=
      fun g' => (ih g' c₁ (by omega)).lift hbc₁
    split
    · exact hnext _
    · split
      · exact hnext _
      · split
        · exact hnext _
        · split
          · exact hnext _
          · split
            · exact hnext _
            · split
              · exact Moves.pure _
              · exact Moves.fail hbc₁ (append_append_ne_nests _ _ (by decide))

/-- Each clause of a global reads its `,` before the next. -/
theorem progress_globalSuffix (steps : Nat) : ∀ (g : Global) (c : Cursor),
    c.rest.length + 1 ≤ steps → Progress (globalSuffix steps g) c 0 := by
  induction steps with
  | zero => exact fun _ _ h => absurd h (by omega)
  | succ steps ih =>
    intro g c hsteps
    have hskip := (reaches_skipBlanks c false).length_le
    rw [globalSuffix]
    refine Moves.skipBlanks_bind (Reaches.refl c) fun hbc => Moves.peek_bind ?_
    split
    · exact Moves.pure _
    · next hne =>
      have hhead : (c.skipBlanks false).rest.head? = some ',' := not_not.mp hne
      refine Moves.bind_tail hbc (progress_advance_of_head? _ hhead le_rfl)
        fun _ c₁ _ hbc₁ hlen₁ => ?_
      refine Moves.bind_tail hbc₁ (progress_readWord c₁) fun _ c₂ _ hbc₂ hlen₂ => ?_
      have hnext : ∀ (g' : Global) (c₃ : Cursor), c.Reaches c₃ →
          c₃.rest.length ≤ c₂.rest.length → Moves c (globalSuffix steps g') c₃ 0 :=
        fun g' c₃ hbc₃ hlen₃ => (ih g' c₃ (by omega)).lift hbc₃
      split
      case h_1 =>
        exact Moves.bind_tail hbc₂ (progress_readString c₂) fun _ c₃ _ hbc₃ hlen₃ =>
          hnext _ c₃ hbc₃ (by omega)
      case h_2 =>
        exact Moves.bind_tail hbc₂ (progress_comdatClause c₂) fun _ c₃ _ hbc₃ hlen₃ =>
          hnext _ c₃ hbc₃ (by omega)
      case h_3 =>
        exact Moves.bind_tail hbc₂ (progress_readNumber c₂ _) fun _ c₃ _ hbc₃ hlen₃ =>
          hnext _ c₃ hbc₃ (by omega)
      case h_4 =>
        exact Moves.fail hbc₂ (append_append_ne_nests _ _ (by decide))

/-- A global reads its name first; its prefix and clauses are loops within the same bound. -/
theorem progress_parseGlobal (fuel steps : Nat) (c : Cursor) (hfuel : 4 * c.rest.length + 4 ≤ fuel)
    (hsteps : c.rest.length ≤ steps) : Progress (parseGlobal fuel steps) c 1 := by
  rw [parseGlobal]
  refine Moves.bind (Reaches.refl c) (progress_readGlobalName c) fun _ c₁ _ hbc₁ hlen₁ => ?_
  refine Moves.bind_tail hbc₁ (progress_expect c₁ _) fun _ c₂ _ hbc₂ hlen₂ => ?_
  refine Moves.bind_tail hbc₂ (progress_globalPrefix steps _ c₂ (by omega))
    fun _ c₃ _ hbc₃ hlen₃ => ?_
  refine Moves.bind_tail hbc₃ (progress_parseType (by omega)) fun _ c₄ _ hbc₄ hlen₄ => ?_
  refine Moves.bind_tail hbc₄ (progress_atLineEnd c₄) fun _ c₅ _ hbc₅ hlen₅ =>
    Moves.peek_bind ?_
  dsimp only
  split
  · -- an initializer on the same line
    refine Moves.bind_tail hbc₅ (progress_parseConstant (by omega)) fun _ c₆ _ hbc₆ hlen₆ => ?_
    exact Moves.pure_bind ((progress_globalSuffix steps _ c₆ (by omega)).lift hbc₆)
  · exact Moves.pure_bind ((progress_globalSuffix steps _ c₅ (by omega)).lift hbc₅)

/-- Each attribute of a group is read whole before the next. -/
theorem progress_groupAttrs (steps : Nat) :
    ∀ c : Cursor, c.rest.length + 1 ≤ steps → Progress (groupAttrs steps) c 0 := by
  induction steps with
  | zero => exact fun _ h => absurd h (by omega)
  | succ steps ih =>
    intro c hsteps
    rw [groupAttrs]
    refine Moves.bind_tail (Reaches.refl c) (progress_tryChar c _) fun _ c₁ _ hbc₁ hlen₁ => ?_
    split
    · exact Moves.pure _
    · refine Moves.peek_bind ?_
      dsimp only
      split
      · exact Moves.fail_bind hbc₁ (by decide)
      · refine Moves.bind_tail hbc₁ (progress_parseAttribute c₁) fun _ c₂ _ hbc₂ hlen₂ => ?_
        exact Moves.bind_tail hbc₂ (ih c₂ (by omega)) fun _ _ _ _ _ => Moves.pure _

theorem progress_parseAttrGroup (steps : Nat) (c : Cursor) (hsteps : c.rest.length + 1 ≤ steps) :
    Progress (parseAttrGroup steps) c 0 := by
  rw [parseAttrGroup]
  refine Moves.bind_tail (Reaches.refl c) (progress_expect c _) fun _ c₁ _ hbc₁ hlen₁ => ?_
  refine Moves.bind_tail hbc₁ (progress_readNumber c₁ _) fun _ c₂ _ hbc₂ hlen₂ => ?_
  refine Moves.bind_tail hbc₂ (progress_expect c₂ _) fun _ c₃ _ hbc₃ hlen₃ => ?_
  refine Moves.bind_tail hbc₃ (progress_expect c₃ _) fun _ c₄ _ hbc₄ hlen₄ => ?_
  exact Moves.bind_tail hbc₄ (progress_groupAttrs steps c₄ (by omega)) fun _ _ _ _ _ =>
    Moves.pure _

/-- Each item of a module reads at least one character before the next. -/
theorem progress_moduleItems (fuel steps : Nat) : ∀ (m : Module) (c : Cursor),
    4 * c.rest.length + 4 ≤ fuel → c.rest.length + 1 ≤ steps →
    Progress (moduleItems fuel steps m) c 0 := by
  induction steps with
  | zero => exact fun _ _ _ h => absurd h (by omega)
  | succ steps ih =>
    intro m c hfuel hsteps
    have hskip := (reaches_skipBlanks c true).length_le
    have hnext : ∀ (m' : Module) (c₁ : Cursor), c.Reaches c₁ →
        c₁.rest.length + 1 ≤ (c.skipBlanks true).rest.length →
        Moves c (moduleItems fuel steps m') c₁ 0 :=
      fun m' c₁ hbc₁ hlen₁ => (ih m' c₁ (by omega) (by omega)).lift hbc₁
    rw [moduleItems]
    refine Moves.skipBlanks_bind (Reaches.refl c) fun hbc => Moves.peek_bind ?_
    split
    · exact Moves.pure _
    · -- `%name = type …`
      exact Moves.bind_tail hbc (progress_parseTypeDef fuel _ (by omega))
        fun _ c₁ _ hbc₁ hlen₁ => hnext _ c₁ hbc₁ hlen₁
    · -- `$name = comdat …`
      exact Moves.bind_tail hbc (progress_parseComdatDef _) fun _ c₁ _ hbc₁ hlen₁ =>
        hnext _ c₁ hbc₁ hlen₁
    · -- `@name = …`
      exact Moves.bind_tail hbc (progress_parseGlobal fuel steps _ (by omega) (by omega))
        fun _ c₁ _ hbc₁ hlen₁ => hnext _ c₁ hbc₁ hlen₁
    · -- an item that starts with a word
      refine Moves.bind_tail hbc (progress_readWord _) fun _ c₁ _ hbc₁ hlen₁ => ?_
      split
      case h_1 =>
        -- `source_filename = "…"`
        refine Moves.bind_tail hbc₁ (progress_expect c₁ _) fun _ c₂ _ hbc₂ hlen₂ => ?_
        exact Moves.bind_tail hbc₂ (progress_readString c₂) fun _ c₃ _ hbc₃ hlen₃ =>
          hnext _ c₃ hbc₃ (by omega)
      case h_2 =>
        -- `target datalayout = "…"` or `target triple = "…"`
        refine Moves.bind_tail hbc₁ (progress_readWord c₁) fun _ c₂ _ hbc₂ hlen₂ => ?_
        split
        case h_3 =>
          exact Moves.fail hbc₂ (append_append_ne_nests _ _ (by decide))
        all_goals
          refine Moves.bind_tail hbc₂ (progress_expect c₂ _) fun _ c₃ _ hbc₃ hlen₃ => ?_
          exact Moves.bind_tail hbc₃ (progress_readString c₃) fun _ c₄ _ hbc₄ hlen₄ =>
            hnext _ c₄ hbc₄ (by omega)
      case h_3 =>
        exact Moves.bind_tail hbc₁ (progress_parseDeclare fuel steps c₁ (by omega) (by omega))
          fun _ c₂ _ hbc₂ hlen₂ => hnext _ c₂ hbc₂ (by omega)
      case h_4 =>
        exact Moves.bind_tail hbc₁ (progress_parseDefine fuel steps c₁ (by omega) (by omega))
          fun _ c₂ _ hbc₂ hlen₂ => hnext _ c₂ hbc₂ (by omega)
      case h_5 =>
        exact Moves.bind_tail hbc₁ (progress_parseAttrGroup steps c₁ (by omega))
          fun _ c₂ _ hbc₂ hlen₂ => hnext _ c₂ hbc₂ (by omega)
      case h_6 =>
        exact Moves.fail hbc₁ (append_append_ne_nests _ _ (by decide))

/-! ## A whole text -/

/-- Moving `j` characters on moves the offset past the bytes of the first `j` characters (of all
of them, when there are fewer). -/
theorem pos_advance (rest : List Char) (pos j : Nat) :
    ((⟨rest, pos⟩ : Cursor).advance j).pos = pos + (String.ofList (rest.take j)).utf8ByteSize := by
  induction j generalizing rest pos with
  | zero => simp [Cursor.advance]
  | succ j ih =>
    cases rest with
    | nil =>
      -- past the end, moving on leaves the cursor where it is
      show ((⟨[], pos⟩ : Cursor).advance j).pos = _
      simpa only [List.take_nil] using ih [] pos
    | cons ch rest =>
      rw [Cursor.advance, List.take_succ_cons, String.ofList_cons, String.utf8ByteSize_append,
        String.utf8ByteSize_singleton, ← Nat.add_assoc]
      exact ih rest (pos + ch.utf8Size)

/-- **Reading a module is total.** Whatever the text, reading it gives a module, or a syntax error
located at a character boundary of the text (the byte offset of its first `j` characters) with a
message of the grammar: neither the bound on nesting nor the one on iterations ever runs out. -/
theorem parseModule_total (text : String) :
    (∃ m, parseModule text = .ok m) ∨
    ∃ (j : Nat) (msg : String), msg ≠ "input nests too deeply" ∧
      parseModule text =
        .error (ReadError.locate text ⟨(String.ofList (text.toList.take j)).utf8ByteSize, msg⟩) := by
  have hitems : Progress (moduleItems (fuelFor ⟨text.toList, 0⟩) (text.toList.length + 1) {})
      ⟨text.toList, 0⟩ 0 :=
    progress_moduleItems _ _ {} _ (by simp only [fuelFor]; omega) le_rfl
  unfold parseModule
  dsimp only
  cases hrun : (moduleItems (fuelFor ⟨text.toList, 0⟩) (text.toList.length + 1) {}).run
    ⟨text.toList, 0⟩ with
  | ok r =>
    obtain ⟨m, _⟩ := r
    exact .inl ⟨m, rfl⟩
  | error e =>
    obtain ⟨hmsg, c', ⟨j, rfl⟩, hpos⟩ := hitems.error e hrun
    refine .inr ⟨j, e.message, hmsg, ?_⟩
    rw [pos_advance, Nat.zero_add] at hpos
    rw [← hpos]

end LlvmAsm.Ast.Reader
