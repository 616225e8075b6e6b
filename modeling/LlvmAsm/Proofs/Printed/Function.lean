import LlvmAsm.Proofs.Printed.Header

/-!
# `Proofs.Printed.Function` — reading a printed function back

A function is printed as `declare` and its metadata, linkage and header, or as `define`, its
linkage, header and metadata, and its body (`Function.print`). Reading that text after the leading
word gives the function's written form (`Function.toAst`) when each part reads back: the body
(`Function.readsAt_parseBody`), the words after the parameters (`Function.readsAt_headerSuffix`)
and the header as a whole (`Function.readsAt_parseHeader`). A definition and a declaration then
read back whole (`Function.readsAt_parseDefine`, `Function.readsAt_parseDeclare`); the linkage is
read first, and a function with none reads back with none because no header opens with a
linkage's word (`Function.noLinkageAhead_header`).

The body is read item by item. Each block opens with its label, which `bodyItems` tries as the
word `uselistorder` first, then as a label, and its lines are read by `blockRest` up to the line
feed that ends the block; the use-list orders follow. So the loop is read by induction over the
blocks (`Block.readsAt_bodyItems_blocks`), ending in the use-list orders' reading
(`UseListOrder.readsAt_bodyItems`).
-/

namespace LlvmAsm

open Ast Reader

namespace UseListOrder

/-- The text of a body's use-list orders and its `}`: a line feed opens them when there is one. -/
def closingText (t : LocalTable) (uses : List UseListOrder) : List Char :=
  (if uses.isEmpty then [] else ['\n']) ++ (listText t uses ++ ['}'])

variable {t : LocalTable} {fuel : Nat}

/-- **The end of a body reads back** once a block has been read: its use-list orders, after the
line feed that opens them, and the `}`. -/
theorem readsAt_closingText (ht : t.NumbersFit) {uses : List UseListOrder}
    (huses : ∀ u ∈ uses, u.Rereads) (hf : 2 * (closingText t uses).length < fuel)
    (blocks : List Ast.Block) (steps : Nat) (hne : blocks ≠ [])
    (hsteps : (closingText t uses).length < steps) :
    ReadsAt (bodyItems fuel steps blocks []) (closingText t uses) (fun _ => True)
      ⟨blocks.reverse, uses.map (·.toAst t)⟩ := by
  have hlist : 2 * (listText t uses).length < fuel := by
    cases uses <;> simp [closingText] at hf <;> omega
  have hread := readsAt_bodyItems ht huses hlist
  cases uses with
  | nil =>
    exact hread blocks [] steps hne (by simp [closingText] at hsteps; omega)
  | cons u us =>
    have hlen : (closingText t (u :: us)).length = (listText t (u :: us)).length + 2 := by
      simp [closingText]
    obtain ⟨s, rfl⟩ : ∃ s, steps = s + 1 := ⟨steps - 1, by omega⟩
    have hitems := hread blocks [] (s + 1) hne (by omega)
    -- the line feed before the first use-list order is skipped with the other blanks
    exact ReadsAt.of_text_eq (hitems.blank (show Cursor.isBlank '\n' = true by decide)
      (skipsBlanks_bodyItems fuel s _ _))
      (by simp [closingText])

end UseListOrder

namespace Block

variable {t : LocalTable} {fuel : Nat}

/-- A label ends in `:`, so the word it opens with is its own whatever follows it. -/
theorem takeWhile_label_append (i : LocalIdent) (r : List Char) :
    (i.label.toList ++ r).takeWhile isWordChar = i.label.toList.takeWhile isWordChar := by
  obtain ⟨xs, hxs⟩ : ∃ xs, i.label.toList = xs ++ [':'] := by
    cases i with
    | named n => exact ⟨_, toList_label_named n⟩
    | anon id => exact ⟨_, toList_label_anon id⟩
  have hcolon : ∀ ys : List Char, (xs ++ ':' :: ys).takeWhile isWordChar = xs.takeWhile isWordChar :=
    fun ys => takeWhile_append_stop fun y hy => by cases hy; decide
  rw [hxs, List.append_assoc, List.singleton_append, hcolon, hcolon]

/-- One block of a body, read from its label: `bodyItems` does not take it for a use-list order,
reads its label and its lines, and goes on with the blocks after it. -/
theorem readsAt_bodyItems_block (ht : t.NumbersFit) {b : Block} (hb : b.Rereads t)
    (hf : 2 * (linesText t b.insts b.term).length < fuel) {blocks : List Ast.Block}
    {uses : List Ast.UseListOrder} {s : Nat} (hs : (linesText t b.insts b.term).length < s)
    {tail : List Char} {body : Ast.Body}
    (hrest : ReadsAt (bodyItems fuel s (b.toAst t :: blocks) uses) ('\n' :: tail) (fun _ => True) body) :
    ReadsAt (bodyItems fuel (s + 1) blocks uses)
      ((b.render t).toList ++ '\n' :: tail) (fun _ => True) body := by
  obtain ⟨ch, cs, hl, hblank, hsemi, hclose⟩ := label_head (t.ident b.label)
  have hid : ∀ id, t.ident b.label = .anon id → id < bound32 := fun id h => ht _ id h
  rw [toList_render, bodyItems, List.append_assoc]
  refine readsAt_skip_peek (by rw [hl]; rfl) hblank hsemi ?_
  dsimp only
  split
  · next h => exact absurd (Option.some.inj h) hclose
  · next h => cases h
  -- the label's word is not `uselistorder`, so the block is read from its label
  obtain ⟨s', rfl⟩ : ∃ s', s = s' + 1 := ⟨s - 1, by omega⟩
  have hlines := readsAt_lines ht hb.term (some (t.ident b.label).toName) hb.insts hf (s' + 1) [] hs
  have hblock : ReadsAt (blockRest fuel (some (t.ident b.label).toName) (s' + 1) [] >>= fun b' =>
      bodyItems fuel (s' + 1) (b' :: blocks) uses)
      ('\n' :: '\t' :: (linesText t b.insts b.term ++ '\n' :: tail)) (fun _ => True) body := by
    have hskip := (skipsBlanks_blockRest fuel (some (t.ident b.label).toName) s' []).bind
      fun b' => bodyItems fuel (s' + 1) (b' :: blocks) uses
    refine ((hlines.bind hrest fun _ _ => ?_).blank (by decide) hskip).blank (by decide) hskip
    intro x hx
    cases hx
    rfl
  refine ReadsAt.of_text_eq (ReadsAt.bind readsAt_tryWord_other ?_ fun r _ => ⟨?_, ?_⟩)
    (List.nil_append _)
  · refine ReadsAt.bind (readsAt_tryLabel hid) ?_ fun _ _ => trivial
    simp only [Option.isNone_some, Bool.false_and, Bool.false_eq_true, if_false]
    exact hblock
  · rw [hl]
    intro x hx
    cases hx
    exact ⟨hblank, hsemi⟩
  · rw [List.append_assoc, takeWhile_label_append]
    exact hb.label

/-- **The blocks of a body read back**, then its use-list orders and its `}`: reading them after
the blocks read so far (`blocks`, the last first) adds theirs, when there is a block to read or
one was read. -/
theorem readsAt_bodyItems_blocks (ht : t.NumbersFit) {uses : List UseListOrder}
    (huses : ∀ u ∈ uses, u.Rereads) :
    ∀ (bs : List Block), (∀ b ∈ bs, b.Rereads t) →
      2 * (listText t bs ++ UseListOrder.closingText t uses).length < fuel →
      ∀ (blocks : List Ast.Block) (steps : Nat), (blocks ≠ [] ∨ bs ≠ []) →
        (listText t bs ++ UseListOrder.closingText t uses).length < steps →
        ReadsAt (bodyItems fuel steps blocks []) (listText t bs ++ UseListOrder.closingText t uses)
          (fun _ => True) ⟨blocks.reverse ++ bs.map (·.toAst t), uses.map (·.toAst t)⟩
  | [], _, hf, blocks, steps, hne, hsteps => by
    rw [List.map_nil, List.append_nil]
    exact UseListOrder.readsAt_closingText ht huses hf blocks steps
      (hne.resolve_right fun h => h rfl) hsteps
  | b :: bs, hbs, hf, blocks, steps, _, hsteps => by
    have hrender := congrArg List.length (toList_render t b)
    have hlen : (listText t (b :: bs) ++ UseListOrder.closingText t uses).length =
        (b.render t).length + 2 + (listText t bs ++ UseListOrder.closingText t uses).length := by
      simp only [listText, List.length_append, List.length_cons, String.length_toList]
      omega
    simp only [List.length_append, List.length_cons, String.length_toList] at hrender
    obtain ⟨s, rfl⟩ : ∃ s, steps = s + 2 := ⟨steps - 2, by omega⟩
    have ih := readsAt_bodyItems_blocks ht huses bs (fun b' hb' => hbs b' (List.mem_cons_of_mem b hb'))
      (by omega) (b.toAst t :: blocks) (s + 1) (Or.inl (List.cons_ne_nil _ _)) (by omega)
    rw [List.reverse_cons, List.append_assoc, List.singleton_append, ← List.map_cons] at ih
    -- the line feed before the block, the block, and the others after the line feed that ends it
    have hblock := readsAt_bodyItems_block ht (hbs b List.mem_cons_self) (by omega) (by omega)
      (ih.blank (show Cursor.isBlank '\n' = true by decide) (skipsBlanks_bodyItems fuel s _ _))
    exact ReadsAt.of_text_eq (hblock.blank (show Cursor.isBlank '\n' = true by decide)
      (skipsBlanks_bodyItems fuel (s + 1) _ _)) (by simp [listText])

end Block

namespace Function

variable {fuel : Nat}

/-- The text of a body with a block: the `{`, its blocks, its use-list orders and the `}`. -/
theorem toList_renderBody {f : Function} (hb : f.blocks ≠ []) :
    f.renderBody.toList =
      '{' :: (Block.listText f.locals f.blocks ++ UseListOrder.closingText f.locals f.useLists) := by
  have hblocks := Block.toList_intercalate_render f.locals f.blocks hb
  rw [String.toList_append] at hblocks
  simp only [renderBody, String.toList_append, UseListOrder.toList_join_render, List.append_assoc]
  rw [show "\x7b\n".toList = '{' :: "\n".toList from rfl, List.cons_append,
    ← List.append_assoc "\n".toList, hblocks]
  cases f.useLists <;> simp [UseListOrder.closingText]

/-- **A printed body reads back** as the written form of its blocks and use-list orders. -/
theorem readsAt_parseBody {f : Function} (hb : f.blocks ≠ []) (ht : f.locals.NumbersFit)
    (hblocks : ∀ b ∈ f.blocks, b.Rereads f.locals) (huses : ∀ u ∈ f.useLists, u.Rereads)
    (hf : 2 * f.renderBody.length < fuel) {steps : Nat} (hsteps : f.renderBody.length ≤ steps) :
    ReadsAt (parseBody fuel steps) f.renderBody.toList (fun _ => True) f.bodyAst := by
  have hlen := congrArg List.length (toList_renderBody hb)
  rw [String.length_toList, List.length_cons] at hlen
  rw [toList_renderBody hb]
  exact ReadsAt.bind (readsAt_expect (F := fun _ => True) (by decide) (by decide))
    (Block.readsAt_bodyItems_blocks ht huses f.blocks hblocks (by omega) [] steps (Or.inr hb)
      (by omega)) fun _ _ => trivial

end Function

/-! ## The words after the parameters -/

namespace Ast.Reader

variable {α : Type} {t : List Char} {F : List Char → Prop} {a : α} {fuel : Nat}

/-- Reading past a space on the line, where the next character is `ch`. -/
theorem readsAt_space_peek_at {k : Option Char → Reader α} {ch : Char} (hhead : t.head? = some ch)
    (hb : Cursor.isBlank ch = false) (hs : ch ≠ ';') (h : ReadsAt (k (some ch)) t F a) :
    ReadsAt (skipBlanks false >>= fun _ => peek >>= k) (' ' :: t) F a := by
  obtain ⟨tl, rfl⟩ := List.head?_eq_some_iff.mp hhead
  exact readsAt_space_peek (P := fun x => x = some ch) (fun _ _ x hx => by cases hx; exact ⟨hb, hs⟩)
    (fun _ _ => rfl) fun x hx => by rw [hx]; exact h

/-- A comdat's name after its `$` is read back as the name. -/
theorem readsAt_readComdatName (name : String) :
    ReadsAt readComdatName (Text.comdatName name).toList
      (fun r => Text.isBare name → ∀ x ∈ r.head?, isNameChar x = false) name := by
  intro c r hc hr
  have hskip : c.skipBlanks true = c :=
    Cursor.skipBlanks_of_head (by rw [hc, toList_comdatName]; rfl) (by decide) (by decide) true
  rw [run_readComdatName (by rw [hskip]; exact hc) hr, hskip, String.length_toList]

/-- What follows a word after the parameters: the space before the next word, or the end of the
line. -/
def SuffixGap (r : List Char) : Prop := ∀ ch ∈ r.head?, ch = ' ' ∨ ch = '\n'

/-- Neither a space nor a line feed continues a word, a name, a constant or an attribute. -/
theorem SuffixGap.ends {r : List Char} (h : SuffixGap r) : ∀ ch ∈ r.head?,
    isWordChar ch = false ∧ isNameChar ch = false ∧ endsConst ch = true ∧ ch ≠ '(' ∧ ch ≠ '=' := by
  intro ch hch
  rcases h ch hch with rfl | rfl <;> decide

theorem SuffixGap.attrEnd {r : List Char} (h : SuffixGap r) : AttrEnd r := fun ch hch =>
  ⟨(h.ends ch hch).1, (h.ends ch hch).2.2.2⟩

theorem readsAt_headerSuffix_unnamedAddr (u : UnnamedAddr) {s : Nat} {h b : Header}
    {tail : List Char} (htail : ∀ r, F r → SuffixGap (tail ++ r))
    (hrest : ReadsAt (headerSuffix fuel s { h with unnamedAddr := some u }) tail F b) :
    ReadsAt (headerSuffix fuel (s + 1) h) (' ' :: ((Keyword.keyword u).toList ++ tail)) F b := by
  rw [headerSuffix]
  cases u <;>
  exact readsAt_space_peek_at rfl (by decide) (by decide)
    (readsAt_wordAt_bind (by decide) (forall_mem_of_all (by decide))
      (fun r hr x hx => ((htail r hr).ends x hx).1) (by
        simp only [String.ofList_toList]
        exact ReadsAt.bind (readsAt_advance_text (F := fun _ => True) _) hrest fun _ _ => trivial))

/-- `section "name"`, then the words after it. -/
theorem readsAt_headerSuffix_section (name : String) {s : Nat} {h b : Header} {tail : List Char}
    (hrest : ReadsAt (headerSuffix fuel s { h with sectionName := some name }) tail F b) :
    ReadsAt (headerSuffix fuel (s + 1) h)
      (' ' :: (("section " ++ Text.quote name.toUTF8.toList).toList ++ tail)) F b := by
  rw [headerSuffix, String.toList_append, List.append_assoc]
  exact readsAt_space_peek_at rfl (by decide) (by decide)
    (readsAt_wordAt_bind (w := "section".toList) (by decide) (forall_mem_of_all (by decide))
      (fun _ _ x hx => by cases hx; decide) (by
        simp only [String.ofList_toList]
        exact ReadsAt.bind (readsAt_advance_text (F := fun _ => True) _)
          (ReadsAt.bind ((readsAt_readString (F := fun _ => True) name).space skipsBlanks_readString) hrest
            fun _ _ => trivial) fun _ _ => trivial))

/-- `gc "name"`, then the words after it. -/
theorem readsAt_headerSuffix_gc (name : String) {s : Nat} {h b : Header} {tail : List Char}
    (hrest : ReadsAt (headerSuffix fuel s { h with gc := some name }) tail F b) :
    ReadsAt (headerSuffix fuel (s + 1) h)
      (' ' :: (("gc " ++ Text.quote name.toUTF8.toList).toList ++ tail)) F b := by
  rw [headerSuffix, String.toList_append, List.append_assoc]
  exact readsAt_space_peek_at rfl (by decide) (by decide)
    (readsAt_wordAt_bind (w := "gc".toList) (by decide) (forall_mem_of_all (by decide))
      (fun _ _ x hx => by cases hx; decide) (by
        simp only [String.ofList_toList]
        exact ReadsAt.bind (readsAt_advance_text (F := fun _ => True) _)
          (ReadsAt.bind ((readsAt_readString (F := fun _ => True) name).space skipsBlanks_readString) hrest
            fun _ _ => trivial) fun _ _ => trivial))

/-- A comdat clause with no `(` after the word: the item's own comdat. -/
theorem readsAt_comdatClause_implicit :
    ReadsAt comdatClause [] (fun r => r.head? ≠ some '(') .implicit := by
  unfold comdatClause
  exact readsAt_peek_bind (P := fun y => y ≠ some '(') (fun _ hr => hr) fun y hy => by
    rw [if_neg hy]
    exact ReadsAt.pure _

/-- A comdat clause naming a comdat in parentheses. -/
theorem readsAt_comdatClause_named (name : String) :
    ReadsAt comdatClause ('(' :: ((Text.comdatName name).toList ++ [')'])) (fun _ => True)
      (.named name) := by
  unfold comdatClause
  refine readsAt_peek_bind (P := fun y => y = some '(') (fun _ _ => rfl) fun y hy => ?_
  rw [if_pos hy]
  exact ReadsAt.bind (readsAt_advance (F := fun _ => True) '(')
    (ReadsAt.bind (readsAt_readComdatName name)
      (ReadsAt.bind (readsAt_expect (F := fun _ => True) (show Cursor.isBlank ')' = false by decide)
        (by decide)) (ReadsAt.pure _) fun _ _ => trivial)
      fun _ _ _ x hx => by cases hx; decide)
    fun _ _ => trivial

/-- A bare `comdat`, the item's own, then the words after it. -/
theorem readsAt_headerSuffix_comdat_implicit {s : Nat} {h b : Header} {tail : List Char}
    (htail : ∀ r, F r → SuffixGap (tail ++ r))
    (hrest : ReadsAt (headerSuffix fuel s { h with comdat := some .implicit }) tail F b) :
    ReadsAt (headerSuffix fuel (s + 1) h) (' ' :: ("comdat".toList ++ tail)) F b := by
  rw [headerSuffix]
  refine readsAt_space_peek_at rfl (by decide) (by decide)
    (readsAt_wordAt_bind (by decide) (forall_mem_of_all (by decide))
      (fun r hr x hx => ((htail r hr).ends x hx).1) ?_)
  simp only [String.ofList_toList]
  exact ReadsAt.bind (readsAt_advance_text (F := fun _ => True) _)
    (ReadsAt.bind readsAt_comdatClause_implicit hrest
      fun r hr he => ((htail r hr).ends '(' he).2.2.2.1 rfl)
    fun _ _ => trivial

/-- `comdat($name)`, then the words after it. -/
theorem readsAt_headerSuffix_comdat_named (name : String) {s : Nat} {h b : Header} {tail : List Char}
    (hrest : ReadsAt (headerSuffix fuel s { h with comdat := some (.named name) }) tail F b) :
    ReadsAt (headerSuffix fuel (s + 1) h)
      (' ' :: (("comdat(" ++ Text.comdatName name ++ ")").toList ++ tail)) F b := by
  rw [headerSuffix]
  have htext : ("comdat(" ++ Text.comdatName name ++ ")").toList ++ tail =
      "comdat".toList ++ (('(' :: ((Text.comdatName name).toList ++ [')'])) ++ tail) := by
    simp
  rw [htext]
  refine readsAt_space_peek_at rfl (by decide) (by decide)
    (readsAt_wordAt_bind (by decide) (forall_mem_of_all (by decide))
      (fun _ _ x hx => by cases hx; decide) ?_)
  simp only [String.ofList_toList]
  exact ReadsAt.bind (readsAt_advance_text (F := fun _ => True) _)
    (ReadsAt.bind (readsAt_comdatClause_named name) hrest fun _ _ => trivial) fun _ _ => trivial

/-- A constant after its type and a space, as the words after the parameters show it. -/
theorem readsAt_typedConst_gap {k : LlvmAsm.Const} (hty : ReadsBack k.ty) (hk : ConstReadsBack k)
    (hf : k.ty.readDepth + k.readDepth + 1 ≤ fuel) {g : TypedConst → Reader Header}
    {tail : List Char} {b : Header} (htail : ∀ r, F r → SuffixGap (tail ++ r))
    (hrest : ReadsAt (g k.toTypedAst) tail F b) :
    ReadsAt (parseTypedConst fuel >>= g) (' ' :: (k.renderTyped.toList ++ tail)) F b := by
  obtain ⟨f, rfl⟩ : ∃ f, fuel = f + 2 := ⟨fuel - 2, by have := LlvmAsm.Const.two_le_readDepth k; omega⟩
  have hread := readsAt_parseTypedConst hty hk hf
  rw [← List.cons_append]
  refine ReadsAt.bind ((ReadsAt.of_text_eq hread (by simp [LlvmAsm.Const.renderTyped])).space
    (skipsBlanks_parseTypedConst f)) hrest fun r hr x hx => ((htail r hr).ends x hx).2.2.1

/-- `prefix T c`, then the words after it. -/
theorem readsAt_headerSuffix_prefix {k : LlvmAsm.Const} (hty : ReadsBack k.ty) (hk : ConstReadsBack k)
    (hf : k.ty.readDepth + k.readDepth + 1 ≤ fuel) {s : Nat} {h b : Header} {tail : List Char}
    (htail : ∀ r, F r → SuffixGap (tail ++ r))
    (hrest : ReadsAt (headerSuffix fuel s { h with prefixData := some k.toTypedAst }) tail F b) :
    ReadsAt (headerSuffix fuel (s + 1) h) (' ' :: (("prefix " ++ k.renderTyped).toList ++ tail)) F b := by
  rw [headerSuffix, show ("prefix " ++ k.renderTyped).toList ++ tail =
    "prefix".toList ++ ' ' :: (k.renderTyped.toList ++ tail) by simp]
  exact readsAt_space_peek_at rfl (by decide) (by decide)
    (readsAt_wordAt_bind (by decide) (forall_mem_of_all (by decide)) (fun _ _ x hx => by cases hx; decide)
      (ReadsAt.bind (readsAt_advance_text (F := fun _ => True) _)
        (readsAt_typedConst_gap hty hk hf htail hrest) fun _ _ => trivial))

/-- `prologue T c`, then the words after it. -/
theorem readsAt_headerSuffix_prologue {k : LlvmAsm.Const} (hty : ReadsBack k.ty) (hk : ConstReadsBack k)
    (hf : k.ty.readDepth + k.readDepth + 1 ≤ fuel) {s : Nat} {h b : Header} {tail : List Char}
    (htail : ∀ r, F r → SuffixGap (tail ++ r))
    (hrest : ReadsAt (headerSuffix fuel s { h with prologue := some k.toTypedAst }) tail F b) :
    ReadsAt (headerSuffix fuel (s + 1) h) (' ' :: (("prologue " ++ k.renderTyped).toList ++ tail)) F b := by
  rw [headerSuffix, show ("prologue " ++ k.renderTyped).toList ++ tail =
    "prologue".toList ++ ' ' :: (k.renderTyped.toList ++ tail) by simp]
  exact readsAt_space_peek_at rfl (by decide) (by decide)
    (readsAt_wordAt_bind (by decide) (forall_mem_of_all (by decide)) (fun _ _ x hx => by cases hx; decide)
      (ReadsAt.bind (readsAt_advance_text (F := fun _ => True) _)
        (readsAt_typedConst_gap hty hk hf htail hrest) fun _ _ => trivial))

/-- `personality T c`, then the words after it. -/
theorem readsAt_headerSuffix_personality {k : LlvmAsm.Const} (hty : ReadsBack k.ty)
    (hk : ConstReadsBack k) (hf : k.ty.readDepth + k.readDepth + 1 ≤ fuel) {s : Nat} {h b : Header}
    {tail : List Char} (htail : ∀ r, F r → SuffixGap (tail ++ r))
    (hrest : ReadsAt (headerSuffix fuel s { h with personality := some k.toTypedAst }) tail F b) :
    ReadsAt (headerSuffix fuel (s + 1) h)
      (' ' :: (("personality " ++ k.renderTyped).toList ++ tail)) F b := by
  rw [headerSuffix, show ("personality " ++ k.renderTyped).toList ++ tail =
    "personality".toList ++ ' ' :: (k.renderTyped.toList ++ tail) by simp]
  exact readsAt_space_peek_at rfl (by decide) (by decide)
    (readsAt_wordAt_bind (by decide) (forall_mem_of_all (by decide)) (fun _ _ x hx => by cases hx; decide)
      (ReadsAt.bind (readsAt_advance_text (F := fun _ => True) _)
        (readsAt_typedConst_gap hty hk hf htail hrest) fun _ _ => trivial))

/-- A word the words after the parameters read as an attribute: none of the words that open
another item there. -/
def SuffixWord (w : String) : Prop :=
  w ∉ ["unnamed_addr", "local_unnamed_addr", "section", "comdat", "gc", "prefix", "prologue",
    "personality"]

end Ast.Reader

namespace Attribute

/-- **What a function attribute needs for its text to read back** after the parameters: it reads
back, and the word it opens with is read as an attribute there. -/
structure SuffixRereads (a : Attribute) : Prop where
  rereads : a.Rereads
  word : ∀ w ∈ a.word?, SuffixWord w

end Attribute

namespace Ast.Reader

variable {F : List Char → Prop} {fuel : Nat}

theorem readsAt_headerSuffix_attr {a : Attribute} (ha : a.SuffixRereads) {s : Nat} {h b : Header}
    {tail : List Char} (htail : ∀ r, F r → AttrEnd (tail ++ r))
    (hrest : ReadsAt (headerSuffix fuel s { h with funcAttrs := h.funcAttrs ++ [a] }) tail F b) :
    ReadsAt (headerSuffix fuel (s + 1) h) (' ' :: (a.render.toList ++ tail)) F b := by
  have hread := ReadsAt.bind (f := fun a' => headerSuffix fuel s { h with funcAttrs := h.funcAttrs ++ [a'] })
    (Attribute.readsAt_parseAttribute ha.rereads) hrest htail
  rw [headerSuffix]
  cases hword : a.word? with
  | none =>
    -- a group or a quoted pair
    cases a with
    | keyword => cases hword
    | align => cases hword
    | group id =>
      exact readsAt_space_peek_at
        (show ((Attribute.group id).render.toList ++ tail).head? = some '#' by simp [Attribute.render])
        (by decide) (by decide) hread
    | pair key value =>
      exact readsAt_space_peek_at (show ((Attribute.pair key value).render.toList ++ tail).head? = some '"' by
        cases value <;> simp [Attribute.render, Text.toList_quote]) (by decide) (by decide) hread
  | some w =>
    obtain ⟨rest, hrender, hne, hw, hrest'⟩ := Attribute.render_word ha.rereads hword
    obtain ⟨x, xs, hx⟩ := List.exists_cons_of_ne_nil hne
    have hxw := hw x (by rw [hx]; exact List.mem_cons_self)
    obtain ⟨hxb, hxs⟩ := noBlankAhead_of_word (r := []) hne hw x (by rw [hx]; rfl)
    refine readsAt_space_peek_at (by rw [hrender, hx]; rfl) hxb hxs ?_
    -- the word opens neither the end of the suffix nor a group or a quoted pair
    split
    · next h => cases h
    · next h => cases Option.some.inj h; exact absurd hxw (by decide)
    · next h => cases Option.some.inj h; exact absurd hxw (by decide)
    · next h => cases Option.some.inj h; exact absurd hxw (by decide)
    · next h => cases Option.some.inj h; exact absurd hxw (by decide)
    · next h => cases Option.some.inj h; exact absurd hxw (by decide)
    rw [hrender, List.append_assoc]
    refine readsAt_wordAt_bind hne hw (fun r hr => by rw [List.append_assoc]; exact hrest' _ (htail r hr)) ?_
    rw [String.ofList_toList]
    -- nor another item of the suffix
    split
    all_goals first
      | (next h => cases Option.some.inj h; exact absurd (by decide) (ha.word _ hword))
      | (rw [← List.append_assoc, ← hrender]; exact hread)
/-- The words after the parameters end where the line does. -/
theorem readsAt_headerSuffix_lineEnd (s : Nat) (h : Header) :
    ReadsAt (headerSuffix fuel (s + 1) h) [] AtLineEnd h := by
  intro c r hc hr
  rw [List.nil_append] at hc
  rw [headerSuffix, run_bind_ok (run_skipBlanks _ _), skipBlanks_false_of_atLineEnd (by rw [hc]; exact hr),
    run_bind_ok (run_peek _), hc]
  cases r with
  | nil => rfl
  | cons ch r =>
    obtain rfl : ch = '\n' := hr ch rfl
    rfl

/-- The words after the parameters end at the space before a body or a metadata attachment. -/
theorem readsAt_headerSuffix_open (s : Nat) (h : Header) :
    ReadsAt (headerSuffix fuel (s + 1) h) [' ']
      (fun r => r.head? = some '{' ∨ r.head? = some '!') h := by
  rw [headerSuffix]
  refine readsAt_space_peek (P := fun y => y = some '{' ∨ y = some '!') (fun r hr x hx => ?_)
    (fun _ hr => hr) fun y hy => ?_
  · rw [List.nil_append] at hx
    rcases hr with hr | hr <;> (rw [hr] at hx; cases hx; decide)
  · rcases hy with rfl | rfl <;> exact ReadsAt.pure h

/-- An optional word after the parameters leaves a gap before what follows it. -/
theorem suffixGap_optText {β : Type} (x : Option β) (text : β → String) {rest : List Char}
    (hgap : ∀ r, F r → SuffixGap (rest ++ r)) : ∀ r, F r → SuffixGap (optText x text ++ rest ++ r) := by
  intro r hr
  cases x with
  | none => exact hgap r hr
  | some v => exact fun ch hch => by cases hch; exact Or.inl rfl

theorem suffixGap_join {β : Type} (l : List β) (text : β → String) {rest : List Char}
    (hgap : ∀ r, F r → SuffixGap (rest ++ r)) :
    ∀ r, F r → SuffixGap ((String.join (l.map (" " ++ text ·))).toList ++ rest ++ r) := by
  intro r hr
  cases l with
  | nil => simpa using hgap r hr
  | cons v l => exact fun ch hch => by simp at hch; exact Or.inl hch.symm

/-- **An optional word after the parameters reads back** after its space, where its own reading
and the reading of the words after it do; `set` records it in the header, which is then `h'`. -/
theorem readsAt_headerSuffix_optional {β : Type} {x : Option β} {text : β → String}
    (set : Option β → Header → Header) {rest : List Char} {h b : Header} (h' : Header)
    (hnone : set none h = h) (hset : set x h = h')
    (hitem : ∀ v ∈ x, ∀ s tail, (∀ r, F r → SuffixGap (tail ++ r)) →
      ReadsAt (headerSuffix fuel s (set (some v) h)) tail F b →
      ReadsAt (headerSuffix fuel (s + 1) h) (' ' :: ((text v).toList ++ tail)) F b)
    (hgap : ∀ r, F r → SuffixGap (rest ++ r))
    (hnext : ∀ s, rest.length < s → ReadsAt (headerSuffix fuel s h') rest F b) :
    ∀ s, (optText x text ++ rest).length < s → ReadsAt (headerSuffix fuel s h) (optText x text ++ rest) F b := by
  intro s hs
  rw [← hset] at hnext
  cases x with
  | none =>
    rw [hnone] at hnext
    exact hnext s hs
  | some v =>
    simp only [optText, List.cons_append, List.length_cons, List.length_append] at hs
    obtain ⟨s, rfl⟩ : ∃ s', s = s' + 1 := ⟨s - 1, by omega⟩
    exact hitem v rfl s rest hgap (hnext s (by omega))

/-- **The attributes after the parameters read back**, each after its space. -/
theorem readsAt_headerSuffix_attrs {rest : List Char} {b : Header}
    (hgap : ∀ r, F r → SuffixGap (rest ++ r)) :
    ∀ (attrs : List Attribute) (h : Header), (∀ a ∈ attrs, a.SuffixRereads) →
      (∀ s, rest.length < s →
        ReadsAt (headerSuffix fuel s { h with funcAttrs := h.funcAttrs ++ attrs }) rest F b) →
      ∀ s, ((String.join (attrs.map (" " ++ ·.render))).toList ++ rest).length < s →
        ReadsAt (headerSuffix fuel s h) ((String.join (attrs.map (" " ++ ·.render))).toList ++ rest) F b
  | [], h, _, hnext, s, hs => by
    simp only [List.append_nil] at hnext
    simpa using hnext s (by simpa using hs)
  | a :: as, h, ha, hnext, s, hs => by
    have htext : (String.join ((a :: as).map (" " ++ ·.render))).toList ++ rest =
        ' ' :: (a.render.toList ++ ((String.join (as.map (" " ++ ·.render))).toList ++ rest)) := by
      simp
    rw [htext] at hs ⊢
    simp only [List.length_cons, List.length_append] at hs
    obtain ⟨s, rfl⟩ : ∃ s', s = s' + 1 := ⟨s - 1, by omega⟩
    have hrest := readsAt_headerSuffix_attrs hgap as { h with funcAttrs := h.funcAttrs ++ [a] }
      (fun a' ha' => ha a' (List.mem_cons_of_mem a ha'))
      (by simpa only [List.append_assoc, List.singleton_append] using hnext) s
      (by simp only [List.length_append]; omega)
    exact readsAt_headerSuffix_attr (ha a List.mem_cons_self)
      (fun r hr => (suffixGap_join as Attribute.render hgap r hr).attrEnd) hrest

end Ast.Reader

/-! ## The linkage -/

namespace Ast.Reader

/-- Text that opens with no blank and no `!`, and whose first word, if any, is no linkage: where
a header with no linkage opens. -/
def NoLinkageAhead (r : List Char) : Prop :=
  NoBlankAhead r ∧ r.head? ≠ some '!' ∧ ∀ l : Linkage, r.takeWhile isWordChar ≠ (Keyword.keyword l).toList

theorem ofKeyword?_linkage_eq_none {w : String} (h : ∀ l : Linkage, Keyword.keyword l ≠ w) :
    (Keyword.ofKeyword? w : Option Linkage) = none := by
  rw [Keyword.ofKeyword?, List.find?_eq_none]
  intro l _ hl
  exact h l (beq_iff_eq.mp hl)

theorem ofKeyword?_keyword_linkage (l : Linkage) :
    (Keyword.ofKeyword? (Keyword.keyword l) : Option Linkage) = some l := by
  cases l <;> rfl

theorem linkage_word (l : Linkage) :
    (Keyword.keyword l).toList ≠ [] ∧ ∀ x ∈ (Keyword.keyword l).toList, isWordChar x := by
  cases l <;> exact ⟨by decide, forall_mem_of_all (by decide)⟩

/-- A linkage's word reads back as the linkage. -/
theorem readsAt_tryKeyword_linkage (l : Linkage) :
    ReadsAt (tryKeyword Linkage) (Keyword.keyword l).toList
      (fun r => ∀ x ∈ r.head?, isWordChar x = false) (some l) := by
  intro c r hc hr
  obtain ⟨hne, hw⟩ := linkage_word l
  have hskip := skipBlanks_of_noBlankAhead (by rw [hc]; exact noBlankAhead_of_word hne hw) true
  have hpeek := run_peekWord (c := c) (by rw [hskip]; exact WordAt.of_append hc hne hw hr)
  rw [String.ofList_toList, hskip] at hpeek
  simp only [tryKeyword]
  rw [run_bind_ok hpeek, Option.bind_some, ofKeyword?_keyword_linkage, String.length_toList]
  rfl

/-- Where no linkage's word stands, no linkage is read and nothing moves. -/
theorem readsAt_tryKeyword_linkage_none : ReadsAt (tryKeyword Linkage) [] NoLinkageAhead none := by
  intro c r hc hr
  rw [List.nil_append] at hc
  have hskip := skipBlanks_of_noBlankAhead (by rw [hc]; exact hr.1) true
  have hpeek : peekWord.run c = .ok (if (r.takeWhile isWordChar).isEmpty then none
      else some (String.ofList (r.takeWhile isWordChar)), c) := by
    simp only [peekWord, wordAt]
    rw [run_bind_ok (run_skipBlanks _ _), hskip, run_bind_ok (run_get c), hc]
    rfl
  have hnone : (if (r.takeWhile isWordChar).isEmpty then none
      else some (String.ofList (r.takeWhile isWordChar))).bind
        (Keyword.ofKeyword? (α := Linkage)) = none := by
    split
    · rfl
    · rw [Option.bind_some]
      exact ofKeyword?_linkage_eq_none fun l he => hr.2.2 l (by rw [he, String.toList_ofList])
  simp only [tryKeyword]
  rw [run_bind_ok hpeek, hnone]
  rfl

theorem skipsBlanks_tryKeyword (α : Type) [Keyword α] : SkipsBlanks (tryKeyword α) := by
  simp only [tryKeyword, peekWord]
  rw [bind_assoc]
  exact skipsBlanks_skip_bind _

/-- A word followed by no word character is the first word. -/
theorem noLinkageAhead_word {w tail : List Char} (hnil : w ≠ []) (hw : ∀ x ∈ w, isWordChar x)
    (htail : ∀ x ∈ tail.head?, isWordChar x = false) (hne : ∀ l : Linkage, w ≠ (Keyword.keyword l).toList) :
    NoLinkageAhead (w ++ tail) := by
  obtain ⟨x, xs, rfl⟩ := List.exists_cons_of_ne_nil hnil
  have hx := hw x List.mem_cons_self
  refine ⟨noBlankAhead_of_word hnil hw, fun h => ?_, fun l => ?_⟩
  · cases Option.some.inj h
    exact absurd hx (by decide)
  rw [takeWhile_append_stop htail, List.takeWhile_eq_self_iff.mpr fun x hx => hw x hx]
  exact hne l

/-- Text that opens with no word opens with no linkage. -/
theorem noLinkageAhead_of_head {r : List Char} {ch : Char} (hch : r.head? = some ch)
    (hb : Cursor.isBlank ch = false) (hs : ch ≠ ';') (hbang : ch ≠ '!') (hx : isWordChar ch = false) :
    NoLinkageAhead r := by
  obtain ⟨tl, rfl⟩ := List.head?_eq_some_iff.mp hch
  refine ⟨fun y hy => by cases hy; exact ⟨hb, hs⟩, fun h => hbang (Option.some.inj h), fun l => ?_⟩
  rw [List.takeWhile_cons, hx]
  exact fun h => (linkage_word l).1 h.symm

/-- The first word of an optional item after a space and what follows it: the item's own when it
is there. -/
theorem noLinkageAhead_optText {β : Type} (x : Option β) (text : β → String) {rest tail : List Char}
    (hsome : ∀ v ∈ x, NoLinkageAhead ((text v).toList ++ rest ++ tail))
    (hnone : x = none → NoLinkageAhead (rest.tail ++ tail)) :
    NoLinkageAhead ((optText x text ++ rest).tail ++ tail) := by
  cases x with
  | none => exact hnone rfl
  | some v => simpa [optText] using hsome v rfl

/-- A keyword before a space opens with no linkage when it is none. -/
theorem noLinkageAhead_keyword {w : String} (hnil : w.toList ≠ []) (hw : ∀ x ∈ w.toList, isWordChar x)
    (hne : ∀ l : Linkage, w ≠ Keyword.keyword l) {rest tail : List Char} (hrest : ∃ tl, rest = ' ' :: tl) :
    NoLinkageAhead (w.toList ++ rest ++ tail) := by
  obtain ⟨tl, rfl⟩ := hrest
  rw [List.append_assoc]
  exact noLinkageAhead_word hnil hw (fun x hx => by cases hx; decide)
    fun l h => hne l (String.toList_inj.mp h)

end Ast.Reader

namespace Function

variable {fuel : Nat}

/-- The words of a header after its parameters, each after a space. -/
def suffixText (f : Function) : List Char :=
  optText f.unnamedAddr Keyword.keyword ++ ((String.join (f.funcAttrs.map (" " ++ ·.render))).toList ++
    (optText f.sectionName (fun s => "section " ++ Text.quote s.toUTF8.toList) ++
      (optText f.comdat (fun c => if c.name = f.name then "comdat" else c.reference) ++
        (optText f.gc (fun s => "gc " ++ Text.quote s.toUTF8.toList) ++
          (optText f.prefixData (fun c => "prefix " ++ c.renderTyped) ++
            (optText f.prologue (fun c => "prologue " ++ c.renderTyped) ++
              optText f.personality (fun c => "personality " ++ c.renderTyped)))))))

/-- The written header of a function before the words after its parameters are read. -/
def headerBefore (f : Function) (linkage : Option Linkage) : Ast.Header :=
  { f.headerAst with
    linkage := linkage, unnamedAddr := none, funcAttrs := [], sectionName := none, comdat := none
    gc := none, prefixData := none, prologue := none, personality := none }

/-- The constants the words after a function's parameters show. -/
def suffixConsts (f : Function) : List LlvmAsm.Const :=
  f.prefixData.toList ++ f.prologue.toList ++ f.personality.toList

/-- **What the words after a function's parameters need to read back**: its attributes read back
there, and the constants it shows there and their types read back. -/
structure SuffixRereads (f : Function) : Prop where
  attrs : ∀ a ∈ f.funcAttrs, a.SuffixRereads
  consts : ∀ k ∈ f.suffixConsts, k.ty.fits ∧ k.Readable

theorem length_renderTyped_lt {f : Function} {k : LlvmAsm.Const} (hk : k ∈ f.suffixConsts) :
    k.renderTyped.length < f.suffixText.length := by
  simp only [suffixConsts, List.mem_append, Option.mem_toList] at hk
  rcases hk with (hk | hk) | hk <;> simp [suffixText, optText, hk, String.length_toList] <;> omega

/-- A constant after the parameters is read within the fuel its text gives. -/
theorem readDepth_suffixConst {f : Function} {k : LlvmAsm.Const} (hk : k ∈ f.suffixConsts)
    (hread : k.Readable) (hf : 2 * f.suffixText.length < fuel) :
    k.ty.readDepth + k.readDepth + 1 ≤ fuel := by
  have hty := Ast.Reader.readDepth_le_length k.ty
  have hconst := readDepth_le_length_render k hread
  have hlen := length_renderTyped_lt hk
  simp only [LlvmAsm.Const.renderTyped, String.length_append, show " ".length = 1 from rfl] at hlen
  rw [String.length_toList] at hconst
  omega

/-- **The words after a function's parameters read back**, from the header read before them to its
written header, when their reading ends with that of `endText`. -/
theorem readsAt_headerSuffix (f : Function) (hf : f.SuffixRereads) (linkage : Option Linkage)
    {endText : List Char} {F : List Char → Prop}
    (hend : ∀ s, ReadsAt (headerSuffix fuel (s + 1) { f.headerAst with linkage := linkage }) endText F
      { f.headerAst with linkage := linkage })
    (hgap : ∀ r, F r → SuffixGap (endText ++ r)) (hfuel : 2 * f.suffixText.length < fuel) :
    ∀ s, (f.suffixText ++ endText).length < s →
      ReadsAt (headerSuffix fuel s (f.headerBefore linkage)) (f.suffixText ++ endText) F
        { f.headerAst with linkage := linkage } := by
  have hconst : ∀ k ∈ f.suffixConsts, ReadsBack k.ty ∧ ConstReadsBack k ∧
      k.ty.readDepth + k.readDepth + 1 ≤ fuel := fun k hk =>
    ⟨readsBack_of_fits _ (hf.consts k hk).1, constReadsBack_of_readable k (hf.consts k hk).2,
      readDepth_suffixConst hk (hf.consts k hk).2 hfuel⟩
  -- the gap before each word, from the last
  have g8 := suffixGap_optText f.personality (fun c => "personality " ++ c.renderTyped) hgap
  have g7 := suffixGap_optText f.prologue (fun c => "prologue " ++ c.renderTyped) g8
  have g6 := suffixGap_optText f.prefixData (fun c => "prefix " ++ c.renderTyped) g7
  have g5 := suffixGap_optText f.gc (fun s => "gc " ++ Text.quote s.toUTF8.toList) g6
  have g4 := suffixGap_optText f.comdat
    (fun c => if c.name = f.name then "comdat" else c.reference) g5
  have g3 := suffixGap_optText f.sectionName (fun s => "section " ++ Text.quote s.toUTF8.toList) g4
  have g2 := suffixGap_join f.funcAttrs Attribute.render g3
  simp only [suffixText, List.append_assoc]
  -- each word read leaves the header with the fields read so far
  refine readsAt_headerSuffix_optional (fun x h => { h with unnamedAddr := x })
    { f.headerAst with
      linkage := linkage, funcAttrs := [], sectionName := none, comdat := none, gc := none
      prefixData := none, prologue := none, personality := none } rfl rfl
    (fun u _ s tail htail hrest => readsAt_headerSuffix_unnamedAddr u htail hrest) g2 ?_
  refine readsAt_headerSuffix_attrs g3 f.funcAttrs _ hf.attrs (fun s hs => ?_)
  change ReadsAt (headerSuffix fuel s
    { f.headerAst with
      linkage := linkage, sectionName := none, comdat := none, gc := none, prefixData := none
      prologue := none, personality := none }) _ F _
  revert s hs
  refine readsAt_headerSuffix_optional (fun x h => { h with sectionName := x })
    { f.headerAst with
      linkage := linkage, comdat := none, gc := none, prefixData := none, prologue := none
      personality := none } rfl rfl
    (fun v _ s tail _ hrest => readsAt_headerSuffix_section v hrest) g4 ?_
  refine readsAt_headerSuffix_optional (fun x h => { h with comdat := x.map (ComdatDef.clause f.name) })
    { f.headerAst with
      linkage := linkage, gc := none, prefixData := none, prologue := none, personality := none }
    rfl rfl (fun c _ s tail htail hrest => ?_) g5 ?_
  · -- a function's own comdat is written bare
    by_cases hc : c.name = f.name
    · simp only [Option.map_some, ComdatDef.clause, if_pos hc] at hrest
      rw [if_pos hc]
      exact readsAt_headerSuffix_comdat_implicit htail hrest
    · simp only [Option.map_some, ComdatDef.clause, if_neg hc] at hrest
      rw [if_neg hc, ComdatDef.reference]
      exact readsAt_headerSuffix_comdat_named c.name hrest
  refine readsAt_headerSuffix_optional (fun x h => { h with gc := x })
    { f.headerAst with linkage := linkage, prefixData := none, prologue := none, personality := none }
    rfl rfl (fun v _ s tail _ hrest => readsAt_headerSuffix_gc v hrest) g6 ?_
  refine readsAt_headerSuffix_optional (fun x h => { h with prefixData := x.map Const.toTypedAst })
    { f.headerAst with linkage := linkage, prologue := none, personality := none } rfl rfl
    (fun k hk s tail htail hrest => ?_) g7 ?_
  · obtain ⟨hty, hk, hd⟩ := hconst k (by simp [suffixConsts, Option.mem_def.mp hk])
    exact readsAt_headerSuffix_prefix hty hk hd htail hrest
  refine readsAt_headerSuffix_optional (fun x h => { h with prologue := x.map Const.toTypedAst })
    { f.headerAst with linkage := linkage, personality := none } rfl rfl
    (fun k hk s tail htail hrest => ?_) g8 ?_
  · obtain ⟨hty, hk, hd⟩ := hconst k (by simp [suffixConsts, Option.mem_def.mp hk])
    exact readsAt_headerSuffix_prologue hty hk hd htail hrest
  refine readsAt_headerSuffix_optional (fun x h => { h with personality := x.map Const.toTypedAst })
    { f.headerAst with linkage := linkage } rfl rfl (fun k hk s tail htail hrest => ?_) hgap ?_
  · obtain ⟨hty, hk, hd⟩ := hconst k (by simp [suffixConsts, Option.mem_def.mp hk])
    exact readsAt_headerSuffix_personality hty hk hd htail hrest
  intro s hs
  obtain ⟨s, rfl⟩ : ∃ s', s = s' + 1 := ⟨s - 1, by omega⟩
  exact hend s

theorem toList_optionalText_space {β : Type} (x : Option β) (text : β → String) :
    (optionalText x (" " ++ text ·)).toList = optText x text := by
  cases x <;> simp [optionalText, optText]

/-- Whether a parameter's local is written: always in a definition, and when it has a name in a
declaration. -/
def paramWritten (f : Function) (p : Param) : Bool := !f.isDeclaration || (f.locals.ident p.slot).isNamed

/-- The parameter list of a header, with its parentheses. -/
def paramsText (f : Function) : List Char :=
  '(' :: ((", ".intercalate (f.params.map fun p => f.renderParam (f.paramWritten p) p)).toList ++
    ((if f.sig.variadic then (if f.params.isEmpty then "..." else ", ...") else "").toList ++ [')']))

/-- The text of a header: the words before its return type, then the type, the name, the
parameters and the words after them, each but the first part after a space. -/
theorem toList_renderHeader (f : Function) :
    f.renderHeader.toList = f.prefixText ++ (' ' :: (f.sig.ret.render.toList ++
      (' ' :: ((Text.globalName f.name).toList ++ (f.paramsText ++ f.suffixText))))) := by
  -- the equation lemma of `renderHeader` is costly to build; its body is unfolded instead
  unfold renderHeader
  simp only [String.toList_append, List.append_assoc, List.cons_append, List.nil_append,
    toList_optionalText_space, prefixText, suffixText, paramsText, paramWritten,
    show " ".toList = [' '] from rfl, show "(".toList = ['('] from rfl, show ")".toList = [')'] from rfl]

/-- **What keeps the first word of a header from being read as a linkage**: where no preemption,
visibility, DLL storage or calling convention opens it, the word of its first return attribute is
no linkage. -/
def OpensNoLinkage (f : Function) : Prop :=
  f.preemption = none → f.visibility = none → f.dll = none → f.callingConv = none →
    ∀ a ∈ f.returnAttrs.head?, ∀ w ∈ a.word?, ∀ l : Linkage, w ≠ Keyword.keyword l

/-- **The first word of a header is no linkage**, so that a function with no linkage reads back
with none. -/
theorem noLinkageAhead_header (f : Function) (hf : f.OpensNoLinkage)
    (hattrs : ∀ a ∈ f.returnAttrs, a.ReturnRereads) (tail : List Char) :
    NoLinkageAhead (f.renderHeader.toList.tail ++ tail) := by
  obtain ⟨tl, htl⟩ : ∃ tl, (String.join (f.returnAttrs.map (" " ++ ·.render))).toList ++
      (' ' :: (f.sig.ret.render.toList ++ (' ' :: ((Text.globalName f.name).toList ++
        (f.paramsText ++ f.suffixText))))) = ' ' :: tl := by
    cases f.returnAttrs <;> simp
  rw [toList_renderHeader, prefixText]
  simp only [List.append_assoc]
  refine noLinkageAhead_optText _ _ (fun p _ => noLinkageAhead_keyword ?_ ?_ ?_
    (optText_append_space _ _ (optText_append_space _ _ (optText_append_space _ _ ⟨tl, htl⟩))))
    fun hp => ?_
  · cases p <;> decide
  · cases p <;> exact forall_mem_of_all (by decide)
  · intro l; cases p <;> cases l <;> decide
  refine noLinkageAhead_optText _ _ (fun v _ => noLinkageAhead_keyword ?_ ?_ ?_
    (optText_append_space _ _ (optText_append_space _ _ ⟨tl, htl⟩))) fun hv => ?_
  · cases v <;> decide
  · cases v <;> exact forall_mem_of_all (by decide)
  · intro l; cases v <;> cases l <;> decide
  refine noLinkageAhead_optText _ _ (fun d _ => noLinkageAhead_keyword ?_ ?_ ?_
    (optText_append_space _ _ ⟨tl, htl⟩)) fun hd => ?_
  · cases d <;> decide
  · cases d <;> exact forall_mem_of_all (by decide)
  · intro l; cases d <;> cases l <;> decide
  refine noLinkageAhead_optText _ _ (fun cc _ => ?_) fun hcc => ?_
  · -- a calling convention: its word, or `cc` and its number
    cases cc
    case numbered n =>
      rw [CallingConv.render_numbered, String.toList_append, List.append_assoc, List.append_assoc,
        show ("cc " : String).toList = ['c', 'c', ' '] from rfl]
      exact noLinkageAhead_word (w := ['c', 'c']) (by decide) (forall_mem_of_all (by decide))
        (fun x hx => by cases hx; decide) fun l => by cases l <;> decide
    all_goals
      refine noLinkageAhead_keyword ?_ ?_ ?_ ⟨tl, htl⟩
      · decide
      · exact forall_mem_of_all (by decide)
      · intro l; cases l <;> decide
  have hfirst := hf hp hv hd hcc
  cases hra : f.returnAttrs with
  | nil =>
    -- the return type opens the header
    simp only [List.map_nil, String.join_nil, String.toList_empty, List.nil_append, List.tail_cons,
      List.append_assoc, List.cons_append]
    rcases Ty.render_opens f.sig.ret with ⟨ch, hch, hhead⟩ | ⟨w, tl', htext, hne, hw, hkw, htl'⟩
    · simp only [List.mem_cons, List.not_mem_nil, or_false] at hch
      refine noLinkageAhead_of_head (by rw [List.head?_append, hhead]; rfl) ?_ ?_ ?_ ?_ <;>
        rcases hch with rfl | rfl | rfl | rfl <;> decide
    · rw [htext, List.append_assoc]
      refine noLinkageAhead_word hne hw ?_ fun l h => ?_
      · cases tl' with
        | nil => intro x hx; cases hx; decide
        | cons y ys => exact htl'
      · rw [h, String.ofList_toList] at hkw
        cases l <;> exact absurd hkw (by decide)
  | cons a as =>
    -- the first return attribute opens the header
    have ha := hattrs a (by rw [hra]; exact List.mem_cons_self)
    have hword := hfirst a (by rw [hra]; rfl)
    simp only [List.map_cons, String.join_cons, String.toList_append, List.append_assoc,
      show (" " : String).toList = [' '] from rfl, List.cons_append, List.tail_cons]
    cases hw : a.word? with
    | none =>
      cases a with
      | keyword => cases hw
      | align => cases hw
      | group id =>
        exact noLinkageAhead_of_head (by simp [Attribute.render] : List.head? _ = some '#') (by decide)
          (by decide) (by decide) (by decide)
      | pair key value =>
        exact noLinkageAhead_of_head
          (by cases value <;> simp [Attribute.render, Text.toList_quote] : List.head? _ = some '"')
          (by decide) (by decide) (by decide) (by decide)
    | some w =>
      obtain ⟨rest, hrender, hnil, hwc, hstop⟩ := Attribute.render_word ha.rereads hw
      rw [hrender, List.append_assoc]
      refine noLinkageAhead_word (w := w.toList) hnil hwc (hstop _ ?_)
        fun l h => hword w hw l (String.toList_inj.mp h)
      cases as <;> (intro x hx; simp at hx; subst hx; decide)

/-- Each word after a space is at least the space. -/
theorem length_le_join_space {β : Type} (l : List β) (text : β → String) :
    l.length ≤ (String.join (l.map (" " ++ text ·))).length := by
  induction l with
  | nil => simp
  | cons v l ih =>
    simp only [List.map_cons, String.join_cons, String.length_append, List.length_cons] at ih ⊢
    have : (" " : String).length = 1 := rfl
    omega

/-- A member of a list and the list's length fit in the list joined with `, `. -/
theorem length_add_length_le_intercalate {x : String} {l : List String} (hx : x ∈ l) :
    x.length + l.length ≤ (", ".intercalate l).length + 1 := by
  induction l with
  | nil => cases hx
  | cons a rest ih =>
    cases rest with
    | nil =>
      rw [List.mem_singleton] at hx
      rw [hx, String.intercalate_singleton, List.length_singleton]
    | cons b rest' =>
      have hrest := length_le_intercalate_comma (b :: rest')
      rw [String.intercalate_cons_cons, String.length_append, String.length_append]
      have hsep : (", " : String).length = 2 := rfl
      rcases List.mem_cons.mp hx with rfl | hx
      · simp only [List.length_cons] at hrest ⊢
        omega
      · have := ih hx
        simp only [List.length_cons] at this ⊢
        omega

/-- A parameter's attributes and the parameters fit in the parameter list. -/
theorem length_param_le (f : Function) {p : Param} (hp : p ∈ f.params) :
    p.ty.render.length + p.attrs.length + f.params.length ≤ f.paramsText.length := by
  have hmem : f.renderParam (f.paramWritten p) p ∈ f.params.map fun p => f.renderParam (f.paramWritten p) p :=
    List.mem_map_of_mem hp
  have hlist := length_add_length_le_intercalate hmem
  have hparam := congrArg List.length (toList_renderParam f (f.paramWritten p) p)
  have hattrs := length_le_join_space p.attrs Attribute.render
  obtain ⟨ch, -, hch⟩ := Ty.render_head p.ty
  have hty := List.length_pos_of_mem (List.mem_of_mem_head? hch)
  simp only [String.length_toList, List.length_append, List.length_map] at hparam hlist hty
  simp only [paramsText, List.length_cons, List.length_append, String.length_toList]
  omega

/-- **What a function's header needs to read back**: a numbered calling convention fits the
reader and names no other, the words before the return type read back there, the return type
fits the reader's fields, each parameter reads back and so do the words after the parameters. -/
structure HeaderRereads (f : Function) : Prop where
  callingConv : ∀ cc ∈ f.callingConv, CallingConvRereads cc
  returnAttrs : ∀ a ∈ f.returnAttrs, a.ReturnRereads
  ret : f.sig.ret.fits
  params : ∀ p ∈ f.params, f.ParamRereads p
  suffix : f.SuffixRereads

/-- **A printed function header reads back**, from its first word to where the reading of
`endText` after it ends, as the function's written header with the linkage read before it. -/
theorem readsAt_parseHeader (f : Function) (hh : f.HeaderRereads) (linkage : Option Linkage)
    {endText : List Char} {F : List Char → Prop}
    (hend : ∀ s, ReadsAt (headerSuffix fuel (s + 1) { f.headerAst with linkage := linkage }) endText F
      { f.headerAst with linkage := linkage })
    (hgap : ∀ r, F r → SuffixGap (endText ++ r)) (hfuel : 2 * f.renderHeader.length < fuel)
    {steps : Nat} (hsteps : f.renderHeader.length + endText.length < steps) :
    ReadsAt (parseHeader fuel steps linkage) (f.renderHeader.toList.tail ++ endText) F
      { f.headerAst with linkage := linkage } := by
  have hlen := congrArg List.length (toList_renderHeader f)
  simp only [String.length_toList, List.length_append, List.length_cons] at hlen
  have hret := Ast.Reader.readDepth_le_length f.sig.ret
  -- the type, the name and the parentheses take a character each at least
  have hparens : 2 ≤ f.paramsText.length := by
    simp only [paramsText, List.length_cons, List.length_append, List.length_nil]
    omega
  have hname : 1 ≤ (Text.globalName f.name).length := by
    rw [← String.length_toList, toList_globalName]
    simp
  obtain ⟨ch, -, hch⟩ := Ty.render_head f.sig.ret
  have hretpos := List.length_pos_of_mem (List.mem_of_mem_head? hch)
  rw [String.length_toList] at hretpos
  have hparams : ∀ p ∈ f.params, f.ParamRereads p ∧ p.ty.readDepth + 1 ≤ fuel ∧
      p.attrs.length + f.params.length < steps := by
    intro p hp
    have hle := length_param_le f hp
    have hty := Ast.Reader.readDepth_le_length p.ty
    exact ⟨hh.params p hp, by omega, by omega⟩
  have htail : (f.prefixText ++ (' ' :: (f.sig.ret.render.toList ++ (' ' :: ((Text.globalName f.name).toList ++
      (f.paramsText ++ f.suffixText)))))).tail ++ endText = (f.prefixText ++ [' ']).tail ++
        ((f.sig.ret.render.toList ++ [' ']) ++ ((Text.globalName f.name).toList ++
          (f.paramsText ++ (f.suffixText ++ endText)))) := by
    rw [show f.prefixText ++ (' ' :: (f.sig.ret.render.toList ++ (' ' :: ((Text.globalName f.name).toList ++
      (f.paramsText ++ f.suffixText))))) = (f.prefixText ++ [' ']) ++ (f.sig.ret.render.toList ++
        (' ' :: ((Text.globalName f.name).toList ++ (f.paramsText ++ f.suffixText)))) by simp,
      List.tail_append_of_ne_nil (by simp)]
    simp
  rw [toList_renderHeader, htail]
  unfold parseHeader
  -- the words before the type, the type, the name, the parameters and the words after them
  refine ReadsAt.bind (Function.readsAt_headerPrefix f hh.callingConv hh.returnAttrs linkage steps
    (by simp only [List.length_append, List.length_cons, List.length_nil]; omega)) ?_
    fun r _ => ⟨_, (List.append_assoc _ _ _).trans (List.append_assoc _ _ _), fun x hx => by cases hx; rfl⟩
  refine ReadsAt.bind (readsAt_parseType_space (readsBack_of_fits _ hh.ret) (by omega)) ?_
    fun r _ => ?_
  · refine ReadsAt.bind (readsAt_readGlobalName f.name) ?_ fun r _ _ x hx => ?_
    · refine ReadsAt.bind (readsAt_parseParams f f.paramWritten f.sig.variadic f.params (by omega) hparams)
        ?_ fun _ _ => trivial
      exact readsAt_headerSuffix f hh.suffix linkage hend hgap (by omega) steps
        (by simp only [List.length_append]; omega)
    · rw [paramsText] at hx
      cases hx
      decide
  · rw [toList_globalName, List.cons_append]
    exact ⟨stopsSuffixes_of_head (by decide) (by decide) (by decide) (by decide)
      (takeWhile_ne_addrspace (by decide)), fun x hx => by cases hx; decide⟩

/-- A header opens with a space. -/
theorem toList_renderHeader_space (f : Function) : ∃ tl, f.renderHeader.toList = ' ' :: tl := by
  obtain ⟨tl, htl⟩ : ∃ tl, (String.join (f.returnAttrs.map (" " ++ ·.render))).toList ++
      (' ' :: (f.sig.ret.render.toList ++ (' ' :: ((Text.globalName f.name).toList ++
        (f.paramsText ++ f.suffixText))))) = ' ' :: tl := by
    cases f.returnAttrs <;> simp
  rw [toList_renderHeader, prefixText]
  simp only [List.append_assoc]
  exact optText_append_space _ _ (optText_append_space _ _ (optText_append_space _ _
    (optText_append_space _ _ ⟨tl, htl⟩)))

theorem skipsBlanks_parseHeader (s : Nat) (linkage : Option Linkage) :
    SkipsBlanks (parseHeader fuel (s + 1) linkage) := by
  unfold parseHeader
  exact (skipsBlanks_headerPrefix s _).bind _

theorem headerAst_with_linkage (f : Function) : { f.headerAst with linkage := f.linkage } = f.headerAst :=
  rfl

/-- **A function's linkage and header read back**, from the first word, to where the reading of
`endText` after them ends. -/
theorem readsAt_linkage_parseHeader (f : Function) (hh : f.HeaderRereads) (hlink : f.OpensNoLinkage)
    {endText : List Char} {F : List Char → Prop}
    (hend : ∀ s, ReadsAt (headerSuffix fuel (s + 1) f.headerAst) endText F f.headerAst)
    (hgap : ∀ r, F r → SuffixGap (endText ++ r)) (hfuel : 2 * f.renderHeader.length < fuel)
    {steps : Nat} (hsteps : f.renderHeader.length + endText.length < steps) :
    ReadsAt (tryKeyword Linkage >>= fun linkage => parseHeader fuel steps linkage)
      ((optText f.linkage Keyword.keyword ++ f.renderHeader.toList).tail ++ endText) F f.headerAst := by
  have hheader := readsAt_parseHeader f hh f.linkage (by rw [headerAst_with_linkage]; exact hend)
    hgap hfuel hsteps
  rw [headerAst_with_linkage] at hheader
  obtain ⟨tl, htl⟩ := toList_renderHeader_space f
  have hnext (r : List Char) : NoLinkageAhead (tl ++ (endText ++ r)) := by
    have h := noLinkageAhead_header f hlink hh.returnAttrs (endText ++ r)
    rwa [htl, List.tail_cons] at h
  rw [htl] at hheader ⊢
  cases hl : f.linkage with
  | none =>
    -- the first word of the header is no linkage
    rw [hl] at hheader
    refine ReadsAt.of_text_eq (ReadsAt.bind readsAt_tryKeyword_linkage_none hheader fun r _ => ?_) rfl
    rw [List.tail_cons, List.append_assoc]
    exact hnext r
  | some l =>
    rw [hl] at hheader
    obtain ⟨s, rfl⟩ : ∃ s, steps = s + 1 := ⟨steps - 1, by omega⟩
    refine ReadsAt.of_text_eq (ReadsAt.bind (readsAt_tryKeyword_linkage l)
      (hheader.space (skipsBlanks_parseHeader s _)) fun _ _ x hx => ?_) ?_
    · cases hx
      decide
    · simp [optText]

/-- A linkage and a header start with no blank and no `!`, so that the metadata before them
in a declaration ends where they start. -/
theorem noBlankAhead_linkage_header (f : Function) (hf : f.OpensNoLinkage)
    (hattrs : ∀ a ∈ f.returnAttrs, a.ReturnRereads) (r : List Char) :
    NoBlankAhead ((optText f.linkage Keyword.keyword ++ f.renderHeader.toList).tail ++ r) ∧
      ((optText f.linkage Keyword.keyword ++ f.renderHeader.toList).tail ++ r).head? ≠ some '!' := by
  cases hl : f.linkage with
  | none =>
    have h := noLinkageAhead_header f hf hattrs r
    rw [show optText none Keyword.keyword = [] from rfl, List.nil_append]
    exact ⟨h.1, h.2.1⟩
  | some l =>
    obtain ⟨hne, hw⟩ := linkage_word l
    obtain ⟨x, xs, hx⟩ := List.exists_cons_of_ne_nil hne
    have hword := hw x (by rw [hx]; exact List.mem_cons_self)
    have htext : (optText (some l) Keyword.keyword ++ f.renderHeader.toList).tail ++ r =
        (Keyword.keyword l).toList ++ (f.renderHeader.toList ++ r) := by
      simp [optText]
    rw [htext]
    refine ⟨noBlankAhead_of_word hne hw, fun h => ?_⟩
    rw [hx, List.cons_append, List.head?_cons, Option.some.injEq] at h
    subst h
    exact absurd hword (by decide)

/-- The text of a function definition after the word `define`. -/
def defineText (f : Function) : List Char :=
  optText f.linkage Keyword.keyword ++ (f.renderHeader.toList ++
    ((String.join (f.metadata.map (" " ++ ·.render))).toList ++ (' ' :: f.renderBody.toList)))

/-- The text of a function declaration after the word `declare`. -/
def declareText (f : Function) : List Char :=
  (String.join (f.metadata.map (" " ++ ·.render))).toList ++
    (optText f.linkage Keyword.keyword ++ f.renderHeader.toList)

/-- **What a function needs for its text to read back**: its header reads back and opens with no
linkage's word where it has none, its metadata nodes and the numbers of its locals fit 32 bits,
and its blocks and use-list orders read back. -/
structure Rereads (f : Function) : Prop where
  header : f.HeaderRereads
  linkage : f.OpensNoLinkage
  metadata : ∀ m ∈ f.metadata, m.node < bound32
  locals : f.locals.NumbersFit
  blocks : ∀ b ∈ f.blocks, b.Rereads f.locals
  uses : ∀ u ∈ f.useLists, u.Rereads

/-- The linkage, the header and the space after them, then the metadata after that space, then the
body. -/
theorem defineText_eq (f : Function) :
    f.defineText = ' ' :: (((optText f.linkage Keyword.keyword ++ f.renderHeader.toList).tail ++ [' ']) ++
      (((String.join (f.metadata.map (" " ++ ·.render))).toList ++ [' ']).tail ++ f.renderBody.toList)) := by
  obtain ⟨tl, htl⟩ := toList_renderHeader_space f
  obtain ⟨otl, hotl⟩ := optText_append_space f.linkage Keyword.keyword ⟨tl, htl⟩
  obtain ⟨mtl, hmtl, -⟩ := MetadataAttachment.toList_join_render_space f.metadata
  rw [defineText, ← List.append_assoc, hotl, hmtl,
    show ∀ l : List Char, l ++ ' ' :: f.renderBody.toList = (l ++ [' ']) ++ f.renderBody.toList by simp,
    hmtl]
  simp

/-- **A printed definition reads back** after its word `define`, as the function's written form. -/
theorem readsAt_parseDefine {f : Function} (hd : f.isDeclaration = false) (hr : f.Rereads)
    (hfuel : 2 * f.defineText.length < fuel) {steps : Nat} (hsteps : f.defineText.length < steps) :
    ReadsAt (parseDefine fuel steps) f.defineText (fun _ => True) f.toAst := by
  have hb : f.blocks ≠ [] := fun h => by simp [isDeclaration, h] at hd
  have hlen : f.defineText.length = (optText f.linkage Keyword.keyword).length + f.renderHeader.length +
      (String.join (f.metadata.map (" " ++ ·.render))).length + 1 + f.renderBody.length := by
    simp only [defineText, List.length_append, List.length_cons, String.length_toList]
    omega
  have hmeta := length_le_join_space f.metadata MetadataAttachment.render
  have hbodypos : 0 < f.renderBody.length := by
    rw [← String.length_toList, toList_renderBody hb]
    simp
  obtain ⟨s, rfl⟩ : ∃ s, steps = s + 1 := ⟨steps - 1, by omega⟩
  have hheader : ReadsAt (tryKeyword Linkage >>= fun linkage => parseHeader fuel (s + 1) linkage)
      ((optText f.linkage Keyword.keyword ++ f.renderHeader.toList).tail ++ [' '])
      (fun r => r.head? = some '{' ∨ r.head? = some '!') f.headerAst :=
    readsAt_linkage_parseHeader f hr.header hr.linkage (fun s => readsAt_headerSuffix_open s _)
      (fun _ _ ch hch => by cases hch; exact Or.inl rfl) (by omega)
      (by simp only [List.length_singleton]; omega)
  have hmetadata := MetadataAttachment.readsAt_metadataAttachments_tail f.metadata hr.metadata (s + 1)
    (by omega)
  have hbody : ReadsAt (parseBody fuel (s + 1)) f.renderBody.toList (fun _ => True) f.bodyAst :=
    readsAt_parseBody hb hr.locals hr.blocks hr.uses (by omega) (by omega)
  -- the header is read as the first part of a left-nested bind
  have hparse : parseDefine fuel (s + 1) =
      (tryKeyword Linkage >>= fun linkage => parseHeader fuel (s + 1) linkage) >>= fun header =>
        metadataAttachments (s + 1) >>= fun metadata => parseBody fuel (s + 1) >>= fun body =>
          pure ⟨header, metadata, some body⟩ := by
    rw [bind_assoc]
    rfl
  simp only [toAst, hd, Bool.false_eq_true, if_false]
  rw [defineText_eq, hparse]
  refine ReadsAt.space (((skipsBlanks_tryKeyword Linkage).bind _).bind _)
    (ReadsAt.bind hheader (ReadsAt.bind hmetadata (ReadsAt.bind_pure hbody) fun r _ => ?_) fun r _ => ?_)
  · rw [toList_renderBody hb]
    exact ⟨fun ch hch => by cases hch; decide, by simp⟩
  · rw [List.append_assoc]
    rcases MetadataAttachment.head_tail_join_render f.metadata (f.renderBody.toList ++ r) with h | h
    · rw [h, toList_renderBody hb]
      exact Or.inl rfl
    · exact Or.inr h

/-- **A printed declaration reads back** after its word `declare`, as the function's written
form. -/
theorem readsAt_parseDeclare {f : Function} (hd : f.isDeclaration = true) (hr : f.Rereads)
    (hfuel : 2 * f.declareText.length < fuel) {steps : Nat} (hsteps : f.declareText.length < steps) :
    ReadsAt (parseDeclare fuel steps) f.declareText AtLineEnd f.toAst := by
  have hlen : f.declareText.length = (String.join (f.metadata.map (" " ++ ·.render))).length +
      (optText f.linkage Keyword.keyword).length + f.renderHeader.length := by
    simp only [declareText, List.length_append, String.length_toList]
    omega
  have hmeta := length_le_join_space f.metadata MetadataAttachment.render
  obtain ⟨tl, htl⟩ := toList_renderHeader_space f
  have hpos : 0 < f.renderHeader.length := by
    rw [← String.length_toList, htl]
    simp
  have hheader : ReadsAt (tryKeyword Linkage >>= fun linkage => parseHeader fuel steps linkage)
      ((optText f.linkage Keyword.keyword ++ f.renderHeader.toList).tail ++ []) AtLineEnd f.headerAst :=
    readsAt_linkage_parseHeader f hr.header hr.linkage (fun s => readsAt_headerSuffix_lineEnd s _)
      (fun _ hr ch hch => Or.inr (hr ch hch)) (by omega) (by simp only [List.length_nil]; omega)
  have hmetadata := MetadataAttachment.readsAt_metadataAttachments f.metadata hr.metadata steps
    (by omega)
  have htext : f.declareText = ((String.join (f.metadata.map (" " ++ ·.render))).toList ++ [' ']) ++
      ((optText f.linkage Keyword.keyword ++ f.renderHeader.toList).tail ++ []) := by
    obtain ⟨otl, hotl⟩ := optText_append_space f.linkage Keyword.keyword ⟨tl, htl⟩
    rw [declareText, hotl]
    simp
  -- the linkage and the header are read as the first part of a left-nested bind
  have hparse : parseDeclare fuel steps = metadataAttachments steps >>= fun metadata =>
      (tryKeyword Linkage >>= fun linkage => parseHeader fuel steps linkage) >>= fun header =>
        pure ⟨header, metadata, none⟩ := by
    simp only [bind_assoc]
    rfl
  simp only [toAst, hd, if_true]
  rw [htext, hparse]
  refine ReadsAt.bind hmetadata (ReadsAt.bind_pure hheader) fun r _ => ?_
  rw [List.append_nil]
  exact noBlankAhead_linkage_header f hr.linkage hr.header.returnAttrs r

/-- A declaration prints as the word `declare` and its text. -/
theorem toList_print_declaration {f : Function} (hd : f.isDeclaration = true) {out : String}
    (h : f.print = .ok out) : out.toList = "declare".toList ++ f.declareText := by
  simp only [print, hd, if_true, Except.ok.injEq] at h
  subst h
  cases hl : f.linkage <;> simp [declareText, optText, hl]

/-- A definition whose locals are numbered as they stand prints as the word `define` and its
text. -/
theorem toList_print_definition {f : Function} (hd : f.isDeclaration = false)
    (hid : f.assignIds = .ok f) {out : String} (h : f.print = .ok out) :
    out.toList = "define".toList ++ f.defineText := by
  simp only [print, hd, Bool.false_eq_true, if_false, hid, bind, Except.bind, pure, Except.pure,
    Except.ok.injEq] at h
  subst h
  cases hl : f.linkage <;> simp [defineText, optText, hl]

end Function

end LlvmAsm
