import LlvmAsm.Proofs.Printed.Function

/-!
# `Proofs.Printed.Module` — reading a printed module back

`Module.print` writes a module as lines: the header strings, the type definitions, the comdats,
the globals, the functions and the attribute groups, the kinds apart by a blank line and the
functions too. `Module.Line` names what one line writes, `Line.text` its text and `Line.add` what
reading it adds to the module read so far.

The reading loop `moduleItems` skips the blanks before each item, looks at its first character
and, for a word, at the word. So a text that is lines, each before a line feed or the end and
with any line feeds between them (`Spaced`), reads back line by line: one case per kind of line
(`Line.readsAt_moduleItems`) and an induction over the text (`Spaced.readsAt_moduleItems`). The
printed text of a module is such a text of its lines (`Module.spaced_print`), and reading it
gives the module's written form (`Module.parseModule_print`).
-/

namespace LlvmAsm

open Ast Reader

/-! ## Lines -/

/-- One line of the canonical text of a module, by what it writes. -/
inductive Module.Line where
  | sourceFilename (name : String)
  | dataLayout (layout : String)
  | targetTriple (triple : String)
  | typeDef (entry : String × Option Ty)
  | comdat (c : ComdatDef)
  | global (g : Global)
  | func (f : Function)
  | attrGroup (g : AttrGroupDef)

namespace Module.Line

/-- The text of a line. -/
def text : Line → List Char
  | sourceFilename name => ("source_filename = " ++ Text.quote name.toUTF8.toList).toList
  | dataLayout layout => ("target datalayout = " ++ Text.quote layout.toUTF8.toList).toList
  | targetTriple triple => ("target triple = " ++ Text.quote triple.toUTF8.toList).toList
  | typeDef entry => (typeLine entry).toList
  | comdat c => c.definition.toList
  | global g => g.render.toList
  | func f => if f.isDeclaration then "declare".toList ++ f.declareText else "define".toList ++ f.defineText
  | attrGroup g => g.render.toList

/-- What reading a line adds to the module read before it. -/
def add : Line → Ast.Module → Ast.Module
  | sourceFilename name, m => { m with sourceFilename := some name }
  | dataLayout layout, m => { m with dataLayout := some layout }
  | targetTriple triple, m => { m with targetTriple := some triple }
  | typeDef entry, m => { m with typeDefs := m.typeDefs ++ [⟨entry.1, entry.2⟩] }
  | comdat c, m => { m with comdats := m.comdats ++ [c] }
  | global g, m => { m with globals := m.globals ++ [g.toAst] }
  | func f, m => { m with funcs := m.funcs ++ [f.toAst] }
  | attrGroup g, m => { m with attrGroups := m.attrGroups ++ [g] }

end Module.Line

/-- Text made of lines, each before a line feed or the end, with line feeds before and between
them. -/
inductive Module.Spaced : List Module.Line → List Char → Prop
  | nil : Spaced [] []
  | feed {ls : List Module.Line} {t : List Char} : Spaced ls t → Spaced ls ('\n' :: t)
  | line {ls : List Module.Line} {t : List Char} (l : Module.Line) :
      Spaced ls t → AtLineEnd t → Spaced (l :: ls) (l.text ++ t)

namespace Module.Spaced

theorem feeds {ls : List Line} {t : List Char} (h : Spaced ls t) (sep : List Char)
    (hsep : ∀ x ∈ sep, x = '\n') : Spaced ls (sep ++ t) := by
  induction sep with
  | nil => exact h
  | cons x sep ih =>
    obtain rfl := hsep x List.mem_cons_self
    exact (ih fun y hy => hsep y (List.mem_cons_of_mem _ hy)).feed

theorem append {ls ls' : List Line} {t t' : List Char} (h : Spaced ls t) (h' : Spaced ls' t')
    (ht' : AtLineEnd t') : Spaced (ls ++ ls') (t ++ t') := by
  induction h with
  | nil => exact h'
  | feed _ ih => exact ih.feed
  | @line ls t l _ hend ih =>
    rw [List.cons_append, List.append_assoc]
    refine ih.line l fun x hx => ?_
    cases t with
    | nil => exact ht' x hx
    | cons y ys => exact hend x hx

/-- Parts of lines joined by line feeds are the lines of all the parts. -/
theorem intercalate {sep : List Char} (hne : sep ≠ []) (hsep : ∀ x ∈ sep, x = '\n')
    (parts : List (List Line × List Char)) (hparts : ∀ p ∈ parts, Spaced p.1 p.2) :
    Spaced (parts.flatMap Prod.fst) (sep.intercalate (parts.map Prod.snd)) := by
  induction parts with
  | nil => exact nil
  | cons p parts ih =>
    have hp := hparts p List.mem_cons_self
    have hrest := ih fun q hq => hparts q (List.mem_cons_of_mem p hq)
    cases parts with
    | nil => simpa using hp
    | cons q parts =>
      -- the separator's feeds stand before the other parts
      obtain ⟨x, xs, rfl⟩ := List.exists_cons_of_ne_nil hne
      have hx : x = '\n' := hsep x List.mem_cons_self
      rw [List.flatMap_cons, List.map_cons, List.map_cons, List.intercalate_cons_cons, ← List.map_cons,
        List.append_assoc]
      refine hp.append (hrest.feeds _ hsep) fun y hy => ?_
      cases hy
      exact hx

end Module.Spaced

/-! ## Words and names of a line -/

theorem SelectionKind.ofKeyword?_keyword (k : SelectionKind) :
    (Keyword.ofKeyword? (Keyword.keyword k) : Option SelectionKind) = some k := by
  cases k <;> rfl

theorem SelectionKind.keyword_word (k : SelectionKind) :
    (Keyword.keyword k).toList ≠ [] ∧ ∀ x ∈ (Keyword.keyword k).toList, isWordChar x := by
  cases k <;> exact ⟨by decide, forall_mem_of_all (by decide)⟩

/-- The text of a type, and no word character after it, is no word `opaque`. -/
theorem Ty.takeWhile_render_ne_opaque (ty : Ty) {r : List Char}
    (hr : ∀ x ∈ r.head?, isWordChar x = false) :
    (ty.render.toList ++ r).takeWhile isWordChar ≠ "opaque".toList := by
  rcases Ty.render_opens ty with ⟨ch, hch, hhead⟩ | ⟨w, tl, htext, -, hw, hkw, htl⟩
  · -- `%` or a bracket opens the type: no word at all
    obtain ⟨tl, htl⟩ := List.head?_eq_some_iff.mp hhead
    rw [htl, List.cons_append, List.takeWhile_cons]
    simp only [List.mem_cons, List.not_mem_nil, or_false] at hch
    rcases hch with rfl | rfl | rfl | rfl <;> rw [if_neg (by decide)] <;> decide
  · have hstop : ∀ y ∈ (tl ++ r).head?, isWordChar y = false := by
      cases tl with
      | nil => exact hr
      | cons y ys => exact htl
    rw [htext, List.append_assoc, takeWhile_append_stop hstop, List.takeWhile_eq_self_iff.mpr hw]
    intro h
    rw [h, String.ofList_toList] at hkw
    exact absurd hkw (by decide)

/-- An equals sign after a space. -/
theorem readsAt_spaced_equals : ReadsAt (expect '=') [' ', '='] (fun _ => True) () :=
  (readsAt_expect (by decide) (by decide)).space (skipsBlanks_expect '=')

/-- A word after a space, before no word character. -/
theorem readsAt_spaced_expectWord (w : String) (hne : w.toList ≠ []) (hw : ∀ x ∈ w.toList, isWordChar x) :
    ReadsAt (expectWord w) (' ' :: w.toList) (fun r => ∀ x ∈ r.head?, isWordChar x = false) () :=
  (readsAt_expectWord hne hw).space (skipsBlanks_expectWord w)

theorem ReadsAt.pure_bind {α β : Type} {a : α} {f : α → Reader β} {t : List Char}
    {F : List Char → Prop} {b : β} (h : ReadsAt (f a) t F b) : ReadsAt (pure a >>= f) t F b :=
  ReadsAt.bind (ReadsAt.pure (F := fun _ => True) a) h fun _ _ => trivial

/-! ## Globals -/

theorem head?_append_ne {l r : List Char} {x : Char} (hne : l ≠ []) (h : l.head? ≠ some x) :
    (l ++ r).head? ≠ some x := by
  obtain ⟨y, ys, rfl⟩ := List.exists_cons_of_ne_nil hne
  exact h

/-- A readable constant's text opens with no comma, so that a global's initializer is told from
its clauses. -/
theorem Const.render_head_ne_comma (k : Const) (hk : k.Readable) : k.render.toList.head? ≠ some ',' := by
  cases k with
  | int i =>
    show i.render.toList.head? ≠ _
    unfold IntConst.render
    split
    · split <;> decide
    · intro h
      rcases (numberText_toString_int i.value).1.head ',' h with h | h <;> exact absurd h (by decide)
  | float f => exact fun he => by rcases hk.1.head ',' he with h | h <;> exact absurd h (by decide)
  | struct ty packed elems =>
    cases packed
    · simp [toList_render_struct]
    · simp [toList_render_packed]
  | cast op value target =>
    rw [show (Const.cast op value target).render = Keyword.keyword op ++ " (" ++ value.ty.render ++ " " ++
      value.render ++ " to " ++ target.render ++ ")" from rfl]
    simp only [String.toList_append, List.append_assoc]
    exact head?_append_ne (by cases op <;> decide) (by cases op <;> decide)
  | binary op lhs rhs =>
    rw [show (Const.binary op lhs rhs).render = Keyword.keyword op ++ " (" ++ lhs.ty.render ++ " " ++
      lhs.render ++ ", " ++ rhs.ty.render ++ " " ++ rhs.render ++ ")" from rfl]
    simp only [String.toList_append, List.append_assoc]
    exact head?_append_ne (by cases op <;> decide) (by cases op <;> decide)
  | gep inBounds elem base indices ty =>
    rw [show (Const.gep inBounds elem base indices ty).render = "getelementptr " ++
      (if inBounds then "inbounds " else "") ++ "(" ++ elem.render ++ ", " ++ base.ty.render ++ " " ++
      base.render ++ Const.renderIndices indices ++ ")" from rfl]
    simp only [String.toList_append, List.append_assoc]
    exact head?_append_ne (by decide) (by decide)
  | global name ty =>
    rw [show (Const.global name ty).render = Text.globalName name from rfl, toList_globalName]
    simp
  | array ty elems => simp [toList_render_array]
  | vector ty elems => simp [toList_render_vector]
  | chars data =>
    rw [show (Const.chars data).render = "c" ++ Text.quote data from rfl, String.toList_append]
    exact head?_append_ne (by decide) (by decide)
  | blockAddress func block =>
    rw [toList_render_blockAddress]
    exact head?_append_ne (by decide) (by decide)
  | null ty => exact (show ("null" : String).toList.head? ≠ some ',' by decide)
  | none => exact (show ("none" : String).toList.head? ≠ some ',' by decide)
  | zeroInit ty => exact (show ("zeroinitializer" : String).toList.head? ≠ some ',' by decide)
  | undef ty => exact (show ("undef" : String).toList.head? ≠ some ',' by decide)

namespace Global

/-- The words of a global before its type, each after a space: its written linkage and its
qualifiers, then \x60global\x60 or \x60constant\x60. -/
def prefixText (g : Global) : List Char :=
  optText g.writtenLinkage Keyword.keyword ++ (optText g.preemption Keyword.keyword ++
    (optText g.visibility Keyword.keyword ++ (optText g.dll Keyword.keyword ++
      (optText g.unnamedAddr Keyword.keyword ++ (' ' :: (if g.isConstant then "constant" else "global").toList)))))

/-- The clauses of a global after its type and its initializer, each after a comma. -/
def suffixText (g : Global) : List Char :=
  (optionalText g.sectionName (fun s => ", section " ++ Text.quote s.toUTF8.toList)).toList ++
    ((optionalText g.comdat (fun c => if c.name = g.name then ", comdat" else ", " ++ c.reference)).toList ++
      (optionalText g.align (fun n => ", align " ++ toString n)).toList)

theorem toList_render (g : Global) :
    g.render.toList = (Text.globalName g.name).toList ++ (' ' :: '=' :: (g.prefixText ++
      (' ' :: (g.contentTy.render.toList ++ (optText g.init Const.render ++ g.suffixText))))) := by
  rcases g with ⟨name, ty, isConstant, init, linkage⟩
  unfold render
  cases linkage <;> cases init <;> cases isConstant <;>
    simp [prefixText, suffixText, writtenLinkage, Function.toList_optionalText_space, optText_none,
      optText_some, show Keyword.keyword Linkage.external = "external" from rfl]

/-- The global as the words before its type give it. -/
def prefixAst (g : Global) : Ast.Global :=
  { name := g.name, linkage := g.writtenLinkage, preemption := g.preemption,
    visibility := g.visibility, dll := g.dll, unnamedAddr := g.unnamedAddr, isConstant := g.isConstant }

end Global

section GlobalWords

variable {s : Nat} {g b : Ast.Global} {tail : List Char} {F : List Char → Prop}

theorem skipsBlanks_globalPrefix (s : Nat) (g : Ast.Global) : SkipsBlanks (globalPrefix (s + 1) g) := by
  unfold globalPrefix
  exact skipsBlanks_readWord.bind _

theorem readsAt_globalPrefix_linkage (l : Linkage)
    (htail : ∀ r, F r → ∀ x ∈ (tail ++ r).head?, isWordChar x = false)
    (hrest : ReadsAt (globalPrefix s { g with linkage := some l }) tail F b) :
    ReadsAt (globalPrefix (s + 1) g) ((Keyword.keyword l).toList ++ tail) F b := by
  obtain ⟨hne, hw⟩ := linkage_word l
  unfold globalPrefix
  refine ReadsAt.bind (readsAt_readWord_toList hne hw) ?_ htail
  simp only [ofKeyword?_keyword_linkage]
  exact hrest

/-- A word that no vocabulary before its own takes. -/
theorem readsAt_globalPrefix_preemption (p : Preemption)
    (htail : ∀ r, F r → ∀ x ∈ (tail ++ r).head?, isWordChar x = false)
    (hrest : ReadsAt (globalPrefix s { g with preemption := some p }) tail F b) :
    ReadsAt (globalPrefix (s + 1) g) ((Keyword.keyword p).toList ++ tail) F b := by
  unfold globalPrefix
  cases p <;> exact ReadsAt.bind (readsAt_readWord_toList (by decide) (forall_mem_of_all (by decide))) hrest htail

theorem readsAt_globalPrefix_visibility (v : Visibility)
    (htail : ∀ r, F r → ∀ x ∈ (tail ++ r).head?, isWordChar x = false)
    (hrest : ReadsAt (globalPrefix s { g with visibility := some v }) tail F b) :
    ReadsAt (globalPrefix (s + 1) g) ((Keyword.keyword v).toList ++ tail) F b := by
  unfold globalPrefix
  cases v <;> exact ReadsAt.bind (readsAt_readWord_toList (by decide) (forall_mem_of_all (by decide))) hrest htail

theorem readsAt_globalPrefix_dll (d : DllStorage)
    (htail : ∀ r, F r → ∀ x ∈ (tail ++ r).head?, isWordChar x = false)
    (hrest : ReadsAt (globalPrefix s { g with dll := some d }) tail F b) :
    ReadsAt (globalPrefix (s + 1) g) ((Keyword.keyword d).toList ++ tail) F b := by
  unfold globalPrefix
  cases d <;> exact ReadsAt.bind (readsAt_readWord_toList (by decide) (forall_mem_of_all (by decide))) hrest htail

theorem readsAt_globalPrefix_unnamedAddr (u : UnnamedAddr)
    (htail : ∀ r, F r → ∀ x ∈ (tail ++ r).head?, isWordChar x = false)
    (hrest : ReadsAt (globalPrefix s { g with unnamedAddr := some u }) tail F b) :
    ReadsAt (globalPrefix (s + 1) g) ((Keyword.keyword u).toList ++ tail) F b := by
  unfold globalPrefix
  cases u <;> exact ReadsAt.bind (readsAt_readWord_toList (by decide) (forall_mem_of_all (by decide))) hrest htail

/-- \x60global\x60 or \x60constant\x60 ends the words before the type. -/
theorem readsAt_globalPrefix_kind (isConstant : Bool)
    (hend : ∀ r, F r → ∀ x ∈ r.head?, isWordChar x = false) :
    ReadsAt (globalPrefix (s + 1) g) (if isConstant then "constant" else "global").toList F
      { g with isConstant := isConstant } := by
  unfold globalPrefix
  cases isConstant
  · exact ReadsAt.of_text_eq (ReadsAt.bind (readsAt_readWord_toList (w := "global") (by decide)
      (forall_mem_of_all (by decide))) (ReadsAt.pure _) hend) (List.append_nil _)
  · exact ReadsAt.of_text_eq (ReadsAt.bind (readsAt_readWord_toList (w := "constant") (by decide)
      (forall_mem_of_all (by decide))) (ReadsAt.pure _) hend) (List.append_nil _)

/-- **An optional word before a global's type reads back**, after its space, where its own reading
and the reading of the words after it do; \x60set\x60 records it in the global. -/
theorem readsAt_globalPrefix_optional {β : Type} {x : Option β} {text : β → String}
    (set : Option β → Ast.Global → Ast.Global) {rest : List Char} (g' : Ast.Global)
    (hnone : set none g = g) (hset : set x g = g')
    (hitem : ∀ v ∈ x, ∀ s tail, (∀ r, F r → ∀ y ∈ (tail ++ r).head?, isWordChar y = false) →
      ReadsAt (globalPrefix s (set (some v) g)) tail F b →
      ReadsAt (globalPrefix (s + 1) g) ((text v).toList ++ tail) F b)
    (hspace : ∃ tl, rest = ' ' :: tl)
    (hnext : ∀ s, rest.length < s → ReadsAt (globalPrefix s g') rest F b) :
    ∀ s, (optText x text ++ rest).length < s → ReadsAt (globalPrefix s g) (optText x text ++ rest) F b := by
  intro s hs
  rw [← hset] at hnext
  cases x with
  | none =>
    rw [hnone] at hnext
    exact hnext s hs
  | some v =>
    obtain ⟨tl, rfl⟩ := hspace
    simp only [optText, List.cons_append, List.length_cons, List.length_append] at hs
    obtain ⟨s, rfl⟩ : ∃ s', s = s' + 2 := ⟨s - 2, by omega⟩
    exact (hitem v rfl (s + 1) _ (fun _ _ y hy => by cases hy; decide)
      (hnext (s + 1) (by simp only [List.length_cons]; omega))).space (skipsBlanks_globalPrefix (s + 1) g)

end GlobalWords

/-- **The words before a global's type read back** as its written linkage, its qualifiers and
whether it is a constant. -/
theorem Global.readsAt_globalPrefix (g : Global) :
    ∀ s, g.prefixText.length < s →
      ReadsAt (globalPrefix s { name := g.name }) g.prefixText
        (fun r => ∀ x ∈ r.head?, isWordChar x = false) g.prefixAst := by
  have hkind : ∃ tl, ' ' :: (if g.isConstant then "constant" else "global").toList = ' ' :: tl :=
    ⟨_, rfl⟩
  unfold prefixText
  refine readsAt_globalPrefix_optional (fun l h => { h with linkage := l })
    { name := g.name, linkage := g.writtenLinkage } rfl rfl
    (fun l _ s tail htail hrest => readsAt_globalPrefix_linkage l htail hrest)
    (optText_append_space _ _ (optText_append_space _ _ (optText_append_space _ _
      (optText_append_space _ _ hkind)))) ?_
  refine readsAt_globalPrefix_optional (fun p h => { h with preemption := p })
    { name := g.name, linkage := g.writtenLinkage, preemption := g.preemption } rfl rfl
    (fun p _ s tail htail hrest => readsAt_globalPrefix_preemption p htail hrest)
    (optText_append_space _ _ (optText_append_space _ _ (optText_append_space _ _ hkind))) ?_
  refine readsAt_globalPrefix_optional (fun v h => { h with visibility := v })
    { name := g.name, linkage := g.writtenLinkage, preemption := g.preemption,
      visibility := g.visibility } rfl rfl
    (fun v _ s tail htail hrest => readsAt_globalPrefix_visibility v htail hrest)
    (optText_append_space _ _ (optText_append_space _ _ hkind)) ?_
  refine readsAt_globalPrefix_optional (fun d h => { h with dll := d })
    { name := g.name, linkage := g.writtenLinkage, preemption := g.preemption,
      visibility := g.visibility, dll := g.dll } rfl rfl
    (fun d _ s tail htail hrest => readsAt_globalPrefix_dll d htail hrest)
    (optText_append_space _ _ hkind) ?_
  refine readsAt_globalPrefix_optional (fun u h => { h with unnamedAddr := u })
    { name := g.name, linkage := g.writtenLinkage, preemption := g.preemption,
      visibility := g.visibility, dll := g.dll, unnamedAddr := g.unnamedAddr } rfl rfl
    (fun u _ s tail htail hrest => readsAt_globalPrefix_unnamedAddr u htail hrest) hkind ?_
  intro s hs
  obtain ⟨s, rfl⟩ : ∃ s', s = s' + 2 := ⟨s - 2, by simp only [List.length_cons] at hs; omega⟩
  exact (readsAt_globalPrefix_kind g.isConstant fun _ h => h).space (skipsBlanks_globalPrefix (s + 1) _)

/-! ### The clauses after the type -/

/-- What follows a clause of a global: the comma of the next one, or the end of the line. -/
def ClauseGap (r : List Char) : Prop := ∀ ch ∈ r.head?, ch = ',' ∨ ch = '\n'

section GlobalClauses

variable {s : Nat} {g b : Ast.Global} {tail : List Char} {F : List Char → Prop}

/-- \x60, section "name"\x60, then the clauses after it. -/
theorem readsAt_globalSuffix_section (name : String)
    (hrest : ReadsAt (globalSuffix s { g with sectionName := some name }) tail F b) :
    ReadsAt (globalSuffix (s + 1) g)
      ((", section " ++ Text.quote name.toUTF8.toList).toList ++ tail) F b := by
  have htext : (", section " ++ Text.quote name.toUTF8.toList).toList ++ tail =
      ',' :: ((' ' :: "section".toList) ++ ((' ' :: (Text.quote name.toUTF8.toList).toList) ++ tail)) := by
    simp
  rw [htext]
  unfold globalSuffix
  refine readsAt_noSpace_peek (P := fun x => x = some ',') (fun _ _ x hx => by cases hx; decide)
    (fun _ _ => rfl) fun x hx => ?_
  subst hx
  rw [if_neg (fun h => h rfl)]
  exact ReadsAt.bind (readsAt_advance (F := fun _ => True) ',')
    (ReadsAt.bind ((readsAt_readWord_toList (by decide) (forall_mem_of_all (by decide))).space
        skipsBlanks_readWord)
      (ReadsAt.bind ((readsAt_readString (F := fun _ => True) name).space skipsBlanks_readString) hrest
        fun _ _ => trivial) fun _ _ x hx => by cases hx; decide) fun _ _ => trivial

/-- \x60, comdat\x60 naming the global's own comdat, then the clauses after it. -/
theorem readsAt_globalSuffix_comdat_implicit (htail : ∀ r, F r → ClauseGap (tail ++ r))
    (hrest : ReadsAt (globalSuffix s { g with comdat := some .implicit }) tail F b) :
    ReadsAt (globalSuffix (s + 1) g) ((", comdat" : String).toList ++ tail) F b := by
  rw [show (", comdat" : String).toList ++ tail = [','] ++ (' ' :: ("comdat".toList ++ tail)) by simp]
  unfold globalSuffix
  refine readsAt_noSpace_peek (P := fun x => x = some ',') (fun _ _ x hx => by cases hx; decide)
    (fun _ _ => rfl) fun x hx => ?_
  subst hx
  rw [if_neg (fun h => h rfl)]
  refine ReadsAt.bind (readsAt_advance (F := fun _ => True) ',')
    (ReadsAt.bind ((readsAt_readWord_toList (by decide) (forall_mem_of_all (by decide))).space
        skipsBlanks_readWord)
      (ReadsAt.bind readsAt_comdatClause_implicit hrest fun r hr h => ?_) fun r hr x hx => ?_)
      fun _ _ => trivial
  · rcases htail r hr '(' h with h | h <;> cases h
  · rcases htail r hr x hx with rfl | rfl <;> decide

/-- \x60, comdat($name)\x60 naming another comdat, then the clauses after it. -/
theorem readsAt_globalSuffix_comdat_named (c : ComdatDef)
    (hrest : ReadsAt (globalSuffix s { g with comdat := some (.named c.name) }) tail F b) :
    ReadsAt (globalSuffix (s + 1) g) ((", " ++ c.reference).toList ++ tail) F b := by
  have htext : (", " ++ c.reference).toList ++ tail =
      ',' :: ((' ' :: "comdat".toList) ++ (('(' :: ((Text.comdatName c.name).toList ++ [')'])) ++ tail)) := by
    simp [ComdatDef.reference]
  rw [htext]
  unfold globalSuffix
  refine readsAt_noSpace_peek (P := fun x => x = some ',') (fun _ _ x hx => by cases hx; decide)
    (fun _ _ => rfl) fun x hx => ?_
  subst hx
  rw [if_neg (fun h => h rfl)]
  exact ReadsAt.bind (readsAt_advance (F := fun _ => True) ',')
    (ReadsAt.bind ((readsAt_readWord_toList (by decide) (forall_mem_of_all (by decide))).space
        skipsBlanks_readWord)
      (ReadsAt.bind (readsAt_comdatClause_named c.name) hrest fun _ _ => trivial)
      fun _ _ x hx => by cases hx; decide) fun _ _ => trivial

/-- \x60, align N\x60 with a number of 64 bits, then the clauses after it. -/
theorem readsAt_globalSuffix_align {n : Nat} (hn : n < bound64) (htail : ∀ r, F r → ClauseGap (tail ++ r))
    (hrest : ReadsAt (globalSuffix s { g with align := some n }) tail F b) :
    ReadsAt (globalSuffix (s + 1) g) ((", align " ++ toString n).toList ++ tail) F b := by
  have htext : (", align " ++ toString n).toList ++ tail =
      ',' :: ((' ' :: "align".toList) ++ ((' ' :: (toString n).toList) ++ tail)) := by
    simp
  rw [htext]
  unfold globalSuffix
  refine readsAt_noSpace_peek (P := fun x => x = some ',') (fun _ _ x hx => by cases hx; decide)
    (fun _ _ => rfl) fun x hx => ?_
  subst hx
  rw [if_neg (fun h => h rfl)]
  exact ReadsAt.bind (readsAt_advance (F := fun _ => True) ',')
    (ReadsAt.bind ((readsAt_readWord_toList (by decide) (forall_mem_of_all (by decide))).space
        skipsBlanks_readWord)
      (ReadsAt.bind ((readsAt_readNumber hn).space (skipsBlanks_readNumber _)) hrest
        fun r hr x hx => by rcases htail r hr x hx with rfl | rfl <;> decide)
      fun _ _ x hx => by cases hx; decide) fun _ _ => trivial

/-- At the end of the line the clauses end. -/
theorem readsAt_globalSuffix_end (s : Nat) (g : Ast.Global) :
    ReadsAt (globalSuffix (s + 1) g) [] AtLineEnd g := by
  intro c r hc hr
  rw [List.nil_append] at hc
  unfold globalSuffix
  rw [run_bind_ok (run_skipBlanks _ _), skipBlanks_false_of_atLineEnd (by rw [hc]; exact hr),
    run_bind_ok (run_peek _), hc]
  cases r with
  | nil => rfl
  | cons ch r =>
    obtain rfl := hr ch rfl
    rfl

/-- **An optional clause of a global reads back**, where its own reading and the reading of the
clauses after it do; \x60set\x60 records it in the global. -/
theorem readsAt_globalSuffix_optional {β : Type} {x : Option β} {text : β → String}
    (set : Option β → Ast.Global → Ast.Global) {rest : List Char} (g' : Ast.Global)
    (hnone : set none g = g) (hset : set x g = g') (hne : ∀ v ∈ x, (text v).toList ≠ [])
    (hitem : ∀ v ∈ x, ∀ s, ReadsAt (globalSuffix s (set (some v) g)) rest F b →
      ReadsAt (globalSuffix (s + 1) g) ((text v).toList ++ rest) F b)
    (hnext : ∀ s, rest.length < s → ReadsAt (globalSuffix s g') rest F b) :
    ∀ s, ((optionalText x text).toList ++ rest).length < s →
      ReadsAt (globalSuffix s g) ((optionalText x text).toList ++ rest) F b := by
  intro s hs
  rw [← hset] at hnext
  cases x with
  | none =>
    rw [hnone] at hnext
    exact hnext s hs
  | some v =>
    have hpos := List.length_pos_of_ne_nil (hne v rfl)
    simp only [optionalText, List.length_append] at hs
    obtain ⟨s, rfl⟩ : ∃ s', s = s' + 1 := ⟨s - 1, by omega⟩
    exact hitem v rfl s (hnext s (by omega))

end GlobalClauses

/-- An optional clause, each opening with a comma, before a gap is a gap. -/
theorem clauseGap_optionalText {β : Type} (x : Option β) (text : β → String)
    (hhead : ∀ v, (text v).toList.head? = some ',') {r : List Char} (hr : ClauseGap r) :
    ClauseGap ((optionalText x text).toList ++ r) := by
  cases x with
  | none => exact hr
  | some v =>
    intro ch hch
    obtain ⟨tl, htl⟩ := List.head?_eq_some_iff.mp (hhead v)
    rw [optionalText, htl, List.cons_append] at hch
    cases hch
    exact Or.inl rfl

theorem ClauseGap.cases {r : List Char} (h : ClauseGap r) : AtLineEnd r ∨ r.head? = some ',' := by
  cases hr : r.head? with
  | none => exact Or.inl fun ch hch => by rw [hr] at hch; cases hch
  | some ch =>
    rcases h ch hr with rfl | rfl
    · exact Or.inr rfl
    · exact Or.inl fun x hx => by rw [hr] at hx; cases hx; rfl

/-- **The clauses of a global read back**, from the comma of the first to the end of the line. -/
theorem Global.readsAt_globalSuffix (g : Global) (halign : ∀ n ∈ g.align, n < bound64) :
    ∀ s, g.suffixText.length < s →
      ReadsAt (globalSuffix s { g.toAst with sectionName := none, comdat := none, align := none })
        g.suffixText AtLineEnd g.toAst := by
  have hend : ∀ r, AtLineEnd r → ClauseGap r := fun r hr ch hch => Or.inr (hr ch hch)
  have halignText : ∀ n : Nat, (", align " ++ toString n).toList.head? = some ',' := fun n => by simp
  -- the last clause, then the comdat before it, then the section before that
  have hlast : ∀ s, ([] : List Char).length < s → ReadsAt (globalSuffix s g.toAst) [] AtLineEnd g.toAst :=
    fun s hs => by
      obtain ⟨s, rfl⟩ : ∃ s', s = s' + 1 := ⟨s - 1, by simp at hs; omega⟩
      exact readsAt_globalSuffix_end s _
  have h3 := readsAt_globalSuffix_optional (g := { g.toAst with align := none }) (x := g.align)
    (fun x h => { h with align := x }) g.toAst rfl rfl
    (fun n _ => by simp) (fun n hn s hrest => readsAt_globalSuffix_align (halign n hn)
      (fun r hr => by rw [List.nil_append]; exact hend r hr) hrest) hlast
  rw [List.append_nil] at h3
  unfold suffixText
  refine readsAt_globalSuffix_optional (fun x h => { h with sectionName := x })
    { g.toAst with comdat := none, align := none } rfl rfl (fun n _ => by simp)
    (fun n _ s hrest => readsAt_globalSuffix_section n hrest) ?_
  refine readsAt_globalSuffix_optional (fun x h => { h with comdat := x.map (ComdatDef.clause g.name) })
    { g.toAst with align := none } rfl rfl (fun c _ => ?_) (fun c _ s hrest => ?_) h3
  · split <;> simp
  · by_cases hc : c.name = g.name
    · rw [if_pos hc]
      have hclause : ComdatDef.clause g.name c = .implicit := if_pos hc
      simp only [Option.map_some, hclause] at hrest
      exact readsAt_globalSuffix_comdat_implicit
        (fun r hr => clauseGap_optionalText _ _ halignText (hend r hr)) hrest
    · rw [if_neg hc]
      have hclause : ComdatDef.clause g.name c = .named c.name := if_neg hc
      simp only [Option.map_some, hclause] at hrest
      exact readsAt_globalSuffix_comdat_named c hrest

/-! ### A whole global -/

section GlobalLine

variable {α : Type} {k : Bool → Option Char → Reader α} {t : List Char} {F : List Char → Prop} {b : α}

/-- At the end of the line or at a comma, a global has no initializer. -/
theorem readsAt_atLineEnd_peek_stop (hF : ∀ r, F r → AtLineEnd (t ++ r) ∨ (t ++ r).head? = some ',')
    (h : ∀ a p, (!a && decide (p ≠ some ',')) = false → ReadsAt (k a p) t F b) :
    ReadsAt (atLineEnd >>= fun a => peek >>= k a) t F b := by
  intro c r hc hr
  have hrun : ∀ a, atLineEnd.run c = .ok (a, c) → (!a && decide (c.rest.head? ≠ some ',')) = false →
      (atLineEnd >>= fun a => peek >>= k a).run c = .ok (b, c.advance t.length) := by
    intro a ha hcond
    rw [run_bind_ok ha, run_bind_ok (run_peek c)]
    exact h a _ hcond c r hc hr
  unfold atLineEnd at hrun
  rcases hF r hr with hline | hcomma
  · -- the end of the line: nothing is skipped and \x60atLineEnd\x60 holds
    refine hrun true ?_ (by simp)
    rw [run_bind_ok (run_skipBlanks _ _), skipBlanks_false_of_atLineEnd (by rw [hc]; exact hline),
      run_bind_ok (run_peek c), hc]
    cases hh : (t ++ r).head? with
    | none => rfl
    | some ch =>
      rw [hline ch hh]
      rfl
  · -- a comma: \x60atLineEnd\x60 fails, and the comma stops the initializer
    have hskip := skipBlanks_of_noBlankAhead (c := c)
      (by rw [hc]; exact fun ch hch => by rw [hcomma] at hch; cases hch; decide) false
    refine hrun false ?_ (by rw [hc, hcomma]; rfl)
    rw [run_bind_ok (run_skipBlanks _ _), hskip, run_bind_ok (run_peek c), hc, hcomma]
    rfl

/-- Before a constant on the line, a global has an initializer. -/
theorem readsAt_atLineEnd_peek_code
    (hF : ∀ r, F r → ∃ ch, (t ++ r).head? = some ch ∧ Cursor.isBlank ch = false ∧ ch ≠ ';' ∧ ch ≠ ',')
    (h : ∀ a p, (!a && decide (p ≠ some ',')) = true → ReadsAt (k a p) t F b) :
    ReadsAt (atLineEnd >>= fun a => peek >>= k a) t F b := by
  intro c r hc hr
  obtain ⟨ch, hch, hb, hs, hcomma⟩ := hF r hr
  have hhead : c.rest.head? = some ch := by rw [hc]; exact hch
  have hskip := Cursor.skipBlanks_of_head hhead hb hs false
  have hnl : ch ≠ '\n' := fun h => by rw [h] at hb; exact absurd hb (by decide)
  have hrun : atLineEnd.run c = .ok (false, c) := by
    unfold atLineEnd
    rw [run_bind_ok (run_skipBlanks _ _), hskip, run_bind_ok (run_peek c), hhead]
    simp [hnl]
    rfl
  rw [run_bind_ok hrun, run_bind_ok (run_peek c), hhead]
  exact h false _ (by simp [hcomma]) c r hc hr

end GlobalLine

/-- A type's text before the end of the line or a comma reads back as the type. -/
theorem readsAt_parseType_stop {ty : Ty} (h : ReadsBack ty) {fuel : Nat} (hf : ty.readDepth + 1 ≤ fuel) :
    ReadsAt (parseType fuel) ty.render.toList (fun r => AtLineEnd r ∨ r.head? = some ',') ty := by
  intro c r hc hr
  rcases hr with hend | hcomma
  · exact readsAt_parseType_eol h hf c r hc hend
  · obtain ⟨tl, rfl⟩ := List.head?_eq_some_iff.mp hcomma
    refine readsAt_parseType h hf c _ hc ⟨fun x hx => ?_, ?_, fun x hx => ?_⟩
    · cases hx
      exact Ty.continuesWith_eq_false (by decide) (by decide)
    · exact stopsSuffixes_of_head (by decide) (by decide) (by decide) (by decide)
        (takeWhile_ne_addrspace (by decide))
    · cases hx
      decide

/-- **What a global needs for its text to read back**: its type's numbers fit, its initializer
reads back, and its alignment fits 64 bits. -/
structure Global.Rereads (g : Global) : Prop where
  ty : g.contentTy.fits
  init : ∀ k ∈ g.init, k.Readable
  align : ∀ n ∈ g.align, n < bound64

/-- **A printed global reads back** as its written form. -/
theorem Global.readsAt_parseGlobal {g : Global} (hg : g.Rereads) {fuel steps : Nat}
    (hfuel : 2 * g.render.length < fuel) (hsteps : g.render.length ≤ steps) :
    ReadsAt (parseGlobal fuel steps) g.render.toList AtLineEnd g.toAst := by
  have hlen := congrArg List.length (toList_render g)
  simp only [String.length_toList, List.length_append, List.length_cons] at hlen
  have hty : ReadsBack g.contentTy := readsBack_of_fits _ hg.ty
  have hdepth := readDepth_le_length g.contentTy
  have hsuffix := g.readsAt_globalSuffix hg.align steps (by omega)
  have hgap : ∀ r, AtLineEnd r → ClauseGap (g.suffixText ++ r) := fun r hr => by
    unfold suffixText
    simp only [List.append_assoc]
    exact clauseGap_optionalText _ _ (fun _ => by simp) (clauseGap_optionalText _ _
      (fun _ => by split <;> simp) (clauseGap_optionalText _ _ (fun _ => by simp)
        fun ch hch => Or.inr (hr ch hch)))
  obtain ⟨f, rfl⟩ : ∃ f, fuel = f + 1 := ⟨fuel - 1, by omega⟩
  rw [toList_render]
  unfold parseGlobal
  -- the name, the equals sign and the words before the type
  refine ReadsAt.bind (readsAt_readGlobalName g.name) ?_ fun _ _ _ x hx => by cases hx; decide
  refine ReadsAt.bind readsAt_spaced_equals ?_ fun _ _ => trivial
  refine ReadsAt.bind (g.readsAt_globalPrefix steps (by omega)) ?_ fun _ _ x hx => by cases hx; decide
  cases hi : g.init with
  | none =>
    -- no initializer: the type, and the clauses where the line goes on
    have hstart : { g.toAst with sectionName := none, comdat := none, align := none } =
        { g.prefixAst with contentTy := g.contentTy } := by
      simp [Global.toAst, Global.prefixAst, hi]
    rw [hstart] at hsuffix
    refine ReadsAt.bind ((readsAt_parseType_stop hty (by omega)).space (skipsBlanks_parseType f))
      (readsAt_atLineEnd_peek_stop (t := g.suffixText) (fun r hr => (hgap r hr).cases)
        fun a p hc => ?_) fun r hr => (hgap r hr).cases
    dsimp only
    rw [hc, if_neg Bool.false_ne_true]
    exact ReadsAt.pure_bind hsuffix
  | some k =>
    -- an initializer: the type and its space, the constant, and the clauses
    have hk : k.Readable := hg.init k hi
    have hkr := constReadsBack_of_readable k hk
    have hkdepth := readDepth_le_length_render k hk
    have hstart : { g.toAst with sectionName := none, comdat := none, align := none } =
        { g.prefixAst with contentTy := g.contentTy, init := some k.toAst } := by
      simp [Global.toAst, Global.prefixAst, hi]
    rw [hstart] at hsuffix
    simp only [hi, optText_some, List.length_cons] at hlen
    have hstops : ∀ r, AtLineEnd r → StopsConst (g.suffixText ++ r) := fun r hr ch hch => by
      rcases hgap r hr ch hch with rfl | rfl <;> rfl
    refine ReadsAt.of_text_eq (ReadsAt.bind
      ((readsAt_parseType_space hty (by omega)).space (skipsBlanks_parseType f))
      (readsAt_atLineEnd_peek_code (t := k.render.toList ++ g.suffixText) (fun r _ => ?_)
        fun a p hc => ?_) fun r hr => ?_) (by simp [optText_some])
    · obtain ⟨ch, hch, hb, hs⟩ := hkr.head
      refine ⟨ch, ?_, hb, hs, fun h => Const.render_head_ne_comma k hk (h ▸ hch)⟩
      obtain ⟨tl, htl⟩ := List.head?_eq_some_iff.mp hch
      rw [htl]
      rfl
    · dsimp only
      rw [hc, if_pos rfl]
      exact ReadsAt.bind (hkr.reads (f + 1) (by omega)) (ReadsAt.pure_bind hsuffix) hstops
    · rw [List.append_assoc]
      exact ⟨hkr.stops _ (hstops r hr), hkr.noBlankAhead _⟩

/-! ## Reading one line -/

section Items

variable {fuel s : Nat} {m b : Ast.Module} {t : List Char} {F : List Char → Prop}

/-- A quoted string after an equals sign, each after a space, and what it selects. -/
theorem readsAt_equals_readString {k : String → Reader Ast.Module} (str : String)
    (h : ReadsAt (k str) t F b) :
    ReadsAt (expect '=' >>= fun _ => readString >>= k)
      (' ' :: '=' :: ' ' :: ((Text.quote str.toUTF8.toList).toList ++ t)) F b :=
  ReadsAt.bind readsAt_spaced_equals
    (ReadsAt.bind ((readsAt_readString (F := fun _ => True) str).space skipsBlanks_readString) h
      fun _ _ => trivial) fun _ _ => trivial

theorem readsAt_moduleItems_sourceFilename (name : String)
    (h : ReadsAt (moduleItems fuel s { m with sourceFilename := some name }) t F b) :
    ReadsAt (moduleItems fuel (s + 1) m) ((Module.Line.sourceFilename name).text ++ t) F b := by
  have htext : (Module.Line.sourceFilename name).text ++ t = "source_filename".toList ++
      (' ' :: '=' :: ' ' :: ((Text.quote name.toUTF8.toList).toList ++ t)) := by
    simp [Module.Line.text]
  rw [htext]
  unfold moduleItems
  refine readsAt_skip_peek (t := "source_filename".toList ++ _) rfl (by decide) (by decide) ?_
  exact ReadsAt.bind (readsAt_readWord_toList (by decide) (forall_mem_of_all (by decide)))
    (readsAt_equals_readString name h) fun _ _ x hx => by cases hx; decide

theorem readsAt_moduleItems_dataLayout (layout : String)
    (h : ReadsAt (moduleItems fuel s { m with dataLayout := some layout }) t F b) :
    ReadsAt (moduleItems fuel (s + 1) m) ((Module.Line.dataLayout layout).text ++ t) F b := by
  have htext : (Module.Line.dataLayout layout).text ++ t = "target".toList ++ (' ' ::
      ("datalayout".toList ++ (' ' :: '=' :: ' ' :: ((Text.quote layout.toUTF8.toList).toList ++ t)))) := by
    simp [Module.Line.text]
  rw [htext]
  unfold moduleItems
  refine readsAt_skip_peek (t := "target".toList ++ _) rfl (by decide) (by decide) ?_
  exact ReadsAt.bind (readsAt_readWord_toList (by decide) (forall_mem_of_all (by decide)))
    (ReadsAt.bind ((readsAt_readWord_toList (by decide) (forall_mem_of_all (by decide))).space
        skipsBlanks_readWord)
      (readsAt_equals_readString layout h) fun _ _ x hx => by cases hx; decide)
    fun _ _ x hx => by cases hx; decide

theorem readsAt_moduleItems_targetTriple (triple : String)
    (h : ReadsAt (moduleItems fuel s { m with targetTriple := some triple }) t F b) :
    ReadsAt (moduleItems fuel (s + 1) m) ((Module.Line.targetTriple triple).text ++ t) F b := by
  have htext : (Module.Line.targetTriple triple).text ++ t = "target".toList ++ (' ' ::
      ("triple".toList ++ (' ' :: '=' :: ' ' :: ((Text.quote triple.toUTF8.toList).toList ++ t)))) := by
    simp [Module.Line.text]
  rw [htext]
  unfold moduleItems
  refine readsAt_skip_peek (t := "target".toList ++ _) rfl (by decide) (by decide) ?_
  exact ReadsAt.bind (readsAt_readWord_toList (by decide) (forall_mem_of_all (by decide)))
    (ReadsAt.bind ((readsAt_readWord_toList (by decide) (forall_mem_of_all (by decide))).space
        skipsBlanks_readWord)
      (readsAt_equals_readString triple h) fun _ _ x hx => by cases hx; decide)
    fun _ _ x hx => by cases hx; decide

/-- **A type definition reads back** as the type's name and body, when the body's numbers fit. -/
theorem readsAt_parseTypeDef (entry : String × Option Ty) (hty : ∀ ty ∈ entry.2, ty.fits)
    (hf : ∀ ty ∈ entry.2, ty.readDepth + 1 ≤ fuel) :
    ReadsAt (parseTypeDef fuel) (Module.typeLine entry).toList AtLineEnd ⟨entry.1, entry.2⟩ := by
  obtain ⟨name, body⟩ := entry
  have hlocal := readsAt_readLocal (i := .named name) fun _ h => by cases h
  have hword := readsAt_spaced_expectWord "type" (by decide) (forall_mem_of_all (by decide))
  unfold parseTypeDef
  -- the name, the equals sign and the word \x60type\x60, then \x60opaque\x60 or the body
  cases body with
  | none =>
    have htext : (Module.typeLine (name, none)).toList = (LocalIdent.named name).render.toList ++
        ([' ', '='] ++ ((' ' :: "type".toList) ++ (' ' :: "opaque".toList))) := by
      simp [Module.typeLine, LocalIdent.render]
    rw [htext]
    refine ReadsAt.bind hlocal (ReadsAt.pure_bind ?_) fun _ _ x hx => by cases hx; decide
    refine ReadsAt.bind readsAt_spaced_equals (ReadsAt.bind hword
      (ReadsAt.bind ((readsAt_tryWord_hit (w := "opaque") (by decide) (forall_mem_of_all (by decide))).space
        (skipsBlanks_tryWord _)) (ReadsAt.pure _) fun r hr x hx => ?_) fun _ _ x hx => by cases hx; decide)
      fun _ _ => trivial
    rcases hr x hx with rfl
    decide
  | some ty =>
    have htext : (Module.typeLine (name, some ty)).toList = (LocalIdent.named name).render.toList ++
        ([' ', '='] ++ ((' ' :: "type".toList) ++ ([' '] ++ ty.render.toList))) := by
      simp [Module.typeLine, LocalIdent.render]
    rw [htext]
    refine ReadsAt.bind hlocal (ReadsAt.pure_bind ?_) fun _ _ x hx => by cases hx; decide
    refine ReadsAt.bind readsAt_spaced_equals (ReadsAt.bind hword
      (ReadsAt.bind ((readsAt_tryWord_other (w := "opaque")).space (skipsBlanks_tryWord _))
        (ReadsAt.bind_pure (readsAt_parseType_eol (readsBack_of_fits ty (hty ty rfl)) (hf ty rfl)))
        fun r hr => ?_) fun _ _ x hx => by cases hx; decide)
      fun _ _ => trivial
    obtain ⟨ch, hch, hhead⟩ := Ty.render_head ty
    refine ⟨fun x hx => ?_, Ty.takeWhile_render_ne_opaque ty fun x hx => ?_⟩
    · rw [List.head?_append, hhead] at hx
      cases hx
      exact typeOpener_facts ch hch
    · rcases hr x hx with rfl
      decide

/-- **A comdat definition reads back.** -/
theorem readsAt_parseComdatDef (c : ComdatDef) :
    ReadsAt parseComdatDef c.definition.toList AtLineEnd c := by
  obtain ⟨name, kind⟩ := c
  obtain ⟨hne, hw⟩ := SelectionKind.keyword_word kind
  have htext : (ComdatDef.definition ⟨name, kind⟩).toList = (Text.comdatName name).toList ++
      ([' ', '='] ++ ((' ' :: "comdat".toList) ++ ((' ' :: (Keyword.keyword kind).toList) ++ []))) := by
    simp [ComdatDef.definition]
  rw [htext]
  unfold parseComdatDef
  -- the name, the equals sign, the word \x60comdat\x60 and the selection kind's word
  refine ReadsAt.bind (readsAt_readComdatName name) (ReadsAt.bind readsAt_spaced_equals
    (ReadsAt.bind (readsAt_spaced_expectWord "comdat" (by decide) (forall_mem_of_all (by decide)))
      (ReadsAt.bind ((readsAt_readWord_toList hne hw).space skipsBlanks_readWord) ?_
        fun r hr x hx => ?_) fun _ _ x hx => by cases hx; decide) fun _ _ => trivial)
    fun _ _ _ x hx => by cases hx; decide
  · simp only [SelectionKind.ofKeyword?_keyword]
    exact ReadsAt.pure _
  · rcases hr x hx with rfl
    decide

theorem readsAt_moduleItems_typeDef (entry : String × Option Ty) (hty : ∀ ty ∈ entry.2, ty.fits)
    (hf : ∀ ty ∈ entry.2, ty.readDepth + 1 ≤ fuel)
    (h : ReadsAt (moduleItems fuel s { m with typeDefs := m.typeDefs ++ [⟨entry.1, entry.2⟩] }) t F b)
    (ht : ∀ r, F r → AtLineEnd (t ++ r)) :
    ReadsAt (moduleItems fuel (s + 1) m) ((Module.Line.typeDef entry).text ++ t) F b := by
  unfold moduleItems
  refine readsAt_skip_peek
    (by simp [Module.Line.text, Module.typeLine, toList_localName] : List.head? _ = some '%')
    (by decide) (by decide) ?_
  exact ReadsAt.bind (readsAt_parseTypeDef entry hty hf) h ht

theorem readsAt_moduleItems_comdat (c : ComdatDef)
    (h : ReadsAt (moduleItems fuel s { m with comdats := m.comdats ++ [c] }) t F b)
    (ht : ∀ r, F r → AtLineEnd (t ++ r)) :
    ReadsAt (moduleItems fuel (s + 1) m) ((Module.Line.comdat c).text ++ t) F b := by
  unfold moduleItems
  refine readsAt_skip_peek
    (by simp [Module.Line.text, ComdatDef.definition, toList_comdatName] : List.head? _ = some '$')
    (by decide) (by decide) ?_
  exact ReadsAt.bind (readsAt_parseComdatDef c) h ht

theorem readsAt_moduleItems_attrGroup {g : AttrGroupDef} (hg : g.Rereads)
    (hs : g.attrs.length < s)
    (h : ReadsAt (moduleItems fuel s { m with attrGroups := m.attrGroups ++ [g] }) t F b) :
    ReadsAt (moduleItems fuel (s + 1) m) ((Module.Line.attrGroup g).text ++ t) F b := by
  rw [Module.Line.text, AttrGroupDef.toList_render, List.append_assoc]
  unfold moduleItems
  refine readsAt_skip_peek (t := "attributes".toList ++ _) rfl (by decide) (by decide) ?_
  exact ReadsAt.bind (readsAt_readWord_toList (by decide) (forall_mem_of_all (by decide)))
    (ReadsAt.bind (AttrGroupDef.readsAt_parseAttrGroup hg hs) h fun _ _ => trivial)
    fun _ _ x hx => by cases hx; decide

theorem readsAt_moduleItems_global {g : Global} (hg : g.Rereads) (hfuel : 2 * g.render.length < fuel)
    (hs : g.render.length ≤ s)
    (h : ReadsAt (moduleItems fuel s { m with globals := m.globals ++ [g.toAst] }) t F b)
    (ht : ∀ r, F r → AtLineEnd (t ++ r)) :
    ReadsAt (moduleItems fuel (s + 1) m) ((Module.Line.global g).text ++ t) F b := by
  unfold moduleItems
  refine readsAt_skip_peek
    (by simp [Module.Line.text, Global.toList_render, toList_globalName] : List.head? _ = some '@')
    (by decide) (by decide) ?_
  exact ReadsAt.bind (Global.readsAt_parseGlobal hg hfuel hs) h ht

/-- The text of a declaration after its word opens with a space. -/
theorem Function.declareText_space (f : Function) : ∃ tl, f.declareText = ' ' :: tl := by
  obtain ⟨tl, htl⟩ := optText_append_space f.linkage Keyword.keyword (toList_renderHeader_space f)
  rw [declareText, htl]
  cases f.metadata with
  | nil => exact ⟨tl, rfl⟩
  | cons a as => exact ⟨_, by simp; rfl⟩

theorem readsAt_moduleItems_func {f : Function} (hr : f.Rereads)
    (hfuel : 2 * (Module.Line.func f).text.length < fuel) (hs : (Module.Line.func f).text.length ≤ s)
    (h : ReadsAt (moduleItems fuel s { m with funcs := m.funcs ++ [f.toAst] }) t F b)
    (ht : ∀ r, F r → AtLineEnd (t ++ r)) :
    ReadsAt (moduleItems fuel (s + 1) m) ((Module.Line.func f).text ++ t) F b := by
  cases hd : f.isDeclaration with
  | true =>
    -- the word \x60declare\x60, then the metadata, the linkage and the header
    simp only [Module.Line.text, hd, if_true, List.length_append] at hfuel hs ⊢
    obtain ⟨tl, htl⟩ := f.declareText_space
    have hword : "declare".toList.length = 7 := rfl
    rw [List.append_assoc]
    unfold moduleItems
    refine readsAt_skip_peek (t := "declare".toList ++ _) rfl (by decide) (by decide) ?_
    refine ReadsAt.bind (readsAt_readWord_toList (by decide) (forall_mem_of_all (by decide)))
      (ReadsAt.bind (Function.readsAt_parseDeclare hd hr (by omega) (by omega)) h ht)
      fun _ _ x hx => ?_
    rw [htl] at hx
    cases hx
    decide
  | false =>
    -- the word \x60define\x60, then the linkage, the header, the metadata and the body
    simp only [Module.Line.text, hd, Bool.false_eq_true, if_false, List.length_append] at hfuel hs ⊢
    have hword : "define".toList.length = 6 := rfl
    rw [List.append_assoc]
    unfold moduleItems
    refine readsAt_skip_peek (t := "define".toList ++ _) rfl (by decide) (by decide) ?_
    refine ReadsAt.bind (readsAt_readWord_toList (by decide) (forall_mem_of_all (by decide)))
      (ReadsAt.bind (Function.readsAt_parseDefine hd hr (by omega) (by omega)) h fun _ _ => trivial)
      fun _ _ x hx => ?_
    rw [Function.defineText_eq] at hx
    cases hx
    decide

theorem skipsBlanks_moduleItems (s : Nat) (m : Ast.Module) : SkipsBlanks (moduleItems fuel (s + 1) m) := by
  unfold moduleItems
  exact skipsBlanks_skip_bind _

/-- At the end of the text the loop stops with the module read so far. -/
theorem readsAt_moduleItems_end (s : Nat) (m : Ast.Module) :
    ReadsAt (moduleItems fuel (s + 1) m) [] (· = []) m := by
  intro c r hc hr
  subst hr
  have hskip := skipBlanks_of_noBlankAhead (c := c) (by rw [hc]; exact fun _ h => by cases h) true
  unfold moduleItems
  rw [run_bind_ok (run_skipBlanks _ _), hskip, run_bind_ok (run_peek _), hc]
  rfl

end Items

/-! ## Reading the lines of a text -/

namespace Module.Line

/-- **What a line needs for its text to read back**: the numbers of a type body, a global, a
function or an attribute group fit and what each holds reads back. -/
def Rereads : Line → Prop
  | typeDef entry => ∀ ty ∈ entry.2, ty.fits
  | global g => g.Rereads
  | func f => f.Rereads
  | attrGroup g => g.Rereads
  | _ => True

theorem text_ne_nil (l : Line) : l.text ≠ [] := by
  cases l with
  | typeDef entry => simp [text, Module.typeLine, toList_localName]
  | comdat c => simp [text, ComdatDef.definition, toList_comdatName]
  | global g => simp [text, Global.toList_render, toList_globalName]
  | func f =>
    rw [text]
    split <;> refine List.append_ne_nil_of_left_ne_nil ?_ _ <;> decide
  | attrGroup g =>
    rw [text, AttrGroupDef.toList_render]
    refine List.append_ne_nil_of_left_ne_nil ?_ _
    decide
  | sourceFilename _ | dataLayout _ | targetTriple _ =>
    rw [text, String.toList_append]
    refine List.append_ne_nil_of_left_ne_nil ?_ _
    decide

/-- **One line reads back**: the loop reads it and goes on with the module it adds the line to. -/
theorem readsAt_moduleItems {fuel s : Nat} {m b : Ast.Module} {t : List Char} {F : List Char → Prop}
    (l : Line) (hl : l.Rereads) (hfuel : 2 * l.text.length < fuel) (hs : l.text.length ≤ s)
    (h : ReadsAt (moduleItems fuel s (l.add m)) t F b) (ht : ∀ r, F r → AtLineEnd (t ++ r)) :
    ReadsAt (moduleItems fuel (s + 1) m) (l.text ++ t) F b := by
  cases l with
  | sourceFilename name => exact readsAt_moduleItems_sourceFilename name h
  | dataLayout layout => exact readsAt_moduleItems_dataLayout layout h
  | targetTriple triple => exact readsAt_moduleItems_targetTriple triple h
  | typeDef entry =>
    -- the body's depth is within twice its text
    refine readsAt_moduleItems_typeDef entry hl (fun ty hty => ?_) h ht
    obtain ⟨name, body⟩ := entry
    cases hty
    have hdepth := readDepth_le_length ty
    simp only [text, Module.typeLine, String.toList_append, List.length_append,
      String.length_toList] at hfuel
    omega
  | comdat c => exact readsAt_moduleItems_comdat c h ht
  | global g => exact readsAt_moduleItems_global hl hfuel hs h ht
  | func f => exact readsAt_moduleItems_func hl hfuel hs h ht
  | attrGroup g =>
    have hjoin := Function.length_le_join_space g.attrs Attribute.render
    simp only [text, AttrGroupDef.toList_render, List.length_append, List.length_cons,
      String.length_toList] at hs
    exact readsAt_moduleItems_attrGroup hl (by omega) h

end Module.Line

/-- **Lines read back one after another**: the loop reads a text of lines to its end and adds
each line in turn to the module it started from. -/
theorem Module.Spaced.readsAt_moduleItems {fuel : Nat} {ls : List Module.Line} {t : List Char}
    (h : Spaced ls t) (hls : ∀ l ∈ ls, l.Rereads) (hfuel : ∀ l ∈ ls, 2 * l.text.length < fuel)
    (m : Ast.Module) {steps : Nat} (hsteps : t.length < steps) :
    ReadsAt (moduleItems fuel steps m) t (· = []) (ls.foldl (fun m l => l.add m) m) := by
  induction h generalizing m steps with
  | nil =>
    obtain ⟨s, rfl⟩ : ∃ s, steps = s + 1 := ⟨steps - 1, by omega⟩
    exact readsAt_moduleItems_end s m
  | feed _ ih =>
    -- a line feed is a blank the loop skips in the same step
    obtain ⟨s, rfl⟩ : ∃ s, steps = s + 1 := ⟨steps - 1, by omega⟩
    exact (ih hls hfuel m (by simp at hsteps; omega)).blank (by decide) (skipsBlanks_moduleItems s m)
  | line l _ hend ih =>
    -- the line takes one step, the lines after it the others
    have hlen : 0 < l.text.length := List.length_pos_of_ne_nil l.text_ne_nil
    simp only [List.length_append] at hsteps
    obtain ⟨s, rfl⟩ : ∃ s, steps = s + 1 := ⟨steps - 1, by omega⟩
    refine l.readsAt_moduleItems (hls l List.mem_cons_self) (hfuel l List.mem_cons_self) (by omega)
      (ih (fun l' h' => hls l' (List.mem_cons_of_mem l h'))
        (fun l' h' => hfuel l' (List.mem_cons_of_mem l h')) (l.add m) (by omega)) fun r hr => ?_
    subst hr
    rw [List.append_nil]
    exact hend


theorem Module.Spaced.length_le_of_mem {ls : List Module.Line} {t : List Char} (h : Spaced ls t)
    {l : Module.Line} (hl : l ∈ ls) : l.text.length ≤ t.length := by
  induction h with
  | nil => cases hl
  | feed _ ih =>
    have := ih hl
    simp only [List.length_cons]
    omega
  | line l' _ _ ih =>
    simp only [List.length_append]
    rcases List.mem_cons.mp hl with rfl | hl
    · omega
    · have := ih hl
      omega

/-! ## The lines of a module -/

namespace Module

/-- The lines of a module's canonical text, in order. -/
def lines (M : Module) : List Line :=
  (M.sourceFilename.map Line.sourceFilename).toList ++ (M.dataLayout.map Line.dataLayout).toList ++
    (M.targetTriple.map Line.targetTriple).toList ++ M.types.defs.map Line.typeDef ++
    M.comdats.map Line.comdat ++ M.globals.map Line.global ++ M.funcs.map Line.func ++
    M.attrGroups.map Line.attrGroup

/-- Lines of one kind, read in turn, append to the one list of the module they add to. -/
theorem foldl_add_map {α β : Type} (mk : α → Line) (f : α → β) (get : Ast.Module → List β)
    (set : Ast.Module → List β → Ast.Module) (hadd : ∀ a m, (mk a).add m = set m (get m ++ [f a]))
    (hget : ∀ m l, get (set m l) = l) (hset : ∀ m l l', set (set m l) l' = set m l')
    (hself : ∀ m, set m (get m) = m) :
    ∀ (xs : List α) (m : Ast.Module), (xs.map mk).foldl (fun m l => l.add m) m = set m (get m ++ xs.map f)
  | [], m => by rw [List.map_nil, List.foldl_nil, List.map_nil, List.append_nil, hself]
  | a :: xs, m => by
    rw [List.map_cons, List.foldl_cons, hadd, foldl_add_map mk f get set hadd hget hset hself xs, hget,
      hset, List.map_cons, List.append_assoc, List.singleton_append]

/-- **Reading the lines of a module gives its written form.** -/
theorem foldl_add_lines (M : Module) : M.lines.foldl (fun m l => l.add m) {} = M.toAst := by
  rcases M with ⟨sourceFilename, dataLayout, targetTriple, ⟨defs⟩, comdats, globals, funcs, attrGroups⟩
  simp only [lines, List.foldl_append,
    foldl_add_map Line.typeDef (fun e => (⟨e.1, e.2⟩ : TypeDef)) Ast.Module.typeDefs
      (fun m l => { m with typeDefs := l }) (fun _ _ => rfl) (fun _ _ => rfl) (fun _ _ _ => rfl)
      (fun _ => rfl),
    foldl_add_map Line.comdat id Ast.Module.comdats (fun m l => { m with comdats := l })
      (fun _ _ => rfl) (fun _ _ => rfl) (fun _ _ _ => rfl) (fun _ => rfl),
    foldl_add_map Line.global Global.toAst Ast.Module.globals (fun m l => { m with globals := l })
      (fun _ _ => rfl) (fun _ _ => rfl) (fun _ _ _ => rfl) (fun _ => rfl),
    foldl_add_map Line.func Function.toAst Ast.Module.funcs (fun m l => { m with funcs := l })
      (fun _ _ => rfl) (fun _ _ => rfl) (fun _ _ _ => rfl) (fun _ => rfl),
    foldl_add_map Line.attrGroup id Ast.Module.attrGroups (fun m l => { m with attrGroups := l })
      (fun _ _ => rfl) (fun _ _ => rfl) (fun _ _ _ => rfl) (fun _ => rfl)]
  cases sourceFilename <;> cases dataLayout <;> cases targetTriple <;> simp [toAst, Line.add]

/-- **What a module needs for its text to read back**: its type bodies, globals, functions and
attribute groups read back. -/
structure Rereads (M : Module) : Prop where
  types : ∀ e ∈ M.types.defs, ∀ ty ∈ e.2, ty.fits
  globals : ∀ g ∈ M.globals, g.Rereads
  funcs : ∀ f ∈ M.funcs, f.Rereads
  attrGroups : ∀ g ∈ M.attrGroups, g.Rereads

theorem Rereads.lines {M : Module} (h : M.Rereads) : ∀ l ∈ M.lines, l.Rereads := by
  intro l hl
  simp only [Module.lines, List.mem_append, List.mem_map, Option.mem_toList, Option.map_eq_some_iff] at hl
  rcases hl with ((((((⟨_, _, rfl⟩ | ⟨_, _, rfl⟩) | ⟨_, _, rfl⟩) | ⟨e, he, rfl⟩) | ⟨_, _, rfl⟩) |
    ⟨g, hg, rfl⟩) | ⟨f, hf, rfl⟩) | ⟨g, hg, rfl⟩
  · exact trivial
  · exact trivial
  · exact trivial
  · exact h.types e he
  · exact trivial
  · exact h.globals g hg
  · exact h.funcs f hf
  · exact h.attrGroups g hg


/-! ## The printed text of a module -/

/-- The lines of one section joined by a separator, or nothing when there are none. -/
def linePart (sep : List Char) (ls : List Line) : List (List Line × List Char) :=
  if ls.isEmpty then [] else [(ls, sep.intercalate (ls.map Line.text))]

theorem map_toList_part {sep : String} {S : List String} {ls : List Line}
    (h : S.map String.toList = ls.map Line.text) :
    (if S.isEmpty then [] else [sep.intercalate S]).map String.toList =
      (linePart sep.toList ls).map Prod.snd := by
  have hlen := congrArg List.length h
  simp only [List.length_map] at hlen
  unfold linePart
  cases S with
  | nil =>
    rw [List.length_eq_zero_iff.mp hlen.symm]
    rfl
  | cons x S =>
    obtain ⟨l, ls, rfl⟩ := List.exists_cons_of_length_eq_add_one hlen.symm
    simp [String.toList_intercalate, h]

theorem flatMap_linePart (sep : List Char) (ls : List Line) : (linePart sep ls).flatMap Prod.fst = ls := by
  unfold linePart
  cases ls <;> simp

theorem spaced_linePart {sep : List Char} (hne : sep ≠ []) (hsep : ∀ x ∈ sep, x = '\n')
    (ls : List Line) : ∀ p ∈ linePart sep ls, Spaced p.1 p.2 := by
  intro p hp
  unfold linePart at hp
  split at hp
  · cases hp
  · rw [List.mem_singleton] at hp
    subst hp
    -- each line alone is a text of lines
    have h := Spaced.intercalate hne hsep (ls.map fun l => ([l], l.text)) fun q hq => by
      obtain ⟨l, -, rfl⟩ := List.mem_map.mp hq
      simpa using (Spaced.nil.line l fun _ h => by cases h)
    rw [List.flatMap_map, List.flatMap_singleton', List.map_map] at h
    exact h

theorem toList_feed : "\n".toList = ['\n'] := rfl

theorem toList_blankLine : "\n\n".toList = ['\n', '\n'] := rfl

/-- Sections of lines, each a text of its lines, joined by a blank line and ended by a line feed. -/
theorem spaced_sections {ls : List Line} {parts : List (List Line × List Char)}
    (hls : parts.flatMap Prod.fst = ls) (hparts : ∀ p ∈ parts, Spaced p.1 p.2) :
    Spaced ls ("\n\n".toList.intercalate (parts.map Prod.snd) ++ "\n".toList) := by
  have h := (Spaced.intercalate (List.cons_ne_nil '\n' ['\n']) (forall_mem_of_all (by decide)) parts
    hparts).append Spaced.nil.feed fun x hx => by cases hx; rfl
  rwa [List.append_nil, hls, ← toList_blankLine, ← toList_feed] at h

/-- The texts of lines of one kind are the lines' texts. -/
theorem map_toList_lines {α : Type} (xs : List α) (mk : α → Line) (text : α → String)
    (h : ∀ a, (mk a).text = (text a).toList) : (xs.map text).map String.toList = (xs.map mk).map Line.text := by
  rw [List.map_map, List.map_map]
  exact List.map_congr_left fun a _ => (h a).symm

/-- A function that is numbered prints as its line. -/
theorem Line.toList_print_func {f : Function} (hid : f.assignIds = .ok f) {out : String}
    (h : f.print = .ok out) : out.toList = (Line.func f).text := by
  rw [Line.text]
  cases hd : f.isDeclaration with
  | true => exact Function.toList_print_declaration hd h
  | false => exact Function.toList_print_definition hd hid h

theorem map_toList_print_funcs {fs : List Function} (hnum : ∀ f ∈ fs, f.assignIds = .ok f)
    {outs : List String} (h : List.Forall₂ (fun f out => f.print = .ok out) fs outs) :
    outs.map String.toList = (fs.map Line.func).map Line.text := by
  induction h with
  | nil => rfl
  | cons hf _ ih =>
    rw [List.map_cons, List.map_cons, List.map_cons, Line.toList_print_func (hnum _ List.mem_cons_self) hf,
      ih fun f hf' => hnum f (List.mem_cons_of_mem _ hf')]

/-- **The printed text of a module is a text of its lines**, when its functions are numbered. -/
theorem spaced_print {M : Module} (hnum : ∀ f ∈ M.funcs, f.assignIds = .ok f) {out : String}
    (h : M.print = .ok out) : Spaced M.lines out.toList := by
  unfold print at h
  cases hf : M.funcs.mapM Function.print with
  | error e =>
    rw [hf] at h
    cases h
  | ok outs =>
    rw [hf] at h
    simp only [bind, Except.bind, pure, Except.pure, Except.ok.injEq] at h
    subst h
    have hfuncs := map_toList_print_funcs hnum (Except.mapM_eq_ok_iff.mp hf)
    have hheader : M.headerLines.map String.toList = ((M.sourceFilename.map Line.sourceFilename).toList ++
        (M.dataLayout.map Line.dataLayout).toList ++ (M.targetTriple.map Line.targetTriple).toList).map
          Line.text := by
      unfold headerLines
      cases M.sourceFilename <;> cases M.dataLayout <;> cases M.targetTriple <;> rfl
    -- the sections, each the lines of one kind
    rw [String.toList_append, String.toList_intercalate]
    simp only [List.map_append]
    rw [map_toList_part hheader, map_toList_part (map_toList_lines _ Line.typeDef _ fun _ => rfl),
      map_toList_part (map_toList_lines _ Line.comdat _ fun _ => rfl),
      map_toList_part (map_toList_lines _ Line.global _ fun _ => rfl), map_toList_part hfuncs,
      map_toList_part (map_toList_lines _ Line.attrGroup _ fun _ => rfl), ← List.map_append,
      ← List.map_append, ← List.map_append, ← List.map_append, ← List.map_append]
    refine spaced_sections ?_ fun p hp => ?_
    · simp only [List.flatMap_append, flatMap_linePart]
      rfl
    · -- the lines of a kind stand one to a line, the functions apart by a blank line
      have hne : "\n".toList ≠ [] := by rw [toList_feed]; exact List.cons_ne_nil _ _
      have hsep : ∀ x ∈ "\n".toList, x = '\n' := by rw [toList_feed]; exact forall_mem_of_all (by decide)
      have hne₂ : "\n\n".toList ≠ [] := by rw [toList_blankLine]; exact List.cons_ne_nil _ _
      have hsep₂ : ∀ x ∈ "\n\n".toList, x = '\n' := by
        rw [toList_blankLine]
        exact forall_mem_of_all (by decide)
      have hlines := spaced_linePart hne hsep
      simp only [List.mem_append] at hp
      rcases hp with ((((hp | hp) | hp) | hp) | hp) | hp
      · exact hlines _ p hp
      · exact hlines _ p hp
      · exact hlines _ p hp
      · exact hlines _ p hp
      · exact spaced_linePart hne₂ hsep₂ _ p hp
      · exact hlines _ p hp

/-- **A printed module reads back** as its written form, when its functions are numbered and what
it holds reads back. -/
theorem parseModule_print {M : Module} (hr : M.Rereads) (hnum : ∀ f ∈ M.funcs, f.assignIds = .ok f)
    {out : String} (h : M.print = .ok out) : parseModule out = .ok M.toAst := by
  have hsp := spaced_print hnum h
  -- the fuel and the steps the reading starts with cover every line and the whole text
  have hfuel : ∀ l ∈ M.lines, 2 * l.text.length < fuelFor ⟨out.toList, 0⟩ := fun l hl => by
    have := hsp.length_le_of_mem hl
    simp only [fuelFor]
    omega
  have hrun := hsp.readsAt_moduleItems hr.lines hfuel {} (Nat.lt_succ_self _) ⟨out.toList, 0⟩ []
    (List.append_nil _).symm rfl
  rw [foldl_add_lines] at hrun
  unfold parseModule
  dsimp only
  rw [hrun]

end Module

end LlvmAsm
