import Mathlib.Logic.Relation
import Mathlib.Data.List.Perm.Subperm
import LlvmAsm.Proofs.Lowering.ConstantTypes

/-!
# `Proofs.TypeAliases` — the table of named types has no alias cycle

A named type whose body is another name is an *alias* of it, and following aliases is how
`TypeTable.underlying` and `TypeTable.resolveAlias` look through names. `TypeTable.define` installs
the bodies one at a time, in definition order, and refuses a body whose chain of names leads back
to the name being defined (`TypeTable.aliasCycle`), looking only at the bodies installed so far.
This module shows that this is enough:

* on a table without alias cycles the check refuses exactly the bodies whose alias chain reaches
  the name being defined (`aliasCycle_eq_true_iff`), so installing a body it lets through keeps the
  table without alias cycles (`AliasAcyclic.setBody`);
* in a table without alias cycles every alias chain ends (`AliasAcyclic.wellFounded`), within as
  many steps as the table has entries (`AliasAcyclic.depthLe`), so the fuel `underlying` and
  `resolveAlias` take lets them stop exactly where the unbounded walk stops;
* on success `define` returns the definitions as written (`define_eq_ok`), and for definitions with
  distinct names and well-formed bodies it fails exactly when their alias graph has a cycle.

`define_alias_acyclic` states this for every list of definitions.
-/

namespace LlvmAsm

namespace Ty

mutual

/-- Every integer width of the type lies in `1..2^23` and every name it mentions is `known`. -/
def WellFormed (known : String → Prop) : Ty → Prop
  | .int bits => 0 < bits ∧ bits ≤ maxIntBits
  | .pointer elem _ => elem.WellFormed known
  | .array _ elem => elem.WellFormed known
  | .vector _ elem => elem.WellFormed known
  | .struct _ fields => WellFormedList known fields
  | .func ret params _ => ret.WellFormed known ∧ WellFormedList known params
  | .named name => known name
  | .void | .float _ | .label | .token => True

/-- Every type of the list is well formed. -/
def WellFormedList (known : String → Prop) : List Ty → Prop
  | [] => True
  | t :: ts => t.WellFormed known ∧ WellFormedList known ts

end

end Ty

namespace Scope

variable (s : Scope)

mutual

/-- **Checking a type** succeeds exactly on a well-formed type, and returns it unchanged. -/
theorem lowerType_eq_ok_iff : ∀ (ty ty' : Ty),
    s.lowerType ty = .ok ty' ↔ ty.WellFormed (s.types.contains · = true) ∧ ty' = ty
  | .int bits, ty' => by
    by_cases hbad : bits = 0 ∨ maxIntBits < bits
    · have hc : (bits = 0 || decide (maxIntBits < bits)) = true := by simpa using hbad
      simp only [lowerType, hc, if_true, reduceCtorEq, false_iff, Ty.WellFormed]
      omega
    · have hc : (bits = 0 || decide (maxIntBits < bits)) = false := by simpa using hbad
      simp only [lowerType, hc, Bool.false_eq_true, if_false, Except.ok.injEq, Ty.WellFormed]
      exact ⟨fun h => ⟨by omega, h.symm⟩, fun h => h.2.symm⟩
  | .pointer elem space, ty' => by
    simp only [lowerType, Ty.WellFormed, bind_pure_comp, Except.map_eq_ok_iff,
      lowerType_eq_ok_iff elem]
    grind
  | .array len elem, ty' => by
    simp only [lowerType, Ty.WellFormed, bind_pure_comp, Except.map_eq_ok_iff,
      lowerType_eq_ok_iff elem]
    grind
  | .vector len elem, ty' => by
    simp only [lowerType, Ty.WellFormed, bind_pure_comp, Except.map_eq_ok_iff,
      lowerType_eq_ok_iff elem]
    grind
  | .struct packed fields, ty' => by
    simp only [lowerType, Ty.WellFormed, bind_pure_comp, Except.map_eq_ok_iff,
      lowerTypes_eq_ok_iff fields]
    grind
  | .func ret params variadic, ty' => by
    simp only [lowerType, Ty.WellFormed, bind_pure_comp, Except.bind_eq_ok_iff,
      Except.map_eq_ok_iff, lowerType_eq_ok_iff ret, lowerTypes_eq_ok_iff params]
    grind
  | .named name, ty' => by
    by_cases h : s.types.contains name = true
    · simp [lowerType, h, Ty.WellFormed, eq_comm]
    · simp [lowerType, h, Ty.WellFormed]
  | .void, ty' => by simp [lowerType, Ty.WellFormed, eq_comm]
  | .float _, ty' => by simp [lowerType, Ty.WellFormed, eq_comm]
  | .label, ty' => by simp [lowerType, Ty.WellFormed, eq_comm]
  | .token, ty' => by simp [lowerType, Ty.WellFormed, eq_comm]

theorem lowerTypes_eq_ok_iff : ∀ (tys tys' : List Ty),
    s.lowerTypes tys = .ok tys' ↔ Ty.WellFormedList (s.types.contains · = true) tys ∧ tys' = tys
  | [], tys' => by simp [lowerTypes, Ty.WellFormedList, eq_comm]
  | t :: ts, tys' => by
    simp only [lowerTypes, Ty.WellFormedList, bind_pure_comp, Except.bind_eq_ok_iff,
      Except.map_eq_ok_iff, lowerType_eq_ok_iff t, lowerTypes_eq_ok_iff ts]
    grind

end

end Scope

/-- A path through a relation with extra edges from `x` to the targets `P` allows either avoids
them or reaches `x` and leaves it along one of them. -/
theorem transGen_extra_edges {α : Type} {r : α → α → Prop} {x : α} {P : α → Prop} {a c : α}
    (h : Relation.TransGen (fun a b => r a b ∨ (a = x ∧ P b)) a c) :
    Relation.TransGen r a c ∨
      (Relation.ReflTransGen r a x ∧ ∃ y, P y ∧ Relation.ReflTransGen r y c) := by
  induction h with
  | single hab =>
    rcases hab with hab | ⟨rfl, hb⟩
    · exact .inl (.single hab)
    · exact .inr ⟨.refl, _, hb, .refl⟩
  | tail _ hbc ih =>
    rcases hbc with hbc | ⟨rfl, hc⟩
    · rcases ih with hab | ⟨hax, y, hy, hyb⟩
      · exact .inl (hab.tail hbc)
      · exact .inr ⟨hax, y, hy, hyb.tail hbc⟩
    · rcases ih with hab | ⟨hax, -⟩
      · exact .inr ⟨hab.to_reflTransGen, _, hc, .refl⟩
      · exact .inr ⟨hax, _, hc, .refl⟩

namespace TypeTable

variable {t : TypeTable}

/-- The names the table defines, in order. -/
def names (t : TypeTable) : List String := t.defs.map Prod.fst

/-- `a` is an alias of `b`: the body of the named type `a` is the name `b`. -/
def Alias (t : TypeTable) (a b : String) : Prop := t.body? a = some (.named b)

/-- No chain of aliases leads from a name back to itself. -/
def AliasAcyclic (t : TypeTable) : Prop := ∀ a, ¬ Relation.TransGen t.Alias a a

/-- Every chain of aliases from `a` ends within `n` steps. -/
def AliasDepthLe (t : TypeTable) : Nat → String → Prop
  | 0, a => ∀ b, ¬ t.Alias a b
  | n + 1, a => ∀ b, t.Alias a b → t.AliasDepthLe n b

theorem contains_iff_mem_names {name : String} : t.contains name = true ↔ name ∈ t.names := by
  simp only [contains, find?, names, List.lookup_isSome_iff, beq_iff_eq, List.mem_map]
  constructor
  · rintro ⟨p, hp, rfl⟩
    exact ⟨p, hp, rfl⟩
  · rintro ⟨p, hp, rfl⟩
    exact ⟨p, hp, rfl⟩

/-- A name with a body is a defined name. -/
theorem mem_names_of_body? {name : String} {body : Ty} (h : t.body? name = some body) :
    name ∈ t.names := by
  rw [← contains_iff_mem_names]
  cases hf : t.find? name with
  | none => simp [body?, hf] at h
  | some _ => simp [contains, hf]

/-! ## Alias chains end -/

/-- **Pigeonhole on alias chains.** Following aliases from `a`, after the distinct names `seen`
that all lead to `a`, takes at most as many further steps as the table has entries left. -/
theorem AliasAcyclic.depthLe_of_seen (hac : t.AliasAcyclic) :
    ∀ (m : Nat) (a : String) (seen : List String), seen.Nodup → (∀ y ∈ seen, y ∈ t.names) →
      (∀ y ∈ seen, Relation.TransGen t.Alias y a) → seen.length + m = t.defs.length →
      t.AliasDepthLe m a
  | m, a, seen, hnd, hnames, hreach, hlen => by
    -- an alias `a` has a body, and is none of the names before it, which all lead to it
    have hgrow : ∀ b, t.Alias a b → (a :: seen).Nodup ∧ ∀ y ∈ a :: seen, y ∈ t.names := by
      intro b hab
      have hfresh : a ∉ seen := fun ha => hac a (hreach a ha)
      exact ⟨List.nodup_cons.mpr ⟨hfresh, hnd⟩,
        List.forall_mem_cons.mpr ⟨mem_names_of_body? hab, hnames⟩⟩
    cases m with
    | zero =>
      intro b hab
      obtain ⟨hnd', hnames'⟩ := hgrow b hab
      have hle := (hnd'.subperm hnames').length_le
      simp only [List.length_cons, names, List.length_map] at hle
      omega
    | succ m =>
      intro b hab
      obtain ⟨hnd', hnames'⟩ := hgrow b hab
      refine hac.depthLe_of_seen m b (a :: seen) hnd' hnames' ?_ (by simp only [List.length_cons]; omega)
      intro y hy
      rcases List.mem_cons.mp hy with rfl | hy
      · exact .single hab
      · exact (hreach y hy).tail hab

/-- In a table without alias cycles, every alias chain ends within as many steps as the table has
entries. -/
theorem AliasAcyclic.depthLe (hac : t.AliasAcyclic) (a : String) : t.AliasDepthLe t.defs.length a :=
  hac.depthLe_of_seen _ a [] List.nodup_nil (by simp) (by simp) (by simp)

theorem AliasDepthLe.acc : ∀ {n : Nat} {a : String}, t.AliasDepthLe n a →
    Acc (fun b a => t.Alias a b) a
  | 0, a, h => .intro a fun b hab => absurd hab (h b)
  | _ + 1, a, h => .intro a fun b hab => (h b hab).acc

/-- **Following aliases terminates** in a table without alias cycles. -/
theorem AliasAcyclic.wellFounded (hac : t.AliasAcyclic) : WellFounded (fun b a => t.Alias a b) :=
  ⟨fun a => (hac.depthLe a).acc⟩

/-! ## The fuel of `underlying` and `resolveAlias` is enough -/

/-- With more fuel than the alias chain from `a` is long, following names from `a` stops at a type
that is not a name with a body. -/
theorem underlyingWith_stops : ∀ {n fuel : Nat} {a : String}, t.AliasDepthLe n a → n < fuel →
    ∀ name, t.underlyingWith fuel (.named a) = .named name → t.body? name = none
  | _, 0, _, _, hlt, _, _ => absurd hlt (Nat.not_lt_zero _)
  | n, fuel + 1, a, hd, hlt, name, h => by
    simp only [underlyingWith] at h
    split at h
    · rename_i b hb
      by_cases hnb : ∃ c, b = .named c
      · obtain ⟨c, rfl⟩ := hnb
        cases n with
        | zero => exact absurd hb (hd c)
        | succ n => exact underlyingWith_stops (hd c hb) (by omega) name h
      · rw [underlyingWith_of_not_named (fun c hc => hnb ⟨c, hc⟩)] at h
        exact absurd ⟨name, h⟩ hnb
    · rename_i hb
      cases h
      exact hb

/-- With more fuel than the alias chain from `a` is long, following non-struct aliases from `a`
stops at a type that is not a name whose body is another type than a struct. -/
theorem resolveAliasWith_stops : ∀ {n fuel : Nat} {a : String}, t.AliasDepthLe n a → n < fuel →
    ∀ name body, t.resolveAliasWith fuel (.named a) = .named name → t.body? name = some body →
      ∃ packed fields, body = .struct packed fields
  | _, 0, _, _, hlt, _, _, _, _ => absurd hlt (Nat.not_lt_zero _)
  | n, fuel + 1, a, hd, hlt, name, body, h, hbody => by
    simp only [resolveAliasWith] at h
    split at h
    · rename_i packed fields hb
      cases h
      rw [hb] at hbody
      cases hbody
      exact ⟨packed, fields, rfl⟩
    · rename_i b hns hb
      by_cases hnb : ∃ c, b = .named c
      · obtain ⟨c, rfl⟩ := hnb
        cases n with
        | zero => exact absurd hb (hd c)
        | succ n => exact resolveAliasWith_stops (hd c hb) (by omega) name body h hbody
      · rw [resolveAliasWith_of_not_named (fun c hc => hnb ⟨c, hc⟩)] at h
        exact absurd ⟨name, h⟩ hnb
    · rename_i hb
      cases h
      rw [hb] at hbody
      cases hbody

/-- **`underlying` looks through every name**: in a table without alias cycles it never returns a
name that has a body. -/
theorem AliasAcyclic.underlying_stops (hac : t.AliasAcyclic) (ty : Ty) (name : String)
    (h : t.underlying ty = .named name) : t.body? name = none := by
  by_cases hty : ∃ a, ty = .named a
  · obtain ⟨a, rfl⟩ := hty
    exact underlyingWith_stops (hac.depthLe a) (Nat.lt_succ_self _) name h
  · rw [underlying, underlyingWith_of_not_named (fun a ha => hty ⟨a, ha⟩)] at h
    exact absurd ⟨name, h⟩ hty

/-- **`resolveAlias` looks through every alias**: in a table without alias cycles, a name it
returns has no body or a struct body. -/
theorem AliasAcyclic.resolveAlias_stops (hac : t.AliasAcyclic) (ty : Ty) (name : String) (body : Ty)
    (h : t.resolveAlias ty = .named name) (hbody : t.body? name = some body) :
    ∃ packed fields, body = .struct packed fields := by
  by_cases hty : ∃ a, ty = .named a
  · obtain ⟨a, rfl⟩ := hty
    exact resolveAliasWith_stops (hac.depthLe a) (Nat.lt_succ_self _) name body h hbody
  · rw [resolveAlias, resolveAliasWith_of_not_named (fun a ha => hty ⟨a, ha⟩)] at h
    exact absurd ⟨name, h⟩ hty

/-! ## The cycle check -/

variable {name : String}

/-- The check follows names only: on any other type it finds no cycle. -/
theorem aliasCycle_of_not_named {ty : Ty} (hty : ∀ c, ty ≠ .named c) :
    ∀ fuel seen, t.aliasCycle name fuel seen ty = false
  | 0, _ => rfl
  | _ + 1, _ => by
    cases ty with
    | named c => exact absurd rfl (hty c)
    | _ => rfl

/-- A cycle the check reports is a chain from `next` to `name`, or a cycle met on the way, given
that the names met before all lead to `next`. -/
theorem reaches_of_aliasCycle : ∀ {fuel : Nat} {seen : List String} {next : String},
    t.aliasCycle name fuel seen (.named next) = true →
    (∀ y ∈ seen, Relation.TransGen t.Alias y next) →
    Relation.ReflTransGen t.Alias next name ∨ ∃ x, Relation.TransGen t.Alias x x
  | 0, _, _, h, _ => nomatch h
  | fuel + 1, seen, next, h, hreach => by
    simp only [aliasCycle] at h
    by_cases hname : next = name
    · subst hname
      exact .inl .refl
    by_cases hseen : next ∈ seen
    · exact .inr ⟨next, hreach next hseen⟩
    rw [if_neg (by simp [hname, hseen])] at h
    cases hb : t.body? next with
    | none =>
      rw [hb] at h
      cases h
    | some b =>
      rw [hb] at h
      dsimp only at h
      by_cases hnb : ∃ c, b = .named c
      · obtain ⟨c, rfl⟩ := hnb
        have hstep : t.Alias next c := hb
        -- the chain goes on from `c`, with `next` now among the names met
        have hreach' : ∀ y ∈ next :: seen, Relation.TransGen t.Alias y c := by
          intro y hy
          rcases List.mem_cons.mp hy with rfl | hy
          · exact .single hstep
          · exact (hreach y hy).tail hstep
        rcases reaches_of_aliasCycle h hreach' with hr | hcyc
        · exact .inl (.head hstep hr)
        · exact .inr hcyc
      · rw [aliasCycle_of_not_named (fun c hc => hnb ⟨c, hc⟩)] at h
        cases h

/-- A check that finds no cycle, with more fuel than the alias chain from `next` is long, means
the chain never reaches `name`. -/
theorem not_reaches_of_aliasCycle : ∀ {n fuel : Nat} {seen : List String} {next : String},
    t.AliasDepthLe n next → n < fuel → t.aliasCycle name fuel seen (.named next) = false →
    ¬ Relation.ReflTransGen t.Alias next name
  | _, 0, _, _, _, hlt, _ => absurd hlt (Nat.not_lt_zero _)
  | n, fuel + 1, seen, next, hd, hlt, h => by
    simp only [aliasCycle] at h
    by_cases hstop : (decide (next = name) || seen.contains next) = true
    · rw [if_pos hstop] at h
      cases h
    rw [if_neg hstop] at h
    have hname : next ≠ name := fun he => hstop (by simp [he])
    intro hr
    rcases hr.cases_head with heq | ⟨c, hstep, hr'⟩
    · exact hname heq
    · rw [show t.body? next = some (.named c) from hstep] at h
      cases n with
      | zero => exact hd c hstep
      | succ n => exact not_reaches_of_aliasCycle (hd c hstep) (by omega) h hr'

/-- **The cycle check is exact** on a table without alias cycles: it refuses a body exactly when
the body is a name whose alias chain reaches the name being defined. -/
theorem AliasAcyclic.aliasCycle_eq_true_iff (hac : t.AliasAcyclic) {ty : Ty} :
    t.aliasCycle name (t.defs.length + 1) [] ty = true ↔
      ∃ next, ty = .named next ∧ Relation.ReflTransGen t.Alias next name := by
  constructor
  · intro h
    by_cases hty : ∃ next, ty = .named next
    · obtain ⟨next, rfl⟩ := hty
      rcases reaches_of_aliasCycle h (by simp) with hr | ⟨x, hx⟩
      · exact ⟨next, rfl, hr⟩
      · exact absurd hx (hac x)
    · rw [aliasCycle_of_not_named (fun c hc => hty ⟨c, hc⟩)] at h
      cases h
  · rintro ⟨next, rfl, hr⟩
    by_contra h
    exact not_reaches_of_aliasCycle (hac.depthLe next) (Nat.lt_succ_self _) (by simpa using h) hr

/-! ## Installing a body -/

theorem find?_setBody (body : Ty) (a : String) :
    (t.setBody name body).find? a =
      if a = name then (t.find? a).map fun _ => some body else t.find? a := by
  obtain ⟨defs⟩ := t
  simp only [setBody, find?]
  induction defs with
  | nil => simp
  | cons e rest ih =>
    obtain ⟨n, x⟩ := e
    by_cases ha : a = n
    · subst ha
      by_cases hn : a = name <;> simp [hn]
    · have hb : (a == n) = false := by simpa using ha
      by_cases hn : n = name
      · subst hn
        simp only [List.map_cons, if_true, List.lookup_cons, hb, ih, if_neg ha]
      · simp only [List.map_cons, hn, if_false, List.lookup_cons, hb, ih]

/-- The aliases after installing a body are the old ones, and the new body when it is a name. -/
theorem alias_setBody {body : Ty} {a b : String} (h : (t.setBody name body).Alias a b) :
    t.Alias a b ∨ (a = name ∧ body = .named b) := by
  unfold Alias body? at h
  rw [find?_setBody] at h
  by_cases ha : a = name
  · rw [if_pos ha] at h
    cases hf : t.find? a with
    | none => simp [hf] at h
    | some _ =>
      simp only [hf, Option.map_some, Option.join_some, Option.some.injEq] at h
      exact .inr ⟨ha, h⟩
  · rw [if_neg ha] at h
    exact .inl h

/-- **Installing a body the check lets through** keeps the table without alias cycles: a new cycle
would have to use the new body, whose chain would then lead back to `name`. -/
theorem AliasAcyclic.setBody (hac : t.AliasAcyclic) {body : Ty}
    (hnew : ∀ next, body = .named next → ¬ Relation.ReflTransGen t.Alias next name) :
    (t.setBody name body).AliasAcyclic := by
  intro a hcyc
  have hcyc' := Relation.TransGen.mono (fun a b hab => alias_setBody hab) a a hcyc
  rcases transGen_extra_edges hcyc' with hold | ⟨han, next, hnext, hna⟩
  · exact hac a hold
  · exact hnew next hnext (hna.trans han)

theorem AliasAcyclic.of_no_alias (h : ∀ a b, ¬ t.Alias a b) : t.AliasAcyclic := by
  intro a hcyc
  obtain ⟨b, hab, -⟩ := Relation.TransGen.head'_iff.mp hcyc
  exact h a b hab

/-! ## The tables `define` builds -/

/-- The definitions as written, each name with its body. -/
def ofDefs (defs : List Ast.TypeDef) : TypeTable := ⟨defs.map fun d => (d.name, d.body)⟩

/-- The table `define` has built once the bodies of `done` are installed, with the names of `todo`
declared and still without a body. -/
def staged (done todo : List Ast.TypeDef) : TypeTable :=
  ⟨done.map (fun d => (d.name, d.body)) ++ todo.map fun d => (d.name, none)⟩

theorem staged_names (done todo : List Ast.TypeDef) :
    (staged done todo).names = (done ++ todo).map (·.name) := by
  simp [staged, names, Function.comp_def]

theorem staged_nil_right (defs : List Ast.TypeDef) : staged defs [] = ofDefs defs := by
  simp [staged, ofDefs]

/-- A definition without a body moves from `todo` to `done` without changing the table. -/
theorem staged_cons_of_body_none {done todo : List Ast.TypeDef} {d : Ast.TypeDef}
    (hb : d.body = none) : staged done (d :: todo) = staged (done ++ [d]) todo := by
  simp [staged, hb]

/-- A declared name has no body. -/
theorem join_lookup_declared (todo : List Ast.TypeDef) (a : String) :
    ((todo.map fun d => (d.name, (none : Option Ty))).lookup a).join = none := by
  cases h : (todo.map fun d => (d.name, (none : Option Ty))).lookup a with
  | none => rfl
  | some x =>
    obtain ⟨l₁, l₂, hl, -⟩ := List.lookup_eq_some_iff.mp h
    have hmem : (a, x) ∈ todo.map fun d => (d.name, (none : Option Ty)) := by
      rw [hl]
      exact List.mem_append_right _ List.mem_cons_self
    obtain ⟨d, -, hd⟩ := List.mem_map.mp hmem
    cases hd
    rfl

/-- Every alias of a staged table is an alias of the definitions as written. -/
theorem alias_staged {done todo : List Ast.TypeDef} {a b : String}
    (h : (staged done todo).Alias a b) : (ofDefs (done ++ todo)).Alias a b := by
  simp only [Alias, body?, find?, staged, ofDefs, List.map_append, List.lookup_append] at h ⊢
  cases hd : (done.map fun d => (d.name, d.body)).lookup a with
  | some x => simpa [hd] using h
  | none =>
    rw [hd, Option.none_or, join_lookup_declared] at h
    cases h

theorem staged_nil_left_acyclic (todo : List Ast.TypeDef) : (staged [] todo).AliasAcyclic :=
  AliasAcyclic.of_no_alias fun a b h => by
    simp only [Alias, body?, find?, staged, List.map_nil, List.nil_append,
      join_lookup_declared] at h
    cases h

/-- With distinct names, the definitions as written give each name its own body. -/
theorem ofDefs_body? : ∀ {defs : List Ast.TypeDef}, (defs.map (·.name)).Nodup →
    ∀ d ∈ defs, (ofDefs defs).body? d.name = d.body
  | [], _, _, hd => nomatch hd
  | e :: rest, hnd, d, hd => by
    obtain ⟨hfresh, hnd'⟩ := List.nodup_cons.mp hnd
    rcases List.mem_cons.mp hd with rfl | hd
    · simp [ofDefs, body?, find?]
    · have hne : d.name ≠ e.name := by
        intro he
        have hmem : d.name ∈ rest.map (·.name) := List.mem_map_of_mem hd
        rw [he] at hmem
        exact hfresh hmem
      have hb : (d.name == e.name) = false := by simpa using hne
      have ih := ofDefs_body? hnd' d hd
      simp only [ofDefs, body?, find?, List.map_cons, List.lookup_cons, hb] at ih ⊢
      exact ih

/-- Installing the body of the next definition, whose name no other definition has, moves it from
`todo` to `done`. -/
theorem setBody_staged {done todo : List Ast.TypeDef} {d : Ast.TypeDef} {b : Ty}
    (hnd : ((done ++ d :: todo).map (·.name)).Nodup) (hb : d.body = some b) :
    (staged done (d :: todo)).setBody d.name b = staged (done ++ [d]) todo := by
  simp only [List.map_append, List.map_cons, List.nodup_append, List.nodup_cons, List.mem_cons,
    List.mem_map] at hnd
  obtain ⟨-, ⟨htodo, -⟩, hsep⟩ := hnd
  simp only [setBody, staged, TypeTable.mk.injEq, List.map_append, List.map_cons, List.map_map,
    List.append_assoc, hb]
  congr 1
  · apply List.map_congr_left
    intro e he
    have hne : e.name ≠ d.name := fun h => hsep e.name ⟨e, he, rfl⟩ d.name (.inl rfl) h
    simp [hne]
  · simp only [if_true, List.map_nil, List.singleton_append]
    congr 1
    apply List.map_congr_left
    intro e he
    have hne : e.name ≠ d.name := fun h => htodo ⟨e, he, h⟩
    simp [hne]

/-! ## Running `define` -/

theorem declareAll_eq_ok_iff : ∀ {t t' : TypeTable} {ds : List Ast.TypeDef},
    declareAll t ds = .ok t' ↔ (ds.map (·.name)).Nodup ∧ (∀ d ∈ ds, d.name ∉ t.names) ∧
      t' = ⟨t.defs ++ ds.map fun d => (d.name, none)⟩
  | t, t', [] => by
    simp only [declareAll, Except.ok.injEq, List.map_nil, List.nodup_nil, List.not_mem_nil,
      IsEmpty.forall_iff, implies_true, List.append_nil, true_and]
    exact ⟨fun h => h ▸ rfl, fun h => h ▸ rfl⟩
  | t, t', d :: ds => by
    have ih := @declareAll_eq_ok_iff ⟨t.defs ++ [(d.name, none)]⟩ t' ds
    have hnames : (⟨t.defs ++ [(d.name, none)]⟩ : TypeTable).names = t.names ++ [d.name] := by
      simp [names]
    rw [hnames] at ih
    by_cases hc : t.contains d.name = true
    · simp only [declareAll, hc, if_true, reduceCtorEq, false_iff]
      rintro ⟨-, hfresh, -⟩
      exact hfresh d List.mem_cons_self (contains_iff_mem_names.mp hc)
    · simp only [declareAll, hc, Bool.false_eq_true, if_false, ih]
      have hd : d.name ∉ t.names := fun h => hc (contains_iff_mem_names.mpr h)
      simp only [List.map_cons, List.nodup_cons, List.forall_mem_cons, List.mem_append,
        List.mem_singleton, not_or, List.append_assoc, List.singleton_append, List.mem_map]
      grind

/-- **Checking the next body.** A run that gets past a definition with a body checked the body,
found no cycle, and went on with the body installed. -/
theorem defineBodies_cons_ok {t t' : TypeTable} {d : Ast.TypeDef} {ds : List Ast.TypeDef} {b : Ty}
    (hb : d.body = some b) (h : defineBodies t (d :: ds) = .ok t') :
    ∃ b', Scope.lowerType { types := t } b = .ok b' ∧
      t.aliasCycle d.name (t.defs.length + 1) [] b' = false ∧
      defineBodies (t.setBody d.name b') ds = .ok t' := by
  simp only [defineBodies, hb, Except.bind_eq_ok_iff] at h
  obtain ⟨b', hlow, hrest⟩ := h
  by_cases hcyc : t.aliasCycle d.name (t.defs.length + 1) [] b' = true
  · rw [if_pos hcyc] at hrest
    cases hrest
  · rw [if_neg hcyc] at hrest
    exact ⟨b', hlow, by simpa using hcyc, hrest⟩

/-- A run that fails at a definition with a body fails checking the body, finds a cycle, or fails
later with the body installed. -/
theorem defineBodies_cons_error {t : TypeTable} {d : Ast.TypeDef} {ds : List Ast.TypeDef} {b b' : Ty}
    {e : IrError} (hb : d.body = some b) (hlow : Scope.lowerType { types := t } b = .ok b')
    (h : defineBodies t (d :: ds) = .error e) :
    t.aliasCycle d.name (t.defs.length + 1) [] b' = true ∨
      defineBodies (t.setBody d.name b') ds = .error e := by
  simp only [defineBodies, hb, hlow, bind, Except.bind] at h
  by_cases hcyc : t.aliasCycle d.name (t.defs.length + 1) [] b' = true
  · exact .inl hcyc
  · rw [if_neg hcyc] at h
    exact .inr h

/-- **Each installed body keeps the table without alias cycles.** -/
theorem defineBodies_acyclic : ∀ {t t' : TypeTable} {ds : List Ast.TypeDef}, t.AliasAcyclic →
    defineBodies t ds = .ok t' → t'.AliasAcyclic
  | t, t', [], hac, h => by
    cases h
    exact hac
  | t, t', d :: ds, hac, h => by
    cases hb : d.body with
    | none =>
      simp only [defineBodies, hb] at h
      exact defineBodies_acyclic hac h
    | some b =>
      obtain ⟨b', -, hcheck, hrest⟩ := defineBodies_cons_ok hb h
      refine defineBodies_acyclic (hac.setBody fun next hnext hr => ?_) hrest
      have hfound := hac.aliasCycle_eq_true_iff.mpr ⟨next, hnext, hr⟩
      rw [hcheck] at hfound
      cases hfound

/-- A run from a staged table installs the bodies as written. -/
theorem defineBodies_staged : ∀ {done todo : List Ast.TypeDef} {t' : TypeTable},
    ((done ++ todo).map (·.name)).Nodup → defineBodies (staged done todo) todo = .ok t' →
    t' = ofDefs (done ++ todo)
  | done, [], t', _, h => by
    cases h
    rw [List.append_nil, staged_nil_right]
  | done, d :: todo, t', hnd, h => by
    have hnd' : (((done ++ [d]) ++ todo).map (·.name)).Nodup := by simpa using hnd
    cases hb : d.body with
    | none =>
      simp only [defineBodies, hb, staged_cons_of_body_none hb] at h
      simpa using defineBodies_staged hnd' h
    | some b =>
      obtain ⟨b', hlow, -, hrest⟩ := defineBodies_cons_ok hb h
      obtain ⟨-, rfl⟩ := (Scope.lowerType_eq_ok_iff _ b b').mp hlow
      rw [setBody_staged hnd hb] at hrest
      simpa using defineBodies_staged hnd' hrest

/-- A run from a staged table over well-formed bodies fails only on a cycle of the definitions as
written. -/
theorem defineBodies_staged_error : ∀ {done todo : List Ast.TypeDef} {e : IrError},
    ((done ++ todo).map (·.name)).Nodup →
    (∀ d ∈ todo, ∀ b, d.body = some b → b.WellFormed (· ∈ (done ++ todo).map (·.name))) →
    defineBodies (staged done todo) todo = .error e →
    ∃ a, Relation.TransGen (ofDefs (done ++ todo)).Alias a a
  | done, [], e, _, _, h => by cases h
  | done, d :: todo, e, hnd, hwf, h => by
    have hnd' : (((done ++ [d]) ++ todo).map (·.name)).Nodup := by simpa using hnd
    have hwf' : ∀ d' ∈ todo, ∀ b, d'.body = some b →
        b.WellFormed (· ∈ ((done ++ [d]) ++ todo).map (·.name)) := by
      intro d' hd' b hb
      simpa using hwf d' (List.mem_cons_of_mem _ hd') b hb
    cases hb : d.body with
    | none =>
      simp only [defineBodies, hb, staged_cons_of_body_none hb] at h
      simpa using defineBodies_staged_error hnd' hwf' h
    | some b =>
      -- the body is well formed against the declared names, so checking it returns it
      have hknown : (fun n => (staged done (d :: todo)).contains n = true) =
          (· ∈ (done ++ d :: todo).map (·.name)) := by
        funext n
        rw [contains_iff_mem_names, staged_names]
      have hlow : Scope.lowerType { types := staged done (d :: todo) } b = .ok b := by
        rw [Scope.lowerType_eq_ok_iff]
        exact ⟨hknown ▸ hwf d List.mem_cons_self b hb, rfl⟩
      rcases defineBodies_cons_error hb hlow h with hcyc | hrest
      · -- the cycle found runs through the body: `d` is an alias of a name leading back to it
        by_cases hnb : ∃ next, b = .named next
        · obtain ⟨next, rfl⟩ := hnb
          have hedge : (ofDefs (done ++ d :: todo)).Alias d.name next :=
            (ofDefs_body? hnd d (by simp)).trans hb
          rcases reaches_of_aliasCycle hcyc (by simp) with hr | ⟨x, hx⟩
          · exact ⟨d.name,
              .head' hedge (Relation.ReflTransGen.mono (fun a b h => alias_staged h) _ _ hr)⟩
          · exact ⟨x, Relation.TransGen.mono (fun a b h => alias_staged h) x x hx⟩
        · rw [aliasCycle_of_not_named (fun c hc => hnb ⟨c, hc⟩)] at hcyc
          cases hcyc
      · rw [setBody_staged hnd hb] at hrest
        simpa using defineBodies_staged_error hnd' hwf' hrest

theorem define_eq_ok_iff {defs : List Ast.TypeDef} {t : TypeTable} :
    define defs = .ok t ↔
      (defs.map (·.name)).Nodup ∧ defineBodies (staged [] defs) defs = .ok t := by
  have hdecl : ∀ t₀, declareAll {} defs = .ok t₀ ↔
      (defs.map (·.name)).Nodup ∧ t₀ = staged [] defs := by
    intro t₀
    simp [declareAll_eq_ok_iff, names, staged]
  simp only [define, Except.bind_eq_ok_iff, hdecl]
  constructor
  · rintro ⟨t₀, ⟨hnd, rfl⟩, h⟩
    exact ⟨hnd, h⟩
  · rintro ⟨hnd, h⟩
    exact ⟨_, ⟨hnd, rfl⟩, h⟩

/-- **On success `define` returns the definitions as written.** -/
theorem define_eq_ok {defs : List Ast.TypeDef} {t : TypeTable} (h : define defs = .ok t) :
    t = ofDefs defs := by
  obtain ⟨hnd, hrun⟩ := define_eq_ok_iff.mp h
  simpa using @defineBodies_staged [] _ _ (by simpa using hnd) hrun

theorem define_acyclic {defs : List Ast.TypeDef} {t : TypeTable} (h : define defs = .ok t) :
    t.AliasAcyclic :=
  defineBodies_acyclic (staged_nil_left_acyclic defs) (define_eq_ok_iff.mp h).2

theorem define_error_cycle {defs : List Ast.TypeDef} {e : IrError}
    (hnd : (defs.map (·.name)).Nodup)
    (hwf : ∀ d ∈ defs, ∀ b, d.body = some b → b.WellFormed (· ∈ defs.map (·.name)))
    (h : define defs = .error e) : ∃ a, Relation.TransGen (ofDefs defs).Alias a a := by
  have hdecl : declareAll {} defs = .ok (staged [] defs) :=
    declareAll_eq_ok_iff.mpr ⟨hnd, by simp [names], by simp [staged]⟩
  simp only [define, hdecl] at h
  simpa using @defineBodies_staged_error [] _ _ (by simpa using hnd) (by simpa using hwf) h

/-! ## No alias cycle -/

/-- **Named types never form an alias cycle.** For every list of definitions `define` accepts, the
table it returns has no chain of aliases leading back to its start, following aliases from any name
ends, and `underlying` and `resolveAlias` stop where the unbounded walks stop: `underlying` never
returns a name that has a body, and `resolveAlias` returns a name only when it has no body or a
struct body. For definitions with distinct names whose bodies mention only declared names and valid
widths, `define` fails exactly when an alias chain of the definitions leads back to its start. -/
theorem define_alias_acyclic (defs : List Ast.TypeDef) :
    (∀ t, define defs = .ok t →
      t.AliasAcyclic ∧ WellFounded (fun b a => t.Alias a b) ∧
      (∀ ty name, t.underlying ty = .named name → t.body? name = none) ∧
      (∀ ty name body, t.resolveAlias ty = .named name → t.body? name = some body →
        ∃ packed fields, body = .struct packed fields)) ∧
    ((defs.map (·.name)).Nodup →
      (∀ d ∈ defs, ∀ body, d.body = some body → body.WellFormed (· ∈ defs.map (·.name))) →
      ((∃ e, define defs = .error e) ↔ ∃ a, Relation.TransGen (ofDefs defs).Alias a a)) := by
  refine ⟨fun t ht => ?_, fun hnd hwf => ⟨fun ⟨e, he⟩ => define_error_cycle hnd hwf he, ?_⟩⟩
  · have hac := define_acyclic ht
    exact ⟨hac, hac.wellFounded, hac.underlying_stops, hac.resolveAlias_stops⟩
  · rintro ⟨a, hcyc⟩
    cases ht : define defs with
    | error e => exact ⟨e, rfl⟩
    | ok t =>
      -- a table `define` returns is the definitions as written, and has no alias cycle
      have hac := define_acyclic ht
      rw [define_eq_ok ht] at hac
      exact absurd hcyc (hac a)

/-- `%a = type %b` then `%b = type i8`: `%a` names a type defined further down. -/
def forwardAlias : List Ast.TypeDef := [⟨"a", some (.named "b")⟩, ⟨"b", some .i8⟩]

/-- `%a = type %b` then `%b = type %a`: when `%a` is checked `%b` has no body yet, so the cycle is
found at `%b`. -/
def aliasLoop : List Ast.TypeDef := [⟨"a", some (.named "b")⟩, ⟨"b", some (.named "a")⟩]

theorem aliasLoop_rejected :
    (∃ t, define forwardAlias = .ok t ∧ t.AliasAcyclic ∧ t.underlying (.named "a") = .i8) ∧
      ∃ e, define aliasLoop = .error e := by
  have hfwd : define forwardAlias = .ok (ofDefs forwardAlias) := by rfl
  refine ⟨⟨_, hfwd, ((define_alias_acyclic forwardAlias).1 _ hfwd).1, by decide⟩, ?_⟩
  have hcyc : Relation.TransGen (ofDefs aliasLoop).Alias "a" "a" :=
    .tail (.single (b := "b") rfl) rfl
  refine ((define_alias_acyclic aliasLoop).2 (by decide) ?_).mpr ⟨"a", hcyc⟩
  simp [aliasLoop, Ty.WellFormed]

end TypeTable


end LlvmAsm
