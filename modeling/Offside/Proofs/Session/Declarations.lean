import Offside.Proofs.Session.Permanent
import Offside.Proofs.Types.Relocated

/-!
# One name space for aliases and structs

The alias table and the struct table are two, and neither looks at the other when it is written to.
That no name is in both rests on what is asked before a declaration is read to its end. A step may
declare an alias, whether or not the item is accepted, or a struct, and then the item is accepted;
so the struct table lists the accepted structs, in order.

## Main definitions

* `Offside.Item.isStruct`, `Offside.Session.structItems`: the accepted structs.
* `Offside.Session.Declaring`: what a step declares.
* `Offside.TypeEnv.Orderly`: tables that declare the structs of a list of items.

## Main results

* `Offside.Session.declaring_step`: a step declares an alias, or the struct it accepts, or nothing.
* `Offside.Session.declarations_of_reachable`: the tables of every reachable session.
-/

namespace Offside

/-- An item that declares a struct. -/
def Item.isStruct (item : Item) : Bool :=
  match item.shape with
  | .struct _ => true
  | _ => false

/-- The struct table has this entry for the item: under the name of the declaration, which stands at
the place of the item and has fields, no two of which have the same name. -/
structure Item.StoredAs (item : Item) (entry : String × StructDecl) : Prop where
  shape : item.shape = .struct entry.1
  name : entry.2.name = entry.1
  location : entry.2.location = item.location
  nonempty : entry.2.fields ≠ []
  distinct : Binding.Distinct entry.2.fields

namespace TypeEnv

variable {env env' : TypeEnv} {items : List Item}

theorem SameDecls.hasStruct (h : env.SameDecls env') (name : String) :
    env'.hasStruct name = env.hasStruct name := by
  rw [hasStruct_eq, h.structDecl?, hasStruct_eq]

@[simp] theorem alias?_declareStruct (env : TypeEnv) (decl : StructDecl) (name : String) :
    (env.declareStruct decl).alias? name = env.alias? name := by
  rw [declareStruct]
  split <;> rfl

/-- The tables keep aliases and structs apart, and declare the structs of the given items. -/
structure Orderly (items : List Item) (env : TypeEnv) : Prop where
  apart : ∀ name, (env.alias? name).isSome → env.hasStruct name = false
  structs : List.Forall₂ Item.StoredAs items env.structDecls
  nodup : (env.structDecls.map Prod.fst).Nodup
  defaults : ∀ entry ∈ defaultAliases, (env.alias? entry.1).isSome

theorem orderly_initial : Orderly [] .initial where
  apart _ _ := rfl
  structs := .nil
  nodup := List.nodup_nil
  defaults := by decide

theorem Orderly.congr (h : Orderly items env) (same : env.SameDecls env') :
    Orderly items env' where
  apart name hname := by
    rw [same.alias?] at hname
    rw [same.hasStruct]
    exact h.apart name hname
  structs := by
    rw [same.structDecls]
    exact h.structs
  nodup := by
    rw [same.structDecls]
    exact h.nodup
  defaults entry hentry := by
    rw [same.alias?]
    exact h.defaults entry hentry

/-- The name of a struct is that of no alias. -/
theorem Orderly.alias?_eq_none (h : Orderly items env) {name : String} {decl : StructDecl}
    (declared : env.structDecl? name = some decl) : env.alias? name = none := by
  cases halias : env.alias? name with
  | none => rfl
  | some target =>
    have hfree := h.apart name (by rw [halias]; rfl)
    rw [hasStruct_eq, declared] at hfree
    cases hfree

/-- An alias may replace an alias, and takes no name of a struct. -/
theorem Orderly.declareAlias (h : Orderly items env) {name : String}
    (unused : env.hasStruct name = false) (target : TypeExpr) :
    Orderly items (env.declareAlias name target) where
  apart other hother := by
    by_cases hsame : name = other
    · rw [← hsame]
      exact unused
    · rw [alias?_declareAlias, if_neg hsame] at hother
      exact h.apart other hother
  structs := h.structs
  nodup := h.nodup
  defaults entry hentry := by
    rw [alias?_declareAlias]
    split
    · rfl
    · exact h.defaults entry hentry

/-- A struct takes no name that is in use. -/
theorem Orderly.declareStruct (h : Orderly items env) {item : Item} {decl : StructDecl}
    (shape : item.shape = .struct decl.name) (enters : decl.Enters item.location env env') :
    Orderly (items ++ [item]) env' := by
  have hnew := structDecls_declareStruct enters.unused
  rw [enters.declares]
  refine ⟨fun name halias => ?_, ?_, ?_, fun entry hentry => ?_⟩
  · rw [alias?_declareStruct] at halias
    rw [hasStruct_eq, structDecl?_declareStruct enters.unused, if_neg, ← hasStruct_eq]
    · exact h.apart name halias
    · rintro rfl
      rw [enters.noAlias] at halias
      cases halias
  · rw [hnew]
    exact List.rel_append h.structs
      (.cons ⟨shape, rfl, enters.location, enters.nonempty, enters.distinct⟩ .nil)
  · exact nodup_declareStruct h.nodup decl
  · rw [alias?_declareStruct]
    exact h.defaults entry hentry

end TypeEnv

namespace Session

variable {s t : Session}

/-- The accepted structs, in order. -/
def structItems (s : Session) : List Item := s.items.toList.filter Item.isStruct

/-- What the step from `s` to `t` declares. -/
inductive Declaring (s t : Session) : Prop
  /-- Nothing, and no struct is accepted. -/
  | nothing (structs : t.structItems = s.structItems) (same : s.types.SameDecls t.types)
  /-- An alias, whether or not the item is accepted. -/
  | declaresAlias (name : String) (target : TypeExpr) (unused : s.types.hasStruct name = false)
    (structs : t.structItems = s.structItems)
    (same : (s.types.declareAlias name target).SameDecls t.types)
  /-- A struct, and the item is accepted. -/
  | acceptsStruct (item : Item) (decl : StructDecl) (env : TypeEnv)
    (shape : item.shape = .struct decl.name) (structs : t.structItems = s.structItems ++ [item])
    (enters : decl.Enters item.location s.types env) (same : env.SameDecls t.types)

/-- Items that are no structs. -/
private theorem structItems_push {items : Array Item} {item : Item}
    (h : ∀ name, item.shape ≠ .struct name) :
    (items.push item).toList.filter Item.isStruct = items.toList.filter Item.isStruct := by
  have hnot : item.isStruct = false := by
    rw [Item.isStruct]
    split
    · next hshape => exact absurd hshape (h _)
    · rfl
  rw [Array.toList_push, List.filter_append, List.filter_cons, hnot]
  exact List.append_nil _

theorem declaring_step (s : Session) : Declaring s s.step.2 := by
  have htypes := types_atItem s
  have hself := refl_of TypeEnv.SameDecls s.types
  have hstepped := stepped_step s
  generalize s.step = outcome at *
  cases hstepped with
  | halted => exact .nothing rfl hself
  | ended => exact .nothing rfl (htypes ▸ hself)
  | unread q _ _ read =>
    have hstructs : (fail { s with parser := q }).2.structItems = s.structItems := by
      rw [structItems, items_fail, structItems]
    have hfail : (fail { s with parser := q }).2.types = q.types := types_fail _
    obtain ⟨name, target, hstray, hdeclared⟩ | hsame := (Parser.parseItem_none read).cases
    · refine .declaresAlias name target (htypes ▸ hstray.unused) hstructs ?_
      rw [hfail, hdeclared, htypes]
      exact refl_of TypeEnv.SameDecls _
    · refine .nothing hstructs ?_
      rw [hfail, hsame, htypes]
      exact hself
  | refused item q d c _ _ read checked =>
    obtain ⟨hitem, -⟩ := Parser.parseItem_some read
    have hsame : q.types.SameDecls c.types := (ensures_checkItem item _).error checked
    rw [not_declares_of_check checked hitem.declares, htypes] at hsame
    refine .nothing ?_ ?_
    · rw [structItems, items_fail, structItems]
    · rw [types_fail]
      exact hsame
  | accepted item q c _ _ read checked =>
    obtain ⟨hitem, hplace, -⟩ := Parser.parseItem_some read
    have hsame : q.types.SameDecls c.types := ((ensures_checkItem item _).ok checked).1
    have hdeclares := hitem.declares
    obtain ⟨shape, place⟩ := item
    cases shape with
    | typeAlias name target =>
      refine .declaresAlias name target ?_ (structItems_push (by rintro _ ⟨⟩)) ?_
      · rw [← htypes]
        exact hitem.unused name target rfl
      · rw [← htypes, ← show q.types = s.atItem.types.declareAlias name target from hdeclares]
        exact hsame
    | struct name =>
      obtain ⟨decl, rfl, henters⟩ := hitem.struct_enters name rfl
      rw [htypes, ← hplace] at henters
      refine .acceptsStruct ⟨.struct decl.name, place⟩ decl q.types rfl ?_ henters hsame
      show (s.items.push _).toList.filter _ = _
      rw [Array.toList_push, List.filter_append]
      rfl
    | function | external | statement =>
      refine .nothing (structItems_push (by rintro _ ⟨⟩)) ?_
      rw [← htypes, ← show q.types = s.atItem.types from hdeclares]
      exact hsame

theorem Declaring.orderly (h : Declaring s t) (hs : s.types.Orderly s.structItems) :
    t.types.Orderly t.structItems := by
  cases h with
  | nothing structs same =>
    rw [structs]
    exact hs.congr same
  | declaresAlias name target unused structs same =>
    rw [structs]
    exact (hs.declareAlias unused target).congr same
  | acceptsStruct item decl env shape structs enters same =>
    rw [structs]
    exact (hs.declareStruct shape enters).congr same

/-- A step adds to the struct table at most, and takes no name from the alias table. -/
theorem Declaring.keeps (h : Declaring s t) :
    s.types.structDecls <+: t.types.structDecls ∧
      ∀ name, (s.types.alias? name).isSome → (t.types.alias? name).isSome := by
  cases h with
  | nothing structs same =>
    rw [same.structDecls]
    exact ⟨List.prefix_rfl, fun name => by rw [same.alias?]; exact id⟩
  | declaresAlias name target unused structs same =>
    rw [same.structDecls]
    refine ⟨List.prefix_rfl, fun other hother => ?_⟩
    rw [same.alias?, TypeEnv.alias?_declareAlias]
    split
    · rfl
    · exact hother
  | acceptsStruct item decl env shape structs enters same =>
    rw [same.structDecls, enters.declares, TypeEnv.structDecls_declareStruct enters.unused]
    refine ⟨List.prefix_append _ _, fun name hname => ?_⟩
    rwa [same.alias?, enters.declares, TypeEnv.alias?_declareStruct]

theorem Reachable.orderly (h : s.Reachable) : s.types.Orderly s.structItems := by
  induction h with
  | start lexer options => exact TypeEnv.orderly_initial
  | step _ ih => exact (declaring_step _).orderly ih
  | restart _ lexer => exact TypeEnv.orderly_initial

theorem keeps_after (n : Nat) (s : Session) :
    s.types.structDecls <+: (s.after n).types.structDecls ∧
      ∀ name, (s.types.alias? name).isSome → ((s.after n).types.alias? name).isSome := by
  induction n with
  | zero => exact ⟨List.prefix_rfl, fun _ => id⟩
  | succ n ih =>
    have hstep := (declaring_step (s.after n)).keeps
    rw [after_succ]
    exact ⟨ih.1.trans hstep.1, fun name hname => hstep.2 name (ih.2 name hname)⟩

/-- No name is an alias and a struct. The struct table lists the accepted structs in order, each of
them once and under its own name, with fields of distinct names. No declaration changes or
disappears before a restart, and the default aliases are still aliases. -/
theorem declarations_of_reachable (reachable : s.Reachable) :
    (∀ name, s.types.alias? name = none ∨ s.types.structDecl? name = none) ∧
      List.Forall₂ Item.StoredAs s.structItems s.types.structDecls ∧
      (s.types.structDecls.map Prod.fst).Nodup ∧
      (∀ n, let t := s.after n
        s.types.structDecls <+: t.types.structDecls ∧
          ∀ name decl, s.types.structDecl? name = some decl →
            t.types.structDecl? name = some decl) ∧
      ∀ entry ∈ TypeEnv.defaultAliases, (s.types.alias? entry.1).isSome := by
  have horderly := reachable.orderly
  refine ⟨fun name => ?_, horderly.structs, horderly.nodup, fun n => ?_, horderly.defaults⟩
  · cases halias : s.types.alias? name with
    | none => exact .inl rfl
    | some target =>
      have hstruct := horderly.apart name (by rw [halias]; rfl)
      rw [TypeEnv.hasStruct_eq, Option.isSome_eq_false_iff, Option.isNone_iff_eq_none] at hstruct
      exact .inr hstruct
  · refine ⟨(keeps_after n s).1, fun name decl hdecl => ?_⟩
    rw [keepsStructs_after n s name (by rw [hdecl]; rfl), hdecl]

/-- A session on declarations that ask for names in use: a struct and an alias that are refused, a
struct whose fields share a name, and an alias that is replaced. -/
def takenNames : Session :=
  ofInput (.ofString
    ("type T = i32\nstruct P:\n  x: T\n  y: i64\nstruct T:\n  x: i32\nstruct P:\n  y: T\n" ++
      "type P = i32\nstruct Q:\n  x: P\n  x: P\ntype T = P\nstruct R:\n  p: T\n"))
    ⟨.interactive, defaultPrompt⟩

theorem declarations_of_reachable_takenNames :
    let s := takenNames.after 2
    let t := takenNames.after 10
    s.Reachable ∧ t.Reachable ∧ s.types.structDecls <+: t.types.structDecls ∧
      List.Forall₂ Item.StoredAs t.structItems t.types.structDecls ∧
      t.types.structDecls.map Prod.fst = ["P", "R"] ∧ t.types.alias? "T" = some (.named "P") := by
  intro s t
  have hs : s.Reachable := Reachable.after (.start _ _) 2
  have ht : t.Reachable := Reachable.after (.start _ _) 10
  exact ⟨hs, ht, ((declarations_of_reachable hs).2.2.2.1 8).1, (declarations_of_reachable ht).2.1,
    by decide +kernel⟩

end Session

end Offside
