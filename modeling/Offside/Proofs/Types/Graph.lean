import Mathlib.Logic.Relation
import Offside.Proofs.Types.Declared

/-!
# The graph of declarations

A type leads to the element of a pointer, an alias to its target, and a struct to the types of its
fields. A name that is both an alias and a struct is the alias. Whether a type can be resolved, and
to what, is a matter of this graph alone: of the names that can be reached in it and of two kinds of
cycle.

## Main definitions

* `Offside.TypeEnv.Leads`: the edges of the graph.
* `Offside.TypeEnv.Reaches`: the paths along all edges.
* `Offside.TypeEnv.Expanding`, `Offside.TypeEnv.Holding`: the paths that must not be cycles, from an
  alias through aliases and pointers, and from a struct through aliases and fields.
* `Offside.TypeEnv.Resolvable`: everything that is reached is declared and lies on no such cycle.
* `Offside.TypeEnv.Culprit`: what an error of resolution may name.
* `Offside.TypeEnv.Expands`: a type with its aliases replaced by their targets.

## Main results

* `Offside.TypeEnv.Culprit.not_resolvable`: a culprit is a reason not to resolve.
* `Offside.TypeEnv.Expands.unique`: there is at most one type without aliases.
* `Offside.TypeEnv.Expands.not_expanding`: a type with a cycle of aliases has none.
-/

namespace Offside.TypeEnv

open Relation

/-- How a type leads to another one. -/
inductive Edge
  /-- From a pointer to its element. -/
  | pointer
  /-- From an alias to its target. -/
  | target
  /-- From a struct to the type of a field. -/
  | field
  deriving DecidableEq, Repr

variable {env env' : TypeEnv} {s t u : TypeExpr} {name : String}

/-- The name denotes a struct: an alias of the same name would hide it. -/
def IsStruct (env : TypeEnv) (name : String) (decl : StructDecl) : Prop :=
  env.alias? name = none ∧ env.structDecl? name = some decl

/-- The edges of the graph. -/
inductive Leads (env : TypeEnv) : Edge → TypeExpr → TypeExpr → Prop
  | pointer (element : TypeExpr) : Leads env .pointer (.pointer element) element
  | target {name : String} {target : TypeExpr} (known : env.alias? name = some target) :
    Leads env .target (.named name) target
  | field {name : String} {decl : StructDecl} {field : Binding}
    (struct : env.IsStruct name decl) (mem : field ∈ decl.fields) :
    Leads env .field (.named name) field.type

/-- A step to a type that is mentioned. -/
def Mentions (env : TypeEnv) (t u : TypeExpr) : Prop := ∃ edge, env.Leads edge t u

/-- A step to what a type is short for, or points to. -/
def Expanding (env : TypeEnv) (t u : TypeExpr) : Prop :=
  env.Leads .target t u ∨ env.Leads .pointer t u

/-- A step to what a type holds by value, or is short for. -/
def Holding (env : TypeEnv) (t u : TypeExpr) : Prop :=
  env.Leads .target t u ∨ env.Leads .field t u

/-- The types that a type leads to. -/
def Reaches (env : TypeEnv) : TypeExpr → TypeExpr → Prop := ReflTransGen env.Mentions

/-- An alias that leads to itself through targets and pointers alone. -/
def IsCyclicAlias (env : TypeEnv) (name : String) : Prop :=
  (∃ target, env.alias? name = some target) ∧ TransGen env.Expanding (.named name) (.named name)

/-- A struct that holds itself by value. -/
def IsRecursiveStruct (env : TypeEnv) (name : String) : Prop :=
  (∃ decl, env.IsStruct name decl) ∧ TransGen env.Holding (.named name) (.named name)

/-- A name that is neither an alias nor a struct. -/
def IsUnknown (env : TypeEnv) (name : String) : Prop :=
  env.alias? name = none ∧ env.structDecl? name = none

/-- What makes a type resolvable. -/
structure Resolvable (env : TypeEnv) (t : TypeExpr) : Prop where
  known : ∀ name, env.Reaches t (.named name) → ¬ env.IsUnknown name
  acyclic : ∀ name, env.Reaches t (.named name) → ¬ env.IsCyclicAlias name
  finite : ∀ name, env.Reaches t (.named name) → ¬ env.IsRecursiveStruct name

/-- What an error may blame for the failure of a resolution. -/
def Culprit (env : TypeEnv) (t : TypeExpr) : TypeError → Prop
  | .unknownType name => env.Reaches t (.named name) ∧ env.IsUnknown name
  | .aliasCycle name => env.Reaches t (.named name) ∧ env.IsCyclicAlias name
  | .recursiveStruct name => env.Reaches t (.named name) ∧ env.IsRecursiveStruct name

theorem Culprit.not_resolvable {error : TypeError} (h : env.Culprit t error) :
    ¬ env.Resolvable t := by
  intro resolvable
  cases error with
  | unknownType name => exact resolvable.known name h.1 h.2
  | aliasCycle name => exact resolvable.acyclic name h.1 h.2
  | recursiveStruct name => exact resolvable.finite name h.1 h.2

theorem Culprit.of_reaches {error : TypeError} (reaches : env.Reaches s t)
    (h : env.Culprit t error) : env.Culprit s error := by
  cases error with
  | unknownType name => exact ⟨reaches.trans h.1, h.2⟩
  | aliasCycle name => exact ⟨reaches.trans h.1, h.2⟩
  | recursiveStruct name => exact ⟨reaches.trans h.1, h.2⟩

theorem Resolvable.of_reaches (reaches : env.Reaches s t) (h : env.Resolvable s) :
    env.Resolvable t :=
  ⟨fun name ht => h.known name (reaches.trans ht), fun name ht => h.acyclic name (reaches.trans ht),
    fun name ht => h.finite name (reaches.trans ht)⟩

theorem Leads.reaches {edge : Edge} (h : env.Leads edge t u) : env.Reaches t u :=
  .single ⟨edge, h⟩

/-! ### The graph depends on the declarations alone -/

theorem SameDecls.alias? (h : env.SameDecls env') (name : String) :
    env'.alias? name = env.alias? name := by
  rw [TypeEnv.alias?, h.aliases, TypeEnv.alias?]

theorem SameDecls.symm (h : env.SameDecls env') : env'.SameDecls env :=
  ⟨h.aliases.symm, h.structDecls.symm⟩

theorem SameDecls.isStruct {decl : StructDecl} (h : env.SameDecls env') :
    env'.IsStruct name decl ↔ env.IsStruct name decl := by
  rw [IsStruct, IsStruct, h.alias?, h.structDecl?]

theorem SameDecls.leads (h : env.SameDecls env') : env'.Leads = env.Leads := by
  have weaken {a b : TypeEnv} (h : a.SameDecls b) {edge : Edge} {t u : TypeExpr}
      (hl : a.Leads edge t u) : b.Leads edge t u := by
    cases hl with
    | pointer => exact .pointer _
    | target known => exact .target (by rw [h.alias?, known])
    | field struct mem => exact .field (h.isStruct.2 struct) mem
  funext edge t u
  exact propext ⟨weaken h.symm, weaken h⟩

theorem SameDecls.reaches (h : env.SameDecls env') : env'.Reaches = env.Reaches := by
  unfold Reaches Mentions
  rw [h.leads]

theorem SameDecls.resolvable (h : env.SameDecls env') : env'.Resolvable t ↔ env.Resolvable t := by
  have weaken {a b : TypeEnv} (h : a.SameDecls b) (ha : a.Resolvable t) : b.Resolvable t := by
    refine ⟨fun name ht => ?_, fun name ht => ?_, fun name ht => ?_⟩
    · rw [h.reaches] at ht
      rw [IsUnknown, h.alias?, h.structDecl?]
      exact ha.known name ht
    · rw [h.reaches] at ht
      unfold IsCyclicAlias Expanding
      rw [h.alias?, h.leads]
      exact ha.acyclic name ht
    · rw [h.reaches] at ht
      unfold IsRecursiveStruct Holding
      simp only [h.isStruct]
      rw [h.leads]
      exact ha.finite name ht
  exact ⟨weaken h.symm, weaken h⟩

/-! ### Types without aliases -/

/-- The second type is the first one with all aliases replaced by their targets, until none is
left. -/
inductive Expands (env : TypeEnv) : TypeExpr → TypeExpr → Prop
  | builtin (b : Builtin) : Expands env (.builtin b) (.builtin b)
  | pointer {element element' : TypeExpr} (h : Expands env element element') :
    Expands env (.pointer element) (.pointer element')
  | target {name : String} {target target' : TypeExpr} (known : env.alias? name = some target)
    (h : Expands env target target') : Expands env (.named name) target'
  | struct {name : String} (h : env.alias? name = none) : Expands env (.named name) (.named name)

theorem Expands.unique (h : env.Expands t u) {v : TypeExpr} (h' : env.Expands t v) : u = v := by
  induction h generalizing v with
  | builtin b =>
    cases h'
    rfl
  | pointer h ih =>
    cases h' with
    | pointer h' => rw [ih h']
  | target known h ih =>
    cases h' with
    | target known' h' =>
      rw [known, Option.some.injEq] at known'
      exact ih (known' ▸ h')
    | struct unknown =>
      rw [known] at unknown
      cases unknown
  | struct unknown =>
    cases h' with
    | target known h' =>
      rw [known] at unknown
      cases unknown
    | struct => rfl

/-- Only the aliases that a type reaches matter for what it is short for. -/
theorem Expands.of_reached (h : env.Expands t u)
    (same : ∀ name, env.Reaches t (.named name) → env'.alias? name = env.alias? name) :
    env'.Expands t u := by
  induction h with
  | builtin b => exact .builtin b
  | pointer _ ih => exact .pointer (ih fun name hname => same name (hname.head ⟨_, .pointer _⟩))
  | target known _ ih =>
    refine .target ((same _ .refl).trans known) (ih fun name hname => ?_)
    exact same name (hname.head ⟨_, .target known⟩)
  | struct unknown => exact .struct ((same _ .refl).trans unknown)

theorem SameDecls.expands (h : env.SameDecls env') (ht : env.Expands t u) : env'.Expands t u :=
  ht.of_reached fun name _ => h.alias? name

/-- A type that can be expanded leads to no infinite path of targets and pointers. -/
theorem Expands.acc (h : env.Expands t u) : Acc (fun b a => env.Expanding a b) t := by
  induction h with
  | builtin b =>
    refine ⟨_, fun t ht => ?_⟩
    rcases ht with ht | ht <;> cases ht
  | pointer _ ih =>
    refine ⟨_, fun t ht => ?_⟩
    rcases ht with ht | ht
    · cases ht
    · cases ht
      exact ih
  | target known _ ih =>
    refine ⟨_, fun t ht => ?_⟩
    rcases ht with ht | ht
    · cases ht with
      | target known' =>
        rw [known, Option.some.injEq] at known'
        exact known' ▸ ih
    · cases ht
  | struct unknown =>
    refine ⟨_, fun t ht => ?_⟩
    rcases ht with ht | ht
    · cases ht with
      | target known =>
        rw [known] at unknown
        cases unknown
    · cases ht

/-- Where no infinite path starts, there is no cycle. -/
theorem not_transGen_of_acc {α : Type} {r : α → α → Prop} {a : α}
    (h : Acc (fun y x => r x y) a) : ¬ TransGen r a a := by
  have hacc : Acc (TransGen fun y x => r x y) a := Acc.transGen h
  have irreflexive : ¬ TransGen (fun y x => r x y) a a := by
    clear h
    induction hacc with
    | intro x _ ih => exact fun cycle => ih x cycle cycle
  exact fun cycle => irreflexive (transGen_swap.2 cycle)

theorem Expands.not_expanding (h : env.Expands (.named name) u) :
    ¬ TransGen env.Expanding (.named name) (.named name) := not_transGen_of_acc h.acc

end Offside.TypeEnv
