import Offside.Proofs.Canonical.Writer
import Offside.Proofs.Tree.Nodes
import Offside.Proofs.Types.Declared

/-!
# The names in a tree

Names stand in a tree as variables, members, functions that are called, counters of loops, and what
is declared. In a tree that has been read they are names, and the types are as they are read.

## Main definitions

* `Offside.Nodes.Each`: a property of each node.
* `Offside.Expr.Named`, `Offside.Stmt.Named`: what stands as a name in a node is one.
* `Offside.Item.Shape.Named`, `Offside.TypeEnv.Named`: so it is in an item, and in the declared
  structs.
-/

namespace Offside

/-! ### Properties of nodes -/

/-- Each expression among the nodes has the property `P`, and each statement the property `R`. -/
structure Nodes.Each (P : Expr → Prop) (R : Stmt → Prop) (n : Nodes) : Prop where
  exprs : ∀ e ∈ n.exprs, P e
  stmts : ∀ s ∈ n.stmts, R s

namespace Nodes

variable {P : Expr → Prop} {R : Stmt → Prop} {m n : Nodes}

@[simp] theorem each_empty : empty.Each P R :=
  ⟨fun _ he => absurd he List.not_mem_nil, fun _ hs => absurd hs List.not_mem_nil⟩

@[simp] theorem each_append : (m ++ n).Each P R ↔ m.Each P R ∧ n.Each P R := by
  refine ⟨fun h => ⟨⟨fun e he => ?_, fun s hs => ?_⟩, fun e he => ?_, fun s hs => ?_⟩,
    fun ⟨h, k⟩ => ⟨fun e he => ?_, fun s hs => ?_⟩⟩
  · exact h.exprs e (List.mem_append_left _ he)
  · exact h.stmts s (List.mem_append_left _ hs)
  · exact h.exprs e (List.mem_append_right _ he)
  · exact h.stmts s (List.mem_append_right _ hs)
  · exact (List.mem_append.1 he).elim (h.exprs e) (k.exprs e)
  · exact (List.mem_append.1 hs).elim (h.stmts s) (k.stmts s)

theorem each_ofExprs_cons {e : Expr} {es : List Expr} :
    (ofExprs (e :: es)).Each P R ↔ (ofExprs [e]).Each P R ∧ (ofExprs es).Each P R := by
  rw [ofExprs_cons, each_append]

/-- An expression with those below it. -/
theorem each_ofExpr {e : Expr} :
    (ofExprs [e]).Each P R ↔ (ofExprs e.children).Each P R ∧ P e := by
  rw [ofExprs_singleton, each_append]
  refine and_congr_right fun _ => ⟨fun h => h.exprs e (List.mem_singleton.2 rfl), fun h => ⟨?_, ?_⟩⟩
  · exact List.forall_mem_singleton.2 h
  · exact fun _ hs => absurd hs List.not_mem_nil

/-- A statement with the nodes inside it. -/
theorem each_nodes {s : Stmt} : s.nodes.Each P R ↔ s.inside.Each P R ∧ R s := by
  rw [Stmt.nodes, each_append]
  refine and_congr_right fun _ => ⟨fun h => h.stmts s (List.mem_singleton.2 rfl), fun h => ⟨?_, ?_⟩⟩
  · exact fun _ he => absurd he List.not_mem_nil
  · exact List.forall_mem_singleton.2 h

end Nodes

/-! ### Names -/

/-- What stands as a name in an expression itself is one. -/
def Expr.Named : Expr → Prop
  | .var _ name | .member _ _ name | .call _ name _ => IsName name
  | .number _ _ | .addressOf _ _ | .index _ _ _ | .unary _ _ _ | .binary _ _ _ _ => True

/-- What stands as a name in a statement itself is one. -/
def Stmt.Named : Stmt → Prop
  | .declare _ name type _ => IsName name ∧ type.Writable
  | .forRange _ counter _ _ _ _ => IsName counter
  | _ => True

/-- What stands as names in nodes are such. -/
abbrev Nodes.Named (n : Nodes) : Prop := n.Each Expr.Named Stmt.Named

/-- A parameter or a field with a name. -/
def Binding.Named (b : Binding) : Prop := IsName b.name ∧ b.type.Writable

/-- A prototype with names. -/
structure Prototype.Named (proto : Prototype) : Prop where
  name : IsName proto.name
  params : ∀ b ∈ proto.params, b.Named
  result : proto.result.Writable

/-- A declaration with names. -/
structure StructDecl.Named (decl : StructDecl) : Prop where
  name : IsName decl.name
  fields : ∀ b ∈ decl.fields, b.Named

/-- What an item is, with names. -/
def Item.Shape.Named : Item.Shape → Prop
  | .function proto body => proto.Named ∧ body.nodes.Named
  | .external proto => proto.Named
  | .typeAlias name target => IsName name ∧ target.Writable
  | .struct name => IsName name
  | .statement stmt => stmt.nodes.Named

/-- Tables in which structs are declared with names, each under its own. -/
def TypeEnv.Named (env : TypeEnv) : Prop :=
  ∀ name decl, env.structDecl? name = some decl → decl.name = name ∧ decl.Named

namespace TypeEnv

theorem named_initial : initial.Named := by
  rintro name decl ⟨⟩

theorem Named.declareAlias {env : TypeEnv} (h : env.Named) (name : String) (target : TypeExpr) :
    (env.declareAlias name target).Named := h

theorem Named.declareStruct {env : TypeEnv} (h : env.Named) {decl : StructDecl}
    (hdecl : decl.Named) : (env.declareStruct decl).Named := by
  intro name found hfound
  cases hnew : env.hasStruct decl.name with
  | true =>
    rw [TypeEnv.declareStruct, if_pos hnew] at hfound
    exact h name found hfound
  | false =>
    rw [structDecl?_declareStruct hnew] at hfound
    split at hfound
    · rename_i hkey
      cases hfound
      exact ⟨hkey, hdecl⟩
    · exact h name found hfound

theorem SameDecls.named {env env' : TypeEnv} (same : env.SameDecls env') (h : env.Named) :
    env'.Named := fun name decl hdecl => h name decl (by rwa [← same.structDecl? name])

end TypeEnv

end Offside
