import Offside.Lowering.Backend
import Offside.Proofs.Ensures
import Offside.Proofs.Tree.Places

/-!
# Lowering and places

With a backend whose methods do not fail, lowering fails only at an expression that has to be a
place and is not rooted in a variable or an indexed expression, and at a struct that is not
declared.

## Main definitions

* `Offside.Backend.Total`: backends whose methods do not fail.
* `Offside.Lowers`: lowering that fails at an expression that is not rooted.

## Main results

* `Offside.lowers_lowerStmt`: statements are lowered so.
* `Offside.lowers_lowerItem`: so are items.
-/

namespace Offside

variable {σ ε V : Type}

/-- A backend whose methods do not fail. -/
def Backend.Total (backend : Backend σ ε V) : Prop :=
  ∀ call place s, ∃ v t, backend.perform call place s = .ok v t

variable {α β : Type} {backend : Backend σ ε V} {places : List Expr}

/-- Lowering `x` succeeds if `places` are rooted, and otherwise fails at one that is not. -/
def Lowers (backend : Backend σ ε V) (places : List Expr) (x : EStateM ε σ α) : Prop :=
  ∀ s, Yields s x (fun _ _ => ∀ place ∈ places, place.IsRooted)
    fun e _ => ∃ place ∈ places, ¬ place.IsRooted ∧
      e = backend.reject (.notAddressable place.root.location)

theorem Lowers.congr {x : EStateM ε σ α} {places' : List Expr} (h : Lowers backend places x)
    (hmem : ∀ place, place ∈ places ↔ place ∈ places') : Lowers backend places' x := by
  intro s
  refine (h s).mono (fun _ _ hall place hplace => hall place ((hmem place).2 hplace)) ?_
  rintro e t ⟨place, hplace, hrest⟩
  exact ⟨place, (hmem place).1 hplace, hrest⟩

/-- A place that is rooted stands in the way of nothing. -/
theorem Lowers.cons {x : EStateM ε σ α} {e : Expr} (he : e.IsRooted)
    (h : Lowers backend places x) : Lowers backend (e :: places) x := by
  intro s
  refine (h s).mono (fun _ _ hall => List.forall_mem_cons.2 ⟨he, hall⟩) ?_
  rintro error t ⟨place, hplace, hrest⟩
  exact ⟨place, List.mem_cons_of_mem e hplace, hrest⟩

/-- Members taken of a place do not matter. -/
theorem Lowers.of_root {x : EStateM ε σ α} {e e' : Expr} (h : Lowers backend (e :: places) x)
    (hroot : e'.root = e.root) : Lowers backend (e' :: places) x := by
  have hiff : e'.IsRooted ↔ e.IsRooted := by rw [Expr.IsRooted, Expr.IsRooted, hroot]
  intro s
  refine (h s).mono (fun _ _ hall => ?_) ?_
  · rw [List.forall_mem_cons] at hall ⊢
    exact ⟨hiff.2 hall.1, hall.2⟩
  · rintro error t ⟨place, hplace, hnot, herror⟩
    rcases List.mem_cons.1 hplace with rfl | hplace
    · exact ⟨e', List.mem_cons_self, mt hiff.1 hnot, by rw [hroot, herror]⟩
    · exact ⟨place, List.mem_cons_of_mem _ hplace, hnot, herror⟩

theorem lowers_reject {e : Expr} {place : Location} (hplace : place = e.root.location)
    (he : ¬ e.IsRooted) :
    Lowers backend (e :: places) (throw (backend.reject (.notAddressable place)) : EStateM ε σ α) :=
  fun _ => ⟨e, List.mem_cons_self, he, by rw [hplace]⟩

theorem lowers_pure (a : α) : Lowers backend [] (pure a : EStateM ε σ α) :=
  fun _ _ hplace => absurd hplace List.not_mem_nil

theorem lowers_bind {x : EStateM ε σ α} {f : α → EStateM ε σ β} {more : List Expr}
    (hx : Lowers backend places x) (hf : ∀ a, Lowers backend more (f a)) :
    Lowers backend (places ++ more) (x >>= f) := by
  intro s
  refine yields_bind ((hx s).mono (fun a t hplaces => ?_) ?_)
  · refine (hf a t).mono (fun _ _ hmore => List.forall_mem_append.2 ⟨hplaces, hmore⟩) ?_
    rintro e u ⟨place, hplace, hrest⟩
    exact ⟨place, List.mem_append_right _ hplace, hrest⟩
  · rintro e t ⟨place, hplace, hrest⟩
    exact ⟨place, List.mem_append_left _ hplace, hrest⟩

theorem lowers_map {x : EStateM ε σ α} (hx : Lowers backend places x) (f : α → β) :
    Lowers backend places (do return f (← x)) := by
  have := lowers_bind hx fun a => lowers_pure (f a)
  rwa [List.append_nil] at this

theorem lowers_perform (total : backend.Total) (call : Call V) (place : Location) :
    Lowers backend [] (backend.perform call place) := by
  intro s
  obtain ⟨v, t, h⟩ := total call place s
  rw [Yields]
  rw [h]
  exact fun _ hplace => absurd hplace List.not_mem_nil

/-- A node whose children are lowered first. -/
theorem lowers_node (total : backend.Total) {x : EStateM ε σ α} (hx : Lowers backend places x)
    (call : α → Call V)
    (place : Location) : Lowers backend places (do backend.perform (call (← x)) place) := by
  have := lowers_bind hx fun a => lowers_perform total (call a) place
  rwa [List.append_nil] at this

/-! ### Expressions -/

mutual

theorem lowers_lowerExpr (total : backend.Total) :
    (e : Expr) → Lowers backend e.addressed (lowerExpr backend e)
  | .number tag value => lowers_perform total _ _
  | .var tag name => lowers_perform total _ _
  | .addressOf tag place => by
    rw [lowerExpr]
    exact lowers_node total (lowers_lowerPlace total place) _ _
  | .index tag base position => by
    rw [lowerExpr]
    exact lowers_bind (lowers_lowerExpr total base) fun b =>
      lowers_node total (lowers_lowerExpr total position) (.index b) _
  | .member tag object field => by
    rw [lowerExpr]
    exact lowers_node total (lowers_lowerExpr total object) _ _
  | .unary tag op operand => by
    rw [lowerExpr]
    exact lowers_node total (lowers_lowerExpr total operand) _ _
  | .binary tag op left right => by
    rw [lowerExpr]
    exact lowers_bind (lowers_lowerExpr total left) fun l =>
      lowers_node total (lowers_lowerExpr total right) (.binary op l) _
  | .call tag callee args => by
    rw [lowerExpr]
    exact lowers_node total (lowers_lowerExprs total args) _ _

theorem lowers_lowerPlace (total : backend.Total) : (e : Expr) →
    Lowers backend (e :: e.addressed) (lowerPlace backend e)
  | .var tag name => by
    rw [lowerPlace]
    exact (lowers_perform total _ _).cons trivial
  | .index tag base position => by
    rw [lowerPlace]
    refine Lowers.cons trivial ?_
    exact lowers_bind (lowers_lowerExpr total base) fun b =>
      lowers_node total (lowers_lowerExpr total position) (.indexPlace b) _
  | .member tag object field => by
    rw [lowerPlace]
    exact (lowers_node total (lowers_lowerPlace total object) _ _).of_root rfl
  | .number tag _ | .addressOf tag _ | .unary tag _ _ | .binary tag _ _ _ | .call tag _ _ => by
    rw [lowerPlace]
    exact lowers_reject rfl id

theorem lowers_lowerExprs (total : backend.Total) : (es : List Expr) →
    Lowers backend (Expr.addressedAll es) (lowerExprs backend es)
  | [] => lowers_pure _
  | e :: es => by
    rw [lowerExprs]
    exact lowers_bind (lowers_lowerExpr total e) fun v =>
      lowers_map (lowers_lowerExprs total es) (v :: ·)

end

theorem lowers_lowerOptional (total : backend.Total) (e : Option Expr) :
    Lowers backend (e.toList.flatMap Expr.addressed) (lowerOptional backend e) := by
  cases e with
  | none => exact lowers_pure none
  | some e =>
    rw [Option.toList_some, List.flatMap_singleton]
    exact lowers_map (lowers_lowerExpr total e) some

theorem lowers_lowerPattern (total : backend.Total) (pattern : Pattern) :
    Lowers backend (pattern.exprs.flatMap Expr.addressed) (lowerPattern backend pattern) := by
  cases pattern with
  | wildcard => exact lowers_pure none
  | value e =>
    rw [Pattern.exprs, List.flatMap_singleton]
    exact lowers_map (lowers_lowerExpr total e) some

/-! ### Statements -/

/-- The expressions of several statements that have to be places. -/
abbrev Stmt.placesAll (ss : List Stmt) : List Expr := ss.flatMap Stmt.places

mutual

theorem lowers_lowerStmt (total : backend.Total) : (s : Stmt) →
    Lowers backend (Stmt.placesAll s.statements) (lowerStmt backend s)
  | .expr tag value => by
    rw [lowerStmt]
    refine (lowers_node total (lowers_lowerExpr total value) _ _).congr fun place => ?_
    simp [Stmt.statements, Stmt.places, Stmt.target?, Stmt.exprs]
  | .declare tag name type init => by
    rw [lowerStmt]
    refine (lowers_node total (lowers_lowerOptional total init) _ _).congr fun place => ?_
    simp [Stmt.statements, Stmt.places, Stmt.target?, Stmt.exprs]
  | .assign tag target value => by
    rw [lowerStmt]
    refine (lowers_bind (lowers_lowerPlace total target) fun t =>
      lowers_node total (lowers_lowerExpr total value) (.assign t) _).congr fun place => ?_
    simp [Stmt.statements, Stmt.places, Stmt.target?, Stmt.exprs]
  | .ret tag value => by
    rw [lowerStmt]
    refine (lowers_node total (lowers_lowerOptional total value) _ _).congr fun place => ?_
    simp [Stmt.statements, Stmt.places, Stmt.target?, Stmt.exprs]
  | .print tag args => by
    rw [lowerStmt]
    refine (lowers_node total (lowers_lowerExprs total args) _ _).congr fun place => ?_
    simp [Stmt.statements, Stmt.places, Stmt.target?, Stmt.exprs, Expr.addressedAll_eq]
  | .branch tag condition thenSuite elseSuite => by
    rw [lowerStmt]
    refine (lowers_bind (lowers_lowerExpr total condition) fun c =>
      lowers_bind (lowers_lowerSuite total thenSuite) fun t =>
        lowers_node total (lowers_lowerElse total elseSuite) (.branch c t) _).congr fun place => ?_
    simp [Stmt.statements, Stmt.places, Stmt.target?, Stmt.exprs]
  | .forRange tag counter start stop step body => by
    rw [lowerStmt]
    refine (lowers_bind (lowers_lowerExpr total start) fun a =>
      lowers_bind (lowers_lowerExpr total stop) fun b =>
        lowers_bind (lowers_lowerOptional total step) fun c =>
          lowers_node total (lowers_lowerSuite total body) (.forRange counter a b c) _).congr
      fun place => ?_
    simp [Stmt.statements, Stmt.places, Stmt.target?, Stmt.exprs]
  | .whileLoop tag condition body => by
    rw [lowerStmt]
    refine (lowers_bind (lowers_lowerExpr total condition) fun c =>
      lowers_node total (lowers_lowerSuite total body) (.whileLoop c) _).congr fun place => ?_
    simp [Stmt.statements, Stmt.places, Stmt.target?, Stmt.exprs]
  | .doWhile tag body condition => by
    rw [lowerStmt]
    refine (lowers_bind (lowers_lowerSuite total body) fun b =>
      lowers_node total (lowers_lowerExpr total condition) (.doWhile b) _).congr fun place => ?_
    simp [Stmt.statements, Stmt.places, Stmt.target?, Stmt.exprs, or_comm]
  | .jump tag jump => by
    rw [lowerStmt]
    refine (lowers_perform total _ _).congr fun place => ?_
    simp [Stmt.statements, Stmt.places, Stmt.target?, Stmt.exprs]
  | .select tag scrutinee arms => by
    rw [lowerStmt]
    refine (lowers_bind (lowers_lowerExpr total scrutinee) fun s =>
      lowers_node total (lowers_lowerArms total arms) (.select s) _).congr fun place => ?_
    simp [Stmt.statements, Stmt.places, Stmt.target?, Stmt.exprs]

theorem lowers_lowerSuite (total : backend.Total) : (suite : Suite) →
    Lowers backend (Stmt.placesAll suite.statements) (lowerSuite backend suite)
  | .mk _ stmts => lowers_lowerStmts total stmts

theorem lowers_lowerStmts (total : backend.Total) : (ss : List Stmt) →
    Lowers backend (Stmt.placesAll (Stmt.statementsAll ss)) (lowerStmts backend ss)
  | [] => lowers_pure _
  | s :: ss => by
    rw [lowerStmts, Stmt.statementsAll, Stmt.placesAll, List.flatMap_append]
    exact lowers_bind (lowers_lowerStmt total s) fun v =>
      lowers_map (lowers_lowerStmts total ss) (v :: ·)

theorem lowers_lowerElse (total : backend.Total) : (suite : Option Suite) →
    Lowers backend (Stmt.placesAll (Suite.statementsElse suite)) (lowerElse backend suite)
  | none => lowers_pure _
  | some suite => lowers_map (lowers_lowerSuite total suite) some

theorem lowers_lowerArms (total : backend.Total) : (arms : List Arm) →
    Lowers backend ((arms.flatMap fun arm => arm.pattern.exprs).flatMap Expr.addressed ++
      Stmt.placesAll (Arm.statementsAll arms)) (lowerArms backend arms)
  | [] => lowers_pure _
  | .mk _ pattern body :: arms => by
    rw [lowerArms]
    refine (lowers_bind (lowers_lowerPattern total pattern) fun p =>
      lowers_bind (lowers_lowerSuite total body) fun b =>
        lowers_map (lowers_lowerArms total arms) (⟨p, b⟩ :: ·)).congr fun place => ?_
    simp only [Stmt.placesAll, Arm.statementsAll, List.flatMap_cons, List.flatMap_append,
      List.mem_append, Arm.pattern]
    grind

end

/-- An item is lowered so if it is no struct that lacks a declaration. -/
theorem lowers_lowerItem (total : backend.Total) {types : TypeEnv} {item : Item}
    (declared : ∀ name, item.shape = .struct name → (types.structDecl? name).isSome) :
    Lowers backend item.places (lowerItem backend types item) := by
  rw [lowerItem, Item.places, Item.statements]
  cases hshape : item.shape with
  | function proto body => exact lowers_node total (lowers_lowerSuite total body) _ _
  | external proto => exact lowers_perform total _ _
  | typeAlias name target => exact lowers_perform total _ _
  | struct name =>
    obtain ⟨decl, hdecl⟩ := Option.isSome_iff_exists.1 (declared name hshape)
    dsimp only
    rw [hdecl]
    exact lowers_perform total _ _
  | statement stmt => exact lowers_node total (lowers_lowerStmt total stmt) _ _

end Offside
