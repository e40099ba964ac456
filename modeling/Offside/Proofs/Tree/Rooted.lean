import Offside.Proofs.Tree.Erased
import Offside.Proofs.Tree.Places

/-!
# Places wherever a tree stands

Which expressions of a tree have to be places, and which of those are rooted, does not depend on
where the tree stands.

## Main results

* `Offside.Stmt.statements_erase`, `Offside.Stmt.places_erase`: the statements and the places of a
  tree with every number and place erased.
* `Offside.Item.isRooted_congr`: items that are the same have rooted places or not.
-/

namespace Offside

theorem Expr.eraseAll_eq (es : List Expr) : eraseAll es = es.map erase := by
  induction es with
  | nil => rfl
  | cons e es ih => rw [eraseAll, ih, List.map_cons]

mutual

theorem Expr.addressed_erase : (e : Expr) → e.erase.addressed = e.addressed.map Expr.erase
  | .number _ _ | .var _ _ => rfl
  | .addressOf _ e => by
    rw [Expr.erase, Expr.addressed, Expr.addressed, e.addressed_erase, List.map_cons]
  | .member _ e _ | .unary _ _ e => e.addressed_erase
  | .index _ left right | .binary _ _ left right => by
    rw [Expr.erase, Expr.addressed, Expr.addressed, left.addressed_erase, right.addressed_erase,
      List.map_append]
  | .call _ _ args => Expr.addressedAll_eraseAll args

theorem Expr.addressedAll_eraseAll : (es : List Expr) →
    Expr.addressedAll (Expr.eraseAll es) = (Expr.addressedAll es).map Expr.erase
  | [] => rfl
  | e :: es => by
    rw [Expr.eraseAll, Expr.addressedAll, Expr.addressedAll, e.addressed_erase,
      Expr.addressedAll_eraseAll es, List.map_append]

end

theorem Expr.root_erase (e : Expr) : e.erase.root = e.root.erase := by
  induction e using Expr.root.induct with
  | case1 tag object field ih => exact ih
  | case2 e h => cases e <;> first | rfl | exact absurd rfl (h _ _ _)

theorem Expr.isRooted_erase (e : Expr) : e.erase.IsRooted ↔ e.IsRooted := by
  rw [IsRooted, IsRooted, root_erase]
  cases e.root <;> exact Iff.rfl

mutual

theorem Stmt.statements_erase : (s : Stmt) → s.erase.statements = Stmt.eraseAll s.statements
  | .expr _ _ | .declare _ _ _ _ | .assign _ _ _ | .ret _ _ | .print _ _ | .jump _ _ => rfl
  | .branch _ _ thenSuite elseSuite => by
    simp [Stmt.erase, Stmt.statements, Stmt.eraseAll, thenSuite.statements_erase,
      Suite.statementsElse_eraseElse elseSuite, Stmt.eraseAll_append]
  | .forRange _ _ _ _ _ body | .whileLoop _ _ body | .doWhile _ body _ => by
    simp [Stmt.erase, Stmt.statements, Stmt.eraseAll, body.statements_erase]
  | .select _ _ arms => by
    simp [Stmt.erase, Stmt.statements, Stmt.eraseAll, Arm.statementsAll_eraseAll arms]

theorem Suite.statements_erase : (suite : Suite) →
    suite.erase.statements = Stmt.eraseAll suite.statements
  | .mk _ stmts => Stmt.statementsAll_eraseAll stmts

theorem Suite.statementsElse_eraseElse : (suite : Option Suite) →
    Suite.statementsElse (Suite.eraseElse suite) = Stmt.eraseAll (Suite.statementsElse suite)
  | none => rfl
  | some suite => suite.statements_erase

theorem Stmt.statementsAll_eraseAll : (ss : List Stmt) →
    Stmt.statementsAll (Stmt.eraseAll ss) = Stmt.eraseAll (Stmt.statementsAll ss)
  | [] => rfl
  | s :: ss => by
    simp [Stmt.eraseAll, Stmt.statementsAll, s.statements_erase, Stmt.statementsAll_eraseAll ss,
      Stmt.eraseAll_append]

theorem Arm.statementsAll_eraseAll : (arms : List Arm) →
    Arm.statementsAll (Arm.eraseAll arms) = Stmt.eraseAll (Arm.statementsAll arms)
  | [] => rfl
  | .mk _ _ body :: arms => by
    simp [Arm.eraseAll, Arm.statementsAll, body.statements_erase, Arm.statementsAll_eraseAll arms,
      Stmt.eraseAll_append]

end

theorem Stmt.eraseAll_eq (ss : List Stmt) : eraseAll ss = ss.map erase := by
  induction ss with
  | nil => rfl
  | cons s ss ih => rw [eraseAll, ih, List.map_cons]

theorem Arm.accepted_eraseAll (arms : List Arm) :
    (Arm.eraseAll arms).flatMap (fun arm => arm.pattern.exprs) =
      (arms.flatMap fun arm => arm.pattern.exprs).map Expr.erase := by
  induction arms with
  | nil => rfl
  | cons arm arms ih =>
    obtain ⟨place, pattern, body⟩ := arm
    rw [Arm.eraseAll, List.flatMap_cons, List.flatMap_cons, List.map_append, ih]
    cases pattern <;> rfl

theorem Stmt.exprs_erase (s : Stmt) : s.erase.exprs = s.exprs.map Expr.erase := by
  cases s with
  | declare _ _ _ init => cases init <;> rfl
  | ret _ value => cases value <;> rfl
  | forRange _ _ _ _ step => cases step <;> rfl
  | print _ args => exact Expr.eraseAll_eq args
  | select _ scrutinee arms => exact congrArg (_ :: ·) (Arm.accepted_eraseAll arms)
  | expr | assign | branch | whileLoop | doWhile | jump => rfl

theorem Stmt.places_erase (s : Stmt) : s.erase.places = s.places.map Expr.erase := by
  have htarget : s.erase.target?.toList = s.target?.toList.map Expr.erase := by cases s <;> rfl
  have haddressed : (fun e => (Expr.erase e).addressed) = fun e => e.addressed.map Expr.erase :=
    funext Expr.addressed_erase
  rw [places, places, htarget, exprs_erase, List.map_append, List.flatMap_map, List.map_flatMap,
    haddressed]

namespace Item

theorem statements_erase (shape : Shape) (place place' : Location) :
    statements ⟨shape.erase, place⟩ = Stmt.eraseAll (statements ⟨shape, place'⟩) := by
  cases shape with
  | function proto body => exact body.statements_erase
  | statement stmt => exact stmt.statements_erase
  | external | typeAlias | struct => rfl

theorem places_erase (shape : Shape) (place place' : Location) :
    places ⟨shape.erase, place⟩ = (places ⟨shape, place'⟩).map Expr.erase := by
  have hplaces : (fun s => (Stmt.erase s).places) = fun s => s.places.map Expr.erase :=
    funext Stmt.places_erase
  rw [places, places, statements_erase shape place place', Stmt.eraseAll_eq, List.flatMap_map,
    List.map_flatMap, hplaces]

/-- Items that are the same but for tags and places have rooted places or not. -/
theorem isRooted_congr {item item' : Item} (h : item.shape.erase = item'.shape.erase) :
    (∀ place ∈ item.places, place.IsRooted) ↔ ∀ place ∈ item'.places, place.IsRooted := by
  have hrooted (item : Item) : (∀ place ∈ item.places, place.IsRooted) ↔
      ∀ place ∈ places ⟨item.shape.erase, .erased⟩, place.IsRooted := by
    rw [places_erase item.shape .erased item.location, List.forall_mem_map]
    exact forall₂_congr fun place _ => place.isRooted_erase.symm
  rw [hrooted item, hrooted item', h]

end Item

end Offside
