import Offside.Proofs.Parser.Formed
import Offside.Proofs.Types.Declared

/-!
# What reading an item declares

An alias and a struct enter the type tables once they have been read as a whole. Nothing else that
is read for an item touches the tables, so an item that cannot be read leaves them alone, with one
exception: an alias may be followed by a dedent, which ends a statement but not an item.

## Main definitions

* `Offside.Parser.SameTypes`: reading that leaves the type tables alone.
* `Offside.Item.Shape.Declares`: what an item does to the type tables.
* `Offside.StructDecl.Enters`: what a struct that is declared has been checked for.
* `Offside.Parser.StrayAlias`: an alias before a dedent.

## Main results

* `Offside.Parser.parseItem_some`, `Offside.Parser.parseItem_none`: the tables after reading an
  item, or failing to.
-/

namespace Offside

namespace Parser

/-- Parsers with the same type tables. -/
def SameTypes (p q : Parser) : Prop := q.types = p.types

theorem types_advance (p : Parser) : p.advance.types = p.types := by
  unfold advance
  dsimp only
  split <;> rfl

instance : Frame SameTypes where
  refl _ := rfl
  trans _ _ _ h k := k.trans h
  advance := types_advance
  note _ _ := rfl
  addExpr _ _ _ := rfl
  addStmt _ _ _ := rfl

end Parser

/-- What an item that has been read does to the type tables. -/
def Item.Shape.Declares (shape : Item.Shape) (env env' : TypeEnv) : Prop :=
  match shape with
  | .typeAlias name target => env' = env.declareAlias name target
  | .struct name =>
    env.hasStruct name = false ∧ ∃ decl, decl.name = name ∧ env' = env.declareStruct decl
  | .function _ _ | .external _ | .statement _ => env' = env

/-- A struct that begins at `start` has been read: it takes no name in use and has fields, no two of
which have the same name. -/
structure StructDecl.Enters (decl : StructDecl) (start : Location) (env env' : TypeEnv) : Prop where
  unused : env.hasStruct decl.name = false
  noAlias : env.alias? decl.name = none
  location : decl.location = start
  nonempty : decl.fields ≠ []
  distinct : Binding.Distinct decl.fields
  declares : env' = env.declareStruct decl

namespace Parse

variable {p : Parser}

/-- A step before the tables are written to. -/
private theorem yields_step {α β : Type} {x : Parse α} {f : α → Parse β} {env : TypeEnv}
    {Q : α → Prop} {ok : β → Parser → Prop} (hp : p.types = env) (hx : Ensures Parser.SameTypes Q x)
    (hf : ∀ a q, q.types = env → Yields q (f a) ok fun _ r => r.types = env) :
    Yields p (x >>= f) ok fun _ q => q.types = env :=
  yields_bind ((hx p).yields (fun a q h _ => hf a q (h.trans hp)) fun _ _ h => h.trans hp)

private theorem yields_of_ensures {α : Type} {x : Parse α} {env : TypeEnv} {Q : α → Prop}
    {ok : α → Parser → Prop} (hp : p.types = env) (hx : Ensures Parser.SameTypes Q x)
    (hok : ∀ a q, q.types = env → Q a → ok a q) : Yields p x ok fun _ q => q.types = env :=
  (hx p).yields (fun a q h ha => hok a q (h.trans hp) ha) fun _ _ h => h.trans hp

/-- A test before the tables are written to. -/
private theorem yields_guard {α β : Type} {c : Prop} [Decidable c] {x : Parse α} {y : Parse β}
    {env : TypeEnv} {ok : β → Parser → Prop} (hp : p.types = env)
    (hx : Ensures Parser.SameTypes (fun _ => False) x)
    (hy : ¬ c → Yields p y ok fun _ q => q.types = env) :
    Yields p (if c then x >>= fun _ => y else y) ok fun _ q => q.types = env := by
  split
  · exact yields_bind ((hx p).yields (fun _ _ _ h => h.elim) fun _ _ h => h.trans hp)
  · exact hy ‹_›

theorem yields_typeAlias (fuel : Nat) :
    Yields p (typeAlias fuel)
      (fun shape q => ∃ name target, shape = .typeAlias name target ∧
        p.types.hasStruct name = false ∧ q.types = p.types.declareAlias name target ∧
        q.atStatementEnd)
      fun _ q => q.types = p.types := by
  refine yields_step rfl ensures_place fun place p₁ h₁ => ?_
  refine yields_step h₁ (ensures_expectName _) fun name p₂ h₂ => yields_get ?_
  refine yields_guard h₂ (ensures_fail _ _) fun hunused => ?_
  refine yields_step h₂ (ensures_expect _ _) fun _ p₃ h₃ => ?_
  refine yields_step h₃ (ensures_typeExpr fuel) fun target p₄ h₄ => ?_
  refine yields_bind (yields_get ?_)
  split
  · exact yields_of_ensures h₄ (ensures_refuse (Q := fun _ => False) _) fun _ _ _ hf => hf.elim
  · next hend =>
    have hend : p₄.atStatementEnd := by simpa using hend
    refine ⟨name, target, rfl, by rw [← h₂]; simpa using hunused, ?_, hend⟩
    rw [← h₄]
    rfl

theorem yields_expect {mark : Kind} {expected : Expectation} :
    Yields p (expect mark expected) (fun _ q => p.current.kind = mark ∧ q = p.advance)
      fun _ q => q = p := by
  show Yields p (if p.current.kind = mark then advance else refuse expected) _ _
  split
  · next h => exact ⟨h, rfl⟩
  · show Yields p (if p.current.kind.isInvalid then _ else _) _ _
    split <;> exact rfl

theorem yields_struct (fuel : Nat) (start : Location) :
    Yields p (struct fuel start)
      (fun shape q => ∃ decl : StructDecl, shape = .struct decl.name ∧
        decl.Enters start p.types q.types ∧ q.afterDedent)
      fun _ q => q.types = p.types := by
  refine yields_step rfl ensures_place fun place p₁ h₁ => ?_
  refine yields_step h₁ (ensures_expectName _) fun name p₂ h₂ => yields_get ?_
  refine yields_guard h₂ (ensures_fail _ _) fun hstruct => ?_
  refine yields_guard h₂ (ensures_fail _ _) fun halias => ?_
  refine yields_step h₂ (ensures_expect _ _) fun _ p₃ h₃ => ?_
  refine yields_step h₃ (ensures_expect _ _) fun _ p₄ h₄ => ?_
  refine yields_step h₄ (ensures_expect _ _) fun _ p₅ h₅ => ?_
  refine yields_bind (yields_of_ensures h₅ (ensures_fields name fuel List.nodup_nil)
    fun fields p₆ h₆ hdistinct => ?_)
  refine yields_guard h₆ (ensures_fail _ _) fun hempty => ?_
  refine yields_bind (yields_expect.mono ?_ ?_)
  · rintro _ q ⟨hkind, rfl⟩
    refine ⟨⟨name, fields, start⟩, rfl, ?_, ?_⟩
    · exact
        { unused := by rw [← h₂]; simpa using hstruct
          noAlias := by rw [← h₂]; simpa using halias
          location := rfl
          nonempty := by simpa using hempty
          distinct := hdistinct
          declares := by
            show p₆.advance.types.declareStruct _ = _
            rw [Parser.types_advance, h₆] }
    · show p₆.advance.afterDedent = true
      rw [Parser.afterDedent_advance, hkind]
      rfl
  · rintro _ q rfl
    exact h₆

/-- What an item that begins at `start` and has been read guarantees of its shape and of the state
after it. -/
structure ItemRead (start : Location) (p : Parser) (shape : Item.Shape) (q : Parser) : Prop where
  declares : shape.Declares p.types q.types
  formed : shape.Formed
  /-- An alias takes no name of a struct. -/
  unused : ∀ name target, shape = .typeAlias name target → p.types.hasStruct name = false
  /-- An alias is followed by a token at which a statement may end. -/
  alias_end : ∀ name target, shape = .typeAlias name target → q.atStatementEnd
  /-- A struct takes no name in use. -/
  struct_enters : ∀ name, shape = .struct name →
    ∃ decl : StructDecl, decl.name = name ∧ decl.Enters start p.types q.types
  /-- A struct is followed by a token at which an item may end. -/
  struct_end : ∀ name, shape = .struct name → q.afterDedent

theorem yields_itemShape (fuel : Nat) (start : Location) :
    Yields p (itemShape fuel start) (ItemRead start p) fun _ q => q.types = p.types := by
  have plain {shape : Item.Shape} {q : Parser} (hq : q.types = p.types)
      (hshape : shape.Declares p.types p.types) (hformed : shape.Formed)
      (halias : ∀ name target, shape ≠ .typeAlias name target)
      (hstruct : ∀ name, shape ≠ .struct name) : ItemRead start p shape q :=
    ⟨by rwa [hq], hformed, fun name target h => (halias name target h).elim,
      fun name target h => (halias name target h).elim, fun name h => (hstruct name h).elim,
      fun name h => (hstruct name h).elim⟩
  refine yields_step rfl ensures_kind fun kind p₁ h₁ => ?_
  split
  · refine yields_step h₁ ensures_advance fun _ p₂ h₂ => ?_
    refine yields_bind (yields_of_ensures h₂ (ensures_prototype fuel) fun proto p₃ h₃ hproto => ?_)
    refine yields_step h₃ (ensures_expect _ _) fun _ p₄ h₄ => ?_
    refine yields_bind (yields_of_ensures h₄ (ensures_suite fuel) fun body p₅ h₅ hbody => ?_)
    exact plain (by rw [← h₅]; rfl) rfl ⟨hproto, hbody⟩ (by rintro _ _ ⟨⟩) (by rintro _ ⟨⟩)
  · refine yields_step h₁ ensures_advance fun _ p₂ h₂ => ?_
    refine yields_step h₂ (ensures_expect _ _) fun _ p₃ h₃ => ?_
    refine yields_bind (yields_of_ensures h₃ (ensures_prototype fuel) fun proto p₄ h₄ hproto => ?_)
    exact plain h₄ rfl hproto (by rintro _ _ ⟨⟩) (by rintro _ ⟨⟩)
  · refine yields_step h₁ ensures_advance fun _ p₂ h₂ => ?_
    refine (yields_typeAlias fuel).mono ?_ fun _ _ h => h.trans h₂
    rintro _ q ⟨name, target, rfl, hunused, htypes, hend⟩
    refine ⟨?_, trivial, ?_, fun _ _ _ => hend, by rintro _ ⟨⟩, by rintro _ ⟨⟩⟩
    · rw [htypes, h₂]
      exact rfl
    · rintro _ _ ⟨⟩
      rwa [← h₂]
  · refine yields_step h₁ ensures_advance fun _ p₂ h₂ => ?_
    refine (yields_struct fuel start).mono ?_ fun _ _ h => h.trans h₂
    rintro _ q ⟨decl, rfl, henters, hend⟩
    rw [h₂] at henters
    refine ⟨⟨henters.unused, decl, rfl, henters.declares⟩, trivial, by rintro _ _ ⟨⟩,
      by rintro _ _ ⟨⟩, ?_, fun _ _ => hend⟩
    rintro _ ⟨⟩
    exact ⟨decl, rfl, henters⟩
  · exact yields_of_ensures h₁ (ensures_refuse (Q := fun _ => False) _) fun _ _ _ hf => hf.elim
  · refine yields_bind (yields_of_ensures h₁ (ensures_statement fuel) fun stmt p₂ h₂ hstmt => ?_)
    exact plain h₂ rfl hstmt (by rintro _ _ ⟨⟩) (by rintro _ ⟨⟩)

end Parse

/-- An alias that has been read as a whole and is followed by a dedent. A dedent ends a statement,
but not an item. -/
def Parser.StrayAlias (p : Parser) (name : String) (target : TypeExpr) : Prop :=
  ∃ q, (Parse.itemShape p.fuel p.current.location).run p = .ok (.typeAlias name target) q ∧
    q.current.kind = .dedent ∧ q.afterDedent = false

/-- A stray alias takes no name of a struct either. -/
theorem Parser.StrayAlias.unused {p : Parser} {name : String} {target : TypeExpr}
    (h : p.StrayAlias name target) : p.types.hasStruct name = false := by
  obtain ⟨q, hrun, -⟩ := h
  exact ((Parse.yields_itemShape p.fuel p.current.location).ok hrun).unused name target rfl

/-- What an item that is refused while it is read does to the type tables. -/
structure Parser.RefusedTypes (p q : Parser) : Prop where
  stray : ∀ name target, p.StrayAlias name target → q.types = p.types.declareAlias name target
  same : (∀ name target, ¬ p.StrayAlias name target) → q.types = p.types

theorem Parser.RefusedTypes.cases {p q : Parser} (h : p.RefusedTypes q) :
    (∃ name target, p.StrayAlias name target ∧ q.types = p.types.declareAlias name target) ∨
      q.types = p.types := by
  by_cases hstray : ∃ name target, p.StrayAlias name target
  · obtain ⟨name, target, hstray⟩ := hstray
    exact .inl ⟨name, target, hstray, h.stray name target hstray⟩
  · exact .inr (h.same fun name target hname => hstray ⟨name, target, hname⟩)

namespace Parse

theorem yields_item (p : Parser) :
    Yields p (item p.fuel)
      (fun item q => ItemRead p.current.location p item.shape q ∧ item.location = p.current.location ∧
        ∀ name target, ¬ p.StrayAlias name target)
      fun _ q => p.RefusedTypes q := by
  refine yields_bind (yields_get ?_)
  refine yields_bind ((yields_itemShape p.fuel p.current.location).run.mono ?_ ?_)
  · rintro shape q ⟨hrun, hread⟩
    -- A stray alias is the shape that has just been read.
    have hunique {name : String} {target : TypeExpr} (hstray : p.StrayAlias name target) :
        shape = .typeAlias name target ∧ q.current.kind = .dedent ∧ q.afterDedent = false := by
      obtain ⟨r, hr, hkind, hafter⟩ := hstray
      rw [hrun] at hr
      cases hr
      exact ⟨rfl, hkind, hafter⟩
    refine yields_get ?_
    cases hend : q.atItemEnd with
    | true =>
      refine ⟨hread, rfl, fun name target hstray => ?_⟩
      obtain ⟨-, hkind, hafter⟩ := hunique hstray
      rw [Parser.atItemEnd, hkind, hafter] at hend
      cases hend
    | false =>
      have hrefused : p.RefusedTypes q := by
        refine ⟨fun name target hstray => ?_, fun hnone => ?_⟩
        · obtain ⟨rfl, -⟩ := hunique hstray
          exact hread.declares
        · have hdeclares := hread.declares
          cases shape with
          | typeAlias name target =>
            have hstatement := hread.alias_end name target rfl
            simp only [Parser.atItemEnd, Parser.atStatementEnd, Bool.or_eq_false_iff,
              Bool.or_eq_true, decide_eq_true_eq] at hend hstatement
            obtain ⟨⟨hafter, hline⟩, hinput⟩ := hend
            refine absurd ⟨q, hrun, ?_, hafter⟩ (hnone name target)
            simpa [hafter, of_decide_eq_false hline, of_decide_eq_false hinput] using hstatement
          | struct name =>
            simp [Parser.atItemEnd, hread.struct_end name rfl] at hend
          | function | external | statement => exact hdeclares
      refine yields_bind ((ensures_refuse (R := Parser.SameTypes) (Q := fun _ => False) _ q).yields
        (fun _ _ _ hf => hf.elim) fun _ r hr => ⟨fun name target hstray => ?_, fun hnone => ?_⟩)
      · rw [hr, hrefused.stray name target hstray]
      · rw [hr, hrefused.same hnone]
  · rintro e q ⟨hrun, htypes⟩
    refine ⟨fun name target ⟨r, hr, _⟩ => ?_, fun _ => htypes⟩
    rw [hrun] at hr
    cases hr

end Parse

namespace Parser

theorem sameTypes_report (p : Parser) (failure : Failure) : (p.report failure).types = p.types := by
  cases failure <;> rfl

theorem sameTypes_recover (stop : Kind → Bool) (p : Parser) : (p.recover stop).types = p.types :=
  Frame.skipUntil (R := SameTypes) stop p

theorem parseItem_some {p q : Parser} {item : Item} (h : p.parseItem = (some item, q)) :
    Parse.ItemRead p.current.location p item.shape q ∧ item.location = p.current.location ∧
      ∀ name target, ¬ p.StrayAlias name target := by
  rw [parseItem] at h
  split at h
  · next hrun =>
    cases h
    exact (Parse.yields_item p).ok hrun
  · cases h

/-- A refused item leaves the type tables alone, unless it is a stray alias. -/
theorem parseItem_none {p q : Parser} (h : p.parseItem = (none, q)) : p.RefusedTypes q := by
  rw [parseItem] at h
  split at h
  · cases h
  · next failure r hrun =>
    have hrefused := (Parse.yields_item p).error hrun
    have htypes : q.types = r.types := by
      cases h
      exact (sameTypes_recover _ _).trans (sameTypes_report r failure)
    exact ⟨fun name target hstray => htypes.trans (hrefused.stray name target hstray),
      fun hnone => htypes.trans (hrefused.same hnone)⟩

end Parser

end Offside
