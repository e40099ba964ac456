import Offside.Proofs.Types.Closed
import Offside.Proofs.Typing.Twin
import Offside.Proofs.Typing.Visits

/-!
# Types that a check holds

The types of functions, of globals and of the variables in scope were resolved at different times.
The tables only get more layouts, so a type that they have covered they cover still; and all types
that a check comes by are resolved, or stand in a layout, or are held already.

## Main definitions

* `Offside.Symbols.types`: the types of functions and globals.
* `Offside.Context.Covered`: tables that cover all types that are held.
* `Offside.Context.lookups`: the layouts that are looked at for the type of an expression.
* `Offside.Context.Safe`: all these layouts are finished.

## Main results

* `Offside.Context.hint_eq_of_lookups`: no other layouts are looked at.
* `Offside.Context.Covered.hint`, `Offside.Context.Covered.lookups`: the type of an expression is
  covered, and what is looked at for it is finished.
* `Offside.Context.Covered.hint_eq`: so it depends on finished layouts only.
* `Offside.Context.Covered.safe`: where the tables cover what is held, nothing leads to a missing
  layout.
-/

namespace Offside

/-! ### Tables of types -/

namespace Table

variable {α : Type} {t u : Table α} {P : α → Prop} {name : String} {a : α}

/-- The values of all entries. -/
def values (t : Table α) : List α := t.entries.map (·.2)

theorem alike_self : Alike (fun a _ => P a) t t ↔ ∀ a ∈ t.values, P a := by
  rw [Alike, List.forall₂_same, values, List.forall_mem_map]
  simp

theorem forall_values_insert (h : ∀ a ∈ t.values, P a) (name : String) (ha : P a) :
    ∀ b ∈ (t.insert name a).values, P b :=
  alike_self.1 ((alike_self.2 h).insert name ha)

theorem forall_values_merge (h : ∀ a ∈ t.values, P a) (k : ∀ a ∈ u.values, P a) :
    ∀ a ∈ (t.merge u).values, P a :=
  alike_self.1 ((alike_self.2 h).merge (alike_self.2 k))

theorem forall_values_ofList (names : List String) {values : List α} (h : ∀ a ∈ values, P a) :
    ∀ a ∈ (ofList (names.zip values)).values, P a :=
  alike_self.1 (alike_ofList names (List.forall₂_same.2 h))

theorem forall_values_empty : ∀ a ∈ (empty : Table α).values, P a := List.forall_mem_nil _

theorem mem_values_of_get? (h : t.get? name = some a) : a ∈ t.values := by
  have hself := (alike_self.2 fun b (hb : b ∈ t.values) => hb).get? name
  rw [h] at hself
  cases hself
  assumption

end Table

/-- The types of the parameters and of the result. -/
def Signature.types (signature : Signature) : List ResolvedType :=
  signature.params ++ [signature.result]

/-- The types of the functions and of the globals. -/
def Symbols.types (symbols : Symbols) : List ResolvedType :=
  symbols.functions.values.flatMap Signature.types ++ symbols.globals.values

namespace TypeEnv

variable {env env' : TypeEnv}

/-- The tables cover several types. -/
def CoversAll (env : TypeEnv) (types : List ResolvedType) : Prop := ∀ type ∈ types, env.Covers type

theorem CoversAll.mono {types : List ResolvedType} (h : env.CoversAll types)
    (more : env.layouts.size ≤ env'.layouts.size) : env'.CoversAll types :=
  fun type htype => (h type htype).mono more

/-- The description of a type looks at the layouts of the structs in it. -/
theorem describe_eq_of_structs {type : ResolvedType}
    (same : ∀ id ∈ type.structs, env'.layout id = env.layout id) :
    env'.describe type = env.describe type := by
  induction type with
  | void | bool | float => rfl
  | int bits signed => cases signed <;> rfl
  | pointer element ih => rw [describe, describe, ih same]
  | struct id => exact congrArg StructLayout.name (same id List.mem_cons_self)

/-- Functions and globals have covered types if each function and each global has. -/
theorem coversAll_symbols {symbols : Symbols} : env.CoversAll symbols.types ↔
    (∀ signature ∈ symbols.functions.values, env.CoversAll signature.types) ∧
      env.CoversAll symbols.globals.values := by
  rw [CoversAll, Symbols.types, List.forall_mem_append, List.forall_mem_flatMap]
  rfl

end TypeEnv

namespace Context

/-- Tables without unfinished layouts that cover all types that are held. -/
structure Covered (c : Context) : Prop where
  closed : c.types.Closed []
  symbols : c.types.CoversAll c.symbols.types
  scopes : ∀ scope ∈ c.scopes, c.types.CoversAll scope.values
  function : ∀ current ∈ c.function, c.types.CoversAll current.2.types

/-- The type of an expression, if it has a known one. -/
def known (c : Context) (e : Expr) : Option ResolvedType := (c.hint e).toOption.join

/-- The layouts that are looked at when a value of this type is indexed: if it is no pointer, those
that its description needs. -/
def elementLookups : Option ResolvedType → List StructId
  | none | some (.pointer _) => []
  | some other => other.structs

/-- The layouts that are looked at when a field of a value of this type is selected: that of the
struct, or if it is none, those that its description needs. -/
def fieldLookups : Option ResolvedType → List StructId
  | none => []
  | some type => type.structs

mutual

/-- The layouts that are looked at for the type of an expression. -/
def lookups (c : Context) : Expr → List StructId
  | .number _ _ | .var _ _ => []
  | .addressOf _ place => c.lookups place
  | .index _ base index => c.lookups index ++ c.lookups base ++ elementLookups (c.known base)
  | .member _ object _ => c.lookups object ++ fieldLookups (c.known object)
  | .unary _ _ operand => c.lookups operand
  | .binary _ _ left right => c.lookups left ++ c.lookups right
  | .call _ _ args => c.lookupsAll args

/-- The layouts that are looked at for the types of several expressions. -/
def lookupsAll (c : Context) : List Expr → List StructId
  | [] => []
  | e :: es => c.lookups e ++ c.lookupsAll es

end

namespace Covered

variable {c : Context} {type : ResolvedType}

theorem lookup? (h : c.Covered) {name : String} (hname : c.lookup? name = some type) :
    c.types.Covers type := by
  rw [Context.lookup?, Option.or_eq_some_iff] at hname
  rcases hname with hscope | ⟨-, hglobal⟩
  · obtain ⟨scope, hscope, hvalue⟩ := List.exists_of_findSome?_eq_some hscope
    exact h.scopes scope hscope type (Table.mem_values_of_get? hvalue)
  · exact (TypeEnv.coversAll_symbols.1 h.symbols).2 type (Table.mem_values_of_get? hglobal)

theorem signature? (h : c.Covered) {name : String} {signature : Signature}
    (hname : c.signature? name = some signature) : c.types.CoversAll signature.types := by
  have hearlier (hget : c.symbols.functions.get? name = some signature) :
      c.types.CoversAll signature.types :=
    (TypeEnv.coversAll_symbols.1 h.symbols).1 signature (Table.mem_values_of_get? hget)
  rw [Context.signature?] at hname
  split at hname
  · next hfunction =>
    split at hname
    · cases hname
      exact h.function _ hfunction
    · exact hearlier hname
  · exact hearlier hname

theorem elementType {base : Option ResolvedType} {place : Location}
    (hbase : ∀ type ∈ base, c.types.Covers type)
    (helement : c.elementType base place = .ok (some type)) : c.types.Covers type := by
  cases base with
  | none => cases helement
  | some found =>
    cases found with
    | pointer element =>
      cases helement
      exact hbase type.pointer rfl
    | void | bool | int | float | struct => cases helement

theorem fieldType (h : c.Covered) {object : Option ResolvedType} {field : String}
    {place : Location} (hobject : ∀ type ∈ object, c.types.Covers type)
    (hfield : c.fieldType object field place = .ok (some type)) : c.types.Covers type := by
  cases object with
  | none => cases hfield
  | some found =>
    cases found with
    | struct id =>
      rw [Context.fieldType] at hfield
      split at hfield
      · next placed hplaced =>
        cases hfield
        have hid := hobject _ rfl id List.mem_cons_self
        exact h.closed.fields _ (TypeEnv.mem_fieldTypes hid (List.mem_of_find?_eq_some hplaced))
      · cases hfield
    | void | bool | int | float | pointer => cases hfield

end Covered

theorem mem_arithmeticType {left right : Option ResolvedType} {type : ResolvedType}
    (h : type ∈ arithmeticType left right) : type ∈ left ∨ type ∈ right := by
  cases left with
  | none => exact .inr h
  | some left =>
    simp only [arithmeticType] at h
    grind

namespace Covered

variable {c : Context}

/-- An expression has a covered type. -/
theorem hint (h : c.Covered) : (e : Expr) → {type : Option ResolvedType} →
    c.hint e = .ok type → ∀ known ∈ type, c.types.Covers known
  | .number _ (.int _), _, he, _, hknown => by
    rw [Context.hint] at he
    cases he
    cases hknown
    exact List.forall_mem_nil _
  | .number _ (.float _), _, he, _, hknown => by
    rw [Context.hint] at he
    cases he
    cases hknown
    exact List.forall_mem_nil _
  | .var _ name, _, he, _, hknown => by
    rw [Context.hint] at he
    cases he
    exact h.lookup? hknown
  | .addressOf _ place, _, he, _, hknown => by
    rw [Context.hint] at he
    split at he
    · cases he
    · obtain ⟨type, hplace, he⟩ := exists_of_bind_ok he
      cases he
      obtain ⟨inner, hinner, rfl⟩ := Option.map_eq_some_iff.1 hknown
      exact h.hint place hplace inner hinner
  | .index _ base index, _, he, _, hknown => by
    rw [Context.hint] at he
    obtain ⟨_, -, he⟩ := exists_of_bind_ok he
    obtain ⟨type, hbase, he⟩ := exists_of_bind_ok he
    cases hknown
    exact elementType (h.hint base hbase) he
  | .member _ object _, _, he, _, hknown => by
    rw [Context.hint] at he
    obtain ⟨type, hobject, he⟩ := exists_of_bind_ok he
    cases hknown
    exact h.fieldType (h.hint object hobject) he
  | .unary _ op operand, _, he, known, hknown => by
    rw [Context.hint] at he
    obtain ⟨type, hoperand, he⟩ := exists_of_bind_ok he
    cases he
    cases op with
    | not =>
      cases hknown
      exact List.forall_mem_nil _
    | neg | bitNot => exact h.hint operand hoperand known hknown
  | .binary _ op left right, _, he, known, hknown => by
    rw [Context.hint] at he
    obtain ⟨_, hleft, he⟩ := exists_of_bind_ok he
    obtain ⟨_, hright, he⟩ := exists_of_bind_ok he
    cases he
    rw [BinaryOp.resultType] at hknown
    split at hknown
    · cases hknown
      exact List.forall_mem_nil _
    · exact (mem_arithmeticType hknown).elim (h.hint left hleft known) (h.hint right hright known)
  | .call _ callee _, _, he, _, hknown => by
    rw [Context.hint] at he
    obtain ⟨_, -, he⟩ := exists_of_bind_ok he
    cases he
    obtain ⟨signature, hsignature, rfl⟩ := Option.map_eq_some_iff.1 hknown
    exact h.signature? hsignature _ (List.mem_append_right _ List.mem_cons_self)

/-- So has an expression whose type is known. -/
theorem known (h : c.Covered) {e : Expr} {type : ResolvedType} (he : c.known e = some type) :
    c.types.Covers type := by
  rw [Context.known] at he
  cases hhint : c.hint e with
  | error d =>
    rw [hhint] at he
    cases he
  | ok found =>
    rw [hhint] at he
    exact h.hint e hhint type he

end Covered

/-! ### What is looked at -/

section

variable {c : Context} {env : TypeEnv}

theorem elementType_eq {base : Option ResolvedType}
    (same : ∀ id ∈ elementLookups base, env.layout id = c.types.layout id) (place : Location) :
    { c with types := env }.elementType base place = c.elementType base place := by
  cases base with
  | none => rfl
  | some type =>
    cases type with
    | pointer element => rfl
    | void | bool | int | float | struct =>
      exact congrArg (fun text => Except.error (semanticError (.notIndexable text) place))
        (TypeEnv.describe_eq_of_structs same)

theorem fieldType_eq {object : Option ResolvedType} {field : String}
    (same : ∀ id ∈ fieldLookups object, env.layout id = c.types.layout id) (place : Location) :
    { c with types := env }.fieldType object field place = c.fieldType object field place := by
  cases object with
  | none => rfl
  | some type =>
    cases type with
    | struct id =>
      rw [fieldType, fieldType, same id List.mem_cons_self]
    | void | bool | int | float | pointer =>
      exact congrArg (fun text => Except.error (semanticError (.notStruct text) place))
        (TypeEnv.describe_eq_of_structs same)

mutual

/-- Tables that agree on the layouts that are looked at give an expression the same type. -/
theorem hint_eq_of_lookups : (e : Expr) →
    (∀ id ∈ c.lookups e, env.layout id = c.types.layout id) →
    { c with types := env }.hint e = c.hint e
  | .number _ _, _ => rfl
  | .var _ _, _ => rfl
  | .addressOf _ place, same => by
    rw [lookups] at same
    rw [hint, hint, hint_eq_of_lookups place same]
  | .index _ base index, same => by
    rw [lookups] at same
    rw [hint, hint, hint_eq_of_lookups index fun id hid => same id (by simp [hid]),
      hint_eq_of_lookups base fun id hid => same id (by simp [hid])]
    cases hindex : c.hint index with
    | error d => rfl
    | ok _ =>
      cases hbase : c.hint base with
      | error d => rfl
      | ok type =>
        refine elementType_eq (fun id hid => same id ?_) _
        rw [known, hbase]
        exact List.mem_append_right _ hid
  | .member tag object field, same => by
    rw [lookups] at same
    rw [hint, hint, hint_eq_of_lookups object fun id hid => same id (by simp [hid])]
    cases hobject : c.hint object with
    | error d => rfl
    | ok type =>
      refine fieldType_eq (fun id hid => same id ?_) _
      rw [known, hobject]
      exact List.mem_append_right _ hid
  | .unary _ _ operand, same => by
    rw [lookups] at same
    rw [hint, hint, hint_eq_of_lookups operand same]
  | .binary _ _ left right, same => by
    rw [lookups] at same
    obtain ⟨hleft, hright⟩ := List.forall_mem_append.1 same
    rw [hint, hint, hint_eq_of_lookups left hleft, hint_eq_of_lookups right hright]
  | .call _ callee args, same => by
    rw [lookups] at same
    rw [hint, hint, hintAll_eq_of_lookups args same]
    rfl

theorem hintAll_eq_of_lookups : (es : List Expr) →
    (∀ id ∈ c.lookupsAll es, env.layout id = c.types.layout id) →
    { c with types := env }.hintAll es = c.hintAll es
  | [], _ => rfl
  | e :: es, same => by
    rw [lookupsAll] at same
    obtain ⟨hfirst, hrest⟩ := List.forall_mem_append.1 same
    rw [hintAll, hintAll, hint_eq_of_lookups e hfirst, hintAll_eq_of_lookups es hrest]

end

end

namespace Covered

variable {c : Context}

mutual

/-- Only finished layouts are looked at for the type of an expression. -/
theorem lookups (h : c.Covered) : (e : Expr) → ∀ id ∈ c.lookups e, c.types.Finished id
  | .number _ _ | .var _ _ => by
    rw [Context.lookups]
    exact List.forall_mem_nil _
  | .addressOf _ place => by
    rw [Context.lookups]
    exact h.lookups place
  | .index _ base index => by
    rw [Context.lookups]
    refine List.forall_mem_append.2
      ⟨List.forall_mem_append.2 ⟨h.lookups index, h.lookups base⟩, ?_⟩
    cases hbase : c.known base with
    | none => exact List.forall_mem_nil _
    | some type =>
      have hknows := h.closed.knows (h.known hbase)
      cases type with
      | pointer => exact List.forall_mem_nil _
      | void | bool | int | float | struct => exact hknows
  | .member _ object _ => by
    rw [Context.lookups]
    refine List.forall_mem_append.2 ⟨h.lookups object, ?_⟩
    cases hobject : c.known object with
    | none => exact List.forall_mem_nil _
    | some type => exact h.closed.knows (h.known hobject)
  | .unary _ _ operand => by
    rw [Context.lookups]
    exact h.lookups operand
  | .binary _ _ left right => by
    rw [Context.lookups]
    exact List.forall_mem_append.2 ⟨h.lookups left, h.lookups right⟩
  | .call _ _ args => by
    rw [Context.lookups]
    exact h.lookupsAll args

theorem lookupsAll (h : c.Covered) : (es : List Expr) → ∀ id ∈ c.lookupsAll es, c.types.Finished id
  | [] => List.forall_mem_nil _
  | e :: es => by
    rw [Context.lookupsAll]
    exact List.forall_mem_append.2 ⟨h.lookups e, h.lookupsAll es⟩

end

/-- Nothing depends on layouts that are missing or unfinished. -/
theorem hint_eq (h : c.Covered) {env : TypeEnv}
    (same : ∀ id, c.types.Finished id → env.layout id = c.types.layout id) (e : Expr) :
    { c with types := env }.hint e = c.hint e :=
  hint_eq_of_lookups e fun id hid => same id (h.lookups e id hid)

end Covered

/-- Nothing leads to a missing or an unfinished layout: no struct of the tables, no field of a
layout, no type that is held, no type of an expression, and nothing that is looked at for it. -/
structure Safe (c : Context) : Prop where
  numbers : ∀ name id, c.types.idOf? name = some id → c.types.Finished id
  fields : ∀ type ∈ c.types.fieldTypes, c.types.Knows type
  symbols : ∀ type ∈ c.symbols.types, c.types.Knows type
  scopes : ∀ scope ∈ c.scopes, ∀ type ∈ scope.values, c.types.Knows type
  function : ∀ current ∈ c.function, ∀ type ∈ current.2.types, c.types.Knows type
  hint : ∀ e type, c.hint e = .ok (some type) → c.types.Knows type
  lookups : ∀ e, ∀ id ∈ c.lookups e, c.types.Finished id

theorem Covered.safe {c : Context} (h : c.Covered) : c.Safe where
  numbers name id hid := h.closed.finished (h.closed.numbers name id hid)
  fields type htype := h.closed.knows (h.closed.fields type htype)
  symbols type htype := h.closed.knows (h.symbols type htype)
  scopes scope hscope type htype := h.closed.knows (h.scopes scope hscope type htype)
  function current hcurrent type htype := h.closed.knows (h.function current hcurrent type htype)
  hint e type he := h.closed.knows (h.hint e he type rfl)
  lookups := h.lookups

end Context

end Offside
