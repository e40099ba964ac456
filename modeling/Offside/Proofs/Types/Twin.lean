import Offside.Proofs.Types.Erased
import Offside.Proofs.Types.History
import Offside.Proofs.Types.Relocated

/-!
# The same types in two tables

Two tables that declare the same may have laid out different structs, and in a different order. A
type is then the same in both but for the numbers of structs: it has the same description, and a
struct in it has the same fields of the same types.

## Main definitions

* `Offside.TypeEnv.Twin`: a type in one table and the same type in another one.
* `Offside.TypeEnv.Matches`: tables with finished layouts that declare the same.

## Main results

* `Offside.TypeEnv.Matches.resolve`: they give twin answers, and match afterwards.
* `Offside.TypeEnv.Twin.describe`, `Offside.TypeEnv.Matches.field?`: twins look the same.
-/

namespace Offside.TypeEnv

variable {f : Location → Location} {before : List (String × StructDecl)}
  {env env' env₁ env₁' : TypeEnv} {r r' : ResolvedType} {t u : TypeExpr}

/-! ### Twin types -/

/-- The same type in two tables, in which structs may have different numbers. -/
inductive Twin (env env' : TypeEnv) : ResolvedType → ResolvedType → Prop
  | void : Twin env env' .void .void
  | bool : Twin env env' .bool .bool
  | int (bits : Nat) (signed : Bool) : Twin env env' (.int bits signed) (.int bits signed)
  | float (bits : Nat) : Twin env env' (.float bits) (.float bits)
  | pointer {element element' : ResolvedType} (h : Twin env env' element element') :
    Twin env env' (.pointer element) (.pointer element')
  | struct {name : String} {id id' : StructId} (left : env.idOf? name = some id)
    (right : env'.idOf? name = some id') : Twin env env' (.struct id) (.struct id')

/-- A number is never taken back. -/
theorem Twin.mono (h : Twin env env' r r') (keeps : env.KeepsNumbers env₁)
    (keeps' : env'.KeepsNumbers env₁') : Twin env₁ env₁' r r' := by
  induction h with
  | void => exact .void
  | bool => exact .bool
  | int bits signed => exact .int bits signed
  | float bits => exact .float bits
  | pointer _ ih => exact .pointer ih
  | struct left right => exact .struct (keeps _ _ left) (keeps' _ _ right)

theorem twin_ofBuiltin (b : Builtin) : Twin env env' (.ofBuiltin b) (.ofBuiltin b) := by
  cases b
  case void => exact .void
  case f32 | f64 => exact .float _
  all_goals exact .int _ _

theorem Twin.of_typeOf? (h : env.typeOf? u = some r) (h' : env'.typeOf? u = some r') :
    Twin env env' r r' := by
  induction u generalizing r r' with
  | builtin b =>
    cases h
    cases h'
    exact twin_ofBuiltin b
  | named name =>
    obtain ⟨id, hid, rfl⟩ := Option.map_eq_some_iff.1 h
    obtain ⟨id', hid', rfl⟩ := Option.map_eq_some_iff.1 h'
    exact .struct hid hid'
  | pointer element ih =>
    obtain ⟨s, hs, rfl⟩ := Option.map_eq_some_iff.1 h
    obtain ⟨s', hs', rfl⟩ := Option.map_eq_some_iff.1 h'
    exact .pointer (ih hs hs')

theorem Twin.isFloat (h : Twin env env' r r') : r'.isFloat = r.isFloat := by
  cases h <;> rfl

theorem Twin.isIntegerLike (h : Twin env env' r r') : r'.isIntegerLike = r.isIntegerLike := by
  cases h <;> rfl

/-- Twins are described alike. -/
theorem Twin.describe {pending pending' : List String} (h : Twin env env' r r')
    (sound : env.Sound pending) (sound' : env'.Sound pending') :
    env'.describe r' = env.describe r := by
  induction h with
  | void | bool | float => rfl
  | int bits signed => cases signed <;> rfl
  | pointer _ ih => rw [TypeEnv.describe, TypeEnv.describe, ih]
  | @struct name id id' left right =>
    exact (sound'.named name id' right).trans (sound.named name id left).symm

/-! ### Matching tables -/

/-- The aliases decide how a type expands. -/
theorem Expands.of_aliases (h : env.Expands t u) (same : env'.aliases = env.aliases) :
    env'.Expands t u :=
  h.of_reached fun name _ => by rw [TypeEnv.alias?, same, TypeEnv.alias?]

/-- What the same type denotes in two tables with the same aliases. -/
theorem Denotes.twin (h : env.Denotes t r) (h' : env'.Denotes t r')
    (same : env'.aliases = env.aliases) : Twin env env' r r' := by
  obtain ⟨u, hu, hr⟩ := h
  obtain ⟨u', hu', hr'⟩ := h'
  obtain rfl := (hu.of_aliases same).unique hu'
  exact .of_typeOf? hr hr'

/-- Tables with finished layouts that declare the same, some structs at other places. -/
structure Matches (f : Location → Location) (before : List (String × StructDecl))
    (env env' : TypeEnv) : Prop extends Relocated f before env env' where
  sound : env.Sound []
  sound' : env'.Sound []

/-- Without layouts and places, two tables that declare the same are equal. -/
theorem Relocated.erase_forget (h : Relocated f before env env') :
    env'.forget.erase = env.forget.erase := by
  have hentries (tables : TypeEnv) : tables.forget.erase.structs =
      ⟨tables.structDecls.map fun entry => (entry.1, ⟨entry.2.erase, none⟩)⟩ := by
    rw [erase, Table.map, forget, TypeEnv.structDecls, List.map_map, List.map_map]
    rfl
  obtain ⟨new, hnew, hnew'⟩ := h.structDecls
  have hstructs : env'.forget.erase.structs = env.forget.erase.structs := by
    rw [hentries, hentries, hnew, hnew', List.map_append, List.map_append, relocateDecls,
      List.map_map]
    rfl
  have haliases : env'.forget.erase.aliases = env.forget.erase.aliases := h.aliases
  rw [erase, erase, mk.injEq]
  exact ⟨haliases, hstructs, rfl⟩

namespace Matches

variable (h : Matches f before env env')
include h

theorem resolve_error_iff (type : TypeExpr) (error : TypeError) :
    (env'.resolve type).answer = .error error ↔ (env.resolve type).answer = .error error := by
  have hforget := h.sound.resolve_error_iff (sameDecls_forget env) h.sound.unresolved_forget type error
  have hforget' :=
    h.sound'.resolve_error_iff (sameDecls_forget env') h.sound'.unresolved_forget type error
  rw [hforget', hforget, ← answer_resolve_erase, ← answer_resolve_erase env.forget,
    h.toRelocated.erase_forget]

/-- The answers are the same error or twins, and the tables match afterwards. -/
theorem resolve (type : TypeExpr) :
    Matches f before (env.resolve type).env (env'.resolve type).env ∧
      ((∃ error, (env.resolve type).answer = .error error ∧
          (env'.resolve type).answer = .error error) ∨
        ∃ r r', (env.resolve type).answer = .ok r ∧ (env'.resolve type).answer = .ok r' ∧
          Twin (env.resolve type).env (env'.resolve type).env r r') := by
  have hrelocated := h.toRelocated.congr (env.sameDecls_resolve type) (env'.sameDecls_resolve type)
  refine ⟨⟨hrelocated, h.sound.resolve type, h.sound'.resolve type⟩, ?_⟩
  have herror := h.resolve_error_iff type
  have hleft := h.sound.resolvesTo type
  have hright := h.sound'.resolvesTo type
  generalize env.resolve type = resolution at *
  generalize env'.resolve type = resolution' at *
  cases hleft with
  | error => exact .inl ⟨_, rfl, (herror _).2 rfl⟩
  | ok _ _ denotes =>
    cases hright with
    | error => cases (herror _).1 rfl
    | ok _ _ denotes' => exact .inr ⟨_, _, rfl, rfl, denotes.twin denotes' hrelocated.aliases⟩

/-- A field of a struct is a field of its twin, of a twin type. -/
theorem field? {name : String} {id id' : StructId} (left : env.idOf? name = some id)
    (right : env'.idOf? name = some id') (field : String) :
    Option.Rel (fun placed placed' => Twin env env' placed.type placed'.type)
      ((env.layout id).field? field) ((env'.layout id').field? field) := by
  obtain ⟨decl, hdecl⟩ := exists_structDecl? left
  obtain ⟨decl', hdecl'⟩ := exists_structDecl? right
  have hsame : decl'.fields = decl.fields := by
    have := h.structDecl? name
    rw [hdecl, hdecl'] at this
    exact congrArg Prod.snd (Option.some.inj this)
  have hfields := (h.sound.laidOut name id decl left (h.sound.complete left) hdecl).fields
  have hfields' := (h.sound'.laidOut name id' decl' right (h.sound'.complete right) hdecl').fields
  rw [hsame] at hfields'
  rw [StructLayout.field?, StructLayout.field?]
  generalize decl.fields = fields at hfields hfields'
  generalize (env.layout id).fields = placed at hfields
  generalize (env'.layout id').fields = placed' at hfields'
  induction hfields generalizing placed' with
  | nil =>
    cases hfields'
    exact .none
  | @cons binding place _ _ hplace _ ih =>
    cases hfields' with
    | @cons _ place' _ _ hplace' hrest =>
      rw [List.find?_cons, List.find?_cons, hplace.1, hplace'.1]
      split
      · exact .some (hplace.2.twin hplace'.2 h.aliases)
      · exact ih _ hrest

end Matches

end Offside.TypeEnv
