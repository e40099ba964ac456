import Offside.Proofs.Canonical.Text
import Offside.Proofs.Session.Printed
import Offside.Proofs.Session.Redeclared

/-!
# Structs found under their names

A name that is read as a type is tried in a fixed order: as a builtin type, or as a pointer if it is
`ptr` and a bracket follows, when it is read, and as an alias and last as a struct when it is resolved.
A struct is not declared under the name of an alias, nor an alias under that of a struct, and `ptr` with
no bracket is a name like others, so none of these hides a struct. But nothing keeps a struct from being
declared under the name of a builtin type. Such structs, and no others, are never found.

## Main definitions

* `Offside.TypeEnv.Finds`: resolutions that give a struct, or blame one of its fields.
* `Offside.TypeEnv.Gives`: what comes of a name wherever it is read as a type and resolved.

## Main results

* `Offside.TypeEnv.Reachable.finds`: a struct that no alias hides is found when it is resolved.
* `Offside.Session.finds_iff_of_reachable`: which structs are found under their names.
-/

namespace Offside

open Source

namespace TypeEnv

variable {env : TypeEnv} {decl : StructDecl} {name : String} {P : Resolution → Prop}

/-- The number of the struct that is declared, whose layout is finished and has its name and its
fields. -/
structure IsNumberOf (env : TypeEnv) (decl : StructDecl) (id : StructId) : Prop where
  number : env.idOf? decl.name = some id
  finished : env.Finished id
  name : (env.layout id).name = decl.name
  fields : (env.layout id).fields.map (·.name) = decl.fields.map (·.name)

/-- The resolution gives the struct, or blames what one of its fields reaches. -/
def Finds (env : TypeEnv) (decl : StructDecl) (resolution : Resolution) : Prop :=
  match resolution.answer with
  | .ok r => ∃ id, r = .struct id ∧ resolution.env.IsNumberOf decl id
  | .error error => ∃ field ∈ decl.fields, env.Culprit field.type error

/-- Wherever the name is read as a type, with enough fuel and with no bracket after it if it is `ptr`,
resolving the type has a result with the property `P`. -/
def Gives (env : TypeEnv) (name : String) (P : Resolution → Prop) : Prop :=
  ∀ (p : Parser) (fuel : ℕ) (k : Kind) (K : List Kind),
    p.kinds = .identifier name :: k :: K → (name = "ptr" → k ≠ .symbol .openBracket) →
      ∃ type q, (Parse.typeExpr (fuel + 1)).run p = .ok type q ∧ q.kinds = k :: K ∧
        P (env.resolve type)

/-- What comes of a name comes of the type that it is read as. -/
theorem gives_iff (h : IsName name) : env.Gives name P ↔ P (env.resolve (.ofName name)) := by
  refine ⟨fun gives => ?_, fun hP p fuel k K hp hk => ?_⟩
  · have hkinds := Parser.kinds_ofText name
    rw [textKinds_name h] at hkinds
    have hend : name = "ptr" → Kind.endOfInput ≠ .symbol .openBracket :=
      fun _ => Kind.noConfusion
    obtain ⟨type, q, hrun, -, hP⟩ := gives (Parser.ofText name) 0 _ _ hkinds hend
    obtain ⟨_, _, hread, rfl, -⟩ := (succeeds_typeExpr_name 0 hkinds hend).exists
    cases hrun.symm.trans hread
    exact hP
  · obtain ⟨_, q, hrun, rfl, hq⟩ := (succeeds_typeExpr_name fuel hp hk).exists
    exact ⟨_, q, hrun, hq, hP⟩

/-- A struct that no alias hides is found. -/
theorem Reachable.finds (reachable : env.Reachable) (struct : env.IsStruct decl.name decl) :
    env.Finds decl (env.resolve (.named decl.name)) := by
  rw [Finds]
  cases h : (env.resolve (.named decl.name)).answer with
  | ok r =>
    obtain ⟨hadvances, hdenotes⟩ := reachable.matched.resolve_of_ok h
    have hstruct := hadvances.decls.isStruct.2 struct
    obtain ⟨id, hid, rfl⟩ := exists_idOf? hstruct hdenotes
    have hmatched := hadvances.matched
    have hfinished := (Reachable.call reachable (.resolve _)).closed.finished
      (hmatched.valid _ id hid)
    have hname := hmatched.titled _ id hid
    obtain ⟨decl', hdecl', hfields⟩ := hmatched.fields id hfinished
    rw [hname] at hdecl'
    cases hdecl'.symm.trans hstruct.2
    exact ⟨id, rfl, hid, hfinished, hname, hfields⟩
  | error error => exact (reachable.culprit h).exists_field struct

/-- A builtin type is itself. -/
theorem Reachable.answer_resolve_builtin (reachable : env.Reachable) (b : Builtin) :
    (env.resolve (.builtin b)).answer = .ok (.ofBuiltin b) := by
  obtain ⟨events, h⟩ := reachable.unambiguous.resolving (.builtin b)
  rw [(h.unique (.resolved (.builtin b) (.done rfl))).2]

theorem not_finds_of_builtin {resolution : Resolution} {b : Builtin}
    (h : resolution.answer = .ok (.ofBuiltin b)) : ¬ env.Finds decl resolution := by
  rw [Finds, h]
  rintro ⟨id, hid, -⟩
  cases b <;> cases hid

end TypeEnv

namespace Session

variable {s : Session} {decl : StructDecl} {name : String}

/-- A declared struct is found wherever its name is read as a type exactly if it is not the name of a
builtin type. Such a name stands for the builtin type. -/
theorem finds_iff_of_reachable (reachable : s.Reachable)
    (declared : s.types.structDecl? name = some decl) :
    (s.types.Gives name (s.types.Finds decl) ↔ Builtin.ofName? name = none) ∧
      ∀ b, Builtin.ofName? name = some b →
        s.types.Gives name fun resolution => resolution.answer = .ok (.ofBuiltin b) := by
  obtain ⟨rfl, hdecl⟩ := (named_of_reachable reachable).parser.types name decl declared
  have htypes := reachable.types
  have hstruct : s.types.IsStruct decl.name decl :=
    ⟨reachable.orderly.alias?_eq_none declared, declared⟩
  have hbuiltin {b : Builtin} (hb : Builtin.ofName? decl.name = some b) :
      (s.types.resolve (.ofName decl.name)).answer = .ok (.ofBuiltin b) := by
    rw [TypeExpr.ofName, hb]
    exact htypes.answer_resolve_builtin b
  refine ⟨⟨fun hgives => ?_, fun hnone => ?_⟩, fun b hb => ?_⟩
  · rw [TypeEnv.gives_iff hdecl.name] at hgives
    cases hb : Builtin.ofName? decl.name with
    | none => rfl
    | some b => exact absurd hgives (TypeEnv.not_finds_of_builtin (hbuiltin hb))
  · rw [TypeEnv.gives_iff hdecl.name, TypeExpr.ofName, hnone]
    exact htypes.finds hstruct
  · rw [TypeEnv.gives_iff hdecl.name]
    exact hbuiltin hb

/-- A session that declares a struct named like the pointer type, which points to others. -/
def structPtr : Session :=
  ofInput (.ofString "struct ptr:\n  next: ptr[ptr]\na: ptr\na.next\n") ⟨.file, defaultPrompt⟩

theorem finds_iff_of_reachable_structPtr :
    let types := (structPtr.after 1).types
    let decl : StructDecl := ⟨"ptr", [⟨"next", .pointer (.named "ptr")⟩], ⟨1, 1⟩⟩
    (structPtr.after 1).Reachable ∧ types.structDecl? "ptr" = some decl ∧
      types.Gives "ptr" (types.Finds decl) := by
  intro types decl
  have hreachable : (structPtr.after 1).Reachable := Reachable.after (.start _ _) 1
  have hdeclared : types.structDecl? "ptr" = some decl := by decide +kernel
  exact ⟨hreachable, hdeclared, (finds_iff_of_reachable hreachable hdeclared).1.2 rfl⟩

/-- A session that declares a struct named like a builtin type, and then uses it. -/
def structI32 : Session :=
  ofInput (.ofString "struct i32:\n  x: f64\na: i32\na.x\n") ⟨.file, defaultPrompt⟩

theorem not_finds_structI32 :
    let types := (structI32.after 1).types
    let decl : StructDecl := ⟨"i32", [⟨"x", .builtin .f64⟩], ⟨1, 1⟩⟩
    (structI32.after 1).Reachable ∧ types.structDecl? "i32" = some decl ∧
      ¬ types.Gives "i32" (types.Finds decl) := by
  intro types decl
  have hreachable : (structI32.after 1).Reachable := Reachable.after (.start _ _) 1
  refine ⟨hreachable, by decide +kernel, fun hgives => ?_⟩
  rw [TypeEnv.gives_iff (by decide)] at hgives
  exact TypeEnv.not_finds_of_builtin (hreachable.types.answer_resolve_builtin .i32) hgives

end Session

end Offside
