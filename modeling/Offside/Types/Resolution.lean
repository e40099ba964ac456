import Offside.Journal.Note
import Offside.Types.Env

/-!
# Resolving type expressions

Resolution expands the aliases of a type expression and lays out the structs that it reaches. Two
kinds of cycle are refused: an alias met again while it is being expanded, and a struct met again
by value while its own fields are being laid out. A struct met behind a pointer is only given a
number; it waits and is laid out, as if asked for by itself, once the type at hand is done. So
whether a type resolves does not depend on which struct is asked for first.

The names still free to be entered are arguments that shrink on the way down: the structs that are
not being laid out, and the aliases that are not being expanded since the innermost struct was
entered. They bound the depth of the recursion.

A failed resolution forgets the layouts that it began, which are those with the highest numbers.

## Main definitions

* `Offside.Resolve`: computations that lay out structs.
* `Offside.resolveType`, `Offside.resolveStruct`, `Offside.layFields`: the recursion.
* `Offside.TypeEnv.rollback`: forget the layouts from a given number on.
* `Offside.TypeEnv.resolve`: resolve one type expression.
-/

namespace Offside

/-- A resolution in progress. -/
structure ResolveState where
  env : TypeEnv
  /-- Structs met behind a pointer whose fields are not laid out yet, newest first. -/
  waiting : List String
  /-- Events, newest first. -/
  notes : List Note

/-- Computations that lay out structs. -/
abbrev Resolve := EStateM TypeError ResolveState

namespace Resolve

/-- The type tables. -/
def env : Resolve TypeEnv := do return (← get).env

/-- The number of a struct, new if it has none, with an unfinished layout under it. -/
def register (name : String) (entry : StructEntry) : Resolve StructId := do
  let s ← get
  let id : StructId := ⟨s.env.layouts.size⟩
  let env : TypeEnv :=
    { s.env with
      structs := s.env.structs.insert name { entry with layout := some id }
      layouts := s.env.layouts.push (.unfinished entry.decl.name) }
  set { s with env }
  return id

/-- Let a struct wait for its fields to be laid out. -/
def await (name : String) : Resolve Unit :=
  modify fun s => { s with waiting := name :: s.waiting }

/-- Complete the layout of a struct. -/
def complete (name : String) (id : StructId) (layout : StructLayout) : Resolve Unit :=
  modify fun s =>
    { s with
      env := { s.env with layouts := s.env.layouts.setIfInBounds id.index layout }
      notes := .structLaidOut name layout.size layout.align :: s.notes }

end Resolve

/-- The fields of a struct laid out so far, the end of the last one, and the largest alignment. There
is no bound on the end or on the offsets; in words of 64 bits they come out modulo `2 ^ 64`, as
sizes do. -/
structure FieldRun where
  fields : List LayoutField
  stop : Nat
  align : Nat
  deriving DecidableEq, Repr

namespace FieldRun

/-- No field is laid out. -/
def empty : FieldRun := ⟨[], 0, 1⟩

/-- Lay out one more field at the next multiple of its alignment. -/
def add (run : FieldRun) (env : TypeEnv) (name : String) (type : ResolvedType) : FieldRun :=
  let offset := alignUp run.stop (env.alignOf type)
  ⟨run.fields ++ [⟨name, type, offset⟩], offset + env.sizeOf type, max run.align (env.alignOf type)⟩

/-- The layout of a struct with these fields. -/
def layout (run : FieldRun) (name : String) : StructLayout :=
  ⟨name, run.fields, alignUp run.stop run.align, run.align, true⟩

end FieldRun

mutual

/-- Resolve a type, by value or behind a pointer. `structs` and `aliases` are the names free to be
entered. -/
def resolveType (structs aliases : List String) (behind : Bool) :
    TypeExpr → Resolve ResolvedType
  | .builtin b => return .ofBuiltin b
  | .pointer element => return .pointer (← resolveType structs aliases true element)
  | .named name => do
    let env ← Resolve.env
    match env.alias? name with
    | some target =>
      if _h : name ∈ aliases then resolveType structs (aliases.erase name) behind target
      else throw (.aliasCycle name)
    | none => resolveStruct structs behind name
termination_by type => (structs.length, aliases.length + 1, sizeOf type)
decreasing_by
  · exact .right _ (.right _ (by simp only [TypeExpr.pointer.sizeOf_spec]; omega))
  · refine .right _ (.left _ _ ?_)
    have := List.length_pos_of_mem ‹_›
    rw [List.length_erase_of_mem ‹_›]
    omega
  · exact .right _ (.left _ _ (by omega))

/-- Resolve the name of a struct, by value or behind a pointer. -/
def resolveStruct (structs : List String) (behind : Bool) (name : String) :
    Resolve ResolvedType := do
  let env ← Resolve.env
  match env.structs.get? name with
  | none => throw (.unknownType name)
  | some entry =>
    if behind then
      match entry.layout with
      | some id => return .struct id
      | none => do
        let id ← Resolve.register name entry
        Resolve.await name
        return .struct id
    else if _h : name ∈ structs then
      match entry.layout with
      | some id =>
        if (env.layout id).complete then return .struct id
        else layOut (structs.erase name) env.aliases.names entry.decl id
      | none =>
        layOut (structs.erase name) env.aliases.names entry.decl (← Resolve.register name entry)
    else throw (.recursiveStruct name)
termination_by (structs.length, 0, 0)
decreasing_by
  all_goals
    have := List.length_pos_of_mem ‹_›
    refine .left _ _ ?_
    rw [List.length_erase_of_mem ‹_›]
    omega

/-- Lay out the fields of a struct that has the number `id`. -/
def layOut (structs aliases : List String) (decl : StructDecl) (id : StructId) :
    Resolve ResolvedType := do
  let run ← layFields structs aliases decl.fields .empty
  Resolve.complete decl.name id (run.layout decl.name)
  return .struct id
termination_by (structs.length, aliases.length + 1, sizeOf decl.fields + 1)
decreasing_by exact .right _ (.right _ (by omega))

/-- Lay out fields after those of `run`. -/
def layFields (structs aliases : List String) : List Binding → FieldRun → Resolve FieldRun
  | [], run => return run
  | field :: fields, run => do
    let type ← resolveType structs aliases false field.type
    layFields structs aliases fields (run.add (← Resolve.env) field.name type)
termination_by fields => (structs.length, aliases.length + 1, sizeOf fields)
decreasing_by
  · cases field
    refine .right _ (.right _ ?_)
    simp only [List.cons.sizeOf_spec, Binding.mk.sizeOf_spec]
    omega
  · refine .right _ (.right _ ?_)
    simp only [List.cons.sizeOf_spec]
    omega

end

/-- Lay out the waiting structs, at most `fuel` of them. Each struct waits at most once, so their
number is enough. -/
def layOutWaiting : Nat → Resolve Unit
  | 0 => return
  | fuel + 1 => do
    let s ← get
    match s.waiting with
    | [] => return
    | name :: rest => do
      set { s with waiting := rest }
      let _ ← resolveStruct s.env.structs.names false name
      layOutWaiting fuel

/-- Resolve a type and lay out every struct that it reaches. -/
def resolveAll (type : TypeExpr) : Resolve ResolvedType := do
  let env ← Resolve.env
  let resolved ← resolveType env.structs.names env.aliases.names false type
  layOutWaiting env.structs.size
  return resolved

/-- What a resolution gives: an answer, the tables after it, and its events in order. -/
structure Resolution where
  answer : Except TypeError ResolvedType
  env : TypeEnv
  notes : List Note

/-- A struct without the number of its layout, unless this is below `mark`. -/
def StructEntry.rollback (mark : Nat) (entry : StructEntry) : StructEntry :=
  if entry.layout.any (mark ≤ ·.index) then { entry with layout := none } else entry

namespace TypeEnv

/-- Forget the layouts from the number `mark` on. -/
def rollback (env : TypeEnv) (mark : Nat) : TypeEnv :=
  { env with
    structs := env.structs.map (StructEntry.rollback mark)
    layouts := env.layouts.take mark }

/-- Resolve a type expression. A failed resolution forgets the layouts that it began. -/
def resolve (env : TypeEnv) (type : TypeExpr) : Resolution :=
  match (resolveAll type).run ⟨env, [], []⟩ with
  | .ok resolved s => ⟨.ok resolved, s.env, s.notes.reverse⟩
  | .error error s =>
    ⟨.error error, s.env.rollback env.layouts.size,
      (.resolutionFailed type error :: s.notes).reverse⟩

/-- Resolve a name to the number of a struct. -/
def resolveStructId (env : TypeEnv) (name : String) : Except TypeError StructId × TypeEnv :=
  let r := env.resolve (.named name)
  match r.answer with
  | .ok (.struct id) => (.ok id, r.env)
  | .ok _ => (.error (.unknownType name), r.env)
  | .error error => (.error error, r.env)

end TypeEnv

end Offside
