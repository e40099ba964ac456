import Offside.Proofs.Types.Elision

/-!
# Resolution does not depend on what was resolved before

Tables that have been declared and resolved in any order answer as tables do that declare the same
and in which nothing has been resolved. All that may differ are the numbers of structs, which no
description, size or offset depends on.

Every layout is finished between two resolutions, and fits the declarations. A declaration of a new
name does not touch this, since what has been laid out mentions declared names only.

## Main definitions

* `Offside.TypeEnv.Call`: what may be done to tables.
* `Offside.TypeEnv.History`: tables with what has been done to them, where no alias takes a name
  that is declared already.
* `Offside.TypeEnv.forget`: the same declarations without layouts.
* `Offside.TypeEnv.LooksAlike`: types that differ in the numbers of structs only.
* `Offside.TypeEnv.KeepsAliases`, `Offside.TypeEnv.KeepsNumbers`, `Offside.TypeEnv.KeepsLayouts`:
  later tables in which aliases, structs and layouts have their targets, numbers and places still.

## Main results

* `Offside.TypeEnv.Sound.resolve_alike`: tables with finished layouts that declare the same resolve
  alike.
* `Offside.TypeEnv.History.resolve_alike`: tables with any history resolve as new ones do.
* `Offside.TypeEnv.keepsLayouts_declareAlias`, `Offside.TypeEnv.keepsLayouts_declareStruct`: as long
  as no alias is given another target, what is declared leaves the layouts finished.
-/

namespace Offside.TypeEnv

variable {env env' : TypeEnv} {type : TypeExpr} {name : String} {decl : StructDecl}
  {r r' : ResolvedType}

/-! ### Declarations of new names -/

/-- Later tables, in which only names that were free have been declared. -/
structure Extends (env env' : TypeEnv) : Prop where
  target : ∀ name target, env.alias? name = some target → env'.alias? name = some target
  isStruct : ∀ name decl, env.IsStruct name decl → env'.IsStruct name decl
  idOf? : ∀ name, env'.idOf? name = env.idOf? name
  layouts : env'.layouts = env.layouts

theorem Extends.typeOf? (h : env.Extends env') : env'.typeOf? = env.typeOf? := by
  funext u
  induction u with
  | builtin b => rfl
  | named name => rw [TypeEnv.typeOf?, TypeEnv.typeOf?, h.idOf?]
  | pointer element ih => rw [TypeEnv.typeOf?, TypeEnv.typeOf?, ih]

theorem Extends.layout (h : env.Extends env') (id : StructId) : env'.layout id = env.layout id := by
  rw [TypeEnv.layout, h.layouts, TypeEnv.layout]

theorem Extends.hasExtent {x : Extent} (h : env.Extends env') (ht : env.HasExtent type x) :
    env'.HasExtent type x := by
  induction ht with
  | builtin b => exact .builtin b
  | pointer element => exact .pointer element
  | target known _ ih => exact .target (h.target _ _ known) ih
  | struct struct extent _ ih => exact .struct (h.isStruct _ _ struct) extent ih

/-- A struct with a number is no alias before or after. -/
theorem Extends.isStruct_of_idOf? {id : StructId} (h : env.Extends env')
    (visible : env.alias? name = none) (hid : env.idOf? name = some id) :
    ∃ decl, env.IsStruct name decl ∧ env'.IsStruct name decl := by
  obtain ⟨decl, hdecl⟩ := exists_structDecl? hid
  exact ⟨decl, ⟨visible, hdecl⟩, h.isStruct name decl ⟨visible, hdecl⟩⟩

theorem Extends.denotes (h : env.Extends env') (hr : env.Denotes type r) : env'.Denotes type r := by
  obtain ⟨u, hu, hr⟩ := hr
  refine ⟨u, ?_, h.typeOf? ▸ hr⟩
  induction hu generalizing r with
  | builtin b => exact .builtin b
  | pointer _ ih =>
    obtain ⟨element, helement, -⟩ := Option.map_eq_some_iff.1 hr
    exact .pointer (ih helement)
  | target known _ ih => exact .target (h.target _ _ known) (ih hr)
  | struct visible =>
    obtain ⟨id, hid, -⟩ := Option.map_eq_some_iff.1 hr
    obtain ⟨_, _, hstruct⟩ := h.isStruct_of_idOf? visible hid
    exact .struct hstruct.1

theorem Extends.sound (h : env.Extends env') (sound : env.Sound [])
    (keyed : ∀ name decl, env'.structDecl? name = some decl → decl.name = name) :
    env'.Sound [] := by
  refine ⟨keyed, ?_, ?_, ?_, ?_, ?_⟩
  all_goals
    intro name id
    simp only [h.idOf?, h.layout, h.layouts]
  · exact sound.valid name id
  · exact sound.named name id
  · intro hid
    obtain ⟨_, _, hstruct⟩ := h.isStruct_of_idOf? (sound.visible name id hid) hid
    exact hstruct.1
  · intro decl hid hc hd
    obtain ⟨decl', hstruct, hstruct'⟩ := h.isStruct_of_idOf? (sound.visible name id hid) hid
    obtain rfl : decl = decl' := Option.some.inj (hd.symm.trans hstruct'.2)
    have hlaid := sound.laidOut name id decl hid hc hstruct.2
    obtain ⟨extent, hextent, hplaced⟩ := hlaid.placed
    exact ⟨hlaid.name, hlaid.complete, hlaid.fields.imp fun _ _ hf => ⟨hf.1, h.denotes hf.2⟩,
      extent, fun f hf => h.hasExtent (hextent f hf), hplaced⟩
  · exact sound.pending name id

theorem extends_declareAlias (target : TypeExpr) (free : env.alias? name = none)
    (unused : env.hasStruct name = false) : env.Extends (env.declareAlias name target) := by
  refine ⟨fun other target' hknown => ?_, fun other decl hstruct => ⟨?_, hstruct.2⟩, fun _ => rfl,
    rfl⟩
  · rw [alias?_declareAlias, if_neg, hknown]
    rintro rfl
    rw [free] at hknown
    cases hknown
  · rw [alias?_declareAlias, if_neg, hstruct.1]
    rintro rfl
    rw [hasStruct_eq, hstruct.2] at unused
    cases unused

theorem extends_declareStruct (decl : StructDecl) : env.Extends (env.declareStruct decl) := by
  by_cases hused : env.hasStruct decl.name = true
  · rw [declareStruct, if_pos hused]
    exact ⟨fun _ _ h => h, fun _ _ h => h, fun _ => rfl, rfl⟩
  · rw [Bool.not_eq_true] at hused
    have hnone := hused
    rw [hasStruct_eq, Option.isSome_eq_false_iff, Option.isNone_iff_eq_none] at hnone
    have haliases : (env.declareStruct decl).aliases = env.aliases := by
      rw [declareStruct, hused, if_neg Bool.false_ne_true]
    refine ⟨fun other target hknown => ?_, fun other decl' hstruct => ⟨?_, ?_⟩, fun other => ?_, ?_⟩
    · rw [alias?, haliases]
      exact hknown
    · rw [alias?, haliases]
      exact hstruct.1
    · rw [structDecl?_declareStruct hused, if_neg, hstruct.2]
      rintro rfl
      rw [hstruct.2] at hnone
      cases hnone
    · rw [declareStruct, hused, if_neg Bool.false_ne_true, TypeEnv.idOf?, Table.get?_insert]
      split
      · next he =>
        rw [structDecl?, Option.map_eq_none_iff, he] at hnone
        rw [TypeEnv.idOf?, hnone]
        rfl
      · rfl
    · rw [declareStruct, hused, if_neg Bool.false_ne_true]

theorem Sound.declareAlias (sound : env.Sound []) (target : TypeExpr)
    (free : env.alias? name = none) (unused : env.hasStruct name = false) :
    (env.declareAlias name target).Sound [] :=
  (extends_declareAlias target free unused).sound sound sound.keyed

theorem Sound.declareStruct (sound : env.Sound []) (decl : StructDecl) :
    (env.declareStruct decl).Sound [] := by
  refine (extends_declareStruct decl).sound sound fun name decl' hd => ?_
  cases hused : env.hasStruct decl.name with
  | true =>
    rw [TypeEnv.declareStruct, if_pos hused] at hd
    exact sound.keyed name decl' hd
  | false =>
    rw [structDecl?_declareStruct hused] at hd
    split at hd
    · next he =>
      cases hd
      exact he
    · exact sound.keyed name decl' hd

theorem Sound.resolve (sound : env.Sound []) (type : TypeExpr) : (env.resolve type).env.Sound [] := by
  have hresolves := sound.resolvesTo type
  generalize env.resolve type = resolution at *
  cases hresolves with
  | ok _ sound' => exact sound'
  | error restores => exact restores.sound sound

theorem Sound.grows_resolve (sound : env.Sound []) (type : TypeExpr) :
    env.Grows (env.resolve type).env := by
  have hresolves := sound.resolvesTo type
  generalize env.resolve type = resolution at *
  cases hresolves with
  | ok grows => exact grows
  | error restores => exact restores.grows

/-! ### Tables that declare the same -/

/-- The same declarations, of which none has been laid out. -/
def forget (env : TypeEnv) : TypeEnv :=
  { env with
    structs := ⟨env.structs.entries.map fun entry => (entry.1, { entry.2 with layout := none })⟩
    layouts := #[] }

theorem sameDecls_forget (env : TypeEnv) : env.forget.SameDecls env :=
  ⟨rfl, by rw [structDecls, structDecls, forget, List.map_map]; rfl⟩

theorem Sound.unresolved_forget {pending : List String} (sound : env.Sound pending) :
    env.forget.Unresolved := by
  refine ⟨rfl, fun name entry hentry => ?_⟩
  have hfind := Table.find_map (fun entry : StructEntry => { entry with layout := none }) name
    env.structs.entries
  obtain ⟨entry', hentry', rfl⟩ := Option.map_eq_some_iff.1 (hfind.symm.trans hentry)
  exact ⟨rfl, sound.keyed name entry'.decl (structDecl?_of_get? hentry')⟩

/-- Tables in which nothing has been laid out find the same errors. -/
theorem Sound.resolve_error_iff (sound : env'.Sound []) (same : env.SameDecls env')
    (unresolved : env.Unresolved) (type : TypeExpr) (error : TypeError) :
    (env'.resolve type).answer = .error error ↔ (env.resolve type).answer = .error error := by
  have hcouples := sound.couples_resolveAll same unresolved type
  rw [Couples] at hcouples
  rw [TypeEnv.resolve, TypeEnv.resolve, EStateM.run, EStateM.run]
  split at hcouples
  · next hx hy =>
    rw [hx, hy]
    exact iff_of_false (fun h => by cases h) fun h => by cases h
  · next hx hy =>
    rw [hx, hy, hcouples]
  · exact hcouples.elim
  · exact hcouples.elim

/-- Two answers that are the same but for the numbers of structs. -/
inductive Agree (env env' : TypeEnv) (type : TypeExpr) :
    Except TypeError ResolvedType → Except TypeError ResolvedType → Prop
  | ok {u : TypeExpr} {r r' : ResolvedType} (expands : env.Expands type u)
    (left : env.typeOf? u = some r) (right : env'.typeOf? u = some r') :
    Agree env env' type (.ok r) (.ok r')
  | error (error : TypeError) : Agree env env' type (.error error) (.error error)

/-- Tables with finished layouts that declare the same resolve alike. -/
theorem Sound.resolve_agree (sound : env.Sound []) (sound' : env'.Sound [])
    (same : env.SameDecls env') (type : TypeExpr) :
    Agree (env.resolve type).env (env'.resolve type).env type (env.resolve type).answer
      (env'.resolve type).answer := by
  have hforget := sameDecls_forget env
  have herror (error : TypeError) : (env.resolve type).answer = .error error ↔
      (env'.resolve type).answer = .error error :=
    (sound.resolve_error_iff hforget sound.unresolved_forget type error).trans
      (sound'.resolve_error_iff (trans_of SameDecls hforget same) sound.unresolved_forget type
        error).symm
  have hleft := sound.resolvesTo type
  have hright := sound'.resolvesTo type
  generalize env.resolve type = resolution at *
  generalize env'.resolve type = resolution' at *
  cases hleft with
  | error =>
    rw [(herror _).1 rfl]
    exact .error _
  | @ok r after _ grows _ denotes =>
    cases hright with
    | error => cases (herror _).2 rfl
    | @ok r' after' _ grows' _ denotes' =>
      obtain ⟨u, hu, hr⟩ := denotes
      obtain ⟨u', hu', hr'⟩ := denotes'
      -- Both expand the type along the same targets.
      have hexpands : after'.Expands type u :=
        (trans_of SameDecls grows.symm (trans_of SameDecls same grows'.toSameDecls)).expands hu
      obtain rfl := hexpands.unique hu'
      exact .ok hu hr hr'

/-! ### Answers that look alike -/

/-- The fields of a layout, as far as they do not depend on the numbers of structs. -/
def describeFields (env : TypeEnv) (layout : StructLayout) : List (String × String × Nat) :=
  layout.fields.map fun field => (field.name, env.describe field.type, field.offset)

/-- The same type, resolved in two tables: all that may differ are the numbers of structs. -/
structure LooksAlike (env env' : TypeEnv) (type : TypeExpr) (r r' : ResolvedType) : Prop where
  describe : env.describe r = env'.describe r'
  size : env.sizeOf r = env'.sizeOf r'
  align : env.alignOf r = env'.alignOf r'
  layouts : ∀ name decl, env.Reaches type (.named name) → env.IsStruct name decl →
    ∃ layout layout', env.layoutOf? name = some layout ∧ env'.layoutOf? name = some layout' ∧
      layout.size = layout'.size ∧ layout.align = layout'.align ∧
      env.describeFields layout = env'.describeFields layout'

section

variable {pending pending' : List String} (sound : env.Sound pending) (sound' : env'.Sound pending')
  (same : env.SameDecls env')
include sound sound' same

theorem Denotes.describe_eq (h : env.Denotes type r) (h' : env'.Denotes type r') :
    env.describe r = env'.describe r' := by
  obtain ⟨u, hu, hr⟩ := h
  obtain ⟨u', hu', hr'⟩ := h'
  obtain rfl := (same.expands hu).unique hu'
  rw [sound.describe_typeOf? hr, sound'.describe_typeOf? hr']

theorem describeFields_eq {fields : List Binding} {placed placed' : List LayoutField}
    (h : List.Forall₂ (fun field place => place.name = field.name ∧
      env.Denotes field.type place.type) fields placed)
    (h' : List.Forall₂ (fun field place => place.name = field.name ∧
      env'.Denotes field.type place.type) fields placed')
    (offsets : placed.map (·.offset) = placed'.map (·.offset)) :
    placed.map (fun field => (field.name, env.describe field.type, field.offset)) =
      placed'.map fun field => (field.name, env'.describe field.type, field.offset) := by
  induction h generalizing placed' with
  | nil =>
    cases h'
    rfl
  | cons hplace _ ih =>
    cases h' with
    | cons hplace' hrest =>
      obtain ⟨hoffset, hoffsets⟩ := List.cons.inj offsets
      dsimp only at hoffset
      rw [List.map_cons, List.map_cons, ih hrest hoffsets, hplace.1, hplace'.1, hoffset,
        hplace.2.describe_eq sound sound' same hplace'.2]

theorem LaidOut.looksAlike {layout layout' : StructLayout} (h : env.LaidOut decl layout)
    (h' : env'.LaidOut decl layout') : layout.size = layout'.size ∧ layout.align = layout'.align ∧
      env.describeFields layout = env'.describeFields layout' := by
  obtain ⟨extent, hextent, hoffsets, hsize⟩ := h.placed
  obtain ⟨extent', hextent', hoffsets', hsize'⟩ := h'.placed
  have hmap : decl.fields.map extent = decl.fields.map extent' :=
    List.map_congr_left fun f hf => (same.hasExtent (hextent f hf)).unique (hextent' f hf)
  rw [← hmap] at hoffsets' hsize'
  obtain ⟨hbytes, halign⟩ := Extent.mk.inj (hsize.trans hsize'.symm)
  exact ⟨hbytes, halign,
    describeFields_eq sound sound' same h.fields h'.fields (hoffsets.trans hoffsets'.symm)⟩

end

theorem Sound.looksAlike (sound : env.Sound []) (sound' : env'.Sound []) (same : env.SameDecls env')
    (h : env.Denotes type r) (h' : env'.Denotes type r') : LooksAlike env env' type r r' := by
  have hextent := (same.hasExtent (sound.hasExtent_of_denotes h)).unique
    (sound'.hasExtent_of_denotes h')
  obtain ⟨hsize, halign⟩ := Extent.mk.inj hextent
  refine ⟨h.describe_eq sound sound' same h', hsize, halign, fun name decl hreaches hstruct => ?_⟩
  have hlayout {tables : TypeEnv} {r : ResolvedType} (sound : tables.Sound [])
      (h : tables.Denotes type r) (hreaches : tables.Reaches type (.named name))
      (hstruct : tables.IsStruct name decl) :
      ∃ layout, tables.layoutOf? name = some layout ∧ tables.LaidOut decl layout := by
    obtain ⟨r', hr'⟩ := sound.denotes_of_reaches h hreaches
    obtain ⟨id, hid, -⟩ := exists_idOf? hstruct hr'
    exact ⟨tables.layout id, layoutOf?_of_idOf? hid,
      sound.laidOut name id decl hid (sound.complete hid) hstruct.2⟩
  obtain ⟨layout, hl, hlaid⟩ := hlayout sound h hreaches hstruct
  obtain ⟨layout', hl', hlaid'⟩ := hlayout sound' h' (same.reaches ▸ hreaches)
    (same.isStruct.2 hstruct)
  exact ⟨layout, layout', hl, hl', hlaid.looksAlike sound sound' same hlaid'⟩

/-! ### Histories -/

/-- What may be done to tables. -/
inductive Call
  | declareStruct (decl : StructDecl)
  | declareAlias (name : String) (target : TypeExpr)
  | resolve (type : TypeExpr)
  | resolveStructId (name : String)
  | reset
  deriving DecidableEq, Repr

namespace Call

/-- The tables after a call. -/
def run (env : TypeEnv) : Call → TypeEnv
  | declareStruct decl => env.declareStruct decl
  | declareAlias name target => env.declareAlias name target
  | resolve type => (env.resolve type).env
  | resolveStructId name => (env.resolveStructId name).2
  | reset => .initial

/-- An alias does not take a name that is declared. -/
def Fresh (env : TypeEnv) : Call → Prop
  | declareAlias name _ => env.alias? name = none ∧ env.hasStruct name = false
  | _ => True

end Call

/-- Tables with what has been done to them since they were new. -/
inductive History : TypeEnv → Prop
  | empty : History .empty
  | initial : History .initial
  | call {env : TypeEnv} (h : History env) (call : Call) (fresh : call.Fresh env) :
    History (call.run env)

theorem env_resolveStructId (env : TypeEnv) (name : String) :
    (env.resolveStructId name).2 = (env.resolve (.named name)).env := by
  rw [resolveStructId]
  split <;> rfl

/-- No call leaves an unfinished layout, or one that does not fit. -/
theorem Call.sound (call : Call) (fresh : call.Fresh env) (sound : env.Sound []) :
    (call.run env).Sound [] := by
  cases call with
  | declareStruct decl => exact sound.declareStruct decl
  | declareAlias name target => exact sound.declareAlias target fresh.1 fresh.2
  | resolve type => exact sound.resolve type
  | resolveStructId name =>
    rw [run, env_resolveStructId]
    exact sound.resolve _
  | reset => exact unresolved_initial.sound

theorem History.sound (h : env.History) : env.Sound [] := by
  induction h with
  | empty => exact unresolved_empty.sound
  | initial => exact unresolved_initial.sound
  | call _ call fresh ih => exact call.sound fresh ih

/-- Tables answer as new tables with the same declarations do, whatever has been declared and
resolved in which order: with the same error, or with a type that looks alike. -/
theorem History.resolve_alike {fresh : TypeEnv} (history : env.History) (same : fresh.SameDecls env)
    (unresolved : fresh.Unresolved) (type : TypeExpr) :
    (∀ error, (env.resolve type).answer = .error error ↔
        (fresh.resolve type).answer = .error error) ∧
      ∀ r, (env.resolve type).answer = .ok r → ∃ r', (fresh.resolve type).answer = .ok r' ∧
        LooksAlike (env.resolve type).env (fresh.resolve type).env type r r' := by
  have sound := history.sound
  have sound' := unresolved.sound
  refine ⟨sound.resolve_error_iff same unresolved type, fun r hr => ?_⟩
  have hagree := sound.resolve_agree sound' same.symm type
  have hdecls : (env.resolve type).env.SameDecls (fresh.resolve type).env :=
    trans_of SameDecls (env.sameDecls_resolve type).symm
      (trans_of SameDecls same.symm (fresh.sameDecls_resolve type))
  rw [hr] at hagree
  generalize (fresh.resolve type).answer = answer at hagree
  cases hagree with
  | ok expands left right =>
    exact ⟨_, rfl, (sound.resolve type).looksAlike (sound'.resolve type) hdecls ⟨_, expands, left⟩
      ⟨_, hdecls.expands expands, right⟩⟩

theorem History.resolve_alike_linkedNodes :
    History (linkedNodes.resolve (.named "Node")).env ∧
      linkedNodes.SameDecls (linkedNodes.resolve (.named "Node")).env ∧ linkedNodes.Unresolved ∧
      (∃ r, ((linkedNodes.resolve (.named "Node")).env.resolve (.named "NodePtr")).answer = .ok r) ∧
      ∀ r, ((linkedNodes.resolve (.named "Node")).env.resolve (.named "NodePtr")).answer = .ok r →
        ∃ r', (linkedNodes.resolve (.named "NodePtr")).answer = .ok r' ∧
          LooksAlike ((linkedNodes.resolve (.named "Node")).env.resolve (.named "NodePtr")).env
            (linkedNodes.resolve (.named "NodePtr")).env (.named "NodePtr") r r' := by
  have history : History (linkedNodes.resolve (.named "Node")).env :=
    .call (.call (.call .initial (.declareAlias "NodePtr" _) ⟨by decide, by decide⟩)
      (.declareStruct _) trivial) (.resolve (.named "Node")) trivial
  have unresolved : linkedNodes.Unresolved :=
    (unresolved_initial.declareAlias _ _).declareStruct _
  have same := linkedNodes.sameDecls_resolve (.named "Node")
  exact ⟨history, same, unresolved, ⟨.pointer (.struct ⟨0⟩), by cbv⟩,
    (history.resolve_alike same unresolved (.named "NodePtr")).2⟩

/-! ### What later tables keep -/

/-- Later tables in which every alias has its target still. -/
def KeepsAliases (env env' : TypeEnv) : Prop :=
  ∀ name target, env.alias? name = some target → env'.alias? name = some target

/-- Only the aliases matter. -/
theorem KeepsAliases.congr {env₁ env₁' : TypeEnv} (h : env.KeepsAliases env')
    (same : env₁.aliases = env.aliases) (same' : env₁'.aliases = env'.aliases) :
    env₁.KeepsAliases env₁' := by
  intro name target
  rw [alias?, same, alias?, same']
  exact h name target

/-- Later tables in which the structs have their numbers still. -/
def KeepsNumbers (env env' : TypeEnv) : Prop :=
  ∀ name id, env.idOf? name = some id → env'.idOf? name = some id

instance : IsPreorder TypeEnv KeepsNumbers where
  refl _ _ _ h := h
  trans _ _ _ h k name id hid := k name id (h name id hid)

/-- Later tables, in which layouts are finished if they were before. -/
def KeepsLayouts (env env' : TypeEnv) : Prop :=
  env.Sound [] → env'.Sound [] ∧ env.KeepsNumbers env'

instance : ResolveFrame KeepsLayouts where
  refl _ sound := ⟨sound, refl_of KeepsNumbers _⟩
  trans _ _ _ h k sound := by
    obtain ⟨sound, keeps⟩ := h sound
    exact ⟨(k sound).1, trans_of KeepsNumbers keeps (k sound).2⟩
  resolve _ type sound := ⟨sound.resolve type, (sound.grows_resolve type).idOf?⟩

/-- An alias that takes a new name, or has its target already. -/
theorem keepsLayouts_declareAlias {target : TypeExpr}
    (keeps : env.KeepsAliases (env.declareAlias name target))
    (unused : env.hasStruct name = false) : env.KeepsLayouts (env.declareAlias name target) := by
  intro sound
  cases hknown : env.alias? name with
  | none => exact ⟨sound.declareAlias target hknown unused, fun _ _ h => h⟩
  | some old =>
    have hold := keeps name old hknown
    rw [alias?_declareAlias, if_pos rfl] at hold
    cases hold
    have hsame : env.declareAlias name target = env := by
      rw [TypeEnv.declareAlias, Table.insert_of_get? hknown]
    rw [hsame]
    exact refl_of KeepsLayouts env sound

theorem keepsLayouts_declareStruct (decl : StructDecl) :
    env.KeepsLayouts (env.declareStruct decl) := fun sound =>
  ⟨sound.declareStruct decl, fun name id hid => by rwa [(extends_declareStruct decl).idOf?]⟩

end Offside.TypeEnv
