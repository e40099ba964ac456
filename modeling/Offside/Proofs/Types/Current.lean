import Offside.Proofs.Types.Reached
import Offside.Proofs.Types.Settled

/-!
# Layouts that are out of date

A layout is made once, with the types that the fields have at that time. When an alias is given
another target it is not made again, and it is out of date if a field depends on the alias. A type
that reaches no such layout is resolved as if there were none: without the numbers of the structs
that do reach one, all layouts fit the declarations, and no resolution of the type looks at these
numbers.

What a type denotes depends on the aliases that it reaches, besides the numbers of structs. So a
layout that is up to date is so after a declaration, unless an alias that its struct reaches has got
another target. What a resolution lays out is up to date.

## Main definitions

* `Offside.TypeEnv.Current`: types that reach no layout that is out of date.
* `Offside.TypeEnv.withhold`: tables without the numbers of structs that reach one.
* `Offside.TypeEnv.Outdated`: a layout that is out of date.
* `Offside.TypeEnv.Redirects`: later tables in which an alias that the struct of a layout reached
  has another target.
* `Offside.TypeEnv.Renews`: what resolutions do to tables.

## Main results

* `Offside.TypeEnv.Matched.laidOut`: layouts that reach none out of date fit the declarations.
* `Offside.TypeEnv.Matched.sound_withhold`: without those numbers all layouts do.
* `Offside.TypeEnv.Current.answer_resolve_withhold`: the answers for a current type are the same.
* `Offside.TypeEnv.Outdated.declareStruct`, `Offside.TypeEnv.Outdated.declareAlias`,
  `Offside.TypeEnv.Advances.outdated`: how a layout comes to be out of date.
-/

namespace Offside

/-- Reading a table whose values have been replaced, each depending on its name. -/
theorem Table.find_map_name {α β : Type} (f : String → α → β) (name : String)
    (entries : List (String × α)) :
    Table.get?.find name (entries.map fun entry => (entry.1, f entry.1 entry.2)) =
      (Table.get?.find name entries).map (f name) := by
  induction entries with
  | nil => rfl
  | cons entry entries ih =>
    obtain ⟨key, value⟩ := entry
    rw [List.map_cons, Table.get?.find, Table.get?.find]
    split
    · next heq => rw [heq, Option.map_some]
    · exact ih

namespace TypeEnv

variable {env env' : TypeEnv} {type t : TypeExpr} {r : ResolvedType} {name : String}
  {id : StructId} {decl : StructDecl}

/-! ### What types denote depends on the structs that they reach -/

theorem ReachesStruct.of_reaches (h : env.ReachesStruct t name) (reaches : env.Reaches type t) :
    env.ReachesStruct type name := ⟨reaches.trans h.1, h.2⟩

/-- A type denotes the same where the aliases that it reaches have the same targets, and the structs
the same numbers. -/
theorem Denotes.of_reached (h : env.Denotes t r)
    (aliases : ∀ name, env.Reaches t (.named name) → env'.alias? name = env.alias? name)
    (numbers : ∀ name id, env.ReachesStruct t name → env.idOf? name = some id →
      env'.idOf? name = some id) : env'.Denotes t r := by
  obtain ⟨u, hu, hr⟩ := h
  refine ⟨u, hu.of_reached aliases, ?_⟩
  clear aliases
  induction hu generalizing r with
  | builtin b => exact hr
  | pointer _ ih =>
    obtain ⟨element, helement, rfl⟩ := Option.map_eq_some_iff.1 hr
    have hnumbers := ih (fun name id hname =>
      numbers name id (hname.of_reaches (Leads.pointer _).reaches)) helement
    rw [TypeEnv.typeOf?, hnumbers]
    rfl
  | target known _ ih =>
    exact ih (fun name id hname =>
      numbers name id (hname.of_reaches (Leads.target known).reaches)) hr
  | struct visible =>
    obtain ⟨id, hid, rfl⟩ := Option.map_eq_some_iff.1 hr
    rw [TypeEnv.typeOf?, numbers _ id ⟨.refl, visible⟩ hid]
    rfl

/-- The extent of what a type denotes is that of the type, if it is so for a struct. -/
theorem Denotes.hasExtent (h : env.Denotes t r)
    (struct : ∀ name id, r = .struct id → env.ReachesStruct t name → env.idOf? name = some id →
      env.HasExtent (.named name) (env.extentOf r)) : env.HasExtent t (env.extentOf r) := by
  obtain ⟨u, hu, hr⟩ := h
  induction hu generalizing r with
  | builtin b =>
    cases hr
    rw [extentOf_ofBuiltin]
    exact .builtin b
  | pointer =>
    obtain ⟨element, -, rfl⟩ := Option.map_eq_some_iff.1 hr
    exact .pointer _
  | target known _ ih =>
    refine .target known (ih (fun name id heq hname => ?_) hr)
    exact struct name id heq (hname.of_reaches (Leads.target known).reaches)
  | struct visible =>
    obtain ⟨id, hid, rfl⟩ := Option.map_eq_some_iff.1 hr
    exact struct _ id rfl ⟨.refl, visible⟩ hid

/-! ### Layouts that reach none out of date -/

/-- No struct that the type reaches has a layout that is out of date. -/
def Current (env : TypeEnv) (type : TypeExpr) : Prop :=
  ∀ name id, env.ReachesStruct type name → env.idOf? name = some id → env.UpToDate id

theorem Current.of_reaches (h : env.Current type) (reaches : env.Reaches type t) :
    env.Current t := fun name id hname => h name id (hname.of_reaches reaches)

theorem exists_extents {fields : List Binding} {placed : List LayoutField}
    (h : List.Forall₂ (fun field place => env.HasExtent field.type (env.extentOf place.type))
      fields placed) :
    ∃ extent : Binding → Extent, (∀ f ∈ fields, env.HasExtent f.type (extent f)) ∧
      fields.map extent = placed.map fun place => env.extentOf place.type := by
  induction h with
  | nil => exact ⟨fun _ => .scalar 0, List.forall_mem_nil _, rfl⟩
  | cons hfield _ ih =>
    obtain ⟨extent, hextent, hmap⟩ := ih
    obtain ⟨extent', hextent', hmap'⟩ := exists_extents_cons hfield hextent
    exact ⟨extent', hextent', hmap'.trans (congrArg _ hmap)⟩

/-- If the fields have the types that are declared, and so on inside, the layout fits. -/
theorem Matched.laidOut (matched : env.Matched) (solid : env.Solid id)
    (hid : env.idOf? name = some id) (hstruct : env.IsStruct name decl)
    (current : env.Current (.named name)) : env.LaidOut decl (env.layout id) := by
  induction solid generalizing name decl with
  | @intro id finished natural fields ih =>
    obtain ⟨decl', hdecl', hfits⟩ := current name id ⟨.refl, hstruct.1⟩ hid
    rw [matched.titled name id hid, hstruct.2] at hdecl'
    cases hdecl'
    have hname : (env.layout id).name = decl.name :=
      (matched.titled name id hid).trans (matched.decl_name hstruct.2).symm
    -- The extents of the fields are those of the declared types.
    have hextents : List.Forall₂
        (fun field placed => env.HasExtent field.type (env.extentOf placed.type))
        decl.fields (env.layout id).fields := by
      refine List.forall₂_iff_get.2 ⟨hfits.length_eq, fun i hi hi' => ?_⟩
      refine (hfits.get hi hi').2.hasExtent fun inner innerId heq hinner hinnerId => ?_
      obtain ⟨innerDecl, hinnerDecl⟩ := exists_structDecl? hinnerId
      have hreaches :=
        (Leads.field hstruct (List.get_mem decl.fields ⟨i, hi⟩)).reaches.trans hinner.1
      have hlaid := ih _ (List.get_mem _ _) innerId heq hinnerId ⟨hinner.2, hinnerDecl⟩
        (current.of_reaches hreaches)
      obtain ⟨extent, hextent, -, hsize⟩ := hlaid.placed
      have hholds := HasExtent.struct ⟨hinner.2, hinnerDecl⟩ extent hextent
      rw [← hsize] at hholds
      rw [heq]
      exact hholds
    obtain ⟨extent, hextent, hmap⟩ := exists_extents hextents
    obtain ⟨hoffsets, hsize⟩ := natural.placing
    rw [← hmap] at hoffsets hsize
    exact ⟨hname, finished.2, hfits, extent, hextent, hoffsets, hsize⟩

/-! ### Withholding numbers -/

open Classical in
/-- The same tables, in which a struct has a number only if it is visible and reaches no layout that
is out of date. -/
noncomputable def withhold (env : TypeEnv) : TypeEnv :=
  { env with
    structs := ⟨env.structs.entries.map fun entry =>
      (entry.1, if env.alias? entry.1 = none ∧ env.Current (.named entry.1) then entry.2
        else { entry.2 with layout := none })⟩ }

theorem sameDecls_withhold (env : TypeEnv) : env.SameDecls env.withhold := by
  refine ⟨rfl, ?_⟩
  rw [structDecls, structDecls, withhold, List.map_map]
  refine List.map_congr_left fun entry _ => Prod.ext rfl ?_
  dsimp only [Function.comp_apply]
  split <;> rfl

open Classical in
theorem get?_withhold (env : TypeEnv) (name : String) :
    env.withhold.structs.get? name = (env.structs.get? name).map fun entry =>
      if env.alias? name = none ∧ env.Current (.named name) then entry
        else { entry with layout := none } :=
  Table.find_map_name (fun key (entry : StructEntry) =>
    if env.alias? key = none ∧ env.Current (.named key) then entry
    else { entry with layout := none }) name env.structs.entries

/-- A number is not withheld from a type that is current. -/
theorem get?_withhold_of_current (current : env.Current type) (h : env.ReachesStruct type name) :
    env.withhold.structs.get? name = env.structs.get? name := by
  rw [get?_withhold]
  simp [h.2, current.of_reaches h.1]

theorem idOf?_withhold_of_current (current : env.Current type) (h : env.ReachesStruct type name) :
    env.withhold.idOf? name = env.idOf? name := by
  rw [idOf?, get?_withhold_of_current current h, idOf?]

theorem idOf?_withhold_eq_some : env.withhold.idOf? name = some id ↔
    env.idOf? name = some id ∧ env.alias? name = none ∧ env.Current (.named name) := by
  rw [idOf?, get?_withhold, idOf?]
  cases env.structs.get? name with
  | none => simp
  | some entry =>
    rw [Option.map_some, Option.bind_some, Option.bind_some]
    split
    · next hgood => exact ⟨fun h => ⟨h, hgood⟩, fun h => h.1⟩
    · next hbad =>
      refine ⟨fun h => ?_, fun h => absurd h.2 hbad⟩
      cases h

theorem keepsNumbers_withhold (env : TypeEnv) : env.withhold.KeepsNumbers env :=
  fun _ _ h => (idOf?_withhold_eq_some.1 h).1

theorem Current.denotes_withhold (current : env.Current type) (h : env.Denotes type r) :
    env.withhold.Denotes type r :=
  h.of_reached (fun name _ => (sameDecls_withhold env).alias? name) fun _ _ hname hid =>
    (idOf?_withhold_of_current current hname).trans hid

/-- Without these numbers all layouts fit the declarations. -/
theorem Matched.sound_withhold (matched : env.Matched) (closed : env.Closed []) :
    env.withhold.Sound [] := by
  have hsame := sameDecls_withhold env
  refine ⟨fun name decl hdecl => ?_, fun name id hid => ?_, fun name id hid => ?_,
    fun name id hid => ?_, fun name id decl hid _ hdecl => ?_, fun name id hid hc => ?_⟩
  · rw [hsame.structDecl?] at hdecl
    exact matched.decl_name hdecl
  · exact matched.valid name id (env.keepsNumbers_withhold name id hid)
  · exact matched.titled name id (env.keepsNumbers_withhold name id hid)
  · exact (hsame.alias? name).trans (idOf?_withhold_eq_some.1 hid).2.1
  · obtain ⟨hid, hvisible, hcurrent⟩ := idOf?_withhold_eq_some.1 hid
    rw [hsame.structDecl?] at hdecl
    have hstruct : env.IsStruct name decl := ⟨hvisible, hdecl⟩
    have hsolid := matched.solid id (closed.finished (matched.valid name id hid))
    have hlaid := matched.laidOut hsolid hid hstruct hcurrent
    obtain ⟨extent, hextent, hplaced⟩ := hlaid.placed
    refine ⟨hlaid.name, hlaid.complete, ?_, extent,
      fun f hf => hsame.hasExtent (hextent f hf), hplaced⟩
    refine List.forall₂_iff_get.2 ⟨hlaid.fields.length_eq, fun i hi hi' => ?_⟩
    have hfield := hlaid.fields.get hi hi'
    have hreaches := (Leads.field hstruct (List.get_mem decl.fields ⟨i, hi⟩)).reaches
    exact ⟨hfield.1, (hcurrent.of_reaches hreaches).denotes_withhold hfield.2⟩
  · have hlt := matched.valid name id (env.keepsNumbers_withhold name id hid)
    have hfinished := closed.finished hlt
    rw [show env.withhold.layout id = env.layout id from rfl, hfinished.2] at hc
    cases hc

/-- No current type looks at a number that is withheld. -/
theorem Current.answer_resolve_withhold (current : env.Current type)
    (unambiguous : env.Unambiguous) :
    (env.withhold.resolve type).answer = (env.resolve type).answer :=
  answer_resolve_of_entries unambiguous (sameDecls_withhold env) rfl fun _ hname =>
    get?_withhold_of_current current hname

/-! ### How layouts go out of date -/

variable {env'' : TypeEnv} {layout : StructLayout}

/-- A finished layout that does not fit the declaration of its struct as it is now. -/
def Outdated (env : TypeEnv) (id : StructId) : Prop := env.Finished id ∧ ¬ env.UpToDate id

/-- The layout is finished, and an alias that its struct reaches has another target later. -/
structure Redirects (env env' : TypeEnv) (id : StructId) : Prop where
  finished : env.Finished id
  target : ∃ name old new, env.alias? name = some old ∧ env'.alias? name = some new ∧ new ≠ old ∧
    env.Reaches (.named (env.layout id).name) (.named name)

theorem Redirects.later (h : env.Redirects env' id) (same : env'.SameDecls env'') :
    env.Redirects env'' id := by
  obtain ⟨hfinished, name, old, new, hold, hnew, hne⟩ := h
  exact ⟨hfinished, name, old, new, hold, (same.alias? name).trans hnew, hne⟩

/-- A layout fits later tables in which the fields denote what they did. -/
theorem Fits.of_denotes (h : env.Fits decl layout)
    (keeps : ∀ field ∈ decl.fields, ∀ r, env.Denotes field.type r → env'.Denotes field.type r) :
    env'.Fits decl layout := by
  refine List.forall₂_iff_get.2 ⟨h.length_eq, fun i hi hi' => ?_⟩
  have hfield := h.get hi hi'
  exact ⟨hfield.1, keeps _ (List.get_mem _ ⟨i, hi⟩) _ hfield.2⟩

/-- No layout goes out of date when a struct is declared. -/
theorem Outdated.declareStruct {new : StructDecl} (h : (env.declareStruct new).Outdated id) :
    env.Outdated id := by
  have hextends : env.Extends (env.declareStruct new) := extends_declareStruct new
  obtain ⟨hfinished, houtdated⟩ := h
  rw [Finished, hextends.layouts, hextends.layout] at hfinished
  refine ⟨hfinished, ?_⟩
  rintro ⟨decl, hdecl, hfits⟩
  refine houtdated ?_
  rw [UpToDate, hextends.layout]
  exact ⟨decl, structDecl?_declareStruct_of_some hdecl,
    hfits.of_denotes fun _ _ _ => hextends.denotes⟩

/-- When an alias is declared, a layout does so only if its struct reaches that alias, and the
target is another one. -/
theorem Outdated.declareAlias {target : TypeExpr}
    (h : (env.declareAlias name target).Outdated id) (unused : env.hasStruct name = false)
    (apart : ∀ name decl, env.structDecl? name = some decl → env.alias? name = none) :
    env.Outdated id ∨ env.Redirects (env.declareAlias name target) id := by
  obtain ⟨hfinished, houtdated⟩ := h
  have hfinished : env.Finished id := hfinished
  rw [or_iff_not_imp_left]
  intro hcurrent
  obtain ⟨decl, hdecl, hfits⟩ : env.UpToDate id := by
    by_contra hnot
    exact hcurrent ⟨hfinished, hnot⟩
  -- Some field of the struct denotes something else.
  have hchanged : ¬ ∀ field ∈ decl.fields, ∀ r, env.Denotes field.type r →
      (env.declareAlias name target).Denotes field.type r :=
    fun hkeeps => houtdated ⟨decl, hdecl, hfits.of_denotes hkeeps⟩
  cases hknown : env.alias? name with
  | none =>
    have hextends : env.Extends (env.declareAlias name target) :=
      extends_declareAlias target hknown unused
    exact absurd (fun _ _ _ => hextends.denotes) hchanged
  | some old =>
    refine ⟨hfinished, name, old, target, hknown, by rw [alias?_declareAlias, if_pos rfl], ?_, ?_⟩
    · rintro rfl
      have hsame : env.SameDecls (env.declareAlias name target) := sameDecls_declareAlias.2 hknown
      exact hchanged fun _ _ _ hr => hr.later hsame fun _ _ hid => hid
    · by_contra hreaches
      refine hchanged fun field hfield r hr => ?_
      refine hr.of_reached (fun other hother => ?_) fun _ _ _ hid => hid
      rw [alias?_declareAlias, if_neg]
      rintro rfl
      exact hreaches (hother.head ⟨_, .field ⟨apart _ decl hdecl, hdecl⟩ hfield⟩)

/-- No layout goes out of date when types are resolved. -/
theorem Advances.outdated {structs : List String} (h : env.Advances structs env')
    (outdated : env'.Outdated id) : env.Outdated id := by
  obtain ⟨hfinished, houtdated⟩ := outdated
  have hold := (h.fresh id hfinished).resolve_right houtdated
  exact ⟨hold, fun hup => houtdated (hup.later h.decls h.numbers (h.finished id hold).2)⟩

/-- What resolutions do to tables: they lay out structs, and the new layouts are up to date. -/
def Renews (env env' : TypeEnv) : Prop :=
  env.Reachable → env'.Reachable ∧ env.Advances env.structs.names env'

instance : ResolveFrame Renews where
  refl _ reachable := ⟨reachable, .refl reachable.matched⟩
  trans _ _ _ h k reachable := by
    obtain ⟨hreachable, hadvances⟩ := h reachable
    obtain ⟨hlater, hrest⟩ := k hreachable
    rw [hadvances.decls.names] at hrest
    exact ⟨hlater, hadvances.trans hrest⟩
  resolve _ type reachable :=
    ⟨.call reachable (.resolve type), reachable.advances_resolve reachable.matched type⟩

end TypeEnv

end Offside
