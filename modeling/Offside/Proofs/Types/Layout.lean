import Mathlib.Data.List.Forall2
import Offside.Proofs.Types.Extent

/-!
# Layouts that fit the declarations

A struct that has been laid out has the extent that follows from the declarations, and its fields
have the declared names and denote the declared types. While a type is being resolved some structs
have a number and no such layout yet; these are pending.

## Main definitions

* `Offside.TypeEnv.Denotes`: what a type denotes, by the numbers that structs have.
* `Offside.TypeEnv.LaidOut`: a layout that fits a declaration.
* `Offside.TypeEnv.Sound`: all layouts fit but those of pending structs.
* `Offside.TypeEnv.Grows`: tables that keep numbers and finished layouts.

## Main results

* `Offside.TypeEnv.Sound.describe`: a resolved type is described by the expanded type.
* `Offside.TypeEnv.LaidOut.unique`: at most one layout fits a declaration.
* `Offside.TypeEnv.Sound.enroll`, `Offside.TypeEnv.Sound.finish`: giving a struct a number makes it
  pending until its layout is finished.
-/

namespace Offside.TypeEnv

variable {env env' : TypeEnv} {t u : TypeExpr} {r : ResolvedType} {name other : String}
  {id : StructId} {decl : StructDecl} {entry : StructEntry} {layout : StructLayout}
  {pending : List String}

/-- The number of a struct, if it has one. -/
def idOf? (env : TypeEnv) (name : String) : Option StructId :=
  (env.structs.get? name).bind (·.layout)

theorem layoutOf?_of_idOf? (h : env.idOf? name = some id) :
    env.layoutOf? name = some (env.layout id) := by
  obtain ⟨entry, hentry, hlayout⟩ := Option.bind_eq_some_iff.1 h
  rw [layoutOf?, hentry, Option.bind_some, hlayout]
  rfl

/-- What a type without aliases denotes, if the struct in it has a number. -/
def typeOf? (env : TypeEnv) : TypeExpr → Option ResolvedType
  | .builtin b => some (.ofBuiltin b)
  | .named name => (env.idOf? name).map .struct
  | .pointer element => (env.typeOf? element).map .pointer

/-- What a type denotes. -/
def Denotes (env : TypeEnv) (t : TypeExpr) (r : ResolvedType) : Prop :=
  ∃ u, env.Expands t u ∧ env.typeOf? u = some r

/-- A finished layout that fits the declaration of its struct. -/
structure LaidOut (env : TypeEnv) (decl : StructDecl) (layout : StructLayout) : Prop where
  name : layout.name = decl.name
  complete : layout.complete = true
  fields : List.Forall₂ (fun field placed => placed.name = field.name ∧
    env.Denotes field.type placed.type) decl.fields layout.fields
  placed : ∃ extent : Binding → Extent, (∀ f ∈ decl.fields, env.HasExtent f.type (extent f)) ∧
    layout.fields.map (·.offset) = (Placing.ofExtents (decl.fields.map extent)).offsets ∧
    (⟨layout.size, layout.align⟩ : Extent) = (Placing.ofExtents (decl.fields.map extent)).extent

/-- What is true of the layouts while the structs in `pending` are still to be laid out. -/
structure Sound (env : TypeEnv) (pending : List String) : Prop where
  keyed : ∀ name decl, env.structDecl? name = some decl → decl.name = name
  valid : ∀ name id, env.idOf? name = some id → id.index < env.layouts.size
  named : ∀ name id, env.idOf? name = some id → (env.layout id).name = name
  visible : ∀ name id, env.idOf? name = some id → env.alias? name = none
  laidOut : ∀ name id decl, env.idOf? name = some id → (env.layout id).complete = true →
    env.structDecl? name = some decl → env.LaidOut decl (env.layout id)
  pending : ∀ name id, env.idOf? name = some id → (env.layout id).complete = false →
    name ∈ pending

/-- Later tables: they declare the same, and keep numbers and finished layouts. -/
structure Grows (env env' : TypeEnv) : Prop extends env.SameDecls env' where
  idOf? : ∀ name id, env.idOf? name = some id → env'.idOf? name = some id
  layout : ∀ name id, env.idOf? name = some id → (env.layout id).complete = true →
    env'.layout id = env.layout id

instance : IsPreorder TypeEnv Grows where
  refl _ := ⟨⟨rfl, rfl⟩, fun _ _ h => h, fun _ _ _ _ => rfl⟩
  trans a b c h k := by
    refine ⟨trans_of SameDecls h.toSameDecls k.toSameDecls,
      fun name id hid => k.idOf? name id (h.idOf? name id hid), fun name id hid hc => ?_⟩
    have hb := h.layout name id hid hc
    rw [k.layout name id (h.idOf? name id hid) (by rwa [hb]), hb]

/-! ### What types denote -/

theorem Denotes.unique {r' : ResolvedType} (h : env.Denotes t r) (h' : env.Denotes t r') :
    r = r' := by
  obtain ⟨u, hu, hr⟩ := h
  obtain ⟨u', hu', hr'⟩ := h'
  obtain rfl := hu.unique hu'
  exact Option.some.inj (hr.symm.trans hr')

/-- A type denotes what it did as long as structs keep their numbers. -/
theorem typeOf?_later (keeps : ∀ name id, env.idOf? name = some id → env'.idOf? name = some id)
    (hr : env.typeOf? t = some r) : env'.typeOf? t = some r := by
  induction t generalizing r with
  | builtin b => exact hr
  | named name =>
    obtain ⟨id, hid, rfl⟩ := Option.map_eq_some_iff.1 hr
    exact Option.map_eq_some_iff.2 ⟨id, keeps name id hid, rfl⟩
  | pointer element ih =>
    obtain ⟨r', hr', rfl⟩ := Option.map_eq_some_iff.1 hr
    exact Option.map_eq_some_iff.2 ⟨r', ih hr', rfl⟩

theorem Denotes.later (h : env.Denotes t r) (same : env.SameDecls env')
    (keeps : ∀ name id, env.idOf? name = some id → env'.idOf? name = some id) :
    env'.Denotes t r := by
  obtain ⟨u, hu, hr⟩ := h
  exact ⟨u, same.expands hu, typeOf?_later keeps hr⟩

theorem Grows.denotes (h : env.Grows env') (hr : env.Denotes t r) : env'.Denotes t r :=
  hr.later h.toSameDecls h.idOf?

theorem Grows.laidOut (h : env.Grows env') (hl : env.LaidOut decl layout) :
    env'.LaidOut decl layout := by
  obtain ⟨extent, hextent, hplaced⟩ := hl.placed
  exact ⟨hl.name, hl.complete, hl.fields.imp fun _ _ hf => ⟨hf.1, h.denotes hf.2⟩,
    extent, fun f hf => h.hasExtent (hextent f hf), hplaced⟩

theorem denotes_builtin (b : Builtin) : env.Denotes (.builtin b) (.ofBuiltin b) :=
  ⟨_, .builtin b, rfl⟩

theorem Denotes.pointer (h : env.Denotes t r) : env.Denotes (.pointer t) (.pointer r) := by
  obtain ⟨u, hu, hr⟩ := h
  exact ⟨_, .pointer hu, by rw [TypeEnv.typeOf?, hr]; rfl⟩

theorem Denotes.target (h : env.Denotes t r) (known : env.alias? name = some t) :
    env.Denotes (.named name) r := by
  obtain ⟨u, hu, hr⟩ := h
  exact ⟨u, .target known hu, hr⟩

theorem denotes_struct (visible : env.alias? name = none) (hid : env.idOf? name = some id) :
    env.Denotes (.named name) (.struct id) :=
  ⟨_, .struct visible, by rw [typeOf?, hid]; rfl⟩

namespace Sound

/-- No two structs have the same number. -/
theorem idOf?_injective (h : env.Sound pending) (hid : env.idOf? name = some id)
    (hid' : env.idOf? other = some id) : name = other :=
  (h.named name id hid).symm.trans (h.named other id hid')

theorem mono {pending' : List String} (h : env.Sound pending)
    (hle : ∀ name id, env.idOf? name = some id → name ∈ pending → name ∈ pending') :
    env.Sound pending' :=
  ⟨h.keyed, h.valid, h.named, h.visible, h.laidOut,
    fun name id hid hc => hle name id hid (h.pending name id hid hc)⟩

/-- A resolved type is described by the type without aliases that it comes from. -/
theorem describe_typeOf? (h : env.Sound pending) (hr : env.typeOf? u = some r) :
    env.describe r = u.text := by
  induction u generalizing r with
  | builtin b =>
    cases hr
    cases b <;> rfl
  | named name =>
    obtain ⟨id, hid, rfl⟩ := Option.map_eq_some_iff.1 hr
    exact h.named name id hid
  | pointer element ih =>
    obtain ⟨r', hr', rfl⟩ := Option.map_eq_some_iff.1 hr
    rw [TypeEnv.describe, ih hr', TypeExpr.text]

/-- A struct with a finished layout has the extent that follows from the declarations. -/
theorem hasExtent (h : env.Sound pending) (hid : env.idOf? name = some id)
    (hc : (env.layout id).complete = true) (hd : env.structDecl? name = some decl) :
    env.HasExtent (.named name) (env.extentOf (.struct id)) := by
  have visible := h.visible name id hid
  obtain ⟨extent, hextent, -, hsize⟩ := (h.laidOut name id decl hid hc hd).placed
  have hstruct := HasExtent.struct ⟨visible, hd⟩ extent hextent
  rwa [← hsize] at hstruct

end Sound

/-! ### One layout fits -/

/-- Fields of the same declaration at the same offsets are the same. -/
theorem fields_unique {fields : List Binding} {placed placed' : List LayoutField}
    (h : List.Forall₂ (fun field place => place.name = field.name ∧
      env.Denotes field.type place.type) fields placed)
    (h' : List.Forall₂ (fun field place => place.name = field.name ∧
      env.Denotes field.type place.type) fields placed')
    (offsets : placed.map (·.offset) = placed'.map (·.offset)) : placed = placed' := by
  induction h generalizing placed' with
  | nil =>
    cases h'
    rfl
  | @cons field place fields places hplace _ ih =>
    cases h' with
    | @cons _ place' _ places' hplace' hrest =>
      obtain ⟨hoffset, hoffsets⟩ := List.cons.inj offsets
      have hname : place.name = place'.name := hplace.1.trans hplace'.1.symm
      have htype : place.type = place'.type := hplace.2.unique hplace'.2
      rw [ih hrest hoffsets]
      cases place
      cases place'
      cases hname
      cases htype
      cases hoffset
      rfl

theorem LaidOut.unique {layout' : StructLayout} (h : env.LaidOut decl layout)
    (h' : env.LaidOut decl layout') : layout = layout' := by
  obtain ⟨extent, hextent, hoffsets, hsize⟩ := h.placed
  obtain ⟨extent', hextent', hoffsets', hsize'⟩ := h'.placed
  have hsame : decl.fields.map extent = decl.fields.map extent' :=
    List.map_congr_left fun f hf => (hextent f hf).unique (hextent' f hf)
  rw [← hsame] at hoffsets' hsize'
  have hfields := fields_unique h.fields h'.fields (hoffsets.trans hoffsets'.symm)
  have hname := h.name.trans h'.name.symm
  have hcomplete := h.complete.trans h'.complete.symm
  obtain ⟨hbytes, halign⟩ := Extent.mk.inj (hsize.trans hsize'.symm)
  cases layout
  cases layout'
  exact StructLayout.mk.injEq .. ▸ ⟨hname, hfields, hbytes, halign, hcomplete⟩

/-! ### Giving a number, finishing a layout -/

/-- The number of the next layout for a struct. -/
def enroll (env : TypeEnv) (name : String) (entry : StructEntry) : TypeEnv :=
  { env with
    structs := env.structs.insert name { entry with layout := some ⟨env.layouts.size⟩ }
    layouts := env.layouts.push (.unfinished entry.decl.name) }

/-- The layout of a given number is finished. -/
def finish (env : TypeEnv) (id : StructId) (layout : StructLayout) : TypeEnv :=
  { env with layouts := env.layouts.setIfInBounds id.index layout }

theorem structDecl?_of_get? (h : env.structs.get? name = some entry) :
    env.structDecl? name = some entry.decl := by
  rw [structDecl?, h]
  rfl

/-- A struct that is found in tables with the same declarations. -/
theorem SameDecls.structDecl?_of_get? {env' : TypeEnv} (same : env.SameDecls env')
    (h : env'.structs.get? name = some entry) : env.structDecl? name = some entry.decl :=
  (same.structDecl? name).symm.trans (TypeEnv.structDecl?_of_get? h)

theorem sameDecls_enroll (h : env.structs.get? name = some entry) :
    env.SameDecls (env.enroll name entry) := ⟨rfl, Table.map_insert StructEntry.decl h rfl⟩

theorem idOf?_enroll : (env.enroll name entry).idOf? other =
    if name = other then some ⟨env.layouts.size⟩ else env.idOf? other := by
  rw [idOf?, enroll, Table.get?_insert]
  split <;> rfl

/-- A struct that gets a number has none yet, so the others keep theirs. -/
theorem idOf?_enroll_of_some (h : env.structs.get? name = some entry) (hnew : entry.layout = none)
    (hid : env.idOf? other = some id) : (env.enroll name entry).idOf? other = some id := by
  rw [idOf?_enroll, if_neg, hid]
  rintro rfl
  rw [idOf?, h, Option.bind_some, hnew] at hid
  cases hid

theorem layout_enroll_of_lt (h : id.index < env.layouts.size) :
    (env.enroll name entry).layout id = env.layout id := by
  simp [layout, enroll, Array.getD_eq_getD_getElem?, Array.getElem?_push, Nat.ne_of_lt h]

theorem layout_enroll_self :
    (env.enroll name entry).layout ⟨env.layouts.size⟩ = .unfinished entry.decl.name := by
  simp [layout, enroll, Array.getD_eq_getD_getElem?]

theorem layout_finish_self (layout : StructLayout) (h : id.index < env.layouts.size) :
    (env.finish id layout).layout id = layout := by
  simp [TypeEnv.layout, finish, Array.getD_eq_getD_getElem?, h]

theorem layout_finish_of_ne {id' : StructId} (h : id' ≠ id) :
    (env.finish id layout).layout id' = env.layout id' := by
  have hne : id.index ≠ id'.index := fun he => h (by cases id; cases id'; exact congrArg _ he.symm)
  simp [TypeEnv.layout, finish, Array.getD_eq_getD_getElem?, hne]

section

variable (sound : env.Sound pending)
include sound

theorem Sound.grows_enroll (h : env.structs.get? name = some entry) (hnew : entry.layout = none) :
    env.Grows (env.enroll name entry) := by
  exact ⟨sameDecls_enroll h, fun other id hid => idOf?_enroll_of_some h hnew hid,
    fun other id hid _ => layout_enroll_of_lt (sound.valid other id hid)⟩

/-- A struct that has been given a number is pending. -/
theorem Sound.enroll (h : env.structs.get? name = some entry) (hnew : entry.layout = none)
    (visible : env.alias? name = none) : (env.enroll name entry).Sound (name :: pending) := by
  have hgrows := sound.grows_enroll h hnew
  have hdecl := structDecl?_of_get? h
  -- The number of a struct is the new one or an old one.
  have hcases {other : String} {id : StructId}
      (hid : (env.enroll name entry).idOf? other = some id) :
      name = other ∧ id = ⟨env.layouts.size⟩ ∨ env.idOf? other = some id := by
    rw [idOf?_enroll] at hid
    split at hid
    · next he => exact .inl ⟨he, (Option.some.inj hid).symm⟩
    · exact .inr hid
  refine ⟨fun other decl hd => ?_, fun other id hid => ?_, fun other id hid => ?_,
    fun other id hid => ?_, fun other id decl hid hc hd => ?_, fun other id hid hc => ?_⟩
  · rw [hgrows.structDecl?] at hd
    exact sound.keyed other decl hd
  · have hsize : (env.enroll name entry).layouts.size = env.layouts.size + 1 := Array.size_push _
    rcases hcases hid with ⟨-, rfl⟩ | hold
    · rw [hsize]
      exact Nat.lt_succ_self _
    · rw [hsize]
      exact Nat.lt_succ_of_lt (sound.valid other id hold)
  · rcases hcases hid with ⟨rfl, rfl⟩ | hold
    · rw [layout_enroll_self]
      exact sound.keyed name entry.decl hdecl
    · rw [layout_enroll_of_lt (sound.valid other id hold)]
      exact sound.named other id hold
  · rw [hgrows.alias?]
    rcases hcases hid with ⟨rfl, -⟩ | hold
    · exact visible
    · exact sound.visible other id hold
  · rw [hgrows.structDecl?] at hd
    rcases hcases hid with ⟨-, rfl⟩ | hold
    · rw [layout_enroll_self] at hc
      cases hc
    · rw [layout_enroll_of_lt (sound.valid other id hold)] at hc ⊢
      exact hgrows.laidOut (sound.laidOut other id decl hold hc hd)
  · rcases hcases hid with ⟨rfl, -⟩ | hold
    · exact List.mem_cons_self
    · rw [layout_enroll_of_lt (sound.valid other id hold)] at hc
      exact List.mem_cons_of_mem _ (sound.pending other id hold hc)

theorem Sound.grows_finish (hid : env.idOf? name = some id)
    (hd : env.structDecl? name = some decl) (hl : env.LaidOut decl layout) :
    env.Grows (env.finish id layout) := by
  refine ⟨⟨rfl, rfl⟩, fun _ _ h => h, fun other id' hid' hc => ?_⟩
  by_cases he : id' = id
  · -- A layout that is finished again is the same one.
    subst he
    obtain rfl := sound.idOf?_injective hid hid'
    rw [layout_finish_self layout (sound.valid name id' hid)]
    exact hl.unique (sound.laidOut name id' decl hid hc hd)
  · exact layout_finish_of_ne he

/-- A struct with a finished layout is no longer pending. -/
theorem Sound.finish (hid : env.idOf? name = some id) (hd : env.structDecl? name = some decl)
    (hl : env.LaidOut decl layout) :
    (env.finish id layout).Sound (pending.filter (· ≠ name)) := by
  have hgrows := sound.grows_finish hid hd hl
  have hself := layout_finish_self layout (sound.valid name id hid)
  have hkey := sound.keyed name decl hd
  have hsame {other : String} {id' : StructId} (hid' : env.idOf? other = some id') :
      other = name ∧ id' = id ∨ (env.finish id layout).layout id' = env.layout id' := by
    by_cases he : id' = id
    · subst he
      exact .inl ⟨sound.idOf?_injective hid' hid, rfl⟩
    · exact .inr (layout_finish_of_ne he)
  refine ⟨sound.keyed, fun other id' hid' => ?_, fun other id' hid' => ?_, sound.visible,
    fun other id' decl' hid' hc hd' => ?_, fun other id' hid' hc => ?_⟩
  · rw [TypeEnv.finish, Array.size_setIfInBounds]
    exact sound.valid other id' hid'
  · rcases hsame hid' with ⟨rfl, rfl⟩ | he
    · rw [hself, hl.name, hkey]
    · rw [he]
      exact sound.named other id' hid'
  · rcases hsame hid' with ⟨rfl, rfl⟩ | he
    · rw [hself]
      obtain rfl : decl = decl' := Option.some.inj (hd.symm.trans hd')
      exact hgrows.laidOut hl
    · rw [he] at hc ⊢
      exact hgrows.laidOut (sound.laidOut other id' decl' hid' hc hd')
  · rcases hsame hid' with ⟨rfl, rfl⟩ | he
    · rw [hself, hl.complete] at hc
      cases hc
    · rw [he] at hc
      refine List.mem_filter.2 ⟨sound.pending other id' hid' hc, ?_⟩
      simp only [ne_eq, decide_not, Bool.not_eq_eq_eq_not, Bool.not_true, decide_eq_false_iff_not]
      rintro rfl
      obtain rfl : id' = id := Option.some.inj (hid'.symm.trans hid)
      rw [← he, hself, hl.complete] at hc
      cases hc

end

end Offside.TypeEnv
