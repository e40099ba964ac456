import Offside.Proofs.Types.Natural
import Offside.Proofs.Types.Rollback

/-!
# Layouts and the structs that they belong to

Every layout belongs to exactly one struct, has its name and its fields in the declared order, and,
once it is finished, is natural down to the innermost struct. A field that a struct holds by value
has a finished layout before the next field is placed, so the sizes that the offsets are computed
from never change.

When a layout is finished its fields have the types that the declaration asks for at that time. This
need not be true later, since an alias may be given another target.

## Main definitions

* `Offside.TypeEnv.Fits`: a layout whose fields have the declared names and types.
* `Offside.TypeEnv.UpToDate`: a layout that fits the declaration of its struct.
* `Offside.TypeEnv.Matched`: layouts belong to structs one to one, and finished ones are natural.
* `Offside.TypeEnv.Advances`: later tables of a resolution.

## Main results

* `Offside.TypeEnv.Matched.enroll`, `Offside.TypeEnv.Matched.finish`: one step.
* `Offside.TypeEnv.Matched.resolve_of_ok`: a resolution that succeeds advances.
-/

namespace Offside

namespace TypeEnv

variable {env env' : TypeEnv} {name other : String} {id : StructId} {entry : StructEntry}
  {decl : StructDecl} {layout : StructLayout}

/-- The fields of a layout have the declared names, and the types that the declared ones denote. -/
def Fits (env : TypeEnv) (decl : StructDecl) (layout : StructLayout) : Prop :=
  List.Forall₂ (fun field placed => placed.name = field.name ∧ env.Denotes field.type placed.type)
    decl.fields layout.fields

/-- A layout that fits the declaration of its struct as it is now. -/
def UpToDate (env : TypeEnv) (id : StructId) : Prop :=
  ∃ decl, env.structDecl? (env.layout id).name = some decl ∧ env.Fits decl (env.layout id)

/-- Layouts and structs with a number belong to each other. A layout may be unfinished. -/
structure Matched (env : TypeEnv) : Prop extends env.Keyed where
  valid : ∀ name id, env.idOf? name = some id → id.index < env.layouts.size
  titled : ∀ name id, env.idOf? name = some id → (env.layout id).name = name
  owned : ∀ id, id.index < env.layouts.size → ∃ name, env.idOf? name = some id
  solid : ∀ id, env.Finished id → env.Solid id
  fields : ∀ id, env.Finished id → ∃ decl, env.structDecl? (env.layout id).name = some decl ∧
    (env.layout id).fields.map (·.name) = decl.fields.map (·.name)

theorem Fits.names (h : env.Fits decl layout) :
    layout.fields.map (·.name) = decl.fields.map (·.name) := by
  refine List.ext_getElem (by simpa using (List.Forall₂.length_eq h).symm) fun i hi hi' => ?_
  rw [List.length_map] at hi hi'
  rw [List.getElem_map, List.getElem_map]
  exact (h.get hi' hi).1

theorem Fits.later (h : env.Fits decl layout) (same : env.SameDecls env')
    (keeps : env.KeepsNumbers env') : env'.Fits decl layout :=
  List.Forall₂.imp (fun _ _ hf => ⟨hf.1, hf.2.later same keeps⟩) h

theorem UpToDate.later (h : env.UpToDate id) (same : env.SameDecls env')
    (keeps : env.KeepsNumbers env') (heq : env'.layout id = env.layout id) : env'.UpToDate id := by
  obtain ⟨decl, hdecl, hfits⟩ := h
  refine ⟨decl, ?_, ?_⟩
  · rw [heq, same.structDecl?, hdecl]
  · rw [heq]
    exact hfits.later same keeps

/-! ### One step -/

theorem keepsFinished_enroll : env.KeepsFinished (env.enroll name entry) := by
  intro id hfinished
  have heq : (env.enroll name entry).layout id = env.layout id := layout_enroll_of_lt hfinished.1
  refine ⟨⟨?_, heq ▸ hfinished.2⟩, heq⟩
  rw [enroll, Array.size_push]
  exact Nat.lt_succ_of_lt hfinished.1

theorem finished_of_enroll (h : (env.enroll name entry).Finished id) : env.Finished id := by
  obtain ⟨hlt, hc⟩ := h
  rw [enroll, Array.size_push] at hlt
  rcases Nat.lt_succ_iff_lt_or_eq.1 hlt with hlt | heq
  · rw [layout_enroll_of_lt hlt] at hc
    exact ⟨hlt, hc⟩
  · obtain rfl : id = ⟨env.layouts.size⟩ := congrArg StructId.mk heq
    rw [layout_enroll_self] at hc
    cases hc

theorem keepsFinished_finish (unfinished : (env.layout id).complete = false) :
    env.KeepsFinished (env.finish id layout) := by
  intro other hfinished
  have hne : other ≠ id := by
    rintro rfl
    rw [Finished, unfinished] at hfinished
    cases hfinished.2
  have heq : (env.finish id layout).layout other = env.layout other := layout_finish_of_ne hne
  refine ⟨⟨?_, heq ▸ hfinished.2⟩, heq⟩
  rw [finish, Array.size_setIfInBounds]
  exact hfinished.1

/-- Giving a struct a number. -/
theorem Matched.enroll (matched : env.Matched) (hentry : env.structs.get? name = some entry)
    (hnew : entry.layout = none) : (env.enroll name entry).Matched := by
  have hsame := sameDecls_enroll hentry
  have hsize : (env.enroll name entry).layouts.size = env.layouts.size + 1 := Array.size_push _
  refine ⟨matched.toKeyed.congr hsame.structDecls, fun other id hid => ?_, fun other id hid => ?_,
    fun id hlt => ?_, fun id hfinished => ?_, fun id hfinished => ?_⟩
  · rw [idOf?_enroll] at hid
    rw [hsize]
    split at hid
    · cases hid
      exact Nat.lt_succ_self _
    · exact Nat.lt_succ_of_lt (matched.valid other id hid)
  · rw [idOf?_enroll] at hid
    split at hid
    · next heq =>
      cases hid
      rw [layout_enroll_self, ← heq]
      exact matched.decl_name (structDecl?_of_get? hentry)
    · rw [layout_enroll_of_lt (matched.valid other id hid)]
      exact matched.titled other id hid
  · rw [hsize] at hlt
    rcases Nat.lt_succ_iff_lt_or_eq.1 hlt with hlt | heq
    · obtain ⟨other, hid⟩ := matched.owned id hlt
      exact ⟨other, idOf?_enroll_of_some hentry hnew hid⟩
    · refine ⟨name, ?_⟩
      rw [idOf?_enroll, if_pos rfl, ← heq]
  · exact (matched.solid id (finished_of_enroll hfinished)).mono keepsFinished_enroll
  · have hold := finished_of_enroll hfinished
    rw [(keepsFinished_enroll id hold).2, hsame.structDecl?]
    exact matched.fields id hold

/-- Finishing the layout of a struct. -/
theorem Matched.finish (matched : env.Matched) (hid : env.idOf? name = some id)
    (unfinished : (env.layout id).complete = false) (hdecl : env.structDecl? name = some decl)
    {run : FieldRun} (natural : run.Natural env) (hfits : env.Fits decl (run.layout name)) :
    (env.finish id (run.layout name)).Matched ∧
      (env.finish id (run.layout name)).Solid id := by
  have hlt := matched.valid name id hid
  have hself := layout_finish_self (run.layout name) hlt
  have hkeeps : env.KeepsFinished (env.finish id (run.layout name)) :=
    keepsFinished_finish unfinished
  have hsize : (env.finish id (run.layout name)).layouts.size = env.layouts.size :=
    Array.size_setIfInBounds
  have hsolid : (env.finish id (run.layout name)).Solid id := by
    have hrun := natural.mono hkeeps
    refine .intro ⟨hsize.symm ▸ hlt, ?_⟩ ?_ ?_
    · rw [hself]
      rfl
    · rw [hself]
      exact hrun.layout name
    · rw [hself]
      exact fun field hfield inner htype => (hrun.sized field hfield).solid inner htype
  have hold {other : StructId} (hne : other ≠ id)
      (hfinished : (env.finish id (run.layout name)).Finished other) : env.Finished other := by
    rw [Finished, hsize, layout_finish_of_ne hne] at hfinished
    exact hfinished
  refine ⟨⟨matched.toKeyed.congr rfl, fun other id' hid' => ?_, fun other id' hid' => ?_,
    fun id' hlt' => ?_, fun id' hfinished => ?_, fun id' hfinished => ?_⟩, hsolid⟩
  · rw [hsize]
    exact matched.valid other id' hid'
  · by_cases he : id' = id
    · subst he
      rw [hself]
      exact (matched.titled name id' hid).symm.trans (matched.titled other id' hid')
    · rw [layout_finish_of_ne he]
      exact matched.titled other id' hid'
  · rw [hsize] at hlt'
    exact matched.owned id' hlt'
  · by_cases he : id' = id
    · exact he ▸ hsolid
    · exact (matched.solid id' (hold he hfinished)).mono hkeeps
  · by_cases he : id' = id
    · subst he
      rw [hself]
      exact ⟨decl, hdecl, hfits.names⟩
    · rw [layout_finish_of_ne he]
      exact matched.fields id' (hold he hfinished)

/-- Only layouts and numbers matter, and that declarations are kept. -/
theorem Matched.congr (matched : env.Matched) (keyed : env'.Keyed)
    (layouts : env'.layouts = env.layouts) (numbers : ∀ name, env'.idOf? name = env.idOf? name)
    (decls : ∀ name decl, env.structDecl? name = some decl → env'.structDecl? name = some decl) :
    env'.Matched := by
  have hlayout (id : StructId) : env'.layout id = env.layout id := by
    rw [TypeEnv.layout, TypeEnv.layout, layouts]
  have hfinished (id : StructId) : env'.Finished id ↔ env.Finished id := by
    rw [Finished, Finished, layouts, hlayout]
  have hkeeps : env.KeepsFinished env' := fun id hid => ⟨(hfinished id).2 hid, hlayout id⟩
  refine ⟨keyed, fun name id hid => ?_, fun name id hid => ?_, fun id hlt => ?_,
    fun id hid => (matched.solid id ((hfinished id).1 hid)).mono hkeeps, fun id hid => ?_⟩
  · rw [layouts]
    exact matched.valid name id (numbers name ▸ hid)
  · rw [hlayout]
    exact matched.titled name id (numbers name ▸ hid)
  · rw [layouts] at hlt
    exact (matched.owned id hlt).imp fun name hid => (numbers name).trans hid
  · rw [hlayout]
    exact (matched.fields id ((hfinished id).1 hid)).imp fun decl h => ⟨decls _ decl h.1, h.2⟩

theorem Unresolved.matched (unresolved : env.Unresolved) (keyed : env.Keyed) : env.Matched := by
  have hnone {id : StructId} : ¬ id.index < env.layouts.size := by
    rw [unresolved.layouts]
    exact Nat.not_lt_zero _
  refine ⟨keyed, fun name id hid => ?_, fun name id hid => ?_, fun id hid => absurd hid hnone,
    fun id hid => absurd hid.1 hnone, fun id hid => absurd hid.1 hnone⟩
  all_goals
    rw [unresolved.idOf?] at hid
    cases hid

/-! ### Many steps -/

variable {env'' : TypeEnv} {structs structs' : List String}

/-- Later tables of a resolution that may lay out the structs in `structs`: what it finishes is up
to date, and whatever was finished stays as it was. -/
structure Advances (structs : List String) (env env' : TypeEnv) : Prop where
  matched : env'.Matched
  decls : env.SameDecls env'
  numbers : env.KeepsNumbers env'
  finished : env.KeepsFinished env'
  idle : ∀ name id, name ∉ structs → env.idOf? name = some id → env'.layout id = env.layout id
  fresh : ∀ id, env'.Finished id → env.Finished id ∨ env'.UpToDate id

theorem Advances.refl (matched : env.Matched) : Advances structs env env :=
  ⟨matched, refl_of SameDecls _, refl_of KeepsNumbers _, refl_of KeepsFinished _,
    fun _ _ _ _ => rfl, fun _ h => .inl h⟩

theorem Advances.trans (h : Advances structs env env') (k : Advances structs env' env'') :
    Advances structs env env'' := by
  refine ⟨k.matched, trans_of SameDecls h.decls k.decls, trans_of KeepsNumbers h.numbers k.numbers,
    trans_of KeepsFinished h.finished k.finished, fun name id hfree hid => ?_,
    fun id hfinished => ?_⟩
  · rw [k.idle name id hfree (h.numbers name id hid), h.idle name id hfree hid]
  · refine (k.fresh id hfinished).elim (fun hmiddle => ?_) .inr
    exact (h.fresh id hmiddle).imp_right fun hnow =>
      hnow.later k.decls k.numbers (k.finished id hmiddle).2

theorem Advances.mono (h : Advances structs env env') (hle : ∀ name ∈ structs, name ∈ structs') :
    Advances structs' env env' :=
  ⟨h.matched, h.decls, h.numbers, h.finished, fun name id hfree =>
    h.idle name id fun hmem => hfree (hle name hmem), h.fresh⟩

theorem Advances.enroll (matched : env.Matched) (hentry : env.structs.get? name = some entry)
    (hnew : entry.layout = none) : Advances structs env (env.enroll name entry) :=
  ⟨matched.enroll hentry hnew, sameDecls_enroll hentry, fun _ _ => idOf?_enroll_of_some hentry hnew,
    keepsFinished_enroll, fun _ _ _ hid => layout_enroll_of_lt (matched.valid _ _ hid),
    fun _ hfinished => .inl (finished_of_enroll hfinished)⟩

theorem Advances.finish (matched : env.Matched) (hid : env.idOf? name = some id)
    (unfinished : (env.layout id).complete = false) (hdecl : env.structDecl? name = some decl)
    {run : FieldRun} (natural : run.Natural env) (hfits : env.Fits decl (run.layout name)) :
    Advances (name :: structs) env (env.finish id (run.layout name)) := by
  have hself := layout_finish_self (run.layout name) (matched.valid name id hid)
  refine ⟨(matched.finish hid unfinished hdecl natural hfits).1, ⟨rfl, rfl⟩, fun _ _ h => h,
    keepsFinished_finish unfinished, fun other id' hfree hid' => ?_, fun id' hfinished => ?_⟩
  · refine layout_finish_of_ne ?_
    rintro rfl
    obtain rfl : other = name :=
      (matched.titled other id' hid').symm.trans (matched.titled name id' hid)
    exact hfree List.mem_cons_self
  · by_cases he : id' = id
    · subst he
      refine .inr ⟨decl, ?_, ?_⟩
      · rw [hself]
        exact hdecl
      · rw [hself]
        exact hfits.later ⟨rfl, rfl⟩ fun _ _ h => h
    · obtain ⟨hlt, hc⟩ := hfinished
      rw [TypeEnv.finish, Array.size_setIfInBounds] at hlt
      rw [layout_finish_of_ne he] at hc
      exact .inl ⟨hlt, hc⟩

end TypeEnv

/-! ### Resolutions in progress -/

section

open TypeEnv

/-- Resolving a type advances to tables in which the result is what the type denotes. By value its
size is known. -/
def TypeAdvances (structs aliases : List String) (behind : Bool) (type : TypeExpr) : Prop :=
  ∀ s, s.env.Matched → structs.Nodup →
    Yields s (resolveType structs aliases behind type)
      (fun r t => s.env.Advances structs t.env ∧ t.env.Denotes type r ∧
        (behind = false → t.env.Sized r))
      fun _ _ => True

/-- Resolving the name of a struct advances to tables in which it has a number. -/
def StructAdvances (structs : List String) (behind : Bool) (name : String) : Prop :=
  ∀ s, s.env.Matched → structs.Nodup →
    Yields s (resolveStruct structs behind name)
      (fun r t => s.env.Advances structs t.env ∧ ∃ id, r = .struct id ∧ t.env.idOf? name = some id ∧
        (behind = false → t.env.Solid id)) fun _ _ => True

/-- Laying out a struct whose layout nothing else may touch. -/
def LayoutAdvances (structs aliases : List String) (decl : StructDecl) (id : StructId) : Prop :=
  ∀ s, s.env.Matched → structs.Nodup → decl.name ∉ structs → s.env.idOf? decl.name = some id →
    s.env.structDecl? decl.name = some decl → (s.env.layout id).complete = false →
    Yields s (layOut structs aliases decl id)
      (fun r t => s.env.Advances (decl.name :: structs) t.env ∧ r = .struct id ∧ t.env.Solid id)
      fun _ _ => True

/-- Laying out fields after those of a natural run, which are the fields in `placed`. -/
def FieldsAdvance (structs aliases : List String) (fields : List Binding) (run : FieldRun) : Prop :=
  ∀ s placed, s.env.Matched → structs.Nodup → run.Natural s.env →
    List.Forall₂ (fun field place => place.name = field.name ∧ s.env.Denotes field.type place.type)
      placed run.fields →
    Yields s (layFields structs aliases fields run)
      (fun run' t => s.env.Advances structs t.env ∧ run'.Natural t.env ∧
        List.Forall₂ (fun field place => place.name = field.name ∧
          t.env.Denotes field.type place.type) (placed ++ fields) run'.fields)
      fun _ _ => True

variable {structs aliases : List String} {behind : Bool}

theorem typeAdvances_builtin (b : Builtin) : TypeAdvances structs aliases behind (.builtin b) := by
  intro s matched _
  rw [resolveType]
  exact ⟨.refl matched, denotes_builtin b, fun _ => sized_ofBuiltin b⟩

theorem typeAdvances_pointer {element : TypeExpr}
    (ih : TypeAdvances structs aliases true element) :
    TypeAdvances structs aliases behind (.pointer element) := by
  intro s matched nodup
  rw [resolveType]
  refine yields_bind ((ih s matched nodup).mono ?_ fun _ _ h => h)
  rintro r t ⟨hadvances, hdenotes, -⟩
  exact ⟨hadvances, hdenotes.pointer, fun _ => sized_pointer r⟩

theorem typeAdvances_named {name : String}
    (ihAlias : ∀ target, name ∈ aliases →
      TypeAdvances structs (aliases.erase name) behind target)
    (ihStruct : StructAdvances structs behind name) :
    TypeAdvances structs aliases behind (.named name) := by
  intro s matched nodup
  rw [resolveType]
  refine Resolve.yields_env ?_
  split
  · next target known =>
    split
    · next hmem =>
      refine (ihAlias target hmem s matched nodup).mono ?_ fun _ _ h => h
      rintro r t ⟨hadvances, hdenotes, hsized⟩
      exact ⟨hadvances, hdenotes.target ((hadvances.decls.alias? name).trans known), hsized⟩
    · trivial
  · next hvisible =>
    refine (ihStruct s matched nodup).mono ?_ fun _ _ h => h
    rintro _ t ⟨hadvances, id, rfl, hid, hsolid⟩
    exact ⟨hadvances, denotes_struct ((hadvances.decls.alias? name).trans hvisible) hid,
      fun hvalue => (hsolid hvalue).sized⟩

theorem structAdvances_of_layoutAdvances {name : String}
    (ih : ∀ (env : TypeEnv) (entry : StructEntry), name ∈ structs → ∀ id,
      LayoutAdvances (structs.erase name) env.aliases.names entry.decl id) :
    StructAdvances structs behind name := by
  intro s matched nodup
  rw [resolveStruct]
  refine Resolve.yields_env ?_
  split
  · trivial
  · next entry hentry =>
    have hid : s.env.idOf? name = entry.layout := by
      rw [TypeEnv.idOf?, hentry]
      rfl
    have hdecl := structDecl?_of_get? hentry
    have hname : entry.decl.name = name := matched.decl_name hdecl
    have hfree : entry.decl.name ∉ structs.erase name := by
      rw [hname]
      exact nodup.not_mem_erase
    -- Laying out the struct may touch it and what is still free.
    have hlayout (hmem : name ∈ structs) (id : StructId) {t : ResolveState}
        (hstart : s.env.Advances structs t.env) (hnumber : t.env.idOf? name = some id)
        (unfinished : (t.env.layout id).complete = false) :
        Yields t (layOut (structs.erase name) s.env.aliases.names entry.decl id)
          (fun r u => s.env.Advances structs u.env ∧ ∃ id, r = .struct id ∧
            u.env.idOf? name = some id ∧ (false = false → u.env.Solid id)) fun _ _ => True := by
      refine (ih s.env entry hmem id t hstart.matched (nodup.erase name) hfree (hname ▸ hnumber)
        (hname ▸ (hstart.decls.structDecl? name).trans hdecl) unfinished).mono ?_ fun _ _ h => h
      rintro _ u ⟨hlaid, rfl, hsolid⟩
      refine ⟨hstart.trans (hlaid.mono fun other hother => ?_), id, rfl,
        hlaid.numbers name id hnumber, fun _ => hsolid⟩
      rcases List.mem_cons.1 hother with rfl | hrest
      · exact hname ▸ hmem
      · exact List.mem_of_mem_erase hrest
    cases behind with
    | true =>
      rw [if_pos rfl]
      cases hnumber : entry.layout with
      | some id =>
        exact ⟨.refl matched, id, rfl, hid.trans hnumber, fun hvalue => Bool.noConfusion hvalue⟩
      | none =>
        exact ⟨Advances.enroll matched hentry hnumber, _, rfl,
          idOf?_enroll.trans (if_pos rfl), fun hvalue => Bool.noConfusion hvalue⟩
    | false =>
      rw [if_neg Bool.false_ne_true]
      split
      · next hmem =>
        cases hnumber : entry.layout with
        | some id =>
          have hid := hid.trans hnumber
          dsimp only
          split
          · next hcomplete =>
            exact ⟨.refl matched, id, rfl, hid,
              fun _ => matched.solid id ⟨matched.valid name id hid, hcomplete⟩⟩
          · next hcomplete =>
            exact hlayout hmem id (.refl matched) hid (Bool.eq_false_iff.2 hcomplete)
        | none =>
          refine hlayout hmem _ (Advances.enroll matched hentry hnumber)
            (idOf?_enroll.trans (if_pos rfl)) ?_
          show ((s.env.enroll name entry).layout ⟨s.env.layouts.size⟩).complete = false
          rw [layout_enroll_self]
          rfl
      · trivial

theorem layoutAdvances_of_fieldsAdvance {decl : StructDecl} {id : StructId}
    (ih : FieldsAdvance structs aliases decl.fields .empty) :
    LayoutAdvances structs aliases decl id := by
  intro s matched nodup hfree hid hdecl unfinished
  rw [layOut]
  refine yields_bind ((ih s [] matched nodup FieldRun.natural_empty .nil).mono ?_ fun _ _ h => h)
  rintro run t ⟨hfields, hnatural, hfits⟩
  have hnumber := hfields.numbers decl.name id hid
  have hopen : (t.env.layout id).complete = false := by
    rw [hfields.idle decl.name id hfree hid, unfinished]
  have hdecl' : t.env.structDecl? decl.name = some decl := (hfields.decls.structDecl? _).trans hdecl
  refine ⟨(hfields.mono fun _ => List.mem_cons_of_mem _).trans
    (Advances.finish hfields.matched hnumber hopen hdecl' hnatural hfits), rfl, ?_⟩
  exact (hfields.matched.finish hnumber hopen hdecl' hnatural hfits).2

theorem fieldsAdvance_nil {run : FieldRun} : FieldsAdvance structs aliases [] run := by
  intro s placed matched _ natural hfits
  rw [layFields]
  refine ⟨.refl matched, natural, ?_⟩
  rwa [List.append_nil]

theorem fieldsAdvance_cons {field : Binding} {fields : List Binding} {run : FieldRun}
    (ihType : TypeAdvances structs aliases false field.type)
    (ihFields : ∀ type env, FieldsAdvance structs aliases fields (run.add env field.name type)) :
    FieldsAdvance structs aliases (field :: fields) run := by
  intro s placed matched nodup natural hfits
  rw [layFields]
  refine yields_bind ((ihType s matched nodup).mono ?_ fun _ _ h => h)
  rintro type t ⟨hfirst, hdenotes, hsized⟩
  refine Resolve.yields_env ((ihFields type t.env t (placed ++ [field]) hfirst.matched nodup
    ((natural.mono hfirst.finished).add field.name (hsized rfl)) ?_).mono ?_ fun _ _ h => h)
  · rw [FieldRun.add]
    refine List.rel_append (hfits.imp fun _ _ hf => ⟨hf.1, ?_⟩) (.cons ⟨rfl, hdenotes⟩ .nil)
    exact hf.2.later hfirst.decls hfirst.numbers
  · rintro run' u ⟨hrest, hnatural, hfits'⟩
    rw [List.append_assoc, List.singleton_append] at hfits'
    exact ⟨hfirst.trans hrest, hnatural, hfits'⟩

private theorem advances_resolution :
    (∀ structs aliases behind type, TypeAdvances structs aliases behind type) ∧
    (∀ structs behind name, StructAdvances structs behind name) ∧
    (∀ structs aliases decl id, LayoutAdvances structs aliases decl id) ∧
    ∀ structs aliases fields run, FieldsAdvance structs aliases fields run := by
  apply resolveType.mutual_induct
  case case1 => exact fun _ _ _ b => typeAdvances_builtin b
  case case2 => exact fun _ _ _ _ ih => typeAdvances_pointer ih
  case case3 => exact fun _ _ _ _ ihAlias ihStruct => typeAdvances_named ihAlias ihStruct
  case case4 => exact fun _ _ _ ih => structAdvances_of_layoutAdvances ih
  case case5 => exact fun _ _ _ _ ih => layoutAdvances_of_fieldsAdvance ih
  case case6 => exact fun _ _ _ => fieldsAdvance_nil
  case case7 => exact fun _ _ _ _ _ ihType ihFields => fieldsAdvance_cons ihType ihFields

/-- Laying out the waiting structs may touch all structs. -/
theorem advances_layOutWaiting (fuel : Nat) (s : ResolveState) (matched : s.env.Matched) :
    Yields s (layOutWaiting fuel) (fun _ t => s.env.Advances s.env.structs.names t.env)
      fun _ _ => True := by
  induction fuel generalizing s with
  | zero => exact .refl matched
  | succ fuel ih =>
    rw [layOutWaiting]
    refine yields_get ?_
    split
    · exact .refl matched
    · next name rest _ =>
      refine yields_bind
        (show Yields s (set { s with waiting := rest } : Resolve PUnit) _ _ from ?_)
      refine yields_bind ((advances_resolution.2.1 s.env.structs.names false name
        { s with waiting := rest } matched matched.nodup_names).mono ?_ fun _ _ h => h)
      rintro r t ⟨hstep, -⟩
      have hnames : t.env.structs.names = s.env.structs.names := hstep.decls.names
      refine (ih t hstep.matched).mono (fun _ u hrest => ?_) fun _ _ h => h
      rw [hnames] at hrest
      exact hstep.trans hrest

end

namespace TypeEnv

variable {env : TypeEnv} {type : TypeExpr} {id : StructId}

/-- What a resolution that succeeds has done. -/
theorem Matched.resolve_of_ok (matched : env.Matched) {r : ResolvedType}
    (h : (env.resolve type).answer = .ok r) :
    env.Advances env.structs.names (env.resolve type).env ∧
      (env.resolve type).env.Denotes type r := by
  have hall : Yields ⟨env, [], []⟩ (resolveAll type)
      (fun r t => env.Advances env.structs.names t.env ∧ t.env.Denotes type r) fun _ _ => True := by
    refine Resolve.yields_env (yields_bind ((advances_resolution.1 _ _ false type ⟨env, [], []⟩
      matched matched.nodup_names).mono ?_ fun _ _ h => h))
    rintro r t ⟨htype, hdenotes, -⟩
    have hnames : t.env.structs.names = env.structs.names := htype.decls.names
    refine yields_bind ((advances_layOutWaiting env.structs.size t htype.matched).mono ?_
      fun _ _ h => h)
    intro _ u hwaiting
    rw [hnames] at hwaiting
    exact ⟨htype.trans hwaiting, hdenotes.later hwaiting.decls hwaiting.numbers⟩
  rw [TypeEnv.resolve] at h ⊢
  split at h
  · next hrun =>
    cases h
    exact hall.ok hrun
  · cases h

end TypeEnv

end Offside
