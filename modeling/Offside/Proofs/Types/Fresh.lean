import Offside.Proofs.Types.Current
import Offside.Proofs.Types.Twin

/-!
# Answers as of new tables

Tables answer as new tables with the same declarations do for every type that reaches no layout out
of date: with the same error, or with the same type and the same layouts, but for the numbers of
structs. For a type that resolves this is the only case in which the answers are the same.

## Main definitions

* `Offside.TypeEnv.Alike`: the same type in two tables, with the same layouts.
* `Offside.TypeEnv.AsFresh`: a type for which tables answer as new ones do.

## Main results

* `Offside.TypeEnv.Reachable.asFresh`, `Offside.TypeEnv.Reachable.current`: tables answer as new
  ones do for a type that resolves exactly if it is current.
-/

namespace Offside.TypeEnv

variable {env env' env₁ env₁' fresh : TypeEnv} {type t u : TypeExpr} {r r' : ResolvedType}
  {name : String} {id : StructId} {decl : StructDecl} {layout layout' : StructLayout}

/-- The same layout in two tables, in which structs may have different numbers. -/
structure SameLayout (env env' : TypeEnv) (layout layout' : StructLayout) : Prop where
  name : layout'.name = layout.name
  size : layout'.size = layout.size
  align : layout'.align = layout.align
  complete : layout'.complete = layout.complete
  fields : List.Forall₂ (fun field field' => field'.name = field.name ∧
    field'.offset = field.offset ∧ Twin env env' field.type field'.type)
    layout.fields layout'.fields

/-- The same type in two tables: all that may differ are the numbers of structs, also in the layouts
of all structs that it reaches. -/
structure Alike (env env' : TypeEnv) (type : TypeExpr) (r r' : ResolvedType) : Prop where
  twin : Twin env env' r r'
  layouts : ∀ name, env.ReachesStruct type name → ∃ id id', env.idOf? name = some id ∧
    env'.idOf? name = some id' ∧ SameLayout env env' (env.layout id) (env'.layout id')

/-- The tables `env` answer as `fresh` does. -/
structure AsFresh (env fresh : TypeEnv) (type : TypeExpr) : Prop where
  error : ∀ error, (env.resolve type).answer = .error error ↔
    (fresh.resolve type).answer = .error error
  ok : ∀ r, (env.resolve type).answer = .ok r → ∃ r', (fresh.resolve type).answer = .ok r' ∧
    Alike (env.resolve type).env (fresh.resolve type).env type r r'

theorem SameLayout.mono (h : SameLayout env env' layout layout') (keeps : env.KeepsNumbers env₁)
    (keeps' : env'.KeepsNumbers env₁') : SameLayout env₁ env₁' layout layout' :=
  ⟨h.name, h.size, h.align, h.complete,
    h.fields.imp fun _ _ hf => ⟨hf.1, hf.2.1, hf.2.2.mono keeps keeps'⟩⟩

/-- Two layouts that fit one declaration are the same. -/
theorem LaidOut.sameLayout (h : env.LaidOut decl layout) (h' : env'.LaidOut decl layout')
    (same : env.SameDecls env') : SameLayout env env' layout layout' := by
  obtain ⟨extent, hextent, hoffsets, hsize⟩ := h.placed
  obtain ⟨extent', hextent', hoffsets', hsize'⟩ := h'.placed
  have hmap : decl.fields.map extent = decl.fields.map extent' :=
    List.map_congr_left fun f hf => (same.hasExtent (hextent f hf)).unique (hextent' f hf)
  rw [← hmap] at hoffsets' hsize'
  obtain ⟨hbytes, halign⟩ := Extent.mk.inj (hsize'.trans hsize.symm)
  refine ⟨h'.name.trans h.name.symm, hbytes, halign, h'.complete.trans h.complete.symm, ?_⟩
  have hsame := hoffsets'.trans hoffsets.symm
  refine List.forall₂_iff_get.2 ⟨h.fields.length_eq.symm.trans h'.fields.length_eq,
    fun i hi hi' => ?_⟩
  have hdecl : i < decl.fields.length := h.fields.length_eq.symm ▸ hi
  have hfield := h.fields.get hdecl hi
  have hfield' := h'.fields.get hdecl hi'
  refine ⟨hfield'.1.trans hfield.1.symm, ?_, hfield.2.twin hfield'.2 same.aliases⟩
  have hget := congrArg (fun offsets => offsets[i]?) hsame
  simpa [hi, hi'] using hget

/-! ### Current types -/

/-- After a resolution the type is current still: what is laid out meanwhile is up to date. -/
theorem Reachable.current_resolve (reachable : env.Reachable) (current : env.Current type)
    (other : TypeExpr) : (env.resolve other).env.Current type := by
  have hadvances := reachable.advances_resolve reachable.matched other
  have hclosed := (Reachable.call reachable (.resolve other)).closed
  intro name id hname hid
  have hfinished := hclosed.finished (hadvances.matched.valid name id hid)
  refine (hadvances.fresh id hfinished).elim (fun hold => ?_) fun hnew => hnew
  -- It belonged to a struct before, and that is the same one.
  obtain ⟨owner, howner⟩ := reachable.matched.owned id hold.1
  obtain rfl : owner = name := (hadvances.matched.titled owner id
    (hadvances.numbers owner id howner)).symm.trans (hadvances.matched.titled name id hid)
  have hreached : env.ReachesStruct type owner :=
    ⟨hadvances.decls.reaches ▸ hname.1, (hadvances.decls.alias? owner).symm.trans hname.2⟩
  exact (current owner id hreached howner).later hadvances.decls hadvances.numbers
    (hadvances.finished id hold).2

theorem Reachable.alike (reachable : env.Reachable) (sound' : env'.Sound [])
    (same : env.SameDecls env') (current : env.Current type) (h : env.Denotes type r)
    (h' : env'.Denotes type r') : Alike env env' type r r' := by
  refine ⟨h.twin h' same.aliases, fun name hname => ?_⟩
  -- Without the numbers that are withheld, the tables fit the declarations as the others do.
  have sound := reachable.matched.sound_withhold reachable.closed
  have hsame : env.withhold.SameDecls env' := trans_of SameDecls (sameDecls_withhold env).symm same
  have hreaches : env.withhold.Reaches type (.named name) :=
    (sameDecls_withhold env).reaches ▸ hname.1
  have hnumber {tables : TypeEnv} {r : ResolvedType} (hvisible : tables.alias? name = none)
      (h : tables.Denotes (.named name) r) : ∃ id, tables.idOf? name = some id := by
    obtain ⟨u, hu, hr⟩ := h
    cases hu with
    | target known => exact absurd known (hvisible ▸ nofun)
    | struct => exact (Option.map_eq_some_iff.1 hr).imp fun _ hid => hid.1
  obtain ⟨s, hs⟩ := sound.denotes_of_reaches (current.denotes_withhold h) hreaches
  obtain ⟨s', hs'⟩ := sound'.denotes_of_reaches h' (hsame.reaches ▸ hreaches)
  obtain ⟨id, hid⟩ := hnumber (((sameDecls_withhold env).alias? name).trans hname.2) hs
  obtain ⟨id', hid'⟩ := hnumber ((same.alias? name).trans hname.2) hs'
  obtain ⟨decl, hdecl⟩ := exists_structDecl? hid
  have hlaid := sound.laidOut name id decl hid (sound.complete hid) hdecl
  have hlaid' := sound'.laidOut name id' decl hid' (sound'.complete hid')
    ((hsame.structDecl? name).trans hdecl)
  exact ⟨id, id', env.keepsNumbers_withhold name id hid, hid',
    (hlaid.sameLayout hlaid' hsame).mono env.keepsNumbers_withhold fun _ _ h => h⟩

/-- Tables answer as new tables do for a type that reaches no layout out of date. -/
theorem Reachable.asFresh (reachable : env.Reachable) (same : fresh.SameDecls env)
    (unresolved : fresh.Unresolved) (current : env.Current type) : env.AsFresh fresh type := by
  have sound := reachable.matched.sound_withhold reachable.closed
  have herror (error : TypeError) : (env.resolve type).answer = .error error ↔
      (fresh.resolve type).answer = .error error := by
    rw [← current.answer_resolve_withhold reachable.unambiguous]
    exact sound.resolve_error_iff (trans_of SameDecls same (sameDecls_withhold env)) unresolved
      type error
  refine ⟨herror, fun r hr => ?_⟩
  have hright := unresolved.sound.resolvesTo type
  have hsame := trans_of SameDecls (env.sameDecls_resolve type).symm
    (trans_of SameDecls same.symm (fresh.sameDecls_resolve type))
  generalize fresh.resolve type = resolution at *
  cases hright with
  | error => cases hr.symm.trans ((herror _).2 rfl)
  | ok _ sound' denotes' =>
    have hreachable : (env.resolve type).env.Reachable := .call reachable (.resolve type)
    exact ⟨_, rfl, hreachable.alike sound' hsame (reachable.current_resolve current type)
      (reachable.matched.resolve_of_ok hr).2 denotes'⟩

/-! ### Types that are not current -/

/-- A type denotes the twin of what it denotes in the other table. -/
theorem Twin.typeOf? (h : Twin env env' r r') (sound' : env'.Sound [])
    (h' : env'.typeOf? u = some r') : env.typeOf? u = some r := by
  induction u generalizing r r' with
  | builtin b =>
    cases h'
    cases b <;> cases h <;> rfl
  | named name =>
    obtain ⟨id', hid', rfl⟩ := Option.map_eq_some_iff.1 h'
    cases h with
    | struct left right =>
      obtain rfl := sound'.idOf?_injective right hid'
      rw [TypeEnv.typeOf?, left]
      rfl
  | pointer element ih =>
    obtain ⟨s', hs', rfl⟩ := Option.map_eq_some_iff.1 h'
    cases h with
    | pointer h =>
      rw [TypeEnv.typeOf?, ih h hs']
      rfl

/-- What a type denotes in later tables it denoted before, if it is covered. -/
theorem Advances.typeOf?_of_covers {structs : List String} (advances : env.Advances structs env')
    (matched : env.Matched) (covers : env.Covers r) (h : env'.typeOf? u = some r) :
    env.typeOf? u = some r := by
  induction u generalizing r with
  | builtin b => exact h
  | named name =>
    obtain ⟨id, hid, rfl⟩ := Option.map_eq_some_iff.1 h
    obtain ⟨owner, howner⟩ := matched.owned id (covers id List.mem_cons_self)
    obtain rfl : owner = name := (advances.matched.titled owner id
      (advances.numbers owner id howner)).symm.trans (advances.matched.titled name id hid)
    rw [TypeEnv.typeOf?, howner]
    rfl
  | pointer element ih =>
    obtain ⟨s, hs, rfl⟩ := Option.map_eq_some_iff.1 h
    have hcovers : env.Covers s := covers
    rw [TypeEnv.typeOf?, ih hcovers hs]
    rfl

/-- A type that resolves is current if tables answer as new ones do. -/
theorem Reachable.current (reachable : env.Reachable) (same : fresh.SameDecls env)
    (unresolved : fresh.Unresolved) (hr : (env.resolve type).answer = .ok r)
    (asFresh : env.AsFresh fresh type) : env.Current type := by
  intro name id hname hid
  have hadvances := reachable.advances_resolve reachable.matched type
  have hfresh := unresolved.sound.resolve type
  have hsame := trans_of SameDecls (env.sameDecls_resolve type).symm
    (trans_of SameDecls same.symm (fresh.sameDecls_resolve type))
  obtain ⟨r', -, halike⟩ := asFresh.ok r hr
  have hreached : (env.resolve type).env.ReachesStruct type name :=
    ⟨hadvances.decls.reaches ▸ hname.1, (hadvances.decls.alias? name).trans hname.2⟩
  obtain ⟨id₁, id', hid₁, hid', hlayout⟩ := halike.layouts name hreached
  obtain rfl : id = id₁ := Option.some.inj ((hadvances.numbers name id hid).symm.trans hid₁)
  have hlt := reachable.matched.valid name id hid
  rw [(hadvances.finished id (reachable.closed.finished hlt)).2] at hlayout
  obtain ⟨decl, hdecl⟩ := exists_structDecl? hid
  have hdecl' := (same.structDecl? name).symm.trans hdecl
  have hlaid := hfresh.laidOut name id' decl hid' (hfresh.complete hid')
    (((fresh.sameDecls_resolve type).structDecl? name).trans hdecl')
  refine ⟨decl, by rw [reachable.matched.titled name id hid, hdecl], ?_⟩
  refine List.forall₂_iff_get.2
    ⟨hlaid.fields.length_eq.trans hlayout.fields.length_eq.symm, fun i hi hi' => ?_⟩
  have hi'' : i < ((fresh.resolve type).env.layout id').fields.length :=
    hlaid.fields.length_eq ▸ hi
  obtain ⟨hfieldName, u, hu, hfield⟩ := hlaid.fields.get hi hi''
  obtain ⟨hsameName, -, htwin⟩ := hlayout.fields.get hi' hi''
  have hcovers := reachable.closed.fields _ (mem_fieldTypes hlt (List.get_mem _ ⟨i, hi'⟩))
  refine ⟨hsameName.symm.trans hfieldName, u, ?_, ?_⟩
  · exact (trans_of SameDecls hsame.symm (env.sameDecls_resolve type).symm).expands hu
  · exact hadvances.typeOf?_of_covers reachable.matched hcovers (htwin.typeOf? hfresh hfield)

end Offside.TypeEnv
