import Mathlib
import Offside.Proofs.Types.Resolving

/-!
# Which types can be resolved

A type can be resolved exactly if everything it reaches in the graph of declarations is declared,
no alias in it is a cycle of targets and pointers, and no struct in it holds itself by value. Then
it is described by the type with its aliases replaced, and every struct that it reaches is laid
out; otherwise the error blames a name that is a reason.

Resolution finds this out without following a path twice: the invariant is that a struct with an
unfinished layout is being laid out or waits, so that nothing is unfinished once no struct waits.

## Main definitions

* `Offside.TypeEnv.Unresolved`: tables in which no struct has been laid out.

## Main results

* `Offside.TypeEnv.Sound.resolvable`: where every layout is finished, what denotes a type is
  resolvable.
* `Offside.TypeEnv.resolve_iff_resolvable`: which types can be resolved, and to what.
-/

namespace Offside

open Relation

variable {env : TypeEnv}

/-! ### The structs that wait -/

/-- A resolution starts with every layout finished. -/
theorem TypeEnv.Sound.start (sound : env.Sound []) : ResolveState.Sound env [] ⟨env, [], []⟩ :=
  ⟨refl_of TypeEnv.SameDecls env, sound, fun _ h => absurd h List.not_mem_nil⟩

/-- A struct that no longer waits is about to be laid out. -/
theorem ResolveState.Sound.pop {s : ResolveState} {name : String} {rest : List String}
    (hs : s.Sound env []) (hwaiting : s.waiting = name :: rest) :
    ResolveState.Sound env [name] { s with waiting := rest } := by
  refine ⟨hs.decls, ?_, fun other hother => hs.visible other ?_⟩
  · have := hs.sound
    rwa [hwaiting] at this
  · rw [hwaiting]
    exact List.mem_cons_of_mem _ hother

theorem TypeEnv.freeStructs_names {tables : TypeEnv} (h : env.SameDecls tables)
    (type : TypeExpr) : env.FreeStructs tables.structs.names type := by
  intro name decl hstruct hfree
  have hdecl : tables.structDecl? name = some decl := (h.structDecl? name).trans hstruct.2
  rw [structDecl?] at hdecl
  obtain ⟨entry, hentry, -⟩ := Option.map_eq_some_iff.1 hdecl
  exact absurd (mem_names hentry) hfree

theorem TypeEnv.freeAliases_names {tables : TypeEnv} (h : env.SameDecls tables)
    (type : TypeExpr) : env.FreeAliases tables.aliases.names type := by
  intro name target known hfree
  have hknown : tables.alias? name = some target := (h.alias? name).trans known
  exact absurd (mem_names hknown) hfree

/-- What is true once all structs that `root` reaches have been laid out. -/
structure ResolveState.Settled (env : TypeEnv) (root : TypeExpr) (s t : ResolveState) : Prop where
  sound : t.env.Sound []
  grows : s.env.Grows t.env
  status : ∀ name, ¬ env.Reaches root (.named name) → t.env.status name = s.env.status name

theorem ResolveState.Progress.settled {root : TypeExpr} {s t u : ResolveState}
    (h : s.Progress env [] root t) (k : t.Settled env root u) : s.Settled env root u :=
  ⟨k.sound, trans_of TypeEnv.Grows h.grows k.grows,
    fun name hname => (k.status name hname).trans (h.status name hname)⟩

/-- If there is fuel for the structs that wait and for those that may begin to, none is left
waiting. -/
theorem yields_layOutWaiting (fuel : Nat) (root : TypeExpr) (s : ResolveState)
    (hs : s.Sound env []) (waits : ∀ name ∈ s.waiting, env.Reaches root (.named name))
    (enough : s.env.unnumbered + s.waiting.length ≤ fuel) :
    Yields s (layOutWaiting fuel) (fun _ t => s.Settled env root t)
      fun e _ => env.Culprit root e := by
  have hdone {s : ResolveState} (hs : s.Sound env []) (hnone : s.waiting = []) :
      s.Settled env root s := by
    have := hs.sound
    rw [hnone] at this
    exact ⟨this, refl_of TypeEnv.Grows _, fun _ _ => rfl⟩
  induction fuel generalizing s with
  | zero => exact hdone hs (List.length_eq_zero_iff.1 (by omega))
  | succ fuel ih =>
    rw [layOutWaiting]
    refine yields_get ?_
    split
    · next hnone => exact hdone hs hnone
    · next name rest hwaiting =>
      have hpopped := hs.pop hwaiting
      have hvisible : env.alias? name = none := hs.visible name (hwaiting ▸ List.mem_cons_self)
      rw [hwaiting] at waits enough
      obtain ⟨hreach, hreaches⟩ := List.forall_mem_cons.1 waits
      rw [List.length_cons] at enough
      refine yields_bind (show Yields s (set { s with waiting := rest } : Resolve PUnit) _ _ from ?_)
      refine yields_bind ((yields_resolveStruct s.env.structs.names false name [] _ hpopped hvisible
        fun _ => TypeEnv.freeStructs_names hs.decls _).mono ?_ fun e t he => he.of_reaches hreach)
      rintro r t ⟨hstep, -⟩
      have hstep := hstep.of_reaches hreach
      have hbudget : t.env.unnumbered + t.waiting.length ≤ s.env.unnumbered + rest.length :=
        hstep.budget
      refine (ih t hstep.sound (fun other hother => hstep.waiting_reaches hreaches hother)
        (by omega)).mono ?_ fun e u he => he
      rintro - u hrest
      have hboth := hstep.settled hrest
      exact ⟨hboth.sound, hboth.grows, hboth.status⟩

/-- The outcomes of a resolution that starts with every layout finished. -/
theorem yields_resolveAll (sound : env.Sound []) (type : TypeExpr) :
    Yields ⟨env, [], []⟩ (resolveAll type)
      (fun r t => ResolveState.Settled env type ⟨env, [], []⟩ t ∧ t.env.Denotes type r)
      fun e _ => env.Culprit type e := by
  have hs := sound.start
  refine Resolve.yields_env ?_
  refine yields_bind ((yields_resolveType _ _ false type [] _ hs
    (TypeEnv.freeAliases_names hs.decls type) fun _ => TypeEnv.freeStructs_names hs.decls type).mono
      ?_ fun e t he => he)
  rintro r t ⟨htype, hr⟩
  have hbudget : t.env.unnumbered + t.waiting.length ≤ env.unnumbered + 0 := htype.budget
  refine yields_bind ((yields_layOutWaiting env.structs.size type t htype.sound
    (fun name hname => htype.waiting_reaches (fun _ h => absurd h List.not_mem_nil) hname)
    (Nat.le_trans hbudget env.unnumbered_le)).mono ?_ fun e u he => he)
  rintro - u hrest
  exact ⟨htype.settled hrest, hrest.grows.denotes hr.denotes⟩

namespace TypeEnv

variable {type type' : TypeExpr} {name : String} {r : ResolvedType} {decl : StructDecl}

/-! ### Where every layout is finished -/

theorem exists_idOf? (h : env.IsStruct name decl) (hr : env.Denotes (.named name) r) :
    ∃ id, env.idOf? name = some id ∧ r = .struct id := by
  obtain ⟨u, hu, hr⟩ := hr
  cases hu with
  | target known => exact absurd known h.not_target
  | struct =>
    obtain ⟨id, hid, rfl⟩ := Option.map_eq_some_iff.1 hr
    exact ⟨id, hid, rfl⟩

theorem exists_structDecl? {id : StructId} (h : env.idOf? name = some id) :
    ∃ decl, env.structDecl? name = some decl := by
  obtain ⟨entry, hentry, -⟩ := Option.bind_eq_some_iff.1 h
  exact ⟨entry.decl, structDecl?_of_get? hentry⟩

namespace Sound

variable (sound : env.Sound [])
include sound

theorem complete {id : StructId} (h : env.idOf? name = some id) :
    (env.layout id).complete = true := by
  by_contra hc
  exact absurd (sound.pending name id h (Bool.eq_false_iff.2 hc)) List.not_mem_nil

/-- What denotes a type has its extent. -/
theorem hasExtent_of_denotes (h : env.Denotes type r) : env.HasExtent type (env.extentOf r) := by
  obtain ⟨u, hu, hr⟩ := h
  induction hu generalizing r with
  | builtin b =>
    cases hr
    rw [extentOf_ofBuiltin]
    exact .builtin b
  | pointer =>
    obtain ⟨r, -, rfl⟩ := Option.map_eq_some_iff.1 hr
    exact .pointer _
  | target known _ ih => exact .target known (ih hr)
  | struct =>
    obtain ⟨id, hid, rfl⟩ := Option.map_eq_some_iff.1 hr
    obtain ⟨decl, hdecl⟩ := exists_structDecl? hid
    exact sound.hasExtent hid (sound.complete hid) hdecl

/-- All that is reached from a type that denotes something denotes something. -/
theorem denotes_of_reaches (h : env.Denotes type r) (reaches : env.Reaches type type') :
    ∃ r', env.Denotes type' r' := by
  induction reaches with
  | refl => exact ⟨r, h⟩
  | tail _ step ih =>
    obtain ⟨r', u, hu, hr⟩ := ih
    obtain ⟨edge, step⟩ := step
    cases step with
    | pointer =>
      cases hu with
      | pointer hu =>
        obtain ⟨element, helement, -⟩ := Option.map_eq_some_iff.1 hr
        exact ⟨element, _, hu, helement⟩
    | target known =>
      cases hu with
      | target known' hu =>
        rw [known, Option.some.injEq] at known'
        exact ⟨r', u, known' ▸ hu, hr⟩
      | struct unknown =>
        rw [known] at unknown
        cases unknown
    | field struct mem =>
      obtain ⟨id, hid, -⟩ := exists_idOf? struct ⟨u, hu, hr⟩
      have hfields := (sound.laidOut _ id _ hid (sound.complete hid) struct.2).fields
      obtain ⟨n, hn, rfl⟩ := List.getElem_of_mem mem
      have hlength := hfields.length_eq
      exact ⟨_, ((List.forall₂_iff_get.1 hfields).2 n hn (hlength ▸ hn)).2⟩

/-- What denotes something can be resolved. -/
theorem resolvable (h : env.Denotes type r) : env.Resolvable type := by
  refine ⟨fun name hname => ?_, fun name hname => ?_, fun name hname => ?_⟩
  all_goals obtain ⟨r', hr'⟩ := sound.denotes_of_reaches h hname
  · rintro ⟨unknown, undeclared⟩
    obtain ⟨u, hu, hr'⟩ := hr'
    cases hu with
    | target known =>
      rw [unknown] at known
      cases known
    | struct =>
      obtain ⟨id, hid, -⟩ := Option.map_eq_some_iff.1 hr'
      obtain ⟨decl, hdecl⟩ := exists_structDecl? hid
      rw [undeclared] at hdecl
      cases hdecl
  · rintro ⟨-, hcycle⟩
    obtain ⟨u, hu, -⟩ := hr'
    exact hu.not_expanding hcycle
  · rintro ⟨-, hcycle⟩
    exact (sound.hasExtent_of_denotes hr').not_holding hcycle

end Sound

/-! ### Resolving a type -/

/-- The outcomes of resolving a type in tables whose layouts are all finished. -/
inductive ResolvesTo (env : TypeEnv) (type : TypeExpr) : Resolution → Prop
  | ok {r : ResolvedType} {env' : TypeEnv} {notes : List Note} (grows : env.Grows env')
    (sound : env'.Sound []) (denotes : env'.Denotes type r)
    (status : ∀ name, ¬ env.Reaches type (.named name) → env'.status name = env.status name) :
    ResolvesTo env type ⟨.ok r, env', notes⟩
  | error {error : TypeError} {env' : TypeEnv} {notes : List Note} (restores : env.Restores env')
    (culprit : env.Culprit type error) : ResolvesTo env type ⟨.error error, env', notes⟩

/-- Every layout is finished if no struct is pending. -/
theorem Sound.rested (sound : env.Sound []) : env.Rested :=
  fun name id hid => ⟨sound.valid name id hid, sound.complete hid⟩

theorem Sound.resolvesTo (sound : env.Sound []) (type : TypeExpr) :
    env.ResolvesTo type (env.resolve type) := by
  have hall := yields_resolveAll sound type
  have hstays := stays_resolveAll sound.rested type
  rw [resolve]
  split
  · next hrun =>
    obtain ⟨hsettled, hdenotes⟩ := hall.ok hrun
    exact .ok hsettled.grows hsettled.sound hdenotes hsettled.status
  · next hrun =>
    exact .error ((hstays.error hrun).restores_rollback sound.rested) (hall.error hrun)

/-- Resolution succeeds exactly if the type is resolvable. -/
theorem Sound.exists_ok_iff (sound : env.Sound []) (type : TypeExpr) :
    (∃ r, (env.resolve type).answer = .ok r) ↔ env.Resolvable type := by
  have hresolves := sound.resolvesTo type
  generalize env.resolve type = resolution at *
  cases hresolves with
  | ok grows sound' denotes =>
    refine ⟨fun _ => ?_, fun _ => ⟨_, rfl⟩⟩
    exact grows.toSameDecls.resolvable.1 (sound'.resolvable denotes)
  | error _ culprit =>
    refine ⟨?_, fun h => absurd h culprit.not_resolvable⟩
    rintro ⟨r, ⟨⟩⟩

/-- No struct has been laid out, and every struct is found under its own name. -/
structure Unresolved (env : TypeEnv) : Prop where
  layouts : env.layouts = #[]
  entries : ∀ name entry, env.structs.get? name = some entry →
    entry.layout = none ∧ entry.decl.name = name

theorem Unresolved.idOf? (h : env.Unresolved) (name : String) : env.idOf? name = none := by
  rw [TypeEnv.idOf?]
  cases hentry : env.structs.get? name with
  | none => rfl
  | some entry => exact (h.entries name entry hentry).1

theorem Unresolved.sound (h : env.Unresolved) : env.Sound [] := by
  have hnone {name : String} {id : StructId} (hid : env.idOf? name = some id) : False := by
    rw [h.idOf? name] at hid
    cases hid
  refine ⟨fun name decl hd => ?_, fun _ _ hid => (hnone hid).elim, fun _ _ hid => (hnone hid).elim,
    fun _ _ hid => (hnone hid).elim, fun _ _ _ hid => (hnone hid).elim,
    fun _ _ hid => (hnone hid).elim⟩
  obtain ⟨entry, hentry, rfl⟩ := Option.map_eq_some_iff.1 hd
  exact (h.entries name entry hentry).2

theorem unresolved_empty : empty.Unresolved := ⟨rfl, nofun⟩

theorem Unresolved.declareAlias (h : env.Unresolved) (name : String) (target : TypeExpr) :
    (env.declareAlias name target).Unresolved := ⟨h.layouts, h.entries⟩

theorem Unresolved.declareStruct (h : env.Unresolved) (decl : StructDecl) :
    (env.declareStruct decl).Unresolved := by
  rw [TypeEnv.declareStruct]
  split
  · exact h
  · refine ⟨h.layouts, fun name entry hentry => ?_⟩
    dsimp only at hentry
    rw [Table.get?_insert] at hentry
    split at hentry
    · next he =>
      cases hentry
      exact ⟨rfl, he⟩
    · exact h.entries name entry hentry

theorem unresolved_initial : initial.Unresolved := by
  rw [initial]
  refine List.foldlRecOn defaultAliases _ unresolved_empty fun env h entry _ => ?_
  exact h.declareAlias entry.1 _

/-- In tables without layouts, resolution succeeds exactly if the type is resolvable. Then the type
is described by its text with all aliases replaced, and every struct that it reaches has a finished
layout that fits its declaration. Otherwise the error names a culprit. -/
theorem resolve_iff_resolvable (unresolved : env.Unresolved) (type : TypeExpr) :
    ((∃ r, (env.resolve type).answer = .ok r) ↔ env.Resolvable type) ∧
      (∀ r, (env.resolve type).answer = .ok r →
        (∃ expanded, env.Expands type expanded ∧
          (env.resolve type).env.describe r = expanded.text) ∧
        ∀ name decl, env.Reaches type (.named name) → env.IsStruct name decl →
          ∃ layout, (env.resolve type).env.layoutOf? name = some layout ∧
            layout.complete = true ∧ (env.resolve type).env.LaidOut decl layout) ∧
      ∀ error, (env.resolve type).answer = .error error → env.Culprit type error := by
  refine ⟨unresolved.sound.exists_ok_iff type, ?_, ?_⟩
  · intro r hr
    have hresolves := unresolved.sound.resolvesTo type
    generalize env.resolve type = resolution at *
    cases hresolves with
    | error => cases hr
    | @ok _ env' _ grows sound denotes =>
      cases hr
      obtain ⟨expanded, hexpands, htype⟩ := id denotes
      refine ⟨⟨expanded, grows.symm.expands hexpands, sound.describe_typeOf? htype⟩,
        fun name decl hreaches hstruct => ?_⟩
      have hstruct' := grows.isStruct.2 hstruct
      rw [← grows.reaches] at hreaches
      obtain ⟨r', hr'⟩ := sound.denotes_of_reaches denotes hreaches
      obtain ⟨id, hid, -⟩ := exists_idOf? hstruct' hr'
      have hlaid := sound.laidOut name id decl hid (sound.complete hid) hstruct'.2
      exact ⟨env'.layout id, layoutOf?_of_idOf? hid, hlaid.complete, hlaid⟩
  · intro error herror
    have hresolves := unresolved.sound.resolvesTo type
    generalize env.resolve type = resolution at *
    cases hresolves with
    | ok => cases herror
    | error _ culprit =>
      cases herror
      exact culprit

/-- An alias for a pointer to a struct with a field of the alias. -/
def linkedNodes : TypeEnv :=
  (initial.declareAlias "NodePtr" (.pointer (.named "Node"))).declareStruct
    ⟨"Node", [⟨"next", .named "NodePtr"⟩, ⟨"value", .named "int"⟩], ⟨1, 1⟩⟩

theorem resolve_iff_resolvable_linkedNodes :
    linkedNodes.Unresolved ∧ linkedNodes.Resolvable (.named "NodePtr") := by
  have unresolved : linkedNodes.Unresolved :=
    (unresolved_initial.declareAlias _ _).declareStruct _
  refine ⟨unresolved, (resolve_iff_resolvable unresolved (.named "NodePtr")).1.1 ?_⟩
  exact ⟨.pointer (.struct ⟨0⟩), by cbv⟩

end TypeEnv

end Offside
