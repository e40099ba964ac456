import Offside.Proofs.Couples
import Offside.Proofs.Types.Relocated
import Offside.Types.Resolution

/-!
# Resolution does not look at places

The place of a struct is kept with its declaration and is of no use to resolution: with the structs
at other places, or with their places erased, tables resolve every type as they do themselves.

## Main results

* `Offside.TypeEnv.resolve_relocate`: the same answer and events, and the same tables at other places.
* `Offside.TypeEnv.answer_resolve_erase`: the same answer with erased places.
-/

namespace Offside

variable {α β : Type} {f : Location → Location}

/-- A resolution in progress with the structs at other places. -/
def ResolveState.relocate (f : Location → Location) (s : ResolveState) : ResolveState :=
  { s with env := s.env.relocate f }

private theorem ResolveState.waiting_relocate (s : ResolveState) :
    (s.relocate f).waiting = s.waiting := rfl

/-- The second computation does with structs at other places what the first one does. -/
private def ResolvesMoved (f : Location → Location) (x x' : Resolve α) : Prop :=
  ∀ s : ResolveState, Couples s (s.relocate f) x x'
    (fun a t a' t' => a' = a ∧ t' = t.relocate f) fun e t e' t' => e' = e ∧ t' = t.relocate f

private theorem resolvesMoved_pure (a : α) : ResolvesMoved f (pure a) (pure a) :=
  fun _ => ⟨rfl, rfl⟩

private theorem resolvesMoved_throw (e : TypeError) :
    ResolvesMoved f (throw e : Resolve α) (throw e) := fun _ => ⟨rfl, rfl⟩

private theorem resolvesMoved_bind {x x' : Resolve α} {g g' : α → Resolve β}
    (hx : ResolvesMoved f x x') (hg : ∀ a, ResolvesMoved f (g a) (g' a)) :
    ResolvesMoved f (x >>= g) (x' >>= g') := by
  refine fun s => couples_bind ((hx s).mono ?_ fun _ _ _ _ h => h)
  rintro a t _ _ ⟨rfl, rfl⟩
  exact hg _ t

private theorem resolvesMoved_env {g g' : TypeEnv → Resolve α}
    (h : ∀ env, ResolvesMoved f (g env) (g' (env.relocate f))) :
    ResolvesMoved f (Resolve.env >>= g) (Resolve.env >>= g') := fun s => h s.env s

private theorem resolvesMoved_register (name : String) (entry : StructEntry) :
    ResolvesMoved f (Resolve.register name entry) (Resolve.register name (entry.relocate f)) := by
  intro s
  refine ⟨rfl, ?_⟩
  show ResolveState.mk _ _ _ = ResolveState.mk _ _ _
  rw [ResolveState.mk.injEq]
  refine ⟨?_, rfl, rfl⟩
  rw [TypeEnv.relocate, ← Table.insert_map]
  rfl

private theorem resolvesMoved_modify {g : ResolveState → ResolveState}
    (h : ∀ s, g (s.relocate f) = (g s).relocate f) : ResolvesMoved f (modify g) (modify g) :=
  fun s => ⟨rfl, h s⟩

/-- Every function of the recursion does the same with structs at other places. -/
private theorem resolvesMoved_resolution :
    (∀ structs aliases behind type, ResolvesMoved f (resolveType structs aliases behind type)
      (resolveType structs aliases behind type)) ∧
    (∀ structs behind name, ResolvesMoved f (resolveStruct structs behind name)
      (resolveStruct structs behind name)) ∧
    (∀ structs aliases decl id, ResolvesMoved f (layOut structs aliases decl id)
      (layOut structs aliases (decl.relocate f) id)) ∧
    ∀ structs aliases fields run, ResolvesMoved f (layFields structs aliases fields run)
      (layFields structs aliases fields run) := by
  apply resolveType.mutual_induct
  case case1 =>
    intro structs aliases behind b
    rw [resolveType]
    exact resolvesMoved_pure _
  case case2 =>
    intro structs aliases behind element ih
    rw [resolveType]
    exact resolvesMoved_bind ih fun _ => resolvesMoved_pure _
  case case3 =>
    intro structs aliases behind name ihAlias ihStruct
    rw [resolveType]
    refine resolvesMoved_env fun env => ?_
    rw [(env.relocated_relocate f).alias?]
    split
    · split
      · exact ihAlias _ ‹_›
      · exact resolvesMoved_throw _
    · exact ihStruct
  case case4 =>
    intro structs behind name ih
    rw [resolveStruct]
    refine resolvesMoved_env fun env => ?_
    rw [env.get?_structs_relocate]
    cases env.structs.get? name with
    | none => exact resolvesMoved_throw _
    | some entry =>
      have register := resolvesMoved_register (f := f) name entry
      dsimp only [Option.map_some]
      rw [show (entry.relocate f).layout = entry.layout from rfl]
      split
      · split
        · exact resolvesMoved_pure _
        · refine resolvesMoved_bind register fun id => ?_
          exact resolvesMoved_bind (resolvesMoved_modify fun _ => rfl) fun _ =>
            resolvesMoved_pure _
      · split
        · next hmem =>
          split
          · next id _ =>
            rw [show (env.relocate f).layout id = env.layout id from rfl]
            split
            · exact resolvesMoved_pure _
            · exact ih env entry hmem id
          · exact resolvesMoved_bind register fun id => ih env entry hmem id
        · exact resolvesMoved_throw _
  case case5 =>
    intro structs aliases decl id ih
    rw [layOut, layOut]
    refine resolvesMoved_bind ih fun run => ?_
    exact resolvesMoved_bind (resolvesMoved_modify fun _ => rfl) fun _ => resolvesMoved_pure _
  case case6 =>
    intro structs aliases run
    rw [layFields]
    exact resolvesMoved_pure _
  case case7 =>
    intro structs aliases field fields run ihType ihFields
    rw [layFields]
    refine resolvesMoved_bind ihType fun type => ?_
    refine resolvesMoved_env fun env => ?_
    have hadd : run.add (env.relocate f) field.name type = run.add env field.name type := by
      cases type <;> rfl
    rw [hadd]
    exact ihFields type env

theorem TypeEnv.names_relocate (env : TypeEnv) :
    (env.relocate f).structs.names = env.structs.names := by
  rw [relocate, Table.names, Table.names, Table.map, List.map_map]
  rfl

private theorem resolvesMoved_layOutWaiting (fuel : Nat) :
    ResolvesMoved f (layOutWaiting fuel) (layOutWaiting fuel) := by
  induction fuel with
  | zero => exact resolvesMoved_pure _
  | succ fuel ih =>
    intro s
    rw [layOutWaiting]
    refine couples_get ?_
    rw [ResolveState.waiting_relocate]
    split
    · exact resolvesMoved_pure _ s
    · next name rest _ =>
      have hlater := resolvesMoved_bind
        (resolvesMoved_resolution.2.1 s.env.structs.names false name) fun _ => ih
      rw [show (s.relocate f).env.structs.names = s.env.structs.names from s.env.names_relocate]
      exact hlater { s with waiting := rest }

theorem TypeEnv.rollback_relocate (env : TypeEnv) (mark : Nat) :
    (env.relocate f).rollback mark = (env.rollback mark).relocate f := by
  have hentry (entry : StructEntry) :
      (entry.relocate f).rollback mark = (entry.rollback mark).relocate f := by
    rw [StructEntry.rollback, StructEntry.rollback, apply_ite (StructEntry.relocate f)]
    rfl
  rw [rollback, relocate, rollback, relocate, TypeEnv.mk.injEq]
  refine ⟨rfl, ?_, rfl⟩
  simp only [Table.map, List.map_map]
  exact congrArg Table.mk (List.map_congr_left fun entry _ => Prod.ext rfl (hentry entry.2))

/-- Where the structs stand makes no difference to a resolution, and it leaves them there. -/
theorem TypeEnv.resolve_relocate (f : Location → Location) (env : TypeEnv) (type : TypeExpr) :
    (env.relocate f).resolve type =
      { env.resolve type with env := (env.resolve type).env.relocate f } := by
  have hall : ResolvesMoved f (resolveAll type) (resolveAll type) := by
    refine resolvesMoved_env fun env => ?_
    have hsize : (env.relocate f).structs.size = env.structs.size := by
      rw [relocate, Table.size, Table.size, Table.map, List.length_map]
    rw [env.names_relocate, hsize]
    refine resolvesMoved_bind (resolvesMoved_resolution.1 _ _ _ _) fun resolved => ?_
    exact resolvesMoved_bind (resolvesMoved_layOutWaiting _) fun _ => resolvesMoved_pure _
  have h := hall ⟨env, [], []⟩
  rw [resolve, resolve, EStateM.run, EStateM.run]
  rw [Couples] at h
  split at h
  · next hx hx' =>
    rw [hx]
    rw [ResolveState.relocate] at hx'
    rw [hx', h.1, h.2]
    rfl
  · next hx hx' =>
    rw [hx]
    rw [ResolveState.relocate] at hx'
    rw [hx', h.1, h.2]
    exact congrArg (Resolution.mk _ · _) (rollback_relocate _ _)
  · exact h.elim
  · exact h.elim

/-- Tables with erased places give the same answer. -/
theorem TypeEnv.answer_resolve_erase (env : TypeEnv) (type : TypeExpr) :
    (env.erase.resolve type).answer = (env.resolve type).answer :=
  show ((env.relocate fun _ => .erased).resolve type).answer = _ by rw [resolve_relocate]

end Offside
