import Offside.Proofs.Parser.Item
import Offside.Proofs.Parser.Kinds

/-!
# Reading that shows nothing

Whoever reads an item shows a diagnostic only for a refused token. So an item that is read from
accepted tokens adds none to the journal, whatever it declares.

## Main definitions

* `Offside.Parser.Valid`: no token to come is refused.
* `Offside.Parser.Quiet`: reading that shows no diagnostic.
* `Offside.Parser.TableFrame`: relations that allow what reading an item does.

## Main results

* `Offside.Parse.ensures_item`: an item keeps each of these relations.
-/

namespace Offside

namespace Parser

/-- No token from the current one on is refused. -/
def Valid (p : Parser) : Prop := ∀ k ∈ p.kinds, k.isInvalid = false

/-- Reading that shows no diagnostic where no token is refused. -/
def Quiet (p q : Parser) : Prop :=
  p.Valid → q.Valid ∧ q.journal.diagnostics = p.journal.diagnostics

theorem quiet_advance (p : Parser) : p.Quiet p.advance := by
  intro hvalid
  rw [advance]
  cases hrest : p.rest with
  | nil => exact ⟨by simpa [Valid, kinds, hrest] using hvalid, rfl⟩
  | cons x rest =>
    rw [Valid, kinds, hrest, List.map_cons] at hvalid
    refine ⟨fun k hk => hvalid k (List.mem_cons_of_mem _ hk), ?_⟩
    have hx : x.token.kind.isInvalid = false := hvalid _ (by simp)
    have hnone : x.token.diagnostic? = none := by
      rw [Token.diagnostic?]
      split
      · next hk =>
        rw [hk] at hx
        cases hx
      · rfl
    show (p.journal.lexeme x).diagnostics = p.journal.diagnostics
    rw [Journal.diagnostics_lexeme, hnone]
    exact List.append_nil _

/-- Relations that also allow what is read to enter the type tables. -/
class TableFrame (R : Parser → Parser → Prop) : Prop extends Frame R where
  setTypes (p : Parser) (env : TypeEnv) : R p { p with types := env }

instance : TableFrame Quiet where
  refl _ h := ⟨h, rfl⟩
  trans _ _ _ h k hvalid :=
    ⟨(k (h hvalid).1).1, (k (h hvalid).1).2.trans (h hvalid).2⟩
  advance := quiet_advance
  note p n h := ⟨h, Journal.diagnostics_note p.journal n⟩
  addExpr _ _ _ h := ⟨h, rfl⟩
  addStmt _ _ _ h := ⟨h, rfl⟩
  setTypes _ _ h := ⟨h, rfl⟩

end Parser

namespace Parse

section

variable {R : Parser → Parser → Prop} [Parser.TableFrame R]

theorem ensures_typeAlias (fuel : Nat) :
    Ensures R (fun shape => ∃ name target, shape = .typeAlias name target) (typeAlias fuel) := by
  refine ensures_seq ensures_place fun place => ?_
  refine ensures_seq (ensures_expectName _) fun name => ?_
  refine ensures_seq ensures_get fun p => ?_
  refine ensures_guard (ensures_fail _ _) fun _ => ?_
  refine ensures_seq (ensures_expect _ _) fun _ => ?_
  refine ensures_seq (ensures_typeExpr fuel) fun target => ?_
  refine ensures_seq (ensures_expectStatementEnd _) fun _ => ?_
  refine ensures_seq (ensures_note _) fun _ => ?_
  exact ensures_seq (ensures_modify fun p => Parser.TableFrame.setTypes p _) fun _ =>
    ensures_pure ⟨name, target, rfl⟩

theorem ensures_struct (fuel : Nat) (start : Location) :
    Ensures R (fun shape => ∃ name, shape = .struct name) (struct fuel start) := by
  refine ensures_seq ensures_place fun place => ?_
  refine ensures_seq (ensures_expectName _) fun name => ?_
  refine ensures_seq ensures_get fun p => ?_
  refine ensures_guard (ensures_fail _ _) fun _ => ?_
  refine ensures_guard (ensures_fail _ _) fun _ => ?_
  refine ensures_seq (ensures_expect _ _) fun _ => ?_
  refine ensures_seq (ensures_expect _ _) fun _ => ?_
  refine ensures_seq (ensures_expect _ _) fun _ => ?_
  refine ensures_bind (ensures_fields name fuel List.nodup_nil) fun fields _ => ?_
  refine ensures_guard (ensures_fail _ _) fun _ => ?_
  refine ensures_seq (ensures_expect _ _) fun _ => ?_
  refine ensures_seq (ensures_note _) fun _ => ?_
  exact ensures_seq (ensures_modify fun p => Parser.TableFrame.setTypes p _) fun _ =>
    ensures_pure ⟨name, rfl⟩

theorem ensures_itemShape (fuel : Nat) (start : Location) :
    Ensures R (fun _ => True) (itemShape fuel start) := by
  refine ensures_seq ensures_kind fun kind => ?_
  split
  · refine ensures_seq ensures_advance fun _ => ?_
    refine ensures_bind (ensures_prototype fuel) fun proto _ => ?_
    refine ensures_seq (ensures_expect _ _) fun _ => ?_
    refine ensures_bind (ensures_suite fuel) fun body _ => ?_
    exact ensures_seq (ensures_note _) fun _ => ensures_pure trivial
  · refine ensures_seq ensures_advance fun _ => ?_
    refine ensures_seq (ensures_expect _ _) fun _ => ?_
    exact ensures_bind (ensures_prototype fuel) fun proto _ => ensures_pure trivial
  · exact ensures_seq ensures_advance fun _ => (ensures_typeAlias fuel).mono fun _ _ => trivial
  · exact ensures_seq ensures_advance fun _ => (ensures_struct fuel start).mono fun _ _ => trivial
  · exact ensures_refuse _
  · exact ensures_bind (ensures_statement fuel) fun stmt _ => ensures_pure trivial

/-- What an item keeps, whether or not it can be read. -/
theorem ensures_item (fuel : Nat) : Ensures R (fun _ => True) (item fuel) := by
  refine ensures_seq ensures_place fun start => ?_
  refine ensures_seq (ensures_itemShape fuel start) fun shape => ?_
  refine ensures_seq ensures_get fun p => ?_
  exact ensures_guard (ensures_refuse _) fun _ => ensures_pure trivial

end

end Parse

end Offside
