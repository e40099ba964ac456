import Offside.Parser.Stmt

/-!
# Reading items

An item that cannot be read is reported, its nodes are dropped, and reading goes on at the next
line.

```text
item ::= "def" prototype ":" suite | "extern" "def" prototype | alias | struct | statement
```

## Main definitions

* `Offside.Parse.item`: read an item.
* `Offside.Parser.parseItem`: read an item, or report why there is none and recover.
-/

namespace Offside

namespace Parse

/-- Read what an item is. -/
def itemShape (fuel : Nat) (start : Location) : Parse Item.Shape := do
  match ← kind with
  | .keyword .defWord =>
    advance
    let proto ← prototype fuel
    expectColon .prototype
    let body ← suite fuel
    note (.functionParsed proto.name body.stmts.length)
    return .function proto body
  | .keyword .externWord =>
    advance
    expect (.keyword .defWord) .defWord
    return .external (← prototype fuel)
  | .keyword .typeWord =>
    advance
    typeAlias fuel
  | .keyword .structWord =>
    advance
    struct fuel start
  | .indent => refuse .noIndent
  | _ => return .statement (← statement fuel)

/-- Read an item, after which its line has to end. -/
def item (fuel : Nat) : Parse Item := do
  let start ← place
  let shape ← itemShape fuel start
  if !(← get).atItemEnd then refuse (.lineEnd .topLevelItem)
  return ⟨shape, start⟩

end Parse

namespace Parser

/-- Show the diagnostic of a failure, unless it has been shown. -/
def report (p : Parser) : Failure → Parser
  | .diagnostic d => p.emit d
  | .shown | .tooDeep => p

/-- Read an item. If that fails, report why, drop the nodes finished since, and go on at the next
line. -/
def parseItem (p : Parser) : Option Item × Parser :=
  match (Parse.item p.fuel).run p with
  | .ok item q => (some item, q)
  | .error failure q => (none, ((q.report failure).rollback p.arena.mark).recover endsLine)

end Parser

end Offside
