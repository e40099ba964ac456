import Offside.Journal.Note

/-!
# Journals

A journal is the single record of what happened while a text was read: prompts, diagnostics as
they were shown at that moment, and notes for the log, in the order in which they happened. What a
user sees, the list of diagnostics and the log are views of it.

## Main definitions

* `Offside.Journal`: entries in order.
* `Offside.Journal.diagnostics`, `Offside.Journal.output`: the views for a user.
* `Offside.Journal.log`: the view with notes in between.

## Main results

* `Offside.Journal.diagnostics_emit`, `Offside.Journal.output_emit`: showing a diagnostic appends
  it and its text.
-/

namespace Offside

/-- One thing that happened. -/
inductive Entry
  | note (note : Note)
  | prompt (text : String)
  /-- A diagnostic with the text that was shown for it. -/
  | shown (diagnostic : Diagnostic) (text : String)
  deriving DecidableEq, Repr

namespace Entry

/-- What a user sees of an entry. -/
def output : Entry → String
  | note _ => ""
  | prompt text => text
  | shown _ text => text

/-- The diagnostic of an entry. -/
def diagnostic? : Entry → Option Diagnostic
  | shown d _ => some d
  | _ => none

/-- A note with its line break when its level is shown. Warnings always are. -/
def noteLog (verbose : Bool) (note : Note) : String :=
  if verbose || note.level = .warning then note.logLine else ""

/-- An entry as the log tells it: notes as lines, and a line before each diagnostic. -/
def log (verbose : Bool) : Entry → String
  | note n => noteLog verbose n
  | prompt text => text
  | shown d text => noteLog verbose (.diagnosticEmitted d.stage d.location) ++ text

end Entry

/-- What happened, in order. -/
structure Journal where
  entries : Array Entry
  deriving Repr

namespace Journal

/-- Nothing has happened. -/
def empty : Journal := ⟨#[]⟩

instance : Inhabited Journal := ⟨empty⟩

/-- Record one entry. -/
def push (journal : Journal) (entry : Entry) : Journal := ⟨journal.entries.push entry⟩

/-- Record a note. -/
def note (journal : Journal) (n : Note) : Journal := journal.push (.note n)

/-- Record notes in order. -/
def notes (journal : Journal) (ns : List Note) : Journal := ns.foldl note journal

/-- Write a prompt. -/
def prompt (journal : Journal) (text : String) : Journal := journal.push (.prompt text)

/-- Show a diagnostic against what has been read of the text. -/
def emit (journal : Journal) (d : Diagnostic) (stream : Source.Stream) : Journal :=
  journal.push (.shown d (d.render stream))

/-- The diagnostics shown so far, in order. -/
def diagnostics (journal : Journal) : List Diagnostic :=
  journal.entries.toList.filterMap Entry.diagnostic?

/-- The number of diagnostics shown so far. -/
def errorCount (journal : Journal) : Nat := journal.diagnostics.length

/-- Whether a diagnostic has been shown. -/
def hasErrors (journal : Journal) : Bool := !journal.diagnostics.isEmpty

/-- What a user has seen: prompts and diagnostics. -/
def output (journal : Journal) : String := String.join (journal.entries.toList.map Entry.output)

/-- What a user has seen with the log in between. -/
def log (journal : Journal) (verbose : Bool) : String :=
  String.join (journal.entries.toList.map (Entry.log verbose))

/-- The entries after the first `count`. -/
def since (journal : Journal) (count : Nat) : Journal :=
  ⟨(journal.entries.toList.drop count).toArray⟩

@[simp] theorem diagnostics_emit (journal : Journal) (d : Diagnostic) (stream : Source.Stream) :
    (journal.emit d stream).diagnostics = journal.diagnostics ++ [d] := by
  simp [emit, push, diagnostics, Entry.diagnostic?]

@[simp] theorem diagnostics_note (journal : Journal) (n : Note) :
    (journal.note n).diagnostics = journal.diagnostics := by
  simp [note, push, diagnostics, Entry.diagnostic?]

@[simp] theorem diagnostics_notes (journal : Journal) (ns : List Note) :
    (journal.notes ns).diagnostics = journal.diagnostics := by
  induction ns generalizing journal with
  | nil => rfl
  | cons n ns ih => exact (ih (journal.note n)).trans (diagnostics_note journal n)

@[simp] theorem diagnostics_prompt (journal : Journal) (text : String) :
    (journal.prompt text).diagnostics = journal.diagnostics := by
  simp [prompt, push, diagnostics, Entry.diagnostic?]

@[simp] theorem output_emit (journal : Journal) (d : Diagnostic) (stream : Source.Stream) :
    (journal.emit d stream).output = journal.output ++ d.render stream := by
  simp [emit, push, output, Entry.output, String.join_append]

end Journal

end Offside
