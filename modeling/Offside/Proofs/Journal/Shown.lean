import Offside.Token.Listing

/-!
# What has been shown

A journal holds notes and prompts besides the diagnostics with the text that was shown for them. What
a text gives rise to are the diagnostics alone, so most of what is said of a journal is said of these.

## Main definitions

* `Offside.Journal.shown`: the diagnostics of a journal, each with the text shown for it.
* `Offside.Lexeme.shown?`: what is shown when a token is read.
* `Offside.Journal.unprompted`: a journal without its prompts.
* `Offside.Journal.prompts`: the prompts alone.
* `Offside.Journal.told`: the prompts and the diagnostics of a journal, without what is shown of the
  text.

## Main results

* `Offside.Journal.shown_lexeme`: what a journal shows after a token has been read.
* `Offside.Journal.output_unprompted`: but for prompts, a user has seen the diagnostics.
-/

namespace Offside

/-- The diagnostic of an entry and the text shown for it. -/
def Entry.shown? : Entry → Option (Diagnostic × String)
  | shown d text => some (d, text)
  | note _ | prompt _ => none

/-- What a user is told by an entry, apart from the line of the text that is shown with it. -/
inductive Told
  | prompt (text : String)
  | diagnostic (d : Diagnostic)
  deriving DecidableEq, Repr

/-- What a user is told by an entry. -/
def Entry.told? : Entry → Option Told
  | note _ => none
  | prompt text => some (.prompt text)
  | shown d _ => some (.diagnostic d)

/-- The prompt that a user is told. -/
def Told.prompt? : Told → Option String
  | prompt text => some text
  | diagnostic _ => none

/-- The diagnostic that a user is told. -/
def Told.diagnostic? : Told → Option Diagnostic
  | prompt _ => none
  | diagnostic d => some d

/-- What a user sees of a prompt or a diagnostic, where `shows` gives the text of a diagnostic. -/
def Told.text (shows : Diagnostic → String) : Told → String
  | prompt text => text
  | diagnostic d => shows d

/-- Whether an entry is a prompt. -/
def Entry.isPrompt : Entry → Bool
  | prompt _ => true
  | note _ | shown _ _ => false

/-- What is shown when a token is read. -/
def Lexeme.shown? (x : Lexeme) : Option (Diagnostic × String) :=
  x.token.diagnostic?.map fun d => (d, d.render x.after.stream)

theorem Lexeme.stage_of_shown? {x : Lexeme} {entry : Diagnostic × String}
    (h : x.shown? = some entry) : entry.1.stage = .lexical := by
  rw [Lexeme.shown?, Token.diagnostic?] at h
  split at h
  · cases h
    rfl
  · cases h

theorem Lexeme.isSome_shown? (x : Lexeme) : x.shown?.isSome = x.token.kind.isInvalid := by
  rw [Lexeme.shown?, Token.diagnostic?]
  cases x.token.kind <;> rfl

namespace Journal

/-- The diagnostics shown so far, each with the text shown for it. -/
def shown (journal : Journal) : List (Diagnostic × String) :=
  journal.entries.toList.filterMap Entry.shown?

/-- The diagnostics of refused tokens among those shown so far. -/
def lexical (journal : Journal) : List (Diagnostic × String) :=
  journal.shown.filter fun entry => entry.1.stage = .lexical

/-- A journal without its prompts. -/
def unprompted (journal : Journal) : Journal :=
  ⟨(journal.entries.toList.filter fun entry => !entry.isPrompt).toArray⟩

/-- The prompts and the diagnostics of a journal, in order. -/
def told (journal : Journal) : List Told := journal.entries.toList.filterMap Entry.told?

/-- The prompts written so far, in order. -/
def prompts (journal : Journal) : List String := journal.told.filterMap Told.prompt?

variable (journal : Journal)

@[simp] theorem shown_note (n : Note) : (journal.note n).shown = journal.shown := by
  simp [note, push, shown, Entry.shown?]

@[simp] theorem shown_prompt (text : String) : (journal.prompt text).shown = journal.shown := by
  simp [prompt, push, shown, Entry.shown?]

@[simp] theorem shown_emit (d : Diagnostic) (stream : Source.Stream) :
    (journal.emit d stream).shown = journal.shown ++ [(d, d.render stream)] := by
  simp [emit, push, shown, Entry.shown?]

@[simp] theorem shown_notes (ns : List Note) : (journal.notes ns).shown = journal.shown := by
  induction ns generalizing journal with
  | nil => rfl
  | cons n ns ih => exact (ih (journal.note n)).trans (shown_note journal n)

@[simp] theorem shown_lexeme (x : Lexeme) :
    (journal.lexeme x).shown = journal.shown ++ x.shown?.toList := by
  rw [lexeme, Lexeme.shown?]
  cases x.token.diagnostic? <;> simp

/-- Reading a token adds what is shown for it, if it has been refused. -/
theorem lexical_lexeme (x : Lexeme) :
    (journal.lexeme x).lexical = journal.lexical ++ x.shown?.toList := by
  have hx : x.shown?.toList.filter (fun entry => entry.1.stage = .lexical) = x.shown?.toList := by
    rw [List.filter_eq_self]
    intro entry hentry
    exact decide_eq_true (Lexeme.stage_of_shown? (Option.mem_toList.1 hentry))
  rw [lexical, shown_lexeme, List.filter_append, hx, lexical]

theorem lexical_emit {d : Diagnostic} (h : d.stage ≠ .lexical) (stream : Source.Stream) :
    (journal.emit d stream).lexical = journal.lexical := by
  simp [lexical, h]

theorem diagnostics_eq : journal.diagnostics = journal.shown.map Prod.fst := by
  rw [diagnostics, shown, List.map_filterMap]
  congr 1
  funext entry
  cases entry <;> rfl

theorem errorCount_eq : journal.errorCount = journal.shown.length := by
  rw [errorCount, diagnostics_eq, List.length_map]

theorem hasErrors_iff : journal.hasErrors = true ↔ journal.shown ≠ [] := by
  rw [hasErrors, diagnostics_eq]
  cases journal.shown <;> simp

/-- What a listing shows, one diagnostic for each refused token. -/
theorem shown_listingJournal (xs : List Lexeme) :
    (listingJournal xs).shown = xs.filterMap Lexeme.shown? := by
  have hfold (journal : Journal) :
      (xs.foldl lexeme journal).shown = journal.shown ++ xs.filterMap Lexeme.shown? := by
    induction xs generalizing journal with
    | nil => simp
    | cons x xs ih =>
      rw [List.foldl_cons, ih, shown_lexeme, List.filterMap_cons]
      cases x.shown? <;> simp
  exact hfold empty

/-- But for prompts, a user has seen the texts of the diagnostics. -/
theorem output_unprompted :
    journal.unprompted.output = String.join (journal.shown.map Prod.snd) := by
  rw [output, unprompted, shown]
  induction journal.entries.toList with
  | nil => rfl
  | cons entry entries ih =>
    cases entry <;>
      simp_all [List.filterMap_cons, Entry.isPrompt, Entry.shown?, Entry.output]

@[simp] theorem unprompted_note (n : Note) :
    (journal.note n).unprompted = journal.unprompted.note n := by
  simp [unprompted, note, push, Entry.isPrompt]

@[simp] theorem unprompted_notes (ns : List Note) :
    (journal.notes ns).unprompted = journal.unprompted.notes ns := by
  induction ns generalizing journal with
  | nil => rfl
  | cons n ns ih => exact (ih (journal.note n)).trans (by rw [unprompted_note]; rfl)

@[simp] theorem unprompted_emit (d : Diagnostic) (stream : Source.Stream) :
    (journal.emit d stream).unprompted = journal.unprompted.emit d stream := by
  simp [unprompted, emit, push, Entry.isPrompt]

@[simp] theorem unprompted_lexeme (x : Lexeme) :
    (journal.lexeme x).unprompted = journal.unprompted.lexeme x := by
  rw [lexeme, lexeme]
  cases x.token.diagnostic? <;> simp

/-! ### Prompts and diagnostics -/

@[simp] theorem told_note (n : Note) : (journal.note n).told = journal.told := by
  simp [note, push, told, Entry.told?]

@[simp] theorem told_notes (ns : List Note) : (journal.notes ns).told = journal.told := by
  induction ns generalizing journal with
  | nil => rfl
  | cons n ns ih => exact (ih (journal.note n)).trans (told_note journal n)

@[simp] theorem told_prompt (text : String) :
    (journal.prompt text).told = journal.told ++ [.prompt text] := by
  simp [prompt, push, told, Entry.told?]

@[simp] theorem told_emit (d : Diagnostic) (stream : Source.Stream) :
    (journal.emit d stream).told = journal.told ++ [.diagnostic d] := by
  simp [emit, push, told, Entry.told?]

/-- Reading a token tells why it is refused, if it is. -/
@[simp] theorem told_lexeme (x : Lexeme) :
    (journal.lexeme x).told = journal.told ++ x.token.diagnostic?.toList.map .diagnostic := by
  rw [lexeme]
  cases x.token.diagnostic? <;> simp

@[simp] theorem prompts_note (n : Note) : (journal.note n).prompts = journal.prompts := by
  simp [prompts]

@[simp] theorem prompts_notes (ns : List Note) : (journal.notes ns).prompts = journal.prompts := by
  simp [prompts]

@[simp] theorem prompts_prompt (text : String) :
    (journal.prompt text).prompts = journal.prompts ++ [text] := by
  simp [prompts, Told.prompt?]

@[simp] theorem prompts_emit (d : Diagnostic) (stream : Source.Stream) :
    (journal.emit d stream).prompts = journal.prompts := by
  simp [prompts, Told.prompt?]

@[simp] theorem prompts_lexeme (x : Lexeme) : (journal.lexeme x).prompts = journal.prompts := by
  rw [prompts, told_lexeme, List.filterMap_append, prompts]
  cases x.token.diagnostic? <;> simp [Told.prompt?]

theorem diagnostics_eq_told : journal.diagnostics = journal.told.filterMap Told.diagnostic? := by
  rw [diagnostics, told, List.filterMap_filterMap]
  congr 1
  funext entry
  cases entry <;> rfl

/-- What a listing tells. -/
theorem told_listingJournal (xs : List Lexeme) :
    (listingJournal xs).told = xs.flatMap fun x => x.token.diagnostic?.toList.map .diagnostic := by
  have hfold (journal : Journal) : (xs.foldl lexeme journal).told =
      journal.told ++ xs.flatMap fun x => x.token.diagnostic?.toList.map .diagnostic := by
    induction xs generalizing journal with
    | nil => simp
    | cons x xs ih => rw [List.foldl_cons, ih, told_lexeme, List.flatMap_cons, List.append_assoc]
  exact hfold empty

section

variable {journal} {shows : Diagnostic → String}
  (h : ∀ entry ∈ journal.shown, entry.2 = shows entry.1)
include h

/-- If the text shown for a diagnostic is a function of it, the diagnostics tell what is shown. -/
theorem shown_eq_map : journal.shown = journal.diagnostics.map fun d => (d, shows d) := by
  rw [diagnostics_eq, List.map_map]
  have hsame : journal.shown.map ((fun d => (d, shows d)) ∘ Prod.fst) = journal.shown.map id :=
    List.map_congr_left fun entry hentry => Prod.ext rfl (h entry hentry).symm
  rw [hsame, List.map_id]

/-- So what a user is told tells what a user has seen. -/
theorem output_eq_told : journal.output = String.join (journal.told.map (Told.text shows)) := by
  rw [shown] at h
  rw [output, told]
  generalize journal.entries.toList = entries at h ⊢
  induction entries with
  | nil => rfl
  | cons entry entries ih =>
    cases entry with
    | note n =>
      rw [List.map_cons, String.join_cons, ih h]
      exact String.empty_append
    | prompt text =>
      rw [List.map_cons, String.join_cons, ih h]
      exact String.join_cons.symm
    | shown d text =>
      obtain ⟨hentry, hentries⟩ := List.forall_mem_cons.1 h
      obtain rfl : text = shows d := hentry
      rw [List.map_cons, String.join_cons, ih hentries]
      exact String.join_cons.symm

end

end Journal

end Offside
