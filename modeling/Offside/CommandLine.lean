import Offside.Session.Basic

/-!
# The command line

The program reads a file or its standard input and checks it, interactively on request, and also
when it reads from a terminal. On request it lists the tokens instead, or prints each accepted item
as an S-expression. Prompts, diagnostics and the log go to the standard error stream.

## Main definitions

* `Offside.CommandLine.Arguments`: what is asked for.
* `Offside.CommandLine.Arguments.parse`: read the arguments of the command line.
* `Offside.CommandLine.Arguments.mode`: the mode of the session.
* `Offside.CommandLine.Arguments.execute`: what the program does with a text.
* `Offside.CommandLine.cannotOpen`: what it does without one.
-/

namespace Offside.CommandLine

/-- What to print besides diagnostics. -/
inductive Emit
  | nothing | tokens | trees
  deriving DecidableEq, Repr

/-- The output that an argument names. -/
def Emit.ofName? : String → Option Emit
  | "none" => some nothing
  | "tokens" => some tokens
  | "ast" => some trees
  | _ => none

/-- What is asked for. -/
structure Arguments where
  /-- The file to read; the standard input if there is none. -/
  file : Option String
  interactive : Bool
  emit : Emit
  prompt : String
  /-- Whether notes below a warning are shown. -/
  verbose : Bool
  deriving DecidableEq, Repr

/-- What is asked for without any argument. -/
def Arguments.default : Arguments := ⟨none, false, .nothing, defaultPrompt, false⟩

/-- Why the arguments make no sense. -/
inductive UsageError
  | unexpected (argument : String)
  | missingValue (option : String)
  | badValue (option value : String)
  deriving DecidableEq, Repr

/-- The wording of a usage error. -/
def UsageError.message : UsageError → String
  | unexpected argument => s!"unexpected argument '{argument}'"
  | missingValue option => s!"a value is required for '{option}'"
  | badValue option value => s!"invalid value '{value}' for '{option}'"

namespace Arguments

/-- Ask for another output. -/
def setEmit (a : Arguments) (value : String) : Except UsageError Arguments :=
  match Emit.ofName? value with
  | some emit => .ok { a with emit }
  | none => .error (.badValue "--emit" value)

/-- Ask for a file. -/
def setFile (a : Arguments) (name : String) : Except UsageError Arguments :=
  match a.file with
  | none => .ok { a with file := some name }
  | some _ => .error (.unexpected name)

/-- Read the letters of an argument with one dash. -/
def setFlags (a : Arguments) (argument : String) : List Char → Except UsageError Arguments
  | [] => .ok a
  | 'i' :: letters => setFlags { a with interactive := true } argument letters
  | 'v' :: letters => setFlags { a with verbose := true } argument letters
  | _ => .error (.unexpected argument)

/-- The value of an argument that starts with `option` and an equals sign. -/
def inlineValue? (option argument : String) : Option String :=
  let start := option.toList ++ ['=']
  if start.isPrefixOf argument.toList then some (String.ofList (argument.toList.drop start.length))
  else none

/-- Read files only. -/
def parseFiles (a : Arguments) : List String → Except UsageError Arguments
  | [] => .ok a
  | name :: names => do parseFiles (← a.setFile name) names

/-- Read one argument that stands by itself. -/
def setSingle (a : Arguments) (argument : String) : Except UsageError Arguments :=
  match inlineValue? "--emit" argument, inlineValue? "--prompt" argument with
  | some value, _ => a.setEmit value
  | none, some value => .ok { a with prompt := value }
  | none, none =>
    match argument.toList with
    | '-' :: '-' :: _ => .error (.unexpected argument)
    | '-' :: letter :: letters => a.setFlags argument (letter :: letters)
    | _ => a.setFile argument

/-- Read arguments in order. -/
def parseFrom (a : Arguments) : List String → Except UsageError Arguments
  | [] => .ok a
  | "--" :: names => a.parseFiles names
  | "--interactive" :: rest => parseFrom { a with interactive := true } rest
  | "--verbose" :: rest => parseFrom { a with verbose := true } rest
  | "--emit" :: value :: rest => do parseFrom (← a.setEmit value) rest
  | "--prompt" :: value :: rest => parseFrom { a with prompt := value } rest
  | [argument] =>
    if argument = "--emit" ∨ argument = "--prompt" then .error (.missingValue argument)
    else a.setSingle argument
  | argument :: next :: rest => do parseFrom (← a.setSingle argument) (next :: rest)

/-- Read the arguments of the command line. -/
def parse (arguments : List String) : Except UsageError Arguments := parseFrom default arguments

/-- The mode of the session: interactive if that is asked for, or if the text comes from a terminal,
which it does if there is no file and the standard input is a `terminal`. -/
def mode (a : Arguments) (terminal : Bool) : Mode :=
  if a.interactive ∨ a.file = none ∧ terminal then .interactive else .file

/-- The options of the session. -/
def options (a : Arguments) (terminal : Bool) : SessionOptions := ⟨a.mode terminal, a.prompt⟩

end Arguments

/-- What the program writes, and the code with which it exits. -/
structure Outcome where
  stdout : String
  stderr : String
  code : Nat
  deriving DecidableEq, Repr

/-- Handle the items of a session and print each accepted one. An item that cannot be printed is
noted. -/
def printItems : Nat → Session → String × Session
  | 0, s => ("", s)
  | fuel + 1, s =>
    match s.step with
    | (.finished, s) => ("", s)
    | (.failed, s) => printItems fuel s
    | (.item _, s) =>
      match s.items.back?.map (Item.sexpr s.types) with
      | none => printItems fuel s
      | some (.error error) => printItems fuel (s.note (.itemUnprintable error))
      | some (.ok sexpr) =>
        let (text, s) := printItems fuel s
        (sexpr.text ++ "\n" ++ text, s)

namespace Arguments

/-- List the tokens of a text. -/
def executeTokens (a : Arguments) (lexer : Lexer) : Outcome :=
  let xs := lexer.lexemes
  let journal := listingJournal xs
  ⟨listing xs, journal.log a.verbose, if journal.hasErrors then 1 else 0⟩

/-- Check a text, and print its items if asked for. -/
def executeSession (a : Arguments) (lexer : Lexer) (terminal : Bool) : Outcome :=
  let mode := a.mode terminal
  let s := (Session.ofLexer lexer (a.options terminal)).note (.sessionStarted mode)
  let (text, s) := if a.emit = .trees then printItems s.fuel s else ("", s.trace.2)
  let journal := s.journal.note (.sessionFinished s.items.size s.journal.errorCount)
  ⟨text, journal.log a.verbose, if mode = .file ∧ journal.hasErrors then 1 else 0⟩

/-- What the program does with a text; `terminal` tells whether its standard input is a terminal. -/
def execute (a : Arguments) (input : Source.Input) (terminal : Bool := false) : Outcome :=
  let lexer := Lexer.ofInput input
  if a.emit = .tokens then a.executeTokens lexer else a.executeSession lexer terminal

end Arguments

/-- What the program does when the file `name` cannot be opened. -/
def cannotOpen (name reason : String) : Outcome :=
  ⟨"", s!"Error: cannot open '{name}'\n\nCaused by:\n    {reason}\n", 1⟩

/-- The reason that a file which does not exist cannot be opened. -/
def noSuchFile : String := "No such file or directory (os error 2)"

/-- What the program does with arguments that make no sense. -/
def badUsage (error : UsageError) : Outcome := ⟨"", s!"error: {error.message}\n", 2⟩

end Offside.CommandLine
