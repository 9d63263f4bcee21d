import CometLang.Fault.Report
import CometLang.Machine.Report

/-!
# The command line

A command names a file and what to show of it. What it does is computed from
the bytes of the file and of the standard input: the output of the program, the
notices around it, and whether all went well.
-/

namespace CometLang

/-- A command: which file, and what to show. -/
structure Command where
  path : String
  /-- The file holds tags and not source text. -/
  tags : Bool := false
  /-- Show every shift and reduction. -/
  trace : Bool := false
  /-- Show the parse tree. -/
  tree : Bool := false
  /-- Show every frame when the program has ended. -/
  scopes : Bool := false
  /-- How often the body of one loop may run. -/
  maxIterations : Nat := 200
  /-- How much detail is shown. -/
  verbose : Nat := 0
  /-- The most detailed level of the events that are shown; none at zero. -/
  log : Nat := 0

/-- What a command does. -/
structure Effect where
  success : Bool
  /-- Notices before the program runs. -/
  before : String := ""
  /-- What the program writes. -/
  output : Array UInt8 := #[]
  /-- Notices after the program has run. -/
  after : String := ""
  /-- The program stopped for want of input. -/
  starved : Bool := false

/-- All notices, in order. -/
def Effect.notices (e : Effect) : String :=
  e.before ++ e.after

namespace Command

/-- The parts of a path, without empty ones and those that change nothing. -/
def pathParts (path : String) : List (List Char) :=
  (path.toList.splitOn '/').filter fun part => !part.isEmpty && part != ['.']

/-- The name of the file itself, or the whole path if that names none. -/
def fileName (path : String) : String :=
  match (pathParts path).getLast? with
  | none => path
  | some part => if part = ['.', '.'] then path else String.ofList part

/-- The events that the command shows, a line for each. -/
def eventLines
    (c : Command)
    (events : List Event) : String :=
  let shown := events.filter fun event => event.level.detail ≤ c.log
  String.join (shown.map fun event =>
    "[" ++ event.level.name ++ "] " ++ event.message ++ "\n")

/-- A record as it is traced; with much detail, a reduction names its production. -/
def recordLine
    (c : Command)
    (record : Record) : String :=
  match record.production? with
  | some production =>
      if 2 ≤ c.verbose then
        record.text ++ " [" ++ production.name ++ "]\n"
      else
        record.text ++ "\n"
  | none => record.text ++ "\n"

/-- The trace and the verdict of a parse, as far as the command shows them. -/
def parseLines
    (c : Command)
    (outcome : Derivation.Outcome) : String :=
  c.eventLines outcome.events
    ++ (if c.trace then String.join (outcome.state.records.map c.recordLine) else "")
    ++ outcome.verdict.text ++ "\n"

/-- The parse tree, or that there is none. -/
def treeLines
    (c : Command)
    (outcome : Derivation.Outcome) : String :=
  if c.tree then
    match outcome.verdict with
    | .accept => outcome.tree.text
    | .reject => "Parse tree cannot be generated for the given input\n"
  else
    ""

/-- The bindings of a frame, a line for each. -/
def frameLines (frame : Frame) : String :=
  String.join (frame.entries.map fun (name, value) => name ++ " : " ++ value ++ "\n")

/-- The frames in the order in which they were closed, numbered from one. -/
def scopeLines
    (c : Command)
    (m : Machine) : String :=
  if c.scopes then
    String.join (m.scopes.history.mapIdx fun i frame =>
      "Scope " ++ toString (i + 1) ++ ":\n" ++ frameLines frame)
  else
    ""

/-- The tokens of the content. -/
def readTokens
    (c : Command)
    (content : String) : Except Fault (List Token) :=
  if c.tags then
    Token.readTags content (fileName c.path)
  else
    Token.scan content (fileName c.path)

/-- Runs the program with the given content on the given input. -/
def runContent
    (c : Command)
    (content : String)
    (input : List UInt8) : Effect :=
  let tokens := c.readTokens content
  let counted := c.eventLines ((tokens.toOption.map fun ts => Event.tokenized ts.length).toList)
  match Report.ofReading { maxIterations := c.maxIterations } (Machine.fresh input) tokens with
  | .unreadable fault =>
      { success := false
        before := fault.report content }
  | .rejected outcome =>
      { success := false
        before := counted ++ c.parseLines outcome ++ c.treeLines outcome }
  | .finished outcome m =>
      { success := true
        before := counted ++ c.parseLines outcome ++ c.treeLines outcome
        output := m.output
        after := c.eventLines m.events ++ c.scopeLines m }
  | .failed outcome m fault =>
      { success := false
        before := counted ++ c.parseLines outcome ++ c.treeLines outcome
        output := m.output
        after := c.eventLines m.events ++ c.scopeLines m ++ fault.report content
        starved := fault.cause = .inputExhausted }

/-- What is said of a file that cannot be read. -/
def unreadFile
    (c : Command)
    (reason : String) : Effect :=
  { success := false
    before := "Failed to read " ++ c.path ++ ": " ++ reason ++ "\n" }

/-- Carries out a command, given the bytes of its file or why there are none. -/
def perform
    (c : Command)
    (file : Except String ByteArray)
    (input : List UInt8) : Effect :=
  match file with
  | .error reason => c.unreadFile reason
  | .ok bytes =>
      match String.fromUTF8? bytes with
      | none => c.unreadFile "stream did not contain valid UTF-8"
      | some content => c.runContent content input

/-- The number that a flag of verbosity such as `-vv` counts. -/
def verbosity? (argument : String) : Option Nat :=
  match argument.toList with
  | '-' :: letters =>
      if !letters.isEmpty && letters.all (· = 'v') then some letters.length else none
  | _ => none

/-- The number that decimal digits write. -/
def count? (text : String) : Option Nat :=
  if Numeral.isDigits text.toList then some (Numeral.digitsValue text.toList) else none

/-- Reads arguments into a command whose path is not known yet. -/
def readArguments? : Option String → Command → List String → Option Command
  | none, _, [] => none
  | some path, c, [] => some { c with path := path, log := c.verbose }
  | path?, c, "--tags" :: rest => readArguments? path? { c with tags := true } rest
  | path?, c, "--trace" :: rest => readArguments? path? { c with trace := true } rest
  | path?, c, "--tree" :: rest => readArguments? path? { c with tree := true } rest
  | path?, c, "--scopes" :: rest => readArguments? path? { c with scopes := true } rest
  | path?, c, "--verbose" :: rest =>
      readArguments? path? { c with verbose := c.verbose + 1 } rest
  | path?, c, "--max-iterations" :: number :: rest =>
      match count? number with
      | some limit => readArguments? path? { c with maxIterations := limit } rest
      | none => none
  | path?, c, argument :: rest =>
      match verbosity? argument with
      | some more => readArguments? path? { c with verbose := c.verbose + more } rest
      | none =>
          if argument.startsWith "-" then
            none
          else
            match path? with
            | none => readArguments? (some argument) c rest
            | some _ => none

/-- The command that the arguments ask for. -/
def ofArguments? (arguments : List String) : Option Command :=
  readArguments? none { path := "" } arguments

/-- How the program is called. -/
def usage : String :=
  "usage: [--tags] [--trace] [--tree] [--scopes] [--max-iterations N] [-v]... FILE\n"

end Command
end CometLang
