import Novella.Canvas.Arrangement
import Novella.Canvas.Document
import Novella.Command.Report
import Novella.Conversion
import Novella.Files.Saved
import Novella.Flow.Document
import Novella.Flow.Dot
import Novella.Schemas

/-!
# Running commands

A command reads what it needs from a disk and either prints its result or writes it to a file.
The exit code is 0, or 1 after a failure, or 2 after a command line that is none.
-/

namespace Novella.Command

open Canvas (CanvasGraph)
open Conversion
open Files (Disk)
open Novella.Flow (FlowGraph)

/-- What a command leaves behind, files apart. -/
structure Outcome where
  exit : Nat := 0
  output : String := ""
  complaint : String := ""
  deriving DecidableEq

def Outcome.failure (complaint : String) : Outcome := ⟨1, "", complaint⟩

variable {m : Type → Type} [Monad m]

def emit (disk : Disk m) (output : Option String) (text : String) : m Outcome := do
  match output with
  | none => return { output := text ++ "\n" }
  | some path =>
    match ← saveText disk path text with
    | .ok _ => return {}
    | .error fault => return .failure fault.message

def convert (disk : Disk m) (path : String) (output : Option String)
    (make : String → Except Fault String) : m Outcome := do
  match ← loadText disk path make with
  | .ok text => emit disk output text
  | .error fault => return .failure fault.message

def validateGraph (disk : Disk m) (path : String) (form : ReportForm) : m Outcome := do
  match ← loadText disk path FlowGraph.ofJson with
  | .error fault => return .failure fault.message
  | .ok g =>
    let report := Report.ofGraph g
    let complaint := path ++ " has " ++ toString report.issues.length ++ " issue(s)"
    return if report.isValid then { output := report.write form }
      else ⟨1, report.write form, complaint⟩

/-- What a script loses on its way through a flow graph. -/
def scriptIssues (s : Settings) (text : String) : List String :=
  match roundTrip s text with
  | .ok out => Script.textDifferences text out
  | .error fault => [fault.message]

/-- How far a check has come. -/
structure Progress where
  checked : Nat := 0
  failed : Nat := 0
  output : String := ""

/-- A place that a walk could not look at counts as failed. -/
def Progress.failure (p : Progress) (message : String) : Progress :=
  { p with failed := p.failed + 1, output := p.output ++ "FAIL " ++ message ++ "\n" }

def Progress.script (p : Progress) (path : String) (issues : List String) : Progress :=
  if issues.isEmpty then
    { p with checked := p.checked + 1, output := p.output ++ "ok   " ++ path ++ "\n" }
  else
    { checked := p.checked + 1, failed := p.failed + 1
      output := p.output ++ "FAIL " ++ path ++ "\n" ++
        String.join (issues.map fun issue => "     " ++ issue ++ "\n") }

def Progress.outcome (p : Progress) : Outcome :=
  let output := p.output ++ toString p.checked ++ " script(s) checked, " ++ toString p.failed ++
    " failed\n"
  if p.failed = 0 then { output }
  else ⟨1, output, toString p.failed ++ " script(s) failed the round trip"⟩

/-- Checks what a walk meets. A script that cannot be read stops the check. -/
def checkFound (disk : Disk m) (s : Settings) (p : Progress) : List Files.Found → m Outcome
  | [] => return p.outcome
  | .failure message :: rest => checkFound disk s (p.failure message) rest
  | .file path :: rest => do
    if Files.hasExtension "nms" path then
      match ← disk.read? path with
      | some text => checkFound disk s (p.script path (scriptIssues s text)) rest
      | none => return ⟨1, p.output, "read " ++ path⟩
    else checkFound disk s p rest

def checkScripts (disk : Disk m) (s : Settings) (path : String) : m Outcome := do
  checkFound disk s {} (← disk.walk path)

def schemaOf : DocumentKind → Json
  | .flow => Schemas.flow
  | .canvas => Schemas.canvas
  | .story => Schemas.story

def Action.run (disk : Disk m) (s : Settings) : Action → m Outcome
  | .toFlow script output =>
    convert disk script output fun text => (flowOfText s text).map (·.toJson)
  | .toCanvas script arranged output =>
    convert disk script output fun text => (canvasOfText s text).map fun g =>
      (if arranged then g.arrange s.placement else g).toJson
  | .toText graph isCanvas output =>
    convert disk graph output fun text =>
      if isCanvas then do textOfCanvas s (← CanvasGraph.ofJson text)
      else do textOfFlow s (← FlowGraph.ofJson text)
  | .validate graph form => validateGraph disk graph form
  | .check path => checkScripts disk s path
  | .dot script output =>
    convert disk script output fun text => (flowOfText s text).map (·.toDot)
  | .schema kind => emit disk none (schemaOf kind).pretty

def Invocation.run (disk : Disk m) (i : Invocation) : m Outcome := do
  let settings ← match i.settings with
    | some path => Settings.load disk path
    | none => pure (.ok {})
  match settings with
  | .ok s => i.action.run disk s
  | .error fault => return .failure fault.message

def usage : String := "\n".intercalate [
  "Visual novel script and IR converter", "",
  "Usage: vnir [--config <FILE>] [-v] <COMMAND>", "",
  "Commands:",
  "  to-ir <SCRIPT> [-o <FILE>]",
  "  to-visual <SCRIPT> [--layout] [-o <FILE>]",
  "  to-text <GRAPH> [--visual] [-o <FILE>]",
  "  validate <GRAPH> [--format text|json|yaml]",
  "  check <PATH>",
  "  dot <SCRIPT> [-o <FILE>]",
  "  schema ir|visual|story",
  "  help", ""]

def runArguments (disk : Disk m) (args : List String) : m Outcome :=
  match Request.ofArguments args with
  | .run i => i.run disk
  | .help => return { output := usage }
  | .version => return { output := "vnir_cli 0.1.0\n" }
  | .misuse => return ⟨2, "", usage⟩

end Novella.Command
