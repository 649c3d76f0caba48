/-!
# Command lines

A command line names a command, the one thing that the command works on, and options. Options
may stand before or after that thing, an option is given at most once, and its value may be
joined to it. What is wrong first decides, unless help or the version is asked for before.
-/

namespace Novella.Command

inductive ReportForm where
  | text
  | json
  | yaml
  deriving DecidableEq

inductive DocumentKind where
  | flow
  | canvas
  | story
  deriving DecidableEq

/-- What to do; an output is the file to write to. -/
inductive Action where
  | toFlow (script : String) (output : Option String)
  | toCanvas (script : String) (arranged : Bool) (output : Option String)
  | toText (graph : String) (isCanvas : Bool) (output : Option String)
  | validate (graph : String) (form : ReportForm)
  | check (path : String)
  | dot (script : String) (output : Option String)
  | schema (kind : DocumentKind)
  deriving DecidableEq

structure Invocation where
  settings : Option String
  action : Action
  deriving DecidableEq

inductive Request where
  | run (i : Invocation)
  | help
  | version
  | misuse
  deriving DecidableEq

/-! ## Options -/

/-- An option: its letter, its name, and whether it has a value. -/
structure Flag where
  letter : Option Char
  name : String
  valued : Bool

inductive Piece where
  | option (name value : String)
  | free (value : String)
  | wrong
  deriving DecidableEq

/-- Whether an argument is an option and not a value. -/
def isOption (arg : String) : Bool := arg.startsWith "-" && arg ≠ "-"

/-- An option whose value is the next argument. -/
def withNext (flag : Flag) : List String → List Piece × List String
  | next :: rest => if isOption next then ([.wrong], []) else ([.option flag.name next], rest)
  | [] => ([.wrong], [])

/-- Reads an option by its name; `value` is what is joined to it. -/
def readLong (flags : List Flag) (name : String) (value : Option String) (rest : List String) :
    List Piece × List String :=
  match flags.find? (·.name = name) with
  | none => ([.wrong], [])
  | some flag =>
    match value with
    | some value => if flag.valued then ([.option flag.name value], rest) else ([.wrong], [])
    | none => if flag.valued then withNext flag rest else ([.option flag.name ""], rest)

/-- Reads options by their letters. What follows the letter of an option with a value is the
value. -/
def readLetters (flags : List Flag) : List Char → List String → List Piece × List String
  | [], rest => ([], rest)
  | c :: cs, rest =>
    match flags.find? (·.letter = some c) with
    | none => ([.wrong], [])
    | some flag =>
      if !flag.valued then
        let (pieces, rest) := readLetters flags cs rest
        (.option flag.name "" :: pieces, rest)
      else match cs with
        | [] => withNext flag rest
        | '=' :: value => ([.option flag.name (String.ofList value)], rest)
        | value => ([.option flag.name (String.ofList value)], rest)

def readOption (flags : List Flag) (arg : String) (rest : List String) :
    List Piece × List String :=
  match arg.toList with
  | '-' :: '-' :: cs =>
    let name := String.ofList (cs.takeWhile (· ≠ '='))
    let value := match cs.dropWhile (· ≠ '=') with
      | _ :: value => some (String.ofList value)
      | [] => none
    readLong flags name value rest
  | _ :: cs => readLetters flags cs rest
  | [] => ([.wrong], [])

/-- The options that begin a command line of at most `count` arguments, and the arguments from
the first one that is no option. -/
def leadingOptions (flags : List Flag) : Nat → List String → List Piece × List String
  | 0, args => ([], args)
  | _, [] => ([], [])
  | count + 1, arg :: rest =>
    if arg = "--" then ([.wrong], [])
    else if !isOption arg then ([], arg :: rest)
    else
      let (first, rest) := readOption flags arg rest
      let (others, rest) := leadingOptions flags count rest
      (first ++ others, rest)

/-- The parts of a command line of at most `count` arguments. After two hyphens nothing is an
option. -/
def piecesOf (flags : List Flag) : Nat → List String → List Piece
  | 0, _ => []
  | _, [] => []
  | count + 1, arg :: rest =>
    if arg = "--" then rest.map .free
    else if !isOption arg then .free arg :: piecesOf flags count rest
    else
      let (first, rest) := readOption flags arg rest
      first ++ piecesOf flags count rest

/-! ## Commands -/

def settingsFlag : Flag := ⟨none, "config", true⟩
def verboseFlag : Flag := ⟨some 'v', "verbose", false⟩
def helpFlag : Flag := ⟨some 'h', "help", false⟩
def versionFlag : Flag := ⟨some 'V', "version", false⟩
def outputFlag : Flag := ⟨some 'o', "output", true⟩
def layoutFlag : Flag := ⟨none, "layout", false⟩
def canvasFlag : Flag := ⟨none, "visual", false⟩
def formatFlag : Flag := ⟨none, "format", true⟩

def reportForms : List (String × ReportForm) := [("text", .text), ("json", .json), ("yaml", .yaml)]

def documentKinds : List (String × DocumentKind) :=
  [("ir", .flow), ("visual", .canvas), ("story", .story)]

def acceptsValue (name value : String) : Bool :=
  if name = "format" then (reportForms.lookup value).isSome
  else if name = "config" || name = "output" then value ≠ ""
  else true

structure Given where
  options : List (String × String) := []
  thing : Option String := none

namespace Given

def value? (g : Given) (name : String) : Option String := g.options.lookup name

def has (g : Given) (name : String) : Bool := (g.value? name).isSome

/-- Takes the parts of a command line one after the other. -/
def take (acceptsThing : String → Bool) : Given → List Piece → Except Request Given
  | g, [] => .ok g
  | _, .wrong :: _ => .error .misuse
  | g, .option name value :: rest =>
    if name = "help" then .error .help
    else if name = "version" then .error .version
    else if g.has name || !acceptsValue name value then .error .misuse
    else take acceptsThing { g with options := (name, value) :: g.options } rest
  | g, .free value :: rest =>
    if g.thing.isSome || !acceptsThing value then .error .misuse
    else take acceptsThing { g with thing := some value } rest

end Given

/-- A command: its name, its own options, what it can work on, and what it then is. -/
structure Form where
  name : String
  flags : List Flag
  accepts : String → Bool
  build : String → Given → Option Action

def Form.onPath (name : String) (flags : List Flag) (build : String → Given → Action) : Form :=
  ⟨name, flags, (· ≠ ""), fun path g => some (build path g)⟩

def forms : List Form := [
  .onPath "to-ir" [outputFlag] fun path g => .toFlow path (g.value? "output"),
  .onPath "to-visual" [outputFlag, layoutFlag] fun path g =>
    .toCanvas path (g.has "layout") (g.value? "output"),
  .onPath "to-text" [outputFlag, canvasFlag] fun path g =>
    .toText path (g.has "visual") (g.value? "output"),
  .onPath "validate" [formatFlag] fun path g =>
    .validate path (((g.value? "format").bind (reportForms.lookup ·)).getD .text),
  .onPath "check" [] fun path _ => .check path,
  .onPath "dot" [outputFlag] fun path g => .dot path (g.value? "output"),
  ⟨"schema", [], fun kind => (documentKinds.lookup kind).isSome, fun kind _ =>
    (documentKinds.lookup kind).map .schema⟩]

/-- The request of the arguments after the name of a command; `outer` are the options before
it. -/
def Form.request (form : Form) (outer : Given) (args : List String) : Request :=
  let flags := form.flags ++ [settingsFlag, verboseFlag, helpFlag]
  match Given.take form.accepts {} (piecesOf flags args.length args) with
  | .error request => request
  | .ok g =>
    match g.thing.bind fun thing => form.build thing g with
    | none => .misuse
    | some action => .run ⟨g.value? "config" <|> outer.value? "config", action⟩

def Request.ofArguments (args : List String) : Request :=
  let (pieces, rest) :=
    leadingOptions [settingsFlag, verboseFlag, helpFlag, versionFlag] args.length args
  match Given.take (fun _ => false) {} pieces with
  | .error request => request
  | .ok outer =>
    match rest with
    | [] => .misuse
    | "help" :: names =>
      match names with
      | [] => .help
      | [name] => if name = "help" || forms.any (·.name = name) then .help else .misuse
      | _ => .misuse
    | name :: rest =>
      match forms.find? (·.name = name) with
      | some form => form.request outer rest
      | none => .misuse

end Novella.Command
