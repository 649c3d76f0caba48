import Novella.Flow.Kind
import Novella.Graph.Port
import Novella.Json.Mishap
import Novella.Script.Rule

/-!
# Faults

Everything that an operation on scripts, graphs and documents can refuse, each with its cause
and with the words in which it is reported.
-/

namespace Novella

inductive PortIssue where
  | sourceNotOutput
  | targetNotInput
  | noOutput (kind : String)
  | noInput (kind : String)
  | kindsDiffer (output input : String)
  | nameTaken
  deriving DecidableEq

def PortIssue.message : PortIssue → String
  | .sourceNotOutput => "connection source must be an output port"
  | .targetNotInput => "connection target must be an input port"
  | .noOutput kind => kind ++ " node has no output port"
  | .noInput kind => kind ++ " node has no input port"
  | .kindsDiffer output input => output ++ " output cannot feed a " ++ input ++ " input"
  | .nameTaken => "port name already taken"

inductive TextIssue where
  | notBool (text : String)
  | notInt (error : IntReadError)
  | notFloat (error : Binary64.ReadError)
  | notTexts (mishap : Json.Mishap)
  deriving DecidableEq

def TextIssue.message : TextIssue → String
  | .notBool text => "expected true or false, found '" ++ text ++ "'"
  | .notInt error => "expected int: " ++ error.message
  | .notFloat error => "expected float: " ++ error.message
  | .notTexts mishap => "expected JSON string list: " ++ mishap.message

inductive PropertyIssue where
  | notName (text : String)
  | notExpression (issue : Script.Issue)
  | badText (issue : TextIssue)
  | noOptions (kind : String)
  deriving DecidableEq

def PropertyIssue.message : PropertyIssue → String
  | .notName text => Text.shown text ++ " is not an identifier"
  | .notExpression issue => issue.message
  | .badText issue => issue.message
  | .noOptions kind => kind ++ " nodes have no options"

/-- Why a value in a document is not a value of a property; `found` is its text. -/
inductive ValueIssue where
  | notOfKind (kind : Flow.PropertyKind) (found : String)
  | notTexts
  | unsupported (found : String)
  deriving DecidableEq

def ValueIssue.message : ValueIssue → String
  | .notOfKind kind found => "expected " ++ kind.describe ++ ", found " ++ found
  | .notTexts => "expected a list of strings"
  | .unsupported found => "unsupported property value " ++ found

/-- The schema version of the documents that are written and read. -/
def schemaVersion : String := "1.0"

/-- A refused operation. -/
inductive Fault where
  /-- A construct that has no place in a flow graph. -/
  | unsupported (construct : String)
  | unknownKind (tag : String)
  | badPort (node : Nat) (port : String) (issue : PortIssue)
  | unknownNode (id : Nat)
  | duplicateConnection (source target : Port)
  /-- A scene whose flow ends at a port without a connection. -/
  | incomplete (node : Nat) (port : String)
  | badProperty (node : Nat) (property : String) (issue : PropertyIssue)
  | badCharacter (id : String)
  | badScript (issue : Script.Issue) (excerpt : Text.Excerpt)
  | badJson (mishap : Json.Mishap) (excerpt : Text.Excerpt)
  | badVersion (found : String)
  | badNodeId (id : Nat)
  | badValue (node : Nat) (property : String) (issue : ValueIssue)
  /-- A connection of a document; `word` is what the document calls connections. -/
  | badLink (word : String) (cause : Fault)
  | badScene (name : String) (cause : Fault)
  | badStart (cause : Fault)
  | file (path : String)
  | settings

namespace Fault

def message : Fault → String
  | unsupported construct => "unsupported construct: " ++ construct
  | unknownKind tag => "unknown node type '" ++ tag ++ "'"
  | badPort node port issue =>
    "invalid port '" ++ port ++ "' on node " ++ toString node ++ ": " ++ issue.message
  | unknownNode id => "unknown node " ++ toString id
  | duplicateConnection source target =>
    "connection " ++ source.describe ++ " -> " ++ target.describe ++ " already exists"
  | incomplete node port =>
    "incomplete graph at node " ++ toString node ++ ", port '" ++ port ++
      "': scene flow ends before reaching a SceneEnd"
  | badProperty node property issue =>
    "invalid property '" ++ property ++ "' on node " ++ toString node ++ ": " ++ issue.message
  | badCharacter id => "'" ++ id ++ "' is not a valid character name"
  | badScript issue _ => issue.message
  | badJson mishap _ => "parse error: " ++ mishap.message
  | badVersion found =>
    "parse error: schema version mismatch: expected " ++ schemaVersion ++ ", found " ++ found
  | badNodeId id => "parse error: duplicate or invalid node id " ++ toString id
  | badValue node property issue =>
    "parse error: node " ++ toString node ++ " property '" ++ property ++ "': " ++ issue.message
  | badLink word cause => "parse error: invalid " ++ word ++ ": " ++ cause.message
  | badScene name cause => "parse error: scene '" ++ name ++ "': " ++ cause.message
  | badStart cause => "parse error: start node: " ++ cause.message
  | file path => "io error on " ++ path
  | settings => "configuration error"

/-- The part of a text that a fault is about; empty for one that is not about a place. -/
def excerpt : Fault → Text.Excerpt
  | badScript _ excerpt => excerpt
  | badJson _ excerpt => excerpt
  | _ => {}

end Fault

end Novella
