import Novella.Command.Arguments
import Novella.Flow.Graph
import Novella.Text.Yaml

/-!
# Validation reports

What is wrong with the structure of a flow graph, with counts over it, as text, JSON or YAML.
-/

namespace Novella.Command

open Novella.Flow (FlowGraph)

structure Report where
  graph : String
  issues : List String
  stats : FlowGraph.Stats

namespace Report

def ofGraph (g : FlowGraph) : Report := ⟨g.name, g.findings.map (·.message), g.stats⟩

def isValid (r : Report) : Bool := r.issues.isEmpty

def toText (r : Report) : String :=
  String.join (r.issues.map (· ++ "\n")) ++ r.graph ++ ": " ++ toString r.stats.total ++
    " node(s), " ++ toString r.stats.connections ++ " connection(s), " ++
    toString r.issues.length ++ " issue(s)\n"

def toJson (r : Report) : Json := .record [
  ("schema_version", .text schemaVersion), ("graph", .text r.graph), ("valid", .bool r.isValid),
  ("issues", Json.texts r.issues), ("stats", r.stats.toJson)]

def statLines (s : FlowGraph.Stats) : List String :=
  match s.toJson with
  | .record members => members.map fun (name, n) => "  " ++ name ++ ": " ++ n.compact ++ "\n"
  | _ => []

def toYaml (r : Report) : String :=
  "schema_version: " ++ Text.Yaml.scalar schemaVersion ++
  "graph: " ++ Text.Yaml.scalar r.graph ++
  "valid: " ++ Json.writeBool r.isValid ++ "\n" ++
  (if r.issues.isEmpty then "issues: []\n"
    else "issues:\n" ++ String.join (r.issues.map fun issue => "- " ++ Text.Yaml.scalar issue)) ++
  "stats:\n" ++ String.join (statLines r.stats)

def write (r : Report) : ReportForm → String
  | .text => r.toText
  | .json => r.toJson.pretty ++ "\n"
  | .yaml => r.toYaml

end Report

end Novella.Command
