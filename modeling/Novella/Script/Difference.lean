import Novella.Script.Printer
import Novella.Script.Reader
import Novella.Text.Shown

/-!
# Differences between scripts

`Program.differences` compares two scripts and words each difference. Comments, places and the
bounds of nested blocks do not count. Two statements are alike when their heads are equal,
where the head is all of a statement but the statements nested in it; only then are these
compared.
-/

namespace Novella.Script

mutual

/-- The statements of a body that count, with nested blocks opened up. -/
def significant : List Statement → List Statement
  | [] => []
  | s :: rest => significantIn s ++ significant rest

def significantIn : Statement → List Statement
  | .mk _ (.comment _) => []
  | .mk _ (.block body) => significant body
  | s => [s]

end

/-- All of a statement but the statements nested in it, in words. -/
def Act.head {σ : Type} : Act σ → String
  | .choice options =>
    "choice [" ++ ", ".intercalate (options.map fun o => match o.condition with
      | some condition => Text.shown o.text ++ " if " ++ condition.render
      | none => Text.shown o.text) ++ "]"
  | .branch condition _ elseBody =>
    "if " ++ condition.render ++ " (else: " ++ (if elseBody.isSome then "true" else "false") ++ ")"
  | .switch subject cases default =>
    "switch " ++ subject.render ++ " [" ++
      ", ".intercalate (cases.map fun c => c.value.render) ++ "] (default: " ++
      (if default.isSome then "true" else "false") ++ ")"
  | .loop condition _ => "while " ++ condition.render
  | act => act.simpleText.getD ""

def numberedArms {α σ : Type} (word : String) (body : α → List σ) :
    Nat → List α → List (String × List σ)
  | _, [] => []
  | n, a :: rest => (word ++ " " ++ toString n, body a) :: numberedArms word body (n + 1) rest

/-- The bodies nested in a statement, with a label for each. -/
def Act.arms {σ : Type} : Act σ → List (String × List σ)
  | .choice options => numberedArms "option" (·.body) 1 options
  | .branch _ thenBody elseBody =>
    ("then", thenBody) :: elseBody.toList.map fun body => ("else", body)
  | .switch _ cases default =>
    numberedArms "case" (·.body) 1 cases ++ default.toList.map fun body => ("default", body)
  | .loop _ body => [("body", body)]
  | _ => []

def countDifference (what : String) (expected found : Nat) : List String :=
  if expected = found then []
  else [what ++ " count differs: expected " ++ toString expected ++ ", found " ++ toString found]

mutual

/-- The size of a statement: one more than all that is nested in it. -/
def Statement.size : Statement → Nat
  | .mk _ (.choice options) => optionsSize options + 1
  | .mk _ (.branch _ thenBody elseBody) => bodySize thenBody + optionalSize elseBody + 1
  | .mk _ (.switch _ cases default) => casesSize cases + optionalSize default + 1
  | .mk _ (.loop _ body) => bodySize body + 1
  | .mk _ (.block body) => bodySize body + 1
  | .mk _ _ => 1

def bodySize : List Statement → Nat
  | [] => 0
  | s :: rest => s.size + bodySize rest

def optionalSize : Option (List Statement) → Nat
  | none => 0
  | some body => bodySize body

def optionsSize : List (ChoiceOption Statement) → Nat
  | [] => 0
  | ⟨_, _, body⟩ :: rest => bodySize body + optionsSize rest

def casesSize : List (SwitchCase Statement) → Nat
  | [] => 0
  | ⟨_, body⟩ :: rest => bodySize body + casesSize rest

end

/-- The differences of two bodies, `depth` being more than the depth of nesting in the first. -/
def bodyDifferences : Nat → String → List Statement → List Statement → List String
  | 0, _, _, _ => []
  | depth + 1, path, expected, found =>
    let expected := significant expected
    let found := significant found
    let pairs := (expected.zip found).zipIdx 1
    countDifference (path ++ ": statement") expected.length found.length ++
      pairs.flatMap fun ((want, got), index) =>
        let here := path ++ ", statement " ++ toString index
        if want.act.head ≠ got.act.head then
          [here ++ ": expected `" ++ want.act.head ++ "`, found `" ++ got.act.head ++ "`"]
        else
          (want.act.arms.zip got.act.arms).flatMap fun ((label, a), (_, b)) =>
            bodyDifferences depth (here ++ " " ++ label) a b

def characterDifference (want got : CharacterDecl) : List String :=
  if want.id = got.id ∧ want.displayName = got.displayName ∧ want.color = got.color then []
  else ["character '" ++ want.id ++ "' differs: expected name " ++ Text.shown want.displayName ++
    " color " ++ Text.shown? want.color ++ ", found '" ++ got.id ++ "' name " ++
    Text.shown got.displayName ++ " color " ++ Text.shown? got.color]

def sceneDifferences (want got : SceneDecl) : List String :=
  (if want.name = got.name then []
    else ["scene name differs: expected '" ++ want.name ++ "', found '" ++ got.name ++ "'"]) ++
  bodyDifferences (bodySize want.body + 1) ("scene '" ++ want.name ++ "'") want.body got.body

/-- The differences of two scripts, each in words. -/
def Program.differences (expected found : Program) : List String :=
  countDifference "character" expected.characters.length found.characters.length ++
  (expected.characters.zip found.characters).flatMap (fun (a, b) => characterDifference a b) ++
  countDifference "scene" expected.scenes.length found.scenes.length ++
  (expected.scenes.zip found.scenes).flatMap fun (a, b) => sceneDifferences a b

/-- The differences of the scripts that two texts hold. A text that holds none counts as a
difference. -/
def textDifferences (source converted : String) : List String :=
  match parse source with
  | .error fault => ["original script does not parse: " ++ fault.message]
  | .ok expected =>
    match parse converted with
    | .error fault => ["round-tripped script does not parse: " ++ fault.message]
    | .ok found => expected.differences found

end Novella.Script
