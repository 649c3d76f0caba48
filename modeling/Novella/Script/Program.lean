import Novella.Script.Expression

/-!
# Scripts

A `Program` is a list of characters and a list of scenes, and a scene is a list of statements.
What a statement does is an `Act`, which holds the statements nested in it; the statement adds
the place where it stands in the script.
-/

namespace Novella.Script

/-- Line and column of a construct, both counted from one; zero where there is none. -/
structure Location where
  line : UInt32 := 0
  column : UInt32 := 0
  deriving DecidableEq, Repr, Inhabited

/-- An option of a choice, offered only where its condition holds. -/
structure ChoiceOption (σ : Type) where
  text : String
  condition : Option Expression
  body : List σ

structure SwitchCase (σ : Type) where
  value : Expression
  body : List σ

/-- What a statement does, over the type of the statements nested in it. -/
inductive Act (σ : Type) where
  | say (speaker : Option String) (text : String)
  | showBackground (asset : String)
  | showCharacter (character : String) (position : Option String)
  | hide (character : String)
  | choice (options : List (ChoiceOption σ))
  | branch (condition : Expression) (thenBody : List σ) (elseBody : Option (List σ))
  | switch (subject : Expression) (cases : List (SwitchCase σ)) (default : Option (List σ))
  | loop (condition : Expression) (body : List σ)
  | set (target : String) (value : Expression)
  | goto (target : String)
  | wait (seconds : Binary64)
  | playMusic (asset : String)
  | playSound (asset : String)
  | stopMusic
  | transition (kind : String) (duration : Binary64)
  | comment (text : String)
  | block (body : List σ)

inductive Statement where
  | mk (loc : Location) (act : Act Statement)

namespace Statement

def loc : Statement → Location
  | mk loc _ => loc

def act : Statement → Act Statement
  | mk _ act => act

/-- A statement that stands nowhere. -/
def bare (act : Act Statement) : Statement := mk {} act

end Statement

structure CharacterDecl where
  id : String
  displayName : String
  color : Option String
  loc : Location := {}
  deriving DecidableEq

structure SceneDecl where
  name : String
  body : List Statement
  loc : Location := {}

structure Program where
  characters : List CharacterDecl := []
  scenes : List SceneDecl := []

end Novella.Script
