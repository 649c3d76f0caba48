import Novella.Files.Disk
import Novella.Settings.Document
import Novella.Story.Document

/-!
# Saved documents

Stories and settings in files. Settings whose file is not there are the default ones, while a
story has to be there.
-/

namespace Novella

open Files (Disk)

variable {m : Type → Type} [Monad m]

def saveText (disk : Disk m) (path text : String) : m (Except Fault Unit) := do
  return if ← disk.write path text then .ok () else .error (.file path)

def loadText {α : Type} (disk : Disk m) (path : String) (make : String → Except Fault α) :
    m (Except Fault α) := do
  match ← disk.read? path with
  | some text => return make text
  | none => return .error (.file path)

def Story.StoryGraph.save (disk : Disk m) (path : String) (g : StoryGraph) :
    m (Except Fault Unit) :=
  saveText disk path g.toJson

def Story.StoryGraph.load (disk : Disk m) (path : String) : m (Except Fault StoryGraph) :=
  loadText disk path StoryGraph.ofJson

def Settings.save (disk : Disk m) (path : String) (s : Settings) : m (Except Fault Unit) :=
  saveText disk path s.toToml

def Settings.load (disk : Disk m) (path : String) : m (Except Fault Settings) := do
  if ← disk.exists? path then loadText disk path Settings.ofToml else return .ok {}

end Novella
