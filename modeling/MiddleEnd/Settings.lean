/-! What a compilation can be asked to do. -/

namespace MiddleEnd

/-- Points of the pipeline whose result can be shown. -/
inductive Stage where
  | resolved
  | typed
  | mir
  | closure
  deriving DecidableEq, Repr

namespace Stage

def name : Stage → String
  | resolved => "resolved"
  | typed => "typed"
  | mir => "mir"
  | closure => "closure"

def all : List Stage := [resolved, typed, mir, closure]

def ofName? (name : String) : Option Stage := all.find? (fun stage => stage.name == name)

end Stage

structure Settings where
  /-- Declare the functions of the run-time library before type inference. -/
  seedBuiltins : Bool := true
  /-- Keep the colours of rendered diagnostics. -/
  color : Bool := true
  dump : List Stage := []

def Settings.dumps (settings : Settings) (stage : Stage) : Bool := settings.dump.contains stage

end MiddleEnd
