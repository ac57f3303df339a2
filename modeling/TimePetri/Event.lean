namespace TimePetri

-- What a run reports beside its answer, in the order in which it happened.
inductive Level where
  | trace
  | debug
  | warn
  deriving DecidableEq

def Level.name : Level → String
  | .trace => "TRACE"
  | .debug => "DEBUG"
  | .warn => "WARN"

structure Event where
  level : Level
  text : String
  deriving DecidableEq

def Event.line (event : Event) : String := event.level.name ++ " " ++ event.text

structure Logged (α : Type) where
  events : List Event
  value : α

def Logged.andThen (first : Logged α) (next : α → Logged β) : Logged β :=
  let second := next first.value
  ⟨first.events ++ second.events,second.value⟩

def Logged.quiet (value : α) : Logged α := ⟨[],value⟩

end TimePetri
