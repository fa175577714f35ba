import SimScript.Diagnostics.Compilation
import SimScript.Diagnostics.Fault
import SimScript.Diagnostics.Location

/-!
# Events

A message of any family, together with where it arose.
-/

namespace SimScript

inductive Message where
  | preprocessor (message : PreprocessorMessage)
  | assembly (message : AssemblyMessage)
  | script (message : ScriptMessage)
  | config (message : ConfigMessage)
  | linting (message : LintingMessage)
  | fault (raised : Fault)

namespace Message

def heading : Message → Heading
  | .preprocessor message => message.heading
  | .assembly message => message.heading
  | .script message => message.heading
  | .config message => message.heading
  | .linting message => message.heading
  | .fault raised => raised.heading

def text : Message → String
  | .preprocessor message => message.text
  | .assembly message => message.text
  | .script message => message.text
  | .config message => message.text
  | .linting message => message.text
  | .fault raised => raised.text

def severity (message : Message) : Severity :=
  message.heading.severity

end Message

instance : Coe Fault Message := ⟨.fault⟩

instance : Coe AssemblyMessage Message := ⟨.assembly⟩

structure Event where
  message : Message
  location : Location

namespace Event

def severity (event : Event) : Severity :=
  event.message.severity

/-- The line of an event: `[ERR][path][L1|C2] [60009] text`. -/
def render (event : Event) : String :=
  let heading := event.message.heading
  s!"{heading.severity.tag}{event.location.render} [{heading.code}] {event.message.text}"

end Event

end SimScript
