import RunAudit.Json.Value
import RunAudit.Keyed

/-!
# Configuration of the test application

The test application is configured in JSON. Of its configuration only the target rates of its
throttle phases matter: the member `tpsMap` of `submitConfig`, which maps the number of each phase
to its rate.

* `AppConfig.read?`: the configuration that a text spells; none if it is malformed.
* `AppConfig.rates`: the target rates in the order of their phases.
-/

namespace RunAudit.Config

open RunAudit.Json

/-- The target rate of each throttle phase. -/
abbrev Phases := Keyed Nat Float

/-- The configuration of the test application; the phases are missing if it has no part on
submissions. -/
structure AppConfig where
  phases : Option Phases

/-- The number of a phase: a key that is written as a natural number and nothing else. -/
def phaseNumber? (key : List Char) : Option Nat := (Numeral.read? key).bind Numeral.natural?

/-- The target rate of a phase. -/
def rate? : Value → Option Float
  | .number n => n.toFloat?
  | _ => none

/-- The target rates by phase. Of several for one phase, the last counts. -/
def phases? : Value → Option Phases
  | .object members => do
    return .ofList (← members.mapM fun (key, v) => do return (← phaseNumber? key, ← rate? v))
  | _ => none

/-- The part on submissions. -/
def submissions? (v : Value) : Option Phases := do
  match ← v.fields? ["tpsMap"] with
  | [some v] => phases? v
  | _ => return .empty

namespace AppConfig

/-- The configuration of a value. A part on submissions that is null counts as missing. -/
def ofValue? (v : Value) : Option AppConfig := do
  match ← v.fields? ["submitConfig"] with
  | [some .null] => return ⟨none⟩
  | [some v] => return ⟨some (← submissions? v)⟩
  | _ => return ⟨none⟩

/-- The configuration that a text spells. -/
def read? (s : String) : Option AppConfig := (Value.read? s).bind ofValue?

/-- The target rates in the order of their phases. -/
def rates (c : AppConfig) : List Float := (c.phases.map Keyed.values).getD []

end AppConfig

end RunAudit.Config
