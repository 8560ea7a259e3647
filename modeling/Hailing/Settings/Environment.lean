import Hailing.Settings.Basic

/-!
# Settings from the environment

At the start every setting is looked up by its name among the variables of
the environment. What is not set there has its usual value, and so has a
variable that is not text. The variables are read in a fixed order; the first
one that cannot be read decides, and only when all are read it is checked
whether they go together.
-/

namespace Hailing

open Decimal (NumeralFault)

/-- The text of a variable, if it is set to a text. -/
abbrev Environment := String → Option String

/-- An environment by its variables; a value that is not in UTF-8 is none. -/
def Environment.ofVariables (entries : List (String × ByteArray)) : Environment :=
  fun name => (entries.lookup name).bind String.fromUTF8?

inductive LogFormat where
  | compact
  | json
  deriving DecidableEq, Repr

/-- Everything that is set at the start. -/
structure Startup where
  httpPort : Nat
  logLevel : String
  logFormat : LogFormat
  eventBufferSize : Nat
  settings : Settings
  deriving Repr

namespace Environment

/-- The variable as `read` understands it, or a usual value. -/
def get {α : Type} (env : Environment) (read : String → Except NumeralFault α)
    (name : String) (usual : α) : Except Refusal α :=
  match env name with
  | none => .ok usual
  | some text =>
    match read text with
    | .ok a => .ok a
    | .error fault => .error (.numeral name fault)

def decimal (env : Environment) (name : String) (usual : Float) : Except Refusal Float :=
  env.get Decimal.readDecimal name usual

/-- A waiting time in whole seconds. -/
def seconds (env : Environment) (name : String) (usual : Nat) : Except Refusal Nat :=
  env.get (fun text => (· * 1000) <$> Decimal.readWhole (UInt64.size - 1) text) name usual

def logFormat (env : Environment) : Except Refusal LogFormat :=
  match env "LOG_FORMAT" with
  | some "json" => .ok .json
  | some "compact" => .ok .compact
  | none => .ok .compact
  | some text => .error (.logFormat text)

/-- The settings as they are read, not checked against each other. -/
def readSettings (env : Environment) : Except Refusal Settings := do
  let usual : Settings := {}
  let offerWindow ← env.seconds "OFFER_WINDOW_SECS" usual.offerWindow
  let sweepInterval ← env.seconds "SWEEP_INTERVAL_SECS" usual.sweepInterval
  let firstRadius ← env.decimal "INITIAL_RADIUS_KM" usual.firstRadius
  let radiusStep ← env.decimal "RADIUS_STEP_KM" usual.radiusStep
  let largestRadius ← env.decimal "MAX_SEARCH_RADIUS_KM" usual.largestRadius
  let destinationRadius ← env.decimal "DESTINATION_MATCH_RADIUS_KM" usual.destinationRadius
  let radiusWait ← env.seconds "RADIUS_WAIT_SECS" usual.radiusWait
  let freshness ← env.seconds "LOCATION_FRESHNESS_SECS" usual.freshness
  let retryAfter ← env.seconds "EXHAUSTED_RETRY_SECS" usual.retryAfter
  let averageSpeed ← env.decimal "AVERAGE_SPEED_KMH" usual.averageSpeed
  return {
    offerWindow, sweepInterval, firstRadius, radiusStep, largestRadius,
    destinationRadius, radiusWait, freshness, retryAfter, averageSpeed }

def settings (env : Environment) : Except Refusal Settings := do
  let settings ← env.readSettings
  settings.check
  return settings

def startup (env : Environment) : Except Refusal Startup := do
  let logFormat ← env.logFormat
  let httpPort ← env.get (Decimal.readWhole (UInt16.size - 1)) "HTTP_PORT" 3000
  let eventBufferSize ← env.get (Decimal.readWhole (UInt64.size - 1)) "EVENT_BUFFER_SIZE" 1024
  let settings ← env.settings
  return {
    httpPort, logFormat, eventBufferSize, settings,
    logLevel := (env "LOG_LEVEL").getD "info" }

end Environment

end Hailing
