import ResponseCache.Message.Method
import ResponseCache.Namespace
import ResponseCache.Json.Fields
import ResponseCache.Time.Duration

/-!
# Settings

Everything has a default. Settings are checked after they are read: first the namespace, then the
sweep interval, then the size of scans.
-/
namespace ResponseCache

structure Settings where
  space : Namespace := .default
  sweepSeconds : Nat := 60
  methods : List Method := [.get]
  scanBatch : Nat := 100
deriving DecidableEq

inductive SettingsError
  | malformed
  | zero (field : String)
  | undelimited (space : Namespace)
deriving DecidableEq

def SettingsError.message : SettingsError → String
  | malformed => "invalid cache configuration"
  | zero field => s!"`{field}` must be greater than zero"
  | undelimited space => s!"namespace `{space.lead}` must end with a delimiter such as `:`"

namespace Settings

def check (s : Settings) : Except SettingsError Unit :=
  if !s.space.isDelimited then .error (.undelimited s.space)
  else if s.sweepSeconds = 0 then .error (.zero "sweep_interval_secs")
  else if s.scanBatch = 0 then .error (.zero "scan_batch_size")
  else .ok ()

def names : List String :=
  ["namespace", "sweep_interval_secs", "cacheable_methods", "scan_batch_size"]

def ofDocument? (j : Json.Document) : Option Settings := do
  let f ← Json.Fields.ofDocument? names true j
  let space ← f.orDefault "namespace" (fun j => (Json.text? j).map Namespace.mk) .default
  let sweepSeconds ← f.orDefault "sweep_interval_secs" (Json.natBelow? (2 ^ 64)) 60
  let methods ← f.orDefault "cacheable_methods"
    (Json.list? fun j => (Json.text? j).map Method.ofText) [.get]
  let scanBatch ← f.orDefault "scan_batch_size" (Json.natBelow? (2 ^ 64)) 100
  some { space, sweepSeconds, methods, scanBatch }

def ofText (s : String) : Except SettingsError Settings :=
  match (Json.ofText? s).bind ofDocument? with
  | none => .error .malformed
  | some settings => match settings.check with
    | .ok () => .ok settings
    | .error e => .error e

/-- The interval of a sweep in whole seconds. -/
def withSweepInterval (s : Settings) (d : Duration) : Settings :=
  { s with sweepSeconds := d.seconds }

def sweepPeriod (s : Settings) : Duration := .ofSeconds s.sweepSeconds

end Settings
end ResponseCache
