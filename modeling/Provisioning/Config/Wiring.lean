import Provisioning.Lib.Double
import Provisioning.Ops.Admission
import Provisioning.Ops.Dispatcher

/-!
# The configuration of the service

`loadWiringConfig` of `src/provisioning/wiring.ts`, and the part of it that reaches a dispatcher.
-/

namespace Provisioning

open Lib

abbrev ProcessEnv : Type := String → Option String

inductive AppConfigStore where
  | file
  | iga
  deriving DecidableEq, Repr

structure IgaConfig where
  tokenUrl : String
  clientId : String
  clientSecret : String
  scope : Option String
  audience : Option String
  resource : Option String

structure WiringConfig where
  databaseUrl : String
  connectorBundleDir : String
  appConfigStore : AppConfigStore
  drainBudgetMs : Nat
  shutdownGraceMs : Nat
  statementTimeoutMs : Nat
  partitionRetentionDays : Nat
  partitionMaintenanceIntervalMs : Nat
  dispatcherPoolMax : Nat
  claimIntervalMs : Nat
  reaperThresholdMs : Nat
  appConfigDir : Option String
  iga : Option IgaConfig

namespace CONFIG_DEFAULTS

def appConfigStore : String := "file"
def drainBudgetMs : Nat := 8000
def shutdownGraceMs : Nat := 2000
def statementTimeoutMs : Nat := 5000
def poolMax : Nat := 5
def partitionRetentionDays : Nat := 1
def partitionMaintenanceIntervalMs : Nat := 3600000
def claimIntervalMs : Nat := 25
def reaperThresholdMs : Nat := 10 * 60000

end CONFIG_DEFAULTS

/-- `Number.parseInt(raw, 10)`. -/
def parseInt (raw : String) : Double :=
  let text := raw.toList.dropWhile isSpace
  let signed := text.head? = some '-' ∨ text.head? = some '+'
  let digits := (if signed then text.tail else text).takeWhile Char.isDigit
  if digits = [] then .nan
  else
    let magnitude := Double.ofQuotient (Nat.ofDigitChars 10 digits 0) 1
    if text.head? = some '-' then magnitude.neg else magnitude

section

variable (env : ProcessEnv)

def requireEnv (key : String) : Except String String :=
  match env key with
  | none | some "" => throw ("wiring: " ++ key ++ " is required and was not set")
  | some v => pure v

/-- A double that is read by `parseInt` is an integer. -/
def optionalPositiveInt (key : String) (fallback : Nat) : Except String Nat :=
  match env key with
  | none => pure fallback
  | some raw =>
    let refused := "wiring: " ++ key ++ " must be a positive integer, got " ++ Json.quote raw
    match parseInt raw with
    | .finite n => if n ≤ 0 then throw refused else pure n.floor.toNat
    | _ => throw refused

def loadWiringConfig : Except String WiringConfig := do
  let databaseUrl ← requireEnv env "DATABASE_URL"
  let connectorBundleDir ← requireEnv env "CONNECTOR_BUNDLE_DIR"
  let rawStore := (env "APP_CONFIG_STORE").getD CONFIG_DEFAULTS.appConfigStore
  if rawStore ≠ "file" ∧ rawStore ≠ "iga" then
    throw ("wiring: APP_CONFIG_STORE must be \"file\" or \"iga\", got " ++ Json.quote rawStore)
  let appConfigStore : AppConfigStore := if rawStore = "file" then .file else .iga
  let drainBudgetMs ← optionalPositiveInt env "DISPATCHER_DRAIN_BUDGET_MS" CONFIG_DEFAULTS.drainBudgetMs
  let shutdownGraceMs ← optionalPositiveInt env "DISPATCHER_SHUTDOWN_GRACE_MS" CONFIG_DEFAULTS.shutdownGraceMs
  let statementTimeoutMs ←
    optionalPositiveInt env "DISPATCHER_POOL_STATEMENT_TIMEOUT_MS" CONFIG_DEFAULTS.statementTimeoutMs
  let partitionRetentionDays ←
    optionalPositiveInt env "PARTITION_RETENTION_DAYS" CONFIG_DEFAULTS.partitionRetentionDays
  let partitionMaintenanceIntervalMs ←
    optionalPositiveInt env "PARTITION_MAINTENANCE_INTERVAL_MS" CONFIG_DEFAULTS.partitionMaintenanceIntervalMs
  let dispatcherPoolMax ← optionalPositiveInt env "DISPATCHER_POOL_MAX" CONFIG_DEFAULTS.poolMax
  let claimIntervalMs ← optionalPositiveInt env "DISPATCHER_CLAIM_INTERVAL_MS" CONFIG_DEFAULTS.claimIntervalMs
  let reaperThresholdMs ← optionalPositiveInt env "DISPATCHER_REAPER_THRESHOLD_MS" CONFIG_DEFAULTS.reaperThresholdMs
  let config : WiringConfig :=
    { databaseUrl, connectorBundleDir, appConfigStore, drainBudgetMs, shutdownGraceMs, statementTimeoutMs,
      partitionRetentionDays, partitionMaintenanceIntervalMs, dispatcherPoolMax, claimIntervalMs,
      reaperThresholdMs, appConfigDir := none, iga := none }
  match appConfigStore with
  | .file =>
    let appConfigDir ← requireEnv env "APP_CONFIG_DIR"
    pure { config with appConfigDir := some appConfigDir }
  | .iga =>
    let tokenUrl ← requireEnv env "IGA_TOKEN_URL"
    let clientId ← requireEnv env "IGA_CLIENT_ID"
    let clientSecret ← requireEnv env "IGA_CLIENT_SECRET"
    let iga : IgaConfig :=
      ⟨tokenUrl, clientId, clientSecret, env "IGA_SCOPE", env "IGA_AUDIENCE", env "IGA_RESOURCE"⟩
    pure { config with iga := some iga }

end

/-- The dispatcher that `start` builds. -/
def WiringConfig.dispatcher (config : WiringConfig) : ResolvedDispatcherConfig :=
  { ResolvedDispatcherConfig.DEFAULTS with reaperThresholdMs := config.reaperThresholdMs }

/-- The least that the service asks for, and a threshold for the reaper. -/
def envWith (reaperThresholdMs : String) : ProcessEnv := fun key =>
  if key = "DATABASE_URL" then some "postgres://db"
  else if key = "CONNECTOR_BUNDLE_DIR" then some "/bundles"
  else if key = "APP_CONFIG_DIR" then some "/applications"
  else if key = "DISPATCHER_REAPER_THRESHOLD_MS" then some reaperThresholdMs
  else none

end Provisioning
