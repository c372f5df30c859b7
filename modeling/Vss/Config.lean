import Mathlib.Data.Char
/-!
# Config — the settings of `util/config.rs`

Most settings come from the configuration file and can be overridden by an environment variable: the variable
when it is set and parses, the file's field otherwise, and for some a built-in default after both.  The source
writes this once per setting; here it is one definition, `envOr`, and each getter is `envOr` at its own variable,
parser and field.  `std::env::var` is the environment `Env`: `none` for a variable that is unset or not valid text.

A variable that is set but does not parse is ignored, not reported (`envOr_of_not_parse`).  These getters feed
only the start of the server (Sentry, Datadog tracing, the PostgreSQL endpoint), none of the requests' logic.
-/
namespace Vss

/-- The process environment, as `std::env::var(name).ok()` reads it. -/
abbrev Env := String → Option String

/-- **One setting**: `std::env::var(var).ok().and_then(parse).or(field)`; the getters that do not parse pass
`some`, which makes it `std::env::var(var).ok().or_else(|| field.clone())`. -/
def envOr {α : Type} (env : Env) (var : String) (parse : String → Option α) (field : Option α) : Option α :=
  ((env var).bind parse).or field

section EnvOr

variable {α : Type} {env : Env} {var : String} {parse : String → Option α} {field : Option α}

@[simp] theorem envOr_of_parse {a : α} (h : (env var).bind parse = some a) : envOr env var parse field = some a := by
  rw [envOr, h, Option.or_some]

/-- A variable that is unset, or set to a text that does not parse, leaves the file's field. -/
@[simp] theorem envOr_of_not_parse (h : (env var).bind parse = none) : envOr env var parse field = field := by
  rw [envOr, h, Option.none_or]

end EnvOr

/-- `bool::from_str`. -/
def parseBool : String → Option Bool
  | "true" => some true
  | "false" => some false
  | _ => none

/-- `u16::from_str`: decimal digits after an optional `+`, not empty, at most `65535`. -/
def parseU16 (s : String) : Option UInt16 :=
  let digits : List Char := match s.data with
    | '+' :: rest => rest
    | cs => cs
  let n := digits.foldl (fun n c => 10 * n + (c.toNat - '0'.toNat)) (0 : Nat)
  if digits ≠ [] ∧ digits.all Char.isDigit ∧ n < 65536 then some n.toUInt16 else none

example : parseU16 "+8126" = some 8126 ∧ parseU16 "65536" = none ∧ parseU16 "+" = none := by decide

/-! ## Sentry -/

/-- `SentryConfig`, without `sample_rate`, whose `f32` parsing is not modelled. -/
structure SentryConfig where
  dsn : Option String
  environment : Option String

/-- `SentryConfig::get_dsn`. -/
def SentryConfig.getDsn (env : Env) (c : SentryConfig) : Option String := envOr env "SENTRY_DSN" some c.dsn

/-- `SentryConfig::get_environment`. -/
def SentryConfig.getEnvironment (env : Env) (c : SentryConfig) : Option String :=
  envOr env "SENTRY_ENVIRONMENT" some c.environment

/-- The decision of `initialize_sentry` in `main.rs`: the DSN and environment Sentry is started with, or `none`
when it is not started. -/
def initializeSentry (env : Env) : Option SentryConfig → Option (String × Option String)
  | none => none
  | some config =>
    match config.getDsn env with
    | some dsn => if dsn.isEmpty then none else some (dsn, config.getEnvironment env)
    | none => none

/-! ## Datadog -/

structure DatadogConfig where
  enabled : Option Bool
  service : Option String
  env : Option String
  version : Option String
  agentHost : Option String
  agentPort : Option UInt16

namespace DatadogConfig

variable (env : Env) (c : DatadogConfig)

/-- `DatadogConfig::is_enabled`. -/
def isEnabled : Bool := (envOr env "DD_TRACE_ENABLED" parseBool c.enabled).getD true

/-- `DatadogConfig::get_service`. -/
def getService : String := (envOr env "DD_SERVICE" some c.service).getD "vss-server"

/-- `DatadogConfig::get_env`. -/
def getEnv : Option String := envOr env "DD_ENV" some c.env

/-- `DatadogConfig::get_version`. -/
def getVersion : Option String := envOr env "DD_VERSION" some c.version

/-- `DatadogConfig::get_agent_host`. -/
def getAgentHost : String := (envOr env "DD_AGENT_HOST" some c.agentHost).getD "localhost"

/-- `DatadogConfig::get_agent_port`. -/
def getAgentPort : UInt16 := (envOr env "DD_TRACE_AGENT_PORT" parseU16 c.agentPort).getD 8126

/-- `DatadogConfig::default()`. -/
def default : DatadogConfig := ⟨some true, some "vss-server", none, none, some "localhost", some 8126⟩

end DatadogConfig

/-! ## PostgreSQL -/

/-- `PostgreSQLConfig`, without `database` and `tls`, which `to_postgresql_endpoint` does not read. -/
structure PostgreSQLConfig where
  username : Option String
  password : Option String
  host : String
  port : UInt16

/-- `PostgreSQLConfig::to_postgresql_endpoint`; each `expect` that panics is the error with its message. -/
def PostgreSQLConfig.toPostgresqlEndpoint (env : Env) (c : PostgreSQLConfig) : Except String String :=
  match envOr env "VSS_POSTGRESQL_USERNAME" some c.username with
  | none => .error
    "PostgreSQL database username must be provided in config or env var VSS_POSTGRESQL_USERNAME must be set."
  | some username =>
    match envOr env "VSS_POSTGRESQL_PASSWORD" some c.password with
    | none => .error
      "PostgreSQL database password must be provided in config or env var VSS_POSTGRESQL_PASSWORD must be set."
    | some password => .ok ("postgresql://" ++ username ++ ":" ++ password ++ "@" ++ c.host ++ ":" ++ toString c.port)

end Vss
