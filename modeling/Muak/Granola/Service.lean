import Mathlib.Data.List.Basic
import Mathlib.Data.Int.Notation

/-!
# Supervised services

The data of `init/granola/src/supervisor/service.rs`: the definition of a service, its life-cycle
status and the supervisor's runtime state of it. The listener descriptor is left out: it is handed
to the child process and no decision of the supervisor depends on it.
-/

namespace Muak.Granola

/-- A process identifier. -/
abbrev Pid := ℕ

/-- A reading of the monotonic clock, in nanoseconds. -/
abbrev Instant := ℕ

/-- A number of seconds, in nanoseconds. -/
def seconds (n : ℕ) : ℕ := n * 1000000000

/-- Health reported by a service status notification. -/
inductive Health
  | healthy
  | degraded
  | unhealthy
  deriving DecidableEq, Repr

/-- The wire representation of a health value. -/
def Health.asStr : Health → String
  | .healthy => "healthy"
  | .degraded => "degraded"
  | .unhealthy => "unhealthy"

/-- Parse a health value. -/
def Health.fromStr (s : String) : Option Health :=
  if s = "healthy" then some .healthy
  else if s = "degraded" then some .degraded
  else if s = "unhealthy" then some .unhealthy
  else none

/-- Life-cycle status of a supervised service. -/
inductive ServiceStatus
  | pending
  | starting
  | ready
  | degraded
  | stopping
  | failed
  deriving DecidableEq, Repr

/-- Blueprint of a supervised service. -/
structure Service where
  name : String
  command : String
  dependsOn : List String
  deriving DecidableEq

/-- Incremental argv builder that tracks the quote state. -/
structure ArgvBuilder where
  args : List String := []
  current : List Char := []
  quote : Option Char := none

namespace ArgvBuilder

/-- Push the current word onto the argument list, if any. -/
def flush (b : ArgvBuilder) : ArgvBuilder :=
  if b.current = [] then b
  else { b with args := b.args ++ [String.ofList b.current], current := [] }

/-- Accept one character outside of a quoted section. -/
def acceptUnquoted (b : ArgvBuilder) (ch : Char) : ArgvBuilder :=
  if ch = '"' ∨ ch = '\'' then { b with quote := some ch }
  else if ch = ' ' ∨ ch = '\t' then b.flush
  else { b with current := b.current ++ [ch] }

/-- Accept one character of the command. -/
def accept (b : ArgvBuilder) (ch : Char) : ArgvBuilder :=
  match b.quote with
  | some opening =>
    if ch = opening then { b with quote := none } else { b with current := b.current ++ [ch] }
  | none => b.acceptUnquoted ch

end ArgvBuilder

/-- The command split into words, respecting single and double quotes. -/
def Service.argv (s : Service) : List String :=
  (s.command.toList.foldl ArgvBuilder.accept {}).flush.args

/-- Runtime state of a supervised service. -/
structure ServiceState where
  service : Service
  pid : Option Pid := none
  status : ServiceStatus := .pending
  restartCount : ℕ := 0
  lastRestart : Option Instant := none
  lastStatus : Option (String × Health) := none
  deriving DecidableEq

/-- The state of a service that was never started. -/
def ServiceState.new (service : Service) : ServiceState := { service }

end Muak.Granola
