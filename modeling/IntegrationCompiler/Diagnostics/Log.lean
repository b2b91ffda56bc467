/-!
# The log

Remarks made while a document is read and compiled. They never change a result.
-/

namespace IntegrationCompiler

/-- How important a remark is. -/
inductive Level where
  | debug
  | info
  | warning
  | error
  deriving DecidableEq, Repr

/-- The name of a level. -/
def Level.name : Level → String
  | .debug => "DEBUG"
  | .info => "INFO"
  | .warning => "WARNING"
  | .error => "ERROR"

/-- The rank of a level. -/
def Level.rank : Level → Nat
  | .debug => 0
  | .info => 1
  | .warning => 2
  | .error => 3

/-- One remark. -/
structure Remark where
  level : Level
  text : String
  deriving DecidableEq, Repr

/-- Remarks in the order in which they were made. -/
abbrev Log := List Remark

/-- The remarks at or above a level. -/
def Log.atLeast (level : Level) (log : Log) : Log :=
  log.filter fun r => level.rank ≤ r.level.rank

end IntegrationCompiler
