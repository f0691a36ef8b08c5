/-!
# The journal

What happens to a package is recorded at five levels of detail. A computation that records something
is a `Logged` value: its result, and the records in the order they were made.

A `Logger` writes records to a file, one line each. It is set up once with the greatest level of
detail that it takes; setting it up a second time fails and changes nothing.
-/

namespace MiniSheet

/-- How detailed a record is. -/
inductive Level where
  /-- a failure -/
  | error
  /-- something that is likely to be a mistake -/
  | warn
  /-- a milestone -/
  | info
  /-- a step -/
  | debug
  /-- a detail -/
  | trace
  deriving Repr, DecidableEq, Inhabited

namespace Level

/-- The place of a level, the least detailed first. -/
def rank : Level → Nat
  | error => 1
  | warn => 2
  | info => 3
  | debug => 4
  | trace => 5

/-- The name of a level. -/
def name : Level → String
  | error => "ERROR"
  | warn => "WARN"
  | info => "INFO"
  | debug => "DEBUG"
  | trace => "TRACE"

/-- Whether a level is no more detailed than the greatest one taken. No level is taken when there is
no greatest one. -/
def isWithin (level : Level) : Option Level → Bool
  | none => false
  | some greatest => level.rank ≤ greatest.rank

end Level

/-- Something that happened. -/
structure Record where
  /-- how detailed it is -/
  level : Level
  /-- what happened -/
  message : String
  deriving Repr, DecidableEq

/-- The line that is written for a record. -/
def Record.line (record : Record) : String := s!"[{record.level.name}] {record.message}\n"

/-! ## Computations that record -/

/-- A result and what was recorded on the way to it. -/
structure Logged (α : Type) where
  /-- the result -/
  value : α
  /-- the records, oldest first -/
  records : List Record := []

namespace Logged

variable {α β : Type}

/-- Go on with a result, keeping the records. -/
def bind (first : Logged α) (next : α → Logged β) : Logged β :=
  let second := next first.value
  ⟨second.value, first.records ++ second.records⟩

/-- Record one thing. -/
def record (level : Level) (message : String) : Logged Unit := ⟨(), [⟨level, message⟩]⟩

instance : Monad Logged where
  pure value := { value }
  bind := bind

@[simp] theorem value_pure (a : α) : (pure a : Logged α).value = a := rfl

@[simp] theorem value_bind (first : Logged α) (next : α → Logged β) :
    (first >>= next).value = (next first.value).value := rfl

@[simp] theorem records_pure (a : α) : (pure a : Logged α).records = [] := rfl

@[simp] theorem records_bind (first : Logged α) (next : α → Logged β) :
    (first >>= next).records = first.records ++ (next first.value).records := rfl

end Logged

/-! ## Writing records -/

/-- A logger and the file that it writes to. -/
structure Logger where
  /-- the greatest level taken, once the logger is set up -/
  installed : Option (Option Level) := none
  /-- the content of the file, once there is one -/
  file : Option String := none
  deriving Repr

namespace Logger

/-- What is reported when a logger is set up twice. -/
def installedMessage : String :=
  "attempted to set a logger after the logging system was already initialized"

/-- The greatest level taken; none before the logger is set up. -/
def greatest (logger : Logger) : Option Level := logger.installed.getD none

/-- Set the logger up, unless it is already. -/
def install? (logger : Logger) (greatest : Option Level) : Option Logger :=
  match logger.installed with
  | none => some { logger with installed := some greatest }
  | some _ => none

/-- Whether records of a level are written. -/
def takes (logger : Logger) (level : Level) : Bool := level.isWithin logger.greatest

/-- Write a record, if it is taken. -/
def write (logger : Logger) (record : Record) : Logger :=
  if logger.takes record.level then
    { logger with file := some (logger.file.getD "" ++ record.line) }
  else logger

/-- Write records, oldest first. -/
def writeAll (logger : Logger) (records : List Record) : Logger := records.foldl write logger

end Logger

end MiniSheet
