import LinkageAudit.Role
import LinkageAudit.Path

/-!
# Events

What happens during a run, as values. A log line is one way to read an event; the other is to ask
which files a run opened.

* `Event.level`, `Event.source`, `Event.message`: the log line of an event.
* `Event.opened?`: the object file that an event opens.
-/

namespace LinkageAudit

/-- How much an event matters, least detail first. -/
inductive Level where
  | error
  | warn
  | info
  | debug
  | trace
  deriving DecidableEq, Repr

namespace Level

/-- The position of a level: a filter that lets one level through lets all lower ones through. -/
def rank : Level → Nat
  | error => 1
  | warn => 2
  | info => 3
  | debug => 4
  | trace => 5

/-- The name of a level in log lines. -/
def name : Level → String
  | error => "ERROR"
  | warn => "WARN"
  | info => "INFO"
  | debug => "DEBUG"
  | trace => "TRACE"

end Level

/-- The activity that an event comes from. -/
inductive Source where
  | program
  | configuration
  | reading
  | sorting
  | auditing
  deriving DecidableEq, Repr

/-- The name of an activity in log lines and log filters. -/
def Source.target : Source → String
  | program => "symaudit"
  | configuration => "symaudit::services::config"
  | reading => "symaudit::services::reader"
  | sorting => "symaudit::services::classifier"
  | auditing => "symaudit::services::audit"

/-- One thing that happens during a run. -/
inductive Event where
  /-- A configuration file was read and understood. -/
  | configLoaded (path : Path)
  /-- The build directory is settled. -/
  | buildDirectory (path : Path)
  /-- An object file is about to be read. -/
  | objectOpened (path : Path)
  /-- An image has another type than that of a relocatable object. -/
  | notRelocatable (fileType : Nat)
  /-- A symbol table was read to its end. -/
  | symbolsRead (retained discarded : Nat)
  /-- The symbols of a target were sorted by role. -/
  | sorted (path : Path) (total : Nat) (counts : RoleCounts)
  /-- The whole manifest was audited. -/
  | audited (files violations : Nat)
  /-- The run fails because of violations alone. -/
  | strictFailure (violations : Nat)
  deriving DecidableEq, Repr

namespace Event

/-- The level of an event. -/
def level : Event → Level
  | configLoaded _ | buildDirectory _ | objectOpened _ | symbolsRead _ _ => .debug
  | sorted _ _ _ | audited _ _ => .info
  | notRelocatable _ | strictFailure _ => .warn

/-- Where an event comes from. -/
def source : Event → Source
  | configLoaded _ => .configuration
  | buildDirectory _ | strictFailure _ => .program
  | objectOpened _ | notRelocatable _ | symbolsRead _ _ => .reading
  | sorted _ _ _ => .sorting
  | audited _ _ => .auditing

/-- The text of an event. -/
def message : Event → String
  | configLoaded path => "loaded config from " ++ path.text
  | buildDirectory path => "build directory: " ++ path.text
  | objectOpened path => "Opening object file: " ++ path.text
  | notRelocatable fileType =>
    s!"object file is not relocatable (e_type {fileType}), auditing anyway"
  | symbolsRead retained discarded =>
    s!"symbol table: {retained} retained, {discarded} discarded"
  | sorted path total counts => s!"{path.text}: {total} symbols ({counts.text})"
  | audited files violations =>
    s!"audited {files} object files, {violations} violations"
  | strictFailure violations =>
    s!"{violations} violations reported, failing in strict mode"

/-- The object file that an event opens. -/
def opened? : Event → Option Path
  | objectOpened path => some path
  | _ => none

end Event

end LinkageAudit
