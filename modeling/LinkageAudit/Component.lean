/-!
# Components

The two parts of the audited library. Each has its own public prefix and its own import rules.
-/

namespace LinkageAudit

/-- The portable core, or the part that talks to the operating system. -/
inductive Component where
  | main
  | integration
  deriving DecidableEq, Repr

namespace Component

/-- The name used on the command line, in configuration files and in reports. -/
def name : Component → String
  | main => "main"
  | integration => "integration"

/-- The component of a name; case matters. -/
def ofName? (s : String) : Option Component :=
  if s = "main" then some main
  else if s = "integration" then some integration
  else none

theorem ofName?_name (c : Component) : ofName? c.name = some c := by
  cases c <;> decide

theorem ofName?_eq_some_iff {s : String} {c : Component} : ofName? s = some c ↔ s = c.name := by
  constructor
  · intro h
    unfold ofName? at h
    split at h
    · cases h; assumption
    · split at h
      · cases h; assumption
      · cases h
  · rintro rfl
    exact ofName?_name c

end Component

end LinkageAudit
