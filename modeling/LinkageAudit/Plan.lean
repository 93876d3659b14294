import LinkageAudit.Config
import LinkageAudit.Manifest
import LinkageAudit.Policy.Standard

/-!
# Audit plans

Everything that an audit needs, from three layers: what is built in, the configuration file and
the command line.

* `Plan.make`: the upper layer decides the build directory; configured targets replace the
  built-in manifest; configured names are added to the built-in policy.
-/

namespace LinkageAudit

/-- Everything that an audit needs. -/
structure Plan where
  buildDirectory : Path
  manifest : List Target
  naming : Naming
  policy : Policy
  deriving DecidableEq, Repr

/-- A target whose path starts at a directory, as seen from outside. -/
def Target.within (t : Target) (directory : Path) : Target :=
  { t with path := directory.join t.path }

namespace Plan

/-- The build directory: the first that is named, from the command line down. -/
def directoryFor (override : Option Path) (config : Config) : Path :=
  (override <|> config.buildDirectory).getD Manifest.standardDirectory

/-- The targets as they are written: the configured ones, or the built-in ones if there are
none. -/
def targetsFor (config : Config) : List Target :=
  if config.targets.isEmpty then Manifest.standard else config.targets

/-- The built-in policy with the configured names. -/
def policyFor (config : Config) : Policy :=
  Policy.standard
    |>.extend .core config.extraCore
    |>.extend .extended config.extraExtended
    |>.extend .exported config.extraExported

/-- The plan for a configuration and the build directory of the command line, if it names one. -/
def make (override : Option Path) (config : Config) : Plan :=
  let directory := directoryFor override config
  { buildDirectory := directory
    manifest := (targetsFor config).map (·.within directory)
    naming := .standard
    policy := policyFor config }

end Plan

end LinkageAudit
