import LinkageAudit.Audit
import LinkageAudit.CommandLine
import LinkageAudit.Config.File
import LinkageAudit.Log

/-!
# The program

One run from its command line to its exit: `exitOf` gives the exit status and both output streams
as a function of the words, the disk and the log filter.

* `Invocation.plan`, `Invocation.output`: the two halves of a run; `Invocation.execute` joins them.
* `exitOf`: status 1 stands for a run that failed, 2 for a command line that makes no sense and
  for violations under `--strict`, 0 for all else.
-/

namespace LinkageAudit

/-- Why a run fails. -/
inductive Failure where
  | config (reason : ConfigError)
  | object (reason : ObjectError)
  deriving DecidableEq, Repr

namespace Failure

/-- The wording of a reason. -/
def message : Failure → String
  | config reason => reason.message
  | object reason => reason.message

/-- What lies behind a reason. -/
def cause? : Failure → Option String
  | object (.unreadable _ reason) => some reason.message
  | _ => none

/-- The last words of a run that fails. -/
def report (f : Failure) : String :=
  match f.cause? with
  | none => s!"Error: {f.message}\n"
  | some cause => s!"Error: {f.message}\n\nCaused by:\n    {cause}\n"

end Failure

/-- What a command prints, and how many violations it found. -/
structure Output where
  printout : Printout
  violations : Nat
  deriving Repr

/-- The target that an inspection is about. Without a prefix it has that of its component. -/
def Target.ofInspect (object : Path) (component : Component) (publicPrefix : Option String) :
    Target :=
  ⟨object, component, publicPrefix.getD component.publicPrefix⟩

namespace Command

/-- Runs a command. Showing the plan finds no violations. -/
def run (command : Command) (plan : Plan) (disk : Disk) : Traced ObjectError Output :=
  match command with
  | audit => do
    let report ← plan.audit disk
    return ⟨report.printout, report.violations.length⟩
  | inspect object component publicPrefix => do
    let inspection ← plan.inspect disk (.ofInspect object component publicPrefix)
    return ⟨inspection.printout, inspection.violations.length⟩
  | whitelist => return ⟨plan.policy.printout, 0⟩
  | manifest => return ⟨manifestPrintout plan.manifest, 0⟩

/-- The object files that a command reads, if none of them fails. -/
def objects (command : Command) (plan : Plan) : List Path :=
  match command with
  | audit => plan.manifest.map (·.path)
  | inspect object _ _ => [object]
  | whitelist | manifest => []

end Command

namespace Invocation

/-- The plan of a run. -/
def plan (i : Invocation) (disk : Disk) : Traced Failure Plan := do
  let config ← (Config.load disk i.options.config).mapError .config
  return Plan.make i.options.buildDirectory config

/-- Runs the command with a plan. -/
def output (i : Invocation) (plan : Plan) (disk : Disk) : Traced Failure Output :=
  ((i.command.getD .audit).run plan disk).mapError .object

/-- The violations alone make the run fail. -/
def rejects (i : Invocation) (o : Output) : Bool := i.options.strict && 0 < o.violations

/-- The whole run. -/
def execute (i : Invocation) (disk : Disk) : Traced Failure Output := do
  let plan ← i.plan disk
  Traced.emit (.buildDirectory plan.buildDirectory)
  let output ← i.output plan disk
  if i.rejects output then
    Traced.emit (.strictFailure output.violations)
  return output

end Invocation

/-! ## Exits -/

/-- How a run ends, as seen from outside. -/
structure Exit where
  status : Nat
  stdout : String
  stderr : String
  deriving DecidableEq, Repr

/-- The name and version of the program. -/
def versionText : String := "symaudit 0.1.0\n"

/-- The help text. -/
def helpText : String :=
  String.join <| List.map (· ++ "\n")
    ["Check compiled object files against their symbol visibility policy",
      "",
      "Usage: symaudit [OPTIONS] [COMMAND]",
      "",
      "Commands:",
      "  audit      Audit every object file of the manifest (default)",
      "  inspect    Classify a single object file and list its symbols",
      "  whitelist  Print the import whitelists and the private allow-list",
      "  manifest   Print the manifest",
      "  help       Print this message",
      "",
      "Options:",
      "      --json             Print JSON",
      "      --build-dir <DIR>  Directory that manifest paths start at",
      "      --config <FILE>    TOML file that extends the policy",
      "      --strict           Exit with status 2 when there are violations",
      "  -h, --help             Print help",
      "  -V, --version          Print version",
      "",
      "Options of inspect:",
      "      --component <C>    main or integration",
      "      --prefix <P>       Public prefix of the object file"]

/-- The wording of a reason to stop. -/
def Stop.message : Stop → String
  | help => helpText
  | version => versionText
  | unknownSubcommand => "error: unrecognized subcommand\n"
  | unknownArgument => "error: unexpected argument\n"
  | invalidValue => "error: a value is missing or invalid\n"
  | needlessValue => "error: a flag takes no value\n"
  | repeatedArgument => "error: an argument is given more than once\n"
  | missingObject => "error: the object file to inspect is missing\n"

/-- How a run ends that does not start. Texts that were asked for are no mistake. -/
def Stop.exit (s : Stop) : Exit :=
  match s with
  | .help | .version => ⟨0, s.message, ""⟩
  | _ => ⟨2, "", s.message⟩

/-- How the run of an invocation ends. -/
def Invocation.exit (i : Invocation) (disk : Disk) (filter : LogFilter) : Exit :=
  let run := i.execute disk
  let log := filter.render run.events
  match run.result with
  | .ok o => ⟨if i.rejects o then 2 else 0, o.printout.text i.options.json, log⟩
  | .error f => ⟨1, "", log ++ f.report⟩

/-- How a run with a command line ends. -/
def exitOf (disk : Disk) (filter : LogFilter) (words : List String) : Exit :=
  match Invocation.parse words with
  | .ok i => i.exit disk filter
  | .error s => s.exit

end LinkageAudit
