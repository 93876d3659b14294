import LinkageAudit.Config
import LinkageAudit.Disk
import LinkageAudit.Traced

/-!
# Reading configuration files

* `Config.load`: the configuration in a file, or the empty one if no file is named.
-/

namespace LinkageAudit

/-- Why a configuration file is refused. -/
inductive ConfigError where
  | unreadable (path : Path) (reason : ReadError)
  | notToml (path : Path)
  | unfitting (path : Path)
  deriving DecidableEq, Repr

/-- The wording of a reason. -/
def ConfigError.message : ConfigError → String
  | unreadable path reason => s!"cannot read config {path.text}: {reason.message}"
  | notToml path => s!"invalid config {path.text}: not a TOML document"
  | unfitting path => s!"invalid config {path.text}: a value is missing or of the wrong type"

namespace Config

/-- The configuration in the text of a file. -/
def ofText (path : Path) (text : String) : Except ConfigError Config :=
  match Toml.parse? text with
  | none => .error (.notToml path)
  | some table =>
    match ofTable? table with
    | none => .error (.unfitting path)
    | some config => .ok config

/-- The configuration in a file; the empty one if no file is named. -/
def load (disk : Disk) : Option Path → Traced ConfigError Config
  | none => return empty
  | some path => do
    let text ← Traced.ofExcept ((disk.readText path).mapError (.unreadable path))
    let config ← Traced.ofExcept (ofText path text)
    Traced.emit (.configLoaded path)
    return config

end Config

end LinkageAudit
