import LinkageAudit.Json
import LinkageAudit.Policy

/-!
# Reports

What the commands have to say, once as lines and once as a JSON value.

* `Report`: summaries and violations of the audited targets.
* `Inspection`: one target with its symbols by role.
* `Printout.text`: the text of either in either form.

Text reports are compared between builds, so every line has a fixed form.
-/

namespace LinkageAudit

/-- A target with the number of symbols in each role. -/
structure Summary extends Target where
  counts : RoleCounts
  deriving DecidableEq, Repr

/-- A symbol as an inspection lists it. -/
structure Listing.Item where
  name : String
  kind : Symbol.Kind
  deriving DecidableEq, Repr

/-- The symbols with one role. -/
structure Listing where
  role : Role
  items : List Listing.Item
  deriving DecidableEq, Repr

/-- The result of auditing a manifest. -/
structure Report where
  files : List Summary
  violations : List Violation
  deriving DecidableEq, Repr

/-- The result of inspecting one target. -/
structure Inspection where
  file : Summary
  listings : List Listing
  violations : List Violation
  deriving DecidableEq, Repr

namespace Census

/-- The summary of a target. -/
def summary (c : Census) : Summary := { c.inventory.toTarget with counts := c.counts }

/-- The symbols with each role, in report order. -/
def listings (c : Census) : List Listing :=
  Role.all.map fun r => ⟨r, (c.withRole r).map fun s => ⟨s.name, s.kind⟩⟩

end Census

/-! ## JSON values -/

/-- Every role with its number. -/
def RoleCounts.json (n : RoleCounts) : Json :=
  .object (Role.all.map fun r => (r.key, .number (n.get r)))

/-- The fields of a target. -/
def Target.fields (t : Target) : List (String × Json) :=
  [("path", .string t.path.text), ("component", .string t.component.name),
    ("public_prefix", .string t.publicPrefix)]

/-- A target as a value. -/
def Target.json (t : Target) : Json := .object t.fields

/-- A summary as a value. -/
def Summary.json (s : Summary) : Json := .object (s.fields ++ [("counts", s.counts.json)])

/-- A violation as a value. -/
def Violation.json (v : Violation) : Json :=
  .object [("kind", .string v.kind.key), ("file", .string v.file.text),
    ("symbol", .string v.symbol)]

/-- A listed symbol as a value. -/
def Listing.Item.json (i : Listing.Item) : Json :=
  .object [("name", .string i.name), ("kind", .string i.kind.name)]

/-- A listing as a value. -/
def Listing.json (l : Listing) : Json :=
  .object [("category", .string l.role.key), ("symbols", .array (l.items.map (·.json)))]

/-- A report as a value. -/
def Report.json (r : Report) : Json :=
  .object [("files", .array (r.files.map (·.json))),
    ("violations", .array (r.violations.map (·.json)))]

/-- An inspection as a value. -/
def Inspection.json (i : Inspection) : Json :=
  .object [("file", i.file.json), ("buckets", .array (i.listings.map (·.json))),
    ("violations", .array (i.violations.map (·.json)))]

/-- The lists of a policy as a value. -/
def Policy.json (p : Policy) : Json :=
  let names (s : NameSet) : Json := .array (s.names.map .string)
  .object [("core", names p.core), ("extended", names p.extended),
    ("allowed_private", names p.exported)]

/-! ## Lines -/

/-- A listing on one line: its title, its size and its names. -/
def Listing.line (l : Listing) : String :=
  let names := " ".intercalate (l.items.map (·.name))
  s!"{l.role.title} ({l.items.length}): {names}"

/-- A target on one line, its fields separated by tabs. -/
def Target.line (t : Target) : String :=
  "\t".intercalate [t.path.text, t.component.name, t.publicPrefix]

/-- The first line of an inspection. -/
def Target.heading (t : Target) : String :=
  s!"{t.path.text} ({t.component.name}, public prefix {t.publicPrefix})"

/-! ## Printouts -/

/-- Something to print, in both forms. -/
structure Printout where
  lines : List String
  value : Json
  deriving Repr

namespace Printout

/-- The value that is printed: what there is to say, marked as a success. -/
def envelope (p : Printout) : Json := .object [("ok", .bool true), ("data", p.value)]

/-- The printed text: the envelope, or the lines. Each ends in a newline. -/
def text (p : Printout) (asJson : Bool) : String :=
  String.join ((if asJson then [p.envelope.text] else p.lines).map (· ++ "\n"))

end Printout

/-- A report in lines is its violations and nothing else. -/
def Report.printout (r : Report) : Printout := ⟨r.violations.map (·.line), r.json⟩

/-- An inspection in lines is its heading, its listings and its violations. -/
def Inspection.printout (i : Inspection) : Printout :=
  ⟨i.file.heading :: i.listings.map (·.line) ++ i.violations.map (·.line), i.json⟩

/-- A policy in lines has one name a line, after the list that it is in. -/
def Policy.printout (p : Policy) : Printout :=
  let lines (label : String) (s : NameSet) : List String := s.names.map fun n => label ++ "\t" ++ n
  ⟨lines "core" p.core ++ lines "integration" p.extended ++ lines "private" p.exported, p.json⟩

/-- A manifest has one target a line. -/
def manifestPrintout (targets : List Target) : Printout :=
  ⟨targets.map (·.line), .array (targets.map (·.json))⟩

end LinkageAudit
