import LinkageAudit.Event

/-!
# Log output

Which events are written to the log, and how.

* `LogFilter.parse`: reads a comma-separated list of directives. A directive is a level, which
  applies everywhere, or `target=level`, which applies to targets that start with `target`.
* `LogFilter.admits`: the directive with the longest matching target decides.
* `Event.line`: an event as it stands in the log.
-/

namespace LinkageAudit

/-- The most detailed level that is let through; `none` lets nothing through. -/
abbrev Verbosity := Option Level

namespace Verbosity

/-- Lets a level through. -/
def admits (v : Verbosity) (l : Level) : Bool := v.any fun most => l.rank ≤ most.rank

/-- The verbosity of a name, in any mix of upper and lower case. -/
def ofName? (s : String) : Option Verbosity :=
  match s.toLower with
  | "off" => some none
  | "error" => some (some .error)
  | "warn" => some (some .warn)
  | "info" => some (some .info)
  | "debug" => some (some .debug)
  | "trace" => some (some .trace)
  | _ => none

end Verbosity

/-- A verbosity for the targets that start with `target`; the empty target is a start of all. -/
structure LogDirective where
  target : String
  verbosity : Verbosity
  deriving DecidableEq, Repr

namespace LogDirective

/-- Reads one directive. A lone word is a level if it names one and a target otherwise; a target
without a level gets every level. A directive that cannot be read is dropped. -/
def parse? (s : String) : Option LogDirective :=
  match s.splitOn "=" with
  | [word] =>
    match Verbosity.ofName? word with
    | some v => some ⟨"", v⟩
    | none => if word.isEmpty then none else some ⟨word, some .trace⟩
  | [target, ""] => some ⟨target, some .trace⟩
  | [target, level] => (Verbosity.ofName? level).map (⟨target, ·⟩)
  | _ => none

end LogDirective

/-- The directives of a log filter, in the order given. -/
structure LogFilter where
  directives : List LogDirective
  deriving DecidableEq, Repr

namespace LogFilter

/-- The filter when none is asked for: warnings and errors. -/
def standard : LogFilter := ⟨[⟨"", some .warn⟩]⟩

/-- Reads a filter. Text without any directive lets only errors through. -/
def parse (s : String) : LogFilter :=
  match (s.splitOn ",").filterMap LogDirective.parse? with
  | [] => ⟨[⟨"", some .error⟩]⟩
  | ds => ⟨ds⟩

/-- The filter that a setting asks for. -/
def ofSetting (setting : Option String) : LogFilter := setting.elim standard parse

/-- The directive that speaks for a target: of those whose own target is a start of it, the one
with the longest, and of equals the last. -/
def directiveFor? (f : LogFilter) (target : String) : Option LogDirective :=
  f.directives.foldl (fun best d =>
    if target.startsWith d.target then
      match best with
      | some b => if b.target.length ≤ d.target.length then some d else best
      | none => some d
    else best) none

/-- Lets an event through. -/
def admits (f : LogFilter) (e : Event) : Bool :=
  (f.directiveFor? e.source.target).any fun d => d.verbosity.admits e.level

end LogFilter

namespace Event

/-- An event as it stands in the log: the level padded to five columns, the target, and the
message, whose continuation lines are indented by four. -/
def line (e : Event) : String :=
  let level := e.level.name ++ String.ofList (List.replicate (5 - e.level.name.length) ' ')
  let text := "\n    ".intercalate (e.message.splitOn "\n")
  s!"[{level} {e.source.target}] {text}\n"

end Event

/-- The log of a run: the lines of the events that a filter lets through. -/
def LogFilter.render (f : LogFilter) (events : List Event) : String :=
  String.join ((events.filter f.admits).map Event.line)

end LinkageAudit
