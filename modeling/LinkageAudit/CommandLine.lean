import LinkageAudit.Component
import LinkageAudit.Path

/-!
# Command line

What the words of a command line ask for.

* `Invocation.parse`: the options and the command, or the reason to stop.

Words are read at two levels: before the subcommand and after it. The options that both levels
know may stand at either; where both give a value, the later one counts. An option whose value is
a word of its own is checked only at the next option of its level, at a further operand, or at the
end of the level, so that a later fault can be the one reported.
-/

namespace LinkageAudit

/-- Options that every command knows. -/
structure Options where
  json : Bool
  strict : Bool
  buildDirectory : Option Path
  config : Option Path
  deriving DecidableEq, Repr

/-- What the program is to do. -/
inductive Command where
  | audit
  | inspect (object : Path) (component : Component) (publicPrefix : Option String)
  | whitelist
  | manifest
  deriving DecidableEq, Repr

/-- A command line that makes sense. Without a command it asks for an audit. -/
structure Invocation where
  options : Options
  command : Option Command
  deriving DecidableEq, Repr

/-- Why nothing is done: the user asked for a text, or made a mistake. -/
inductive Stop where
  | help
  | version
  | unknownSubcommand
  | unknownArgument
  | invalidValue
  | needlessValue
  | repeatedArgument
  | missingObject
  deriving DecidableEq, Repr

namespace CommandLine

/-- The name of a command. -/
inductive Subcommand where
  | audit
  | inspect
  | whitelist
  | manifest
  deriving DecidableEq, Repr

/-- The command of a name. -/
def Subcommand.ofName? : String → Option Subcommand
  | "audit" => some audit
  | "inspect" => some inspect
  | "whitelist" => some whitelist
  | "manifest" => some manifest
  | _ => none

/-- A word that is a command at the first level: a subcommand or `help`. -/
def isCommandName (word : String) : Bool :=
  word == "help" || (Subcommand.ofName? word).isSome

/-- An option without a value. -/
inductive Flag where
  | json
  | strict
  | help
  | version
  deriving DecidableEq, Repr

/-- What takes a value: an option, or the operand of `inspect`. -/
inductive Slot where
  | buildDirectory
  | config
  | component
  | publicPrefix
  | object
  deriving DecidableEq, Repr

/-- Where a word stands: before the subcommand, or after it. -/
inductive Level where
  | outer
  | inner (command : Subcommand)
  deriving DecidableEq, Repr

/-- The flag of a name at a level. Only the outer level knows the version. -/
def Level.flag? (level : Level) : String → Option Flag
  | "json" => some .json
  | "strict" => some .strict
  | "help" => some .help
  | "version" => if level = .outer then some .version else none
  | _ => none

/-- The option of a name at a level. Only `inspect` has options of its own. -/
def Level.slot? (level : Level) : String → Option Slot
  | "build-dir" => some .buildDirectory
  | "config" => some .config
  | "component" => if level = .inner .inspect then some .component else none
  | "prefix" => if level = .inner .inspect then some .publicPrefix else none
  | _ => none

/-- A word by its form. -/
inductive Word where
  /-- `--`, after which every word is an operand. -/
  | escape
  /-- `--name` or `--name=value`. -/
  | long (name : String) (value : Option String)
  /-- `-` and letters, of which the first decides. -/
  | short (letter : Char)
  /-- Anything else, a lone `-` included. -/
  | plain
  deriving DecidableEq, Repr

/-- The name and value of a long option, from the characters after its dashes. -/
def longOf (s : List Char) : Word :=
  match s.dropWhile (· ≠ '=') with
  | _ :: value => .long (String.ofList (s.takeWhile (· ≠ '='))) (some (String.ofList value))
  | [] => .long (String.ofList s) none

/-- The form of a word. -/
def Word.ofString (word : String) : Word :=
  match word.toList with
  | ['-', '-'] => .escape
  | '-' :: '-' :: s => longOf s
  | '-' :: letter :: _ => .short letter
  | _ => .plain

/-- What the words of one level have given so far. `pending` is a slot whose value is not yet
checked, with the value if it has come. -/
structure Draft where
  json : Bool
  strict : Bool
  buildDirectory : Option Path
  config : Option Path
  component : Option Component
  publicPrefix : Option String
  object : Option Path
  pending : Option (Slot × Option String)
  deriving DecidableEq, Repr

namespace Draft

/-- The draft before any word. -/
def empty : Draft := ⟨false, false, none, none, none, none, none, none⟩

/-- A path must not be empty. -/
def pathOf (value : String) : Except Stop Path :=
  if value.isEmpty then .error .invalidValue else .ok ⟨value⟩

/-- A slot has its value. -/
def holds (d : Draft) : Slot → Bool
  | .buildDirectory => d.buildDirectory.isSome
  | .config => d.config.isSome
  | .component => d.component.isSome
  | .publicPrefix => d.publicPrefix.isSome
  | .object => d.object.isSome

/-- Checks a value and keeps it. A slot takes one value only. -/
def store (d : Draft) (slot : Slot) (value : String) : Except Stop Draft :=
  if d.holds slot then .error .repeatedArgument
  else match slot with
    | .buildDirectory => (pathOf value).map fun p => { d with buildDirectory := some p }
    | .config => (pathOf value).map fun p => { d with config := some p }
    | .object => (pathOf value).map fun p => { d with object := some p }
    | .publicPrefix => .ok { d with publicPrefix := some value }
    | .component =>
      match Component.ofName? value with
      | some c => .ok { d with component := some c }
      | none => .error .invalidValue

/-- Checks and keeps the value of the pending slot. -/
def settle (d : Draft) : Except Stop Draft :=
  match d.pending with
  | none => .ok d
  | some (_, none) => .error .invalidValue
  | some (slot, some value) => store { d with pending := none } slot value

/-- The slot that the next word is the value of. -/
def awaiting? (d : Draft) : Option Slot :=
  match d.pending with
  | some (slot, none) => some slot
  | _ => none

/-- The operand of `inspect` has come. -/
def hasOperand (d : Draft) : Bool :=
  d.object.isSome || d.pending.any (·.1 == .object)

/-- Obeys a flag. -/
def raise (d : Draft) (flag : Flag) : Except Stop Draft := do
  let d ← d.settle
  match flag with
  | .help => throw .help
  | .version => throw .version
  | .json => if d.json then throw .repeatedArgument else return { d with json := true }
  | .strict => if d.strict then throw .repeatedArgument else return { d with strict := true }

/-- Obeys an option with a value, which may be still to come. -/
def begin (d : Draft) (slot : Slot) : Option String → Except Stop Draft
  | none => d.settle.map fun d => { d with pending := some (slot, none) }
  | some value => do
    let d ← d.settle
    d.store slot value

/-- Obeys a long option. -/
def long (d : Draft) (level : Level) (name : String) (value : Option String) :
    Except Stop Draft :=
  match level.flag? name, level.slot? name with
  | some flag, _ => if value.isSome then .error .needlessValue else d.raise flag
  | none, some slot => d.begin slot value
  | none, none => .error .unknownArgument

/-- Obeys a short option. -/
def short (d : Draft) (level : Level) (letter : Char) : Except Stop Draft :=
  if letter = 'h' then d.raise .help
  else if letter = 'V' ∧ level = .outer then d.raise .version
  else .error .unknownArgument

/-- Takes an operand. `escaped` says that it stands after `--`. -/
def operand (d : Draft) (level : Level) (escaped : Bool) (word : String) : Except Stop Draft :=
  match level with
  | .outer =>
    if escaped && isCommandName word then .error .unknownArgument else .error .unknownSubcommand
  | .inner command =>
    if command = .inspect ∧ !d.hasOperand then
      d.settle.map fun d => { d with pending := some (.object, some word) }
    else .error .unknownArgument

/-- Obeys a word that is no command. -/
def word (d : Draft) (level : Level) (word : String) : Except Stop Draft :=
  match Word.ofString word with
  | .long name value => d.long level name value
  | .short letter => d.short level letter
  | .escape | .plain =>
    match d.awaiting? with
    | some slot => .ok { d with pending := some (slot, some word) }
    | none => d.operand level false word

end Draft

/-- The operands after `--`. -/
def operands (level : Level) (d : Draft) (words : List String) : Except Stop Draft :=
  words.foldlM (fun d w => d.operand level true w) d

/-- Reads the words after a subcommand. -/
def inner (command : Subcommand) (d : Draft) : List String → Except Stop Draft
  | [] => d.settle
  | "--" :: words => do
    let d ← operands (.inner command) d words
    d.settle
  | w :: words => do
    let d ← d.word (.inner command) w
    inner command d words

/-- Reads the words after `help`: at most a path of commands. No subcommand has its own. -/
def helpOn : List String → Stop
  | [] => .help
  | [w] => if isCommandName w then .help else .unknownSubcommand
  | _ => .unknownSubcommand

/-- Reads the words before a subcommand; gives the subcommand with the words after it. -/
def outer (d : Draft) : List String → Except Stop (Draft × Option (Subcommand × List String))
  | [] => .ok (d, none)
  | w :: words =>
    if d.awaiting?.isNone && w == "help" then .error (helpOn words)
    else match (if d.awaiting?.isNone then Subcommand.ofName? w else none) with
      | some command => .ok (d, some (command, words))
      | none =>
        if w = "--" then (operands .outer d words).map (·, none)
        else do
          let d ← d.word .outer w
          outer d words

/-- The command that the words after a subcommand describe. -/
def commandOf (command : Subcommand) (d : Draft) : Except Stop Command :=
  match command with
  | .audit => .ok .audit
  | .whitelist => .ok .whitelist
  | .manifest => .ok .manifest
  | .inspect =>
    match d.object with
    | none => .error .missingObject
    | some object => .ok (.inspect object (d.component.getD .main) d.publicPrefix)

/-- The options of both levels. -/
def optionsOf (before after : Draft) : Options :=
  { json := before.json || after.json
    strict := before.strict || after.strict
    buildDirectory := after.buildDirectory <|> before.buildDirectory
    config := after.config <|> before.config }

end CommandLine

open CommandLine in
/-- What a command line asks for. -/
def Invocation.parse (words : List String) : Except Stop Invocation := do
  let (before, rest) ← outer .empty words
  match rest with
  | none => return ⟨optionsOf (← before.settle) .empty, none⟩
  | some (subcommand, words) =>
    let after ← inner subcommand .empty words
    let command ← commandOf subcommand after
    return ⟨optionsOf (← before.settle) after, some command⟩

end LinkageAudit
