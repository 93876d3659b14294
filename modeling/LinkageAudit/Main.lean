import LinkageAudit.Program

/-!
# Entry point

Reads the files that a run asks for and hands them over as a disk. Everything else is decided by
`exitOf`.
-/

namespace LinkageAudit

/-- The number and the description that the system gives an error. -/
def describe : IO.Error → UInt32 × String
  | .noFileOrDirectory _ code details | .interrupted _ code details => (code, details)
  | .alreadyExists _ code details | .invalidArgument _ code details
  | .permissionDenied _ code details | .resourceExhausted _ code details
  | .inappropriateType _ code details | .noSuchThing _ code details => (code, details)
  | .otherError code details | .resourceBusy code details | .resourceVanished code details
  | .unsupportedOperation code details | .hardwareFault code details
  | .unsatisfiedConstraints code details | .illegalOperation code details
  | .protocolError code details | .timeExpired code details => (code, details)
  | .unexpectedEof => (0, "end of file")
  | .userError details => (0, details)

/-- The absolute value of a number that may be a negative one in 32 bits. -/
def magnitude (code : UInt32) : Nat := min code.toNat (0x1_0000_0000 - code.toNat)

/-- The reason that a number stands for. -/
def ReadError.ofCode (code : Nat) (description : String) : ReadError :=
  if code = 2 then .notFound
  else if code = 20 then .notDirectory
  else if code = 21 then .isDirectory
  else if code = 36 then .nameTooLong
  else .other description code

/-- What reading a path gives. -/
def readFile (path : Path) : IO (Except ReadError ByteArray) := do
  if path.text.contains (Char.ofNat 0) then return .error .zeroByte
  try
    return .ok (← IO.FS.readBinFile path.text)
  catch e =>
    let (code, description) := describe e
    return .error (.ofCode (magnitude code) description)

/-- What reading paths in order gives, up to the first that cannot be read. -/
def readFiles : List Path → IO (List (String × Except ReadError ByteArray))
  | [] => return []
  | path :: paths => do
    let content ← readFile path
    match content with
    | .error _ => return [(path.text, content)]
    | .ok _ => return (path.text, content) :: (← readFiles paths)

/-- The disk as far as a run sees it. -/
def readDisk (i : Invocation) : IO Disk := do
  let configs ← readFiles i.options.config.toList
  match (i.plan (.ofList configs)).result with
  | .error _ => return .ofList configs
  | .ok plan =>
    let objects ← readFiles ((i.command.getD .audit).objects plan)
    return .ofList (configs ++ objects)

end LinkageAudit

open LinkageAudit in
/-- Runs the program. -/
def main (words : List String) : IO UInt32 := do
  let disk ← match Invocation.parse words with
    | .ok i => readDisk i
    | .error _ => pure (.ofList [])
  let filter := LogFilter.ofSetting (← IO.getEnv "RUST_LOG")
  let exit := exitOf disk filter words
  IO.eprint exit.stderr
  IO.print exit.stdout
  return exit.status.toUInt32
