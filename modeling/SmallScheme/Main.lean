import SmallScheme.CommandLine

/-!
# The program

Runs the shell on the files of the machine and the lines of standard input.
-/

namespace SmallScheme

/-- The steps allowed for one expression, more than any machine can take. -/
def unlimited : Nat := 1000000000000000000

/-- Why the system refused to read or write a file. -/
def FileFault.ofError : IO.Error → FileFault
  | .noFileOrDirectory .. => .notFound
  | .inappropriateType _ code _ => if code = 21 then .isDirectory else .notDirectory
  | e => .other (toString e)

def readBytes (path : String) : IO (Except FileFault ByteArray) := do
  try return .ok (← IO.FS.readBinFile path)
  catch e => return .error (.ofError e)

/-- Prints what the shell has to print. -/
def Shell.drain (sh : Shell) : IO Shell := do
  for line in sh.output.reverse do
    match line with
    | .result text => IO.println text
    | .diagnostic text => IO.eprintln text
  return { sh with output := [] }

/-- The next line of input and the bytes read beyond it. -/
partial def nextLine (input : IO.FS.Stream) (held : ByteArray) :
    IO (Option Text.Line × ByteArray) := do
  match held.data.findIdx? (· == 10) with
  | some i => return (some ⟨(held.extract 0 i).toList, true⟩, held.extract (i + 1) held.size)
  | none =>
    let more ← input.read 4096
    if more.isEmpty then
      return (if held.isEmpty then none else some ⟨held.toList, false⟩, .empty)
    else nextLine input (held ++ more)

/-- Takes lines to the end of the input, or until the shell ends. -/
partial def Shell.converse (config : Config) (input : IO.FS.Stream) (sh : Shell)
    (held : ByteArray) : IO (Shell × LastLine) := do
  if ← input.isTty then
    IO.print (sh.prompt config)
    (← IO.getStdout).flush
  match ← nextLine input held with
  | (none, _) => return (sh, .exhausted)
  | (some line, held) =>
    match inputText? line with
    | none => return (sh, .notText)
    | some text =>
      let sh ← (sh.feed unlimited text).drain
      if sh.exit.isSome then return (sh, .stopped) else sh.converse config input held

/-- Saves the history, if there is a file for it and something new. -/
def Shell.saveHistory (config : Config) (sh : Shell) : IO Shell := do
  match config.historyFile with
  | some path =>
    if sh.history.hasNew then
      try
        IO.FS.writeFile path sh.history.text
        return sh
      catch e => return sh.historyNotSaved path (.ofError e)
    else return sh
  | none => return sh

/-- The settings for this run. -/
def settings (args : Arguments) : IO (Except String Config) := do
  match args.config with
  | some path => return Config.load path (← readBytes path)
  | none =>
    match ← readBytes Config.defaultFile with
    | .ok bytes => return Config.load Config.defaultFile (.ok bytes)
    | .error .notFound | .error .isDirectory => return .ok {}
    | .error fault => return Config.load Config.defaultFile (.error fault)

/-- Evaluates files, then takes lines of input. -/
def Shell.work (config : Config) (files : List String) (sh : Shell) : IO Shell := do
  let mut now := sh
  for path in files do
    now ← (now.load unlimited path (← readBytes path)).drain
    if now.exit.isSome then return now
  if let some path := config.historyFile then
    now ← (now.remember path (← readBytes path)).drain
  match ← now.converse config (← IO.getStdin) .empty with
  | (last, .stopped) => return last
  | (last, .exhausted) => return (← (← last.farewell.drain).saveHistory config).quit 0
  | (last, .notText) => return (← last.saveHistory config).badInput

end SmallScheme

open SmallScheme in
def main (args : List String) : IO UInt32 := do
  match Arguments.parse args with
  | .error text =>
    IO.eprintln text
    IO.eprintln Arguments.usage
    return 2
  | .ok args =>
    match ← settings args with
    | .error text =>
      IO.eprintln ("Error: " ++ text)
      return 1
    | .ok config =>
      let sh ← (Shell.initial config args.debug).work config (config.preload ++ args.files)
      let sh ← sh.drain
      return sh.exit.getD 0
