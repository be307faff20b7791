import ThemeCss.Command

/-! Runs the command on the files of the machine. -/

namespace ThemeCss

/-- The failure that an error of the machine is, by its number, which some calls negate. -/
def failureOf? : IO.Error → Option FileFailure
  | .noFileOrDirectory .. => some .notFound
  | .alreadyExists .. => some .alreadyExists
  | .inappropriateType _ code _ =>
    some (if code = 21 ∨ 0 - code = 21 then .isADirectory else .notADirectory)
  | .invalidArgument _ code _ =>
    some (if code = 36 ∨ 0 - code = 36 then .nameTooLong else .nulInPath)
  | _ => none

/-- Does something on the machine; an error that is none of the library's ends the run. -/
def attempt {α : Type} (wrap : FileFailure → BuildError) (act : IO α) : ExceptT BuildError IO α :=
  ExceptT.mk do
    try
      return .ok (← act)
    catch error =>
      match failureOf? error with
      | some failure => return .error (wrap failure)
      | none => throw error

/-- Makes the directory of an artifact and then its file. -/
def writeArtifact (directory : String) (artifacts : Artifacts) (writer : Writer) : IO Unit := do
  let made := Path.trimmed directory
  unless made.isEmpty do
    IO.FS.createDirAll made
  IO.FS.writeFile (writer.path directory) (writer.contents artifacts)

/-- Builds the theme in a file into a directory. -/
def build (path directory : String) : ExceptT BuildError IO Report := do
  let bytes ← attempt (fun failure => .theme (.unreadable path failure)) (IO.FS.readBinFile path)
  let text := ((String.fromUTF8? bytes).map Except.ok).getD (.error .notText)
  match (Theme.ofFile path text).bind Theme.artifacts with
  | .error error => throw (.theme error)
  | .ok artifacts =>
    for writer in [Writer.readable, Writer.minified] do
      attempt (fun cause => .writing ⟨writer.path directory, cause⟩)
        (writeArtifact directory artifacts writer)
    return .ofArtifacts artifacts

end ThemeCss

def main : IO UInt32 := do
  let path := (← IO.getEnv "BREEZE_CONFIG").getD ThemeCss.Command.defaultTheme
  let directory := (← IO.getEnv "BREEZE_OUT_DIR").getD ThemeCss.Command.defaultDirectory
  try
    let built ← (ThemeCss.build path directory).run
    if let .error error := built then
      IO.eprintln s!"build failed: {error.message}"
    let result := ThemeCss.Command.result directory built
    IO.print result.output
    return result.exitCode.toUInt32
  catch error =>
    IO.eprintln s!"build failed: {error}"
    return 1
