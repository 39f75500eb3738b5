import LightestFirst.CommandLine.Execution
-- The program: words in, output and exit code out. Only what the file system has to say is fetched
-- here; everything that is printed is decided elsewhere.
namespace LightestFirst
namespace Program

def pathError : IO.Error → PathError
  | .noFileOrDirectory _ _ _ => .notFound
  | .inappropriateType _ _ _ => .notDirectory
  | .invalidArgument _ 36 _ => .nameTooLong
  | .invalidArgument _ 40 _ => .tooManyLinks
  | error => .other (toString error)

-- Why a path leads nowhere is said when it is opened, and not when it is resolved.
def whyUnresolved (path : String) : IO PathError := do
  try
    let _ ← IO.FS.Handle.mk path .read
    return .notFound
  catch error => return pathError error

def contents (path : String) : IO (Except Failure ByteArray) := do
  if path.toList.contains (Char.ofNat 0) then
    return .error (.invalidPath path .nulByte)
  match ← (IO.FS.realPath path).toBaseIO with
  | .error _ => return .error (.invalidPath path (← whyUnresolved path))
  | .ok resolved =>
    let details ← resolved.metadata
    if details.type != .file then return .error (.notRegular path)
    if details.byteSize.toNat > Failure.largestFile then
      return .error (.tooLarge details.byteSize.toNat Failure.largestFile)
    return .ok (← IO.FS.readBinFile resolved)

def banner : String := "ordo v0.4.2 - lazy, weight-ordered enumeration"

def run (words : List String) : IO UInt32 := do
  match Invocation.parse words with
  | .error .version =>
    IO.print versionText
    return 0
  | .error refusal =>
    IO.eprintln refusal.kind
    return UInt32.ofNat refusal.exitCode
  | .ok invocation =>
    unless invocation.quiet || invocation.jsonMode do IO.eprintln banner
    match invocation.execute (← contents invocation.file) with
    | .error failure =>
      IO.eprintln failure.message
      return 1
    | .ok output =>
      IO.print output
      return 0

end Program
end LightestFirst

def main (words : List String) : IO UInt32 := LightestFirst.Program.run words
