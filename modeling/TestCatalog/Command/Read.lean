import TestCatalog.Command.Options
import TestCatalog.Command.Usage

/-!
# Command/Read — reading arguments

The arguments are read from left to right, up to the first that is wrong.  Values are gathered
before they are accepted: those of the directories, and the one that follows `-f` or `--file`.  They
are accepted when an option that is known comes up, when values for something else come up, and at
the end; so an unknown option is reported before a fault in the values gathered so far.
-/

namespace TestCatalog.Command

/-- Values that have been gathered and are still to be accepted. -/
inductive Pending where
  | nothing
  | directories (values : List Raw)
  | file (value : Option Raw)
deriving DecidableEq, Repr, Inhabited

/-- How far the arguments have been read: what has been accepted, and what has been gathered. -/
structure Reading where
  options : Options
  pending : Pending
deriving DecidableEq, Repr, Inhabited

/-- Nothing has been read. -/
def Reading.start : Reading := ⟨.initial, .nothing⟩

/-- Accepts a value for the file: there may be one, and it must not be empty. -/
def Options.withFile (o : Options) (value : Raw) : Except Stop Options :=
  if o.file.isSome then .error (.repeated .file)
  else if value.isEmpty then .error (.noValue Switch.file.shown)
  else .ok { o with file := some ⟨value⟩ }

/-- Accepts values for the directories: none may be empty. -/
def Options.withDirectories (o : Options) (values : List Raw) : Except Stop Options :=
  if values.any Raw.isEmpty then .error (.noValue shownDirectories)
  else .ok { o with directories := o.directories ++ values.map Path.mk }

/-- How often more log lines can be asked for at most. -/
def maxVerbose : Nat := 255

/-- The byte that introduces an option. -/
def hyphen : UInt8 := 0x2d

/-- The byte between an option and a value that is attached to it. -/
def equals : UInt8 := 0x3d

namespace Reading

/-- Accepts what has been gathered. -/
def settle (r : Reading) : Except Stop Options :=
  match r.pending with
  | .nothing => .ok r.options
  | .directories values => r.options.withDirectories values
  | .file (some value) => r.options.withFile value
  | .file none => .error (.noValue Switch.file.shown)

/-- Reads an option without a value; that of the file is still to come. -/
def switch (r : Reading) (s : Switch) : Except Stop Reading := do
  let o ← r.settle
  match s with
  | .file => return ⟨o, .file none⟩
  | .pretty =>
    if o.pretty then .error (.repeated .pretty) else return ⟨{ o with pretty := true }, .nothing⟩
  | .quiet =>
    if o.quiet then .error (.repeated .quiet) else return ⟨{ o with quiet := true }, .nothing⟩
  | .verbose => return ⟨{ o with verbose := min (o.verbose + 1) maxVerbose }, .nothing⟩
  | .help => .error .help

/-- Reads a value that is attached to the option for the file. -/
def attached (r : Reading) (value : Raw) : Except Stop Reading := do
  let o ← r.settle
  return ⟨← o.withFile value, .nothing⟩

/-- Reads an argument that starts with two hyphens, without these. -/
def long (r : Reading) (text : List UInt8) : Except Stop Reading :=
  let name : Raw := ⟨text.takeWhile (· ≠ equals)⟩
  match Switch.ofLongName? name.shown, text.dropWhile (· ≠ equals) with
  | none, _ => .error (.unknown ("--" ++ name.shown))
  | some s, [] => r.switch s
  | some .file, _ :: value => r.attached ⟨value⟩
  | some s, _ :: value => .error (.surplusValue (Raw.shown ⟨value⟩) s)

/-- The value that follows the letter of an option, which an equals sign may introduce. -/
def valueAfter (text : List UInt8) : Raw := ⟨if text.head? = some equals then text.tail else text⟩

/-- What is shown of options by their letters from one that is not known: its letter, or all of it
if no character starts there. -/
def shownLetter (text : List UInt8) : String :=
  match Raw.firstChar? text with
  | some c => String.ofList [c]
  | none => Raw.shown ⟨text⟩

/-- Reads an argument that starts with one hyphen, without it: options by their letters, the last of
which may be followed by a value. -/
def short (r : Reading) : List UInt8 → Except Stop Reading
  | [] => .ok r
  | b :: rest =>
    match Switch.ofLetter? b with
    | none => .error (.unknown ("-" ++ shownLetter (b :: rest)))
    | some .file => if rest.isEmpty then r.switch .file else r.attached (valueAfter rest)
    | some s => do (← r.switch s).short rest

/-- Reads a directory. -/
def directory (r : Reading) (value : Raw) : Except Stop Reading :=
  match r.pending with
  | .directories values => .ok { r with pending := .directories (values ++ [value]) }
  | _ => do return ⟨← r.settle, .directories [value]⟩

/-- Reads a value: that of the file if one is due, else a directory. -/
def value (r : Reading) (text : Raw) : Except Stop Reading :=
  match r.pending with
  | .file none => .ok { r with pending := .file (some text) }
  | _ => r.directory text

/-- Reads arguments of which none is an option. -/
def values (r : Reading) : List Raw → Except Stop Reading
  | [] => .ok r
  | argument :: rest => do (← r.directory argument).values rest

/-- Reads arguments.  After `--` none is an option. -/
def arguments (r : Reading) : List Raw → Except Stop Reading
  | [] => .ok r
  | argument :: rest =>
    match argument.bytes with
    | a :: b :: text =>
      if a ≠ hyphen then do (← r.value argument).arguments rest
      else if b ≠ hyphen then do (← r.short (b :: text)).arguments rest
      else if text.isEmpty then r.values rest
      else do (← r.long text).arguments rest
    | _ => do (← r.value argument).arguments rest

end Reading

/-- The options that arguments give. -/
def readOptions (arguments : List Raw) : Except Stop Options := do
  (← Reading.start.arguments arguments).settle

end TestCatalog.Command
