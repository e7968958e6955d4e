/-!
# Command/Usage — the options, and what can be wrong with them

The options that are known, what can be wrong with their use, and the help text.
-/

namespace TestCatalog.Command

/-- The options that are known. -/
inductive Switch where
  | file
  | pretty
  | verbose
  | quiet
  | help
deriving DecidableEq, Repr, Inhabited

namespace Switch

/-- All options. -/
def all : List Switch := [.file, .pretty, .verbose, .quiet, .help]

/-- The name of an option after two hyphens. -/
def longName : Switch → String
  | .file => "file"
  | .pretty => "pretty"
  | .verbose => "verbose"
  | .quiet => "quiet"
  | .help => "help"

/-- The letter of an option after one hyphen. -/
def letter : Switch → Char
  | .file => 'f'
  | .pretty => 'p'
  | .verbose => 'v'
  | .quiet => 'q'
  | .help => 'h'

/-- An option as messages show it. -/
def shown : Switch → String
  | .file => "--file <FILE>"
  | .verbose => "--verbose..."
  | s => "--" ++ s.longName

/-- The option with a given name. -/
def ofLongName? (name : String) : Option Switch := all.find? fun s => s.longName == name

/-- The option whose letter a byte is. -/
def ofLetter? (b : UInt8) : Option Switch := all.find? fun s => s.letter.toUInt8 == b

end Switch

/-- The directories as messages show them. -/
def shownDirectories : String := "[DIRECTORIES]..."

/-- Why the arguments are not read to the end. -/
inductive Stop where
  | help
  | unknown (argument : String)
  | noValue (shown : String)
  | surplusValue (value : String) (switch : Switch)
  | repeated (switch : Switch)
deriving DecidableEq, Repr, Inhabited

/-- The lines of the help text. -/
def helpLines : List String :=
  ["gotest-ls provides a list of all tests in a package or a file in JSON format.",
    "",
    "Usage: gotest-ls [OPTIONS] [DIRECTORIES]...",
    "",
    "Arguments:",
    "  [DIRECTORIES]...  Directories to search recursively for *_test.go files",
    "",
    "Options:",
    "  -f, --file <FILE>  Path to a file, cannot be used with directories",
    "  -p, --pretty       Pretty print the output in JSON format",
    "  -v, --verbose...   Increase log verbosity (-v info, -vv debug, -vvv trace)",
    "  -q, --quiet        Suppress all log output except errors",
    "  -h, --help         Print help",
    "",
    "Examples:",
    "  gotest-ls .",
    "  gotest-ls -p ./cmd",
    "  gotest-ls -p ./cmd ./pkg",
    "  gotest-ls -f ./pkg/random_test.go",
    "  gotest-ls -p -f ./pkg/random_test.go"]

/-- The help text. -/
def helpText : String := String.intercalate "\n" helpLines

namespace Stop

/-- What is said instead of a listing. -/
def message : Stop → String
  | .help => helpText
  | .unknown argument => "error: unexpected argument '" ++ argument ++ "' found"
  | .noValue shown => "error: a value is required for '" ++ shown ++ "' but none was supplied"
  | .surplusValue value switch =>
    "error: unexpected value '" ++ value ++ "' for '" ++ switch.shown ++
      "' found; no more were expected"
  | .repeated switch => "error: the argument '" ++ switch.shown ++ "' cannot be used multiple times"

/-- The exit code: asking for help is no error. -/
def exitCode : Stop → UInt32
  | .help => 0
  | _ => 2

end Stop

end TestCatalog.Command
