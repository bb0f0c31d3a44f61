import Dissection.CommandLine.Session

/-!
# Help pages

The program and each of its commands has a page of help.  Whoever uses one of them
wrongly is shown how it is used and where its page is.

## Main definitions

* `Page` — the pages.
* `Page.help` — the text of a page.
* `Page.refusal` — the session that is refused on a page's account.
-/

namespace Dissection.CommandLine

/-- A page of help: the program's, or that of one of its commands. -/
inductive Page where
  | main
  | check
  | run
  deriving DecidableEq, Repr

namespace Page

/-- What is typed to get at what a page describes. -/
def command (program : Text) : Page → Text
  | .main => program
  | .check => program ++ " check"
  | .run => program ++ " run"

/-- The arguments, in outline. -/
def outline : Page → Text
  | .main => "[OPTIONS] [COMMAND] [ARGS]..."
  | .check => "[OPTIONS] PATTERNS..."
  | .run => "[OPTIONS] [SOURCE]"

/-- How the thing is used. -/
def usage (program : Text) (page : Page) : Text :=
  "Usage: " ++ page.command program ++ " " ++ page.outline

/-- What a page says after the usage. -/
def body : Page → List Text
  | .main => [
      "",
      "  Linedissect - delimiter-based field extraction for text lines.",
      "",
      "Options:",
      "  --version                       Show the version and exit.",
      "  --log-level [trace|debug|info|success|warning|error|critical]",
      "                                  Log level for stderr output (default:",
      "                                  $LINEDISSECT_LOG_LEVEL or WARNING).",
      "  --help                          Show this message and exit.",
      "",
      "Commands:",
      "  check  Compile PATTERNS and print their tokens.",
      "  run    Dissect each line of SOURCE (default stdin) and print JSON records."]
  | .check => [
      "",
      "  Compile PATTERNS and print their tokens.",
      "",
      "Options:",
      "  --json  Print tokens as JSON.",
      "  --help  Show this message and exit."]
  | .run => [
      "",
      "  Dissect each line of SOURCE (default stdin) and print JSON records.",
      "",
      "Options:",
      "  -p, --pattern TEXT           Dissect pattern applied to each line.",
      "  -c, --config FILE            JSON configuration file (mapping,",
      "                               convert_datatype, ...).",
      "  -f, --field TEXT             Field holding the raw line.  [default: message]",
      "  --convert FIELD=TYPE         Datatype conversion, repeatable.",
      "  --skip-blank / --keep-blank  Ignore empty lines.  [default: skip-blank]",
      "  --help                       Show this message and exit."]

/-- The text of a page. -/
def help (program : Text) (page : Page) : Text :=
  ['\n'].intercalate (page.usage program :: page.body)

/-- Where the page is found. -/
def pointer (program : Text) (page : Page) : Text :=
  "Try '" ++ page.command program ++ " --help' for help."

/-- The session in which something is used wrongly. -/
def refusal (program : Text) (page : Page) (message : Text) : Session where
  outputs := [
    .line .errors (page.usage program),
    .line .errors (page.pointer program),
    .line .errors [],
    .line .errors ("Error: " ++ message)]
  ending := .exit 2

end Page

/-- What a user is told of a value that a parameter cannot take. -/
def invalidValue (parameter message : Text) : Text :=
  "Invalid value for " ++ parameter ++ ": " ++ message

end Dissection.CommandLine
