import ApiUnion.CommandLine.Parser

-- The help texts of the program.

namespace ApiUnion.CommandLine

def lines (items : List String) : String :=
  String.join (items.map (· ++ "\n"))

def configHelp : String :=
  "Config file (defaults to \x60$APISET_CONFIG\x60, then \x60./apiset.toml\x60)"

def summaryOf : CommandName → String
  | .generate => "Merge all roots and write the superset as class files"
  | .stats => "Merge all roots and print merge statistics"
  | .dump => "Merge all roots and print a listing of the merged classes"

def rootHelp : List String :=
  ["      --config <CONFIG>      " ++ configHelp,
    "      --root <VERSION=PATH>  Version root as \x60<version>=<class dir or jar>\x60; " ++
      "repeat in version order"]

def optionHelp : CommandName → List String
  | .generate =>
    ["      --out <OUT>            Output directory for the superset class files",
      "      --json                 Emit the run summary as JSON"]
  | .stats => ["      --json                 Emit JSON suitable for CI"]
  | .dump =>
    ["      --filter <FILTER>      " ++
      "Only list classes whose internal name starts with this prefix"]

def usageOf : CommandName → String
  | .generate => "Usage: apiset generate [OPTIONS] --root <VERSION=PATH> --out <OUT>"
  | .stats => "Usage: apiset stats [OPTIONS] --root <VERSION=PATH>"
  | .dump => "Usage: apiset dump [OPTIONS] --root <VERSION=PATH>"

def helpSummary : String :=
  "Print this message or the help of the given subcommand(s)"

def commandHelp (name : CommandName) : String :=
  lines ([summaryOf name, "", usageOf name, "", "Options:"] ++ rootHelp ++ optionHelp name ++
    ["  -h, --help                 Print help"])

def programHelp : String :=
  lines ["Merge per-version class files into one version-annotated API superset", "",
    "Usage: apiset [OPTIONS] <COMMAND>", "", "Commands:",
    "  generate  " ++ summaryOf .generate,
    "  stats     " ++ summaryOf .stats,
    "  dump      " ++ summaryOf .dump,
    "  help      " ++ helpSummary, "", "Options:",
    "      --config <CONFIG>  " ++ configHelp,
    "  -h, --help             Print help",
    "  -V, --version          Print version"]

def helpHelp : String :=
  lines [helpSummary, "", "Usage: apiset help [COMMAND]...", "", "Arguments:",
    "  [COMMAND]...  Print help for the subcommand(s)"]

def helpOn : HelpTopic → String
  | .program => programHelp
  | .command name => commandHelp name
  | .help => helpHelp

end ApiUnion.CommandLine
