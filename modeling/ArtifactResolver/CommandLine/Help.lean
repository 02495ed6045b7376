/-!
# Help

The texts that the program prints when it is asked for help: one for the program and one for each of
its commands.
-/

namespace ArtifactResolver.CommandLine

/-- The text of lines, each with its end. -/
def paragraph (lines : List String) : String := String.join (lines.map (· ++ "\n"))

/-- The help on the program. -/
def programHelp : String :=
  paragraph [
    "Resolves modules and their artifacts across an ordered chain of repositories",
    "",
    "Usage: artifetch [OPTIONS] <COMMAND>",
    "",
    "Commands:",
    "  resolve      Resolves modules given as group:name[:version] and the artifacts of a configuration",
    "  versions     Lists the published versions of a module",
    "  clear-cache  Cleans the artifetch cache",
    "  help         Print this message or the help of the given subcommand(s)",
    "",
    "Options:",
    "  -r, --root <ROOT>",
    "          Project root directory. Defaults to the current directory",
    "      --repositories-file <REPOSITORIES_FILE>",
    "          Name of the file declaring the repositories [default: artifetch.toml]",
    "  -c, --cache-directory <CACHE_DIRECTORY>",
    "          Location of the artifetch cache directory [default: $HOME/.artifetch/cache]",
    "      --offline",
    "          Resolve from the cache only, never touching a repository",
    "      --refresh-dependencies",
    "          Ignore cached entries and ask the repositories again",
    "  -h, --help",
    "          Print help",
    "  -V, --version",
    "          Print version"]

/-- The help on `resolve`. -/
def resolveHelp : String :=
  paragraph [
    "Resolves modules given as group:name[:version] and the artifacts of a configuration",
    "",
    "Usage: artifetch resolve [OPTIONS] <SELECTORS>...",
    "",
    "Arguments:",
    "  <SELECTORS>...  ",
    "",
    "Options:",
    "      --configuration <CONFIGURATION>  Configuration whose artifacts are resolved [default: default]",
    "      --sources                        Also resolve source artifacts",
    "      --javadoc                        Also resolve documentation artifacts",
    "  -d, --download                       Download every resolved artifact into the cache",
    "  -j, --jobs <JOBS>                    Number of modules resolved in parallel",
    "  -h, --help                           Print help"]

/-- The help on `versions`. -/
def versionsHelp : String :=
  paragraph [
    "Lists the published versions of a module",
    "",
    "Usage: artifetch versions <SELECTOR>",
    "",
    "Arguments:",
    "  <SELECTOR>  ",
    "",
    "Options:",
    "  -h, --help  Print help"]

/-- The help on `clear-cache`. -/
def clearHelp : String :=
  paragraph [
    "Cleans the artifetch cache",
    "",
    "Usage: artifetch clear-cache",
    "",
    "Options:",
    "  -h, --help  Print help"]

/-- The help on `help`. -/
def helpHelp : String :=
  paragraph [
    "Print this message or the help of the given subcommand(s)",
    "",
    "Usage: artifetch help [COMMAND]...",
    "",
    "Arguments:",
    "  [COMMAND]...  Print help for the subcommand(s)"]

/-- The help on a command, or on the program. -/
def helpOn (topic : Option String) : String :=
  match topic with
  | some "resolve" => resolveHelp
  | some "versions" => versionsHelp
  | some "clear-cache" => clearHelp
  | some "help" => helpHelp
  | _ => programHelp

end ArtifactResolver.CommandLine
