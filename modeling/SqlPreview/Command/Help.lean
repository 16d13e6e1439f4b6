import SqlPreview.Command.Arguments

namespace SqlPreview.Command

def unlines (lines : List String) : Text :=
  lines.flatMap fun line => line.toList ++ ['\n']

def helpText : Topic → Text
  | .root => unlines
    ["sqlpeek - preview MyBatis-style dynamic SQL as literal SQL",
      "",
      "USAGE:",
      "  sqlpeek <COMMAND> [OPTIONS]",
      "",
      "COMMANDS:",
      "  params        List the placeholders a template asks for",
      "  render        Render a template with parameter values",
      "  init          Write a default sqlpeek.toml",
      "",
      "Run \x60sqlpeek <command> --help\x60 for more."]
  | .params => unlines
    ["USAGE:",
      "  sqlpeek params [FILE]",
      "",
      "NOTES:",
      "  Reads the template from stdin if no file is given.",
      "  Prints one name per line, in order of first appearance.",
      "",
      "OPTIONS:",
      "  -h, --help            Print help"]
  | .render => unlines
    ["USAGE:",
      "  sqlpeek render [OPTIONS] [FILE]",
      "",
      "NOTES:",
      "  - Reads the template from stdin if no file is given (or FILE is -).",
      "  - Parameter precedence: config [params] < --params file < --param.",
      "  - Values are spliced in as text; the output is for preview only.",
      "",
      "OPTIONS:",
      "  --config <FILE>       Config file path (default: sqlpeek.toml, optional)",
      "  -p, --param <K=V>     Set a parameter (repeatable)",
      "  --params <FILE>       Load parameters from a .json or .toml file",
      "  --no-lint             Skip lint of the rendered SQL",
      "  --deny-warnings       Treat warnings as errors",
      "  -v, --verbose         Debug logs on stderr",
      "  -h, --help            Print help"]
  | .init => unlines
    ["USAGE:",
      "  sqlpeek init [OPTIONS]",
      "",
      "OPTIONS:",
      "  --config <FILE>       Output config path (default: sqlpeek.toml)",
      "  -h, --help            Print help"]

-- The configuration that a new project begins with. It says what holds without it.
def configTemplate : Text :=
  unlines
    ["version = \x221\x22",
      "",
      "[render]",
      "lint = true            # flag DELETE/UPDATE without WHERE, leftover markup, ...",
      "deny_warnings = false  # fail on warnings too",
      "# params_file = \x22params.json\x22   # .json or .toml, relative to this file",
      "",
      "# Default parameter values. Overridden by --params and --param.",
      "[params]",
      "# status = 1",
      "# ids = \x221,2,3\x22",
      "# users = [\x7b id = 1, name = \x22ann\x22 \x7d, \x7b id = 2, name = \x22bo\x22 \x7d]"]

end SqlPreview.Command
