import MediaCatalog.CommandLine.Command

namespace MediaCatalog.CommandLine

def programName : String := "mdx"

def programVersion : String := "0.4.0"

def usage : String :=
  "\n".intercalate
    [ "Stable content-derived ids and tag search for a media library",
      "",
      "Usage: mdx [OPTIONS] <COMMAND>",
      "",
      "Commands:",
      "  scan [DIR] [-q]                 resolve every file below a directory",
      "  resolve <FILE>... [--json]      print the identifier of each file",
      "  search <QUERY> [-n N] [-o N] [-a] [-t] [--sort-by COLUMNS] [--order DIRECTIONS]",
      "         [--json] [--pretty]      search by tags and paths",
      "  tags [QUERY] [-n N] [-o N] [--json] [--pretty]",
      "                                  count tags across the results of a query",
      "  tag add <FILE> <TAGS>...        attach tags to a file",
      "  tag rm <FILE> <TAGS>...         remove tags from a file",
      "  tag list <FILE> [--deleted] [--json]",
      "  clean [--json]                  flag files that no longer exist",
      "  stats [--json] [--pretty]       show numbers of records",
      "",
      "Options:",
      "  -v, --verbose                   may be repeated",
      "  -L, --library <DIR>             the library, by default the current directory",
      "      --db <FILE>                 the database, by default that of the library",
      "      --config <FILE>             the settings",
      "  -h, --help",
      "  -V, --version" ]

/-- Whether help was asked for, so that there is no fault to tell. -/
def UsageFault.isRequest : UsageFault → Bool
  | .helpWanted | .versionWanted => true
  | _ => false

def UsageFault.message : UsageFault → String
  | .unknownArgument => "error: unexpected argument"
  | .unknownCommand => "error: unrecognized subcommand"
  | .noValue => "error: a value is required"
  | .badValue => "error: invalid value"
  | .valueNotTaken => "error: unexpected value"
  | .repeated => "error: an argument cannot be used multiple times"
  | .argumentMissing => "error: a required argument was not provided"
  | .commandMissing => "error: a subcommand is required"
  | .nothingGiven | .helpWanted => usage
  | .versionWanted => programName ++ " " ++ programVersion

end MediaCatalog.CommandLine
