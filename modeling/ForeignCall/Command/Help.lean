import ForeignCall.Command

/-! # Help

The texts that the program shows when it is asked for help. -/

namespace ForeignCall.Topic

/-- The options that say where the ABI comes from. -/
def abiOptions : String :=
  "      --arch <ARCH>    Use the built-in preset for this architecture " ++
    "[possible values: aarch64, x86-64]\n" ++
  "      --config <FILE>  Load the ABI description from a TOML file\n"

def text : Topic → String
  | program =>
      "Inspect native call layouts\n\nUsage: nativecall <COMMAND>\n\nCommands:\n" ++
      "  abi   Print the ABI configuration as TOML\n" ++
      "  plan  Show where each argument of a signature file is passed\n" ++
      "  help  Print this message or the help of the given subcommand(s)\n\n" ++
      "Options:\n  -h, --help  Print help\n"
  | abi =>
      "Print the ABI configuration as TOML\n\nUsage: nativecall abi [OPTIONS]\n\nOptions:\n" ++
      abiOptions ++
      "  -h, --help           Print help\n"
  | plan =>
      "Show where each argument of a signature file is passed\n\n" ++
      "Usage: nativecall plan [OPTIONS] <SIGNATURE>\n\n" ++
      "Arguments:\n  <SIGNATURE>  Signature file (TOML)\n\nOptions:\n" ++
      abiOptions ++
      "      --json           Print the plan as JSON\n" ++
      "  -h, --help           Print help\n"
  | help =>
      "Print this message or the help of the given subcommand(s)\n\n" ++
      "Usage: nativecall help [COMMAND]...\n\n" ++
      "Arguments:\n  [COMMAND]...  Print help for the subcommand(s)\n"

end ForeignCall.Topic
