/-!
# Help and version

The texts printed when help or the version is asked for.
-/
namespace AssetAudit.CommandLine

def versionText : String := "side-effect-scanner 0.1.0"

def helpLines : List String :=
  ["Static side-effect scanner for micro-frontend assets",
    "",
    "Usage: side-effect-scanner [OPTIONS]",
    "",
    "Options:",
    "  -e, --entry <ENTRY>            Entry file whose import graph is scanned",
    "  -d, --dir <DIR>                Scan every file under this directory",
    "  -c, --config <CONFIG>          Path to configuration file",
    "      --cwd <CWD>                Working directory for the scan [default: .]",
    "      --max-depth <MAX_DEPTH>    Maximum import depth to follow from the entry",
    "      --compile <COMPILE>        Whether assets are build output (true) or sources (false)",
    "      --unknown-dir <DIR>        Directory whose sources are reported as unknown origin",
    "      --ignore <GLOB>...         Glob patterns of files to ignore",
    "      --ignored-global-var <GLOB>...",
    "                                 Glob patterns of global variable names to ignore",
    "      --alias <KEY=PATH>...      Import alias as key=path",
    "      --enable <RULE>...         Enable detection rules",
    "      --disable <RULE>...        Disable detection rules",
    "  -v, --verbose...               Increase logging verbosity",
    "  -q, --quiet...                 Decrease logging verbosity",
    "      --json <FILE>              Output report as JSON to file",
    "      --yaml <FILE>              Output report as YAML to file",
    "  -h, --help                     Print help",
    "  -V, --version                  Print version"]

end AssetAudit.CommandLine
