/-!
# Help

What the command tells about itself when it is asked.
-/

namespace AppletBundle.CommandLine

/-- The name and the version of the command. -/
def versionText : String :=
  "pagoda 0.3.0\n"

/-- The options and what they do. -/
def helpText : String :=
  "Tree-shaking bundler that packages mini-program apps, pages and components into web bundles\n\n" ++
  "Usage: pagoda [OPTIONS]\n\n" ++
  "Options:\n" ++
  "  -p, --project <PROJECT>          Project directory containing app.json\n" ++
  "  -o, --out-dir <OUT_DIR>          Directory to write bundles to\n" ++
  "  -m, --minify                     Minify script and style output\n" ++
  "      --no-tree-shaking            Keep every top-level statement instead of tree shaking\n" ++
  "      --runtime-dir <RUNTIME_DIR>  Framework runtime files to copy next to the bundles\n" ++
  "  -v, --verbose...                 Increase verbosity (can be repeated: -v, -vv, -vvv)\n" ++
  "  -c, --config <CONFIG>            Configuration file path\n" ++
  "  -h, --help                       Print help\n" ++
  "  -V, --version                    Print version\n"

end AppletBundle.CommandLine
