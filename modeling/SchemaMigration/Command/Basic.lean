import SchemaMigration.Command.Arguments
import SchemaMigration.Config.Load
import SchemaMigration.Migration.Document
import SchemaMigration.Migration.Run

set_option autoImplicit false

namespace SchemaMigration.Command

structure Result where
  exitCode : Nat
  output : String
  error : Option String

def versionText : String :=
  toolName ++ " 0.4.0 (unknown unknown)"

def helpText : String :=
  "Migrate models and mixins into schema, trait and extension files\n\n"
    ++ s!"Usage: {toolName} [OPTIONS]\n\n"
    ++ "Options:\n"
    ++ "  -c, --config <FILE>    JSON configuration file\n"
    ++ "      --root <DIR>       Project root\n"
    ++ "      --dry-run          Analyze and generate without writing any file\n"
    ++ "      --output <OUTPUT>  Report format [default: human] [possible values: human, json]\n"
    ++ "  -v, --verbose          Debug logging\n"
    ++ "  -V, --version          Print version and build information\n"
    ++ "  -h, --help             Print help\n"

def configOf (d : Disk) (options : Options) : Except String Config :=
  let loaded : Except String Config :=
    match options.config with
    | none => .ok (Config.conventional (options.root.getD ⟨"."⟩))
    | some file =>
      match Config.load d file with
      | .ok config => .ok config
      | .error e => .error s!"loading {file.text}: {e.message}"
  loaded.map fun config =>
    { config with
      projectRoot := options.root.getD config.projectRoot
      dryRun := config.dryRun || options.dryRun }

def shown (options : Options) (id : String) (report : Report) : String :=
  match options.output.getD .human with
  | .human => report.text
  | .json => (envelope id report.toJson report.hasErrors).pretty ++ "\n"

def failure (message : String) : Result :=
  { exitCode := 2, output := "", error := some ("Error: " ++ message) }

def migrateWith (d : Disk) (id : String) (options : Options) : Disk × Result :=
  match configOf d options with
  | .error message => (d, failure message)
  | .ok config =>
    match Context.ofConfig d config with
    | .error e => (d, failure e.message)
    | .ok ctx =>
      let (after, report) := migrate ctx d
      (after,
        { exitCode := if report.hasErrors then 1 else 0
          output := shown options id report
          error := none })

def run (d : Disk) (id : String) (arguments : List String) : Disk × Result :=
  match readArguments arguments with
  | .invalid => (d, { exitCode := 2, output := "", error := none })
  | .help => (d, { exitCode := 0, output := helpText, error := none })
  | .run options =>
    if options.version then
      (d, { exitCode := 0, output := versionText ++ "\n", error := none })
    else migrateWith d id options

end SchemaMigration.Command
