import SchemaMigration.Config.Context
import SchemaMigration.Migration.Diagnostic
import SchemaMigration.SourceFile.Basic

set_option autoImplicit false

namespace SchemaMigration

inductive LoadFault where
  | unreadable (cause : DiskError)
  | broken (fault : ReadFault)

namespace LoadFault

def diagnostic (path : String) : LoadFault → Diagnostic
  | .unreadable cause =>
    .error path .read unreadableSource ("cannot read file: " ++ cause.message)
  | .broken .unsupportedLanguage =>
    .error path .parse unsupportedSource ReadFault.unsupportedLanguage.message
  | .broken .syntaxError => .error path .parse brokenSource ReadFault.syntaxError.message

end LoadFault

def loadSource (d : Disk) (p : Path) : Except LoadFault SourceFile :=
  match d.readText p with
  | .error cause => .error (.unreadable cause)
  | .ok text =>
    match SourceFile.read p text with
    | .ok f => .ok f
    | .error fault => .error (.broken fault)

structure Loaded where
  parsed : PathMap SourceFile
  failed : List Path
  diagnostics : List Diagnostic

namespace Loaded

def empty : Loaded := ⟨[], [], []⟩

def add (loaded : Loaded) (ctx : Context) (d : Disk) (p : Path) : Loaded :=
  let shown := ctx.display p
  match loadSource d p with
  | .ok f =>
    { loaded with
      parsed := loaded.parsed.insert p f
      diagnostics := loaded.diagnostics ++ f.warnings.map fun message =>
        .warning shown .extract malformedField message }
  | .error fault =>
    { loaded with
      failed := loaded.failed ++ [p]
      diagnostics := loaded.diagnostics ++ [fault.diagnostic shown] }

def addNew (loaded : Loaded) (ctx : Context) (d : Disk) (p : Path) : Loaded :=
  if loaded.parsed.contains p || loaded.failed.contains p then loaded else loaded.add ctx d p

end Loaded

end SchemaMigration
