set_option autoImplicit false

namespace SchemaMigration

inductive SkipReason where
  | noDeclaration
  | notConnected
  | excludedByGlob
deriving DecidableEq, Repr

namespace SkipReason

def rank : SkipReason → Nat
  | .noDeclaration => 0
  | .notConnected => 1
  | .excludedByGlob => 2

def name : SkipReason → String
  | .noDeclaration => "NoDeclaration"
  | .notConnected => "NotConnected"
  | .excludedByGlob => "ExcludedByGlob"

def description : SkipReason → String
  | .noDeclaration => "no model or mixin declaration"
  | .notConnected => "mixin not used by any model"
  | .excludedByGlob => "excluded by pattern"

end SkipReason

inductive Stage where
  | config
  | read
  | parse
  | extract
  | generate
  | write
deriving DecidableEq, Repr

namespace Stage

def rank : Stage → Nat
  | .config => 0
  | .read => 1
  | .parse => 2
  | .extract => 3
  | .generate => 4
  | .write => 5

def name : Stage → String
  | .config => "Config"
  | .read => "Read"
  | .parse => "Parse"
  | .extract => "Extract"
  | .generate => "Generate"
  | .write => "Write"

def description : Stage → String
  | .config => "configuration"
  | .read => "reading file"
  | .parse => "parsing source"
  | .extract => "extracting fields"
  | .generate => "generating artifacts"
  | .write => "writing artifacts"

end Stage

inductive Diagnostic where
  | error (path : String) (stage : Stage) (code message : String)
  | warning (path : String) (stage : Stage) (code message : String)
  | skipped (path : String) (reason : SkipReason)
deriving DecidableEq, Repr

namespace Diagnostic

def path : Diagnostic → String
  | .error path .. | .warning path .. | .skipped path _ => path

def isError : Diagnostic → Bool
  | .error .. => true
  | _ => false

def severity : Diagnostic → Nat
  | .error .. => 0
  | .warning .. => 1
  | .skipped .. => 2

def rank : Diagnostic → Nat
  | .error _ stage .. | .warning _ stage .. => stage.rank
  | .skipped _ reason => reason.rank

def le (a b : Diagnostic) : Bool :=
  if a.path == b.path then
    if a.severity == b.severity then a.rank ≤ b.rank else a.severity ≤ b.severity
  else decide (a.path ≤ b.path)

def sort (diagnostics : List Diagnostic) : List Diagnostic :=
  diagnostics.mergeSort le

def shownPath (path : String) : String :=
  if path.isEmpty then "<batch>" else path

def text : Diagnostic → String
  | .error path stage code message =>
    s!"ERROR {shownPath path}: {stage.description}: [{code}] {message}"
  | .warning path stage code message =>
    s!"WARN {shownPath path}: {stage.description}: [{code}] {message}"
  | .skipped path reason => s!"SKIP {shownPath path}: {reason.description}"

end Diagnostic

def unresolvedIntermediate : String := "MIG-CFG-001"

def intermediateCycle : String := "MIG-CFG-002"

def unreadableSource : String := "MIG-PAR-001"

def brokenSource : String := "MIG-PAR-002"

def unsupportedSource : String := "MIG-PAR-003"

def malformedField : String := "MIG-EXT-001"

def edgeExtraction : String := "MIG-EXT-002"

def extensionFailed : String := "MIG-GEN-001"

def writeFailed : String := "MIG-IO-001"

end SchemaMigration
