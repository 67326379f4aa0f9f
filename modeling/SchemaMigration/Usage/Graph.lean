import SchemaMigration.Migration.Diagnostic
import SchemaMigration.Naming.Entity
import SchemaMigration.SourceFile.Basic
import SchemaMigration.Specifier.Resolve
import SchemaMigration.Usage.Closure

set_option autoImplicit false

namespace SchemaMigration

open Naming

structure UsageGraph where
  modelToMixins : Dependencies
  mixinDependencies : Dependencies
  connected : List Path

namespace UsageGraph

def isConnected (g : UsageGraph) (mixin : Path) : Bool :=
  g.connected.contains mixin

end UsageGraph

def mixinNames (p : Path) (roots : List Path) (extensions : List String) : List String :=
  let stripped := p.stripExtension extensions
  let nested := roots.filterMap fun root => (stripped.below? root).map Path.dasherized
  (stripped.fileName?.map dasherize).toList ++ nested.filter fun name => !name.isEmpty

def normalTypeName (type : String) : String :=
  let trimmed := Character.trim type.toList
  "/".intercalate ((trimmed.splitOn '/').map fun step => dasherize (String.ofList step))

namespace Context

def importedMixins (ctx : Context) (d : Disk) (mixins : List Path) (f : SourceFile) : List Path :=
  (f.imports.filterMap fun i => ctx.resolveMixin? d i.specifier f.path).filter mixins.contains

def polymorphicTypes (f : SourceFile) : List String :=
  (f.fields.filter fun field => field.kind == .belongsTo && field.isPolymorphic).filterMap
    Field.type?

def polymorphicMixins (ctx : Context) (mixins : List Path) (f : SourceFile) : List Path :=
  let types := (polymorphicTypes f).map normalTypeName
  mixins.filter fun m => types.any (mixinNames m ctx.mixins.roots ctx.extensions).contains

def modelTargets (ctx : Context) (d : Disk) (mixins : List Path) (f : SourceFile) : List Path :=
  Path.sortedSet (ctx.importedMixins d mixins f ++ ctx.polymorphicMixins mixins f)

def mixinTargets (ctx : Context) (d : Disk) (mixins : List Path) (p : Path) (f : SourceFile) :
    List Path :=
  Path.sortedSet ((ctx.importedMixins d mixins f).filter (· != p))

def relativePathWarning (ctx : Context) (p : Path) (f : SourceFile) : Diagnostic :=
  .warning (ctx.display p) .extract edgeExtraction
    s!"parse failure in {f.path.text}: source path is not absolute; cannot resolve imports"

def edges (parsed : PathMap SourceFile) (targets : Path → SourceFile → List Path)
    (paths : List Path) : Dependencies :=
  paths.foldl (fun found p =>
    match parsed.get? p with
    | none => found
    | some f =>
      let reached := if f.path.isAbsolute then targets p f else []
      if reached.isEmpty then found else found.insert p reached) []

def edgeWarnings (ctx : Context) (parsed : PathMap SourceFile) (paths : List Path) :
    List Diagnostic :=
  paths.filterMap fun p =>
    match parsed.get? p with
    | none => none
    | some f => if f.path.isAbsolute then none else some (ctx.relativePathWarning p f)

def usage (ctx : Context) (d : Disk) (models mixins : List Path) (parsed : PathMap SourceFile) :
    UsageGraph × List Diagnostic :=
  let modelToMixins := edges parsed (fun _ => ctx.modelTargets d mixins) models
  let mixinDependencies := edges parsed (ctx.mixinTargets d mixins) mixins
  let connected := Dependencies.close mixinDependencies (modelToMixins.flatMap Prod.snd)
  ({ modelToMixins := modelToMixins.sorted, mixinDependencies := mixinDependencies.sorted,
     connected },
    ctx.edgeWarnings parsed models ++ ctx.edgeWarnings parsed mixins)

end Context

end SchemaMigration
