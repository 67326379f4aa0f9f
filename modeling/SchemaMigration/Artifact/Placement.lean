import SchemaMigration.Artifact.Kind
import SchemaMigration.Config.Context
import SchemaMigration.Naming.Entity

set_option autoImplicit false

namespace SchemaMigration

structure Placement where
  directory : Path
  file : Path

structure Artifact where
  kind : ArtifactKind
  name : String
  code : String
  path : Path

namespace Artifact

def directory (a : Artifact) : Path :=
  a.path.parent?.getD ⟨""⟩

end Artifact

namespace Context

def outputRoot (ctx : Context) (policy : PlacementPolicy) : Path :=
  let configured :=
    match policy.directory with
    | .resources => ctx.output.resourcesDir
    | .traits => ctx.output.traitsDir
    | .extensions => ctx.output.extensionsDir
  configured.getD (ctx.projectRoot.join ⟨policy.defaultDirectory⟩)

def placeBelowRoot? (ctx : Context) (source : Path) : Option Path := do
  let directory ← source.parent?
  let root ← directory.deepestRoot? (ctx.mixins.roots ++ ctx.models.roots)
  directory.below? root

def stem? (ctx : Context) (source : Path) : Option String :=
  (source.stripExtension ctx.extensions).fileName?

def derivedFileName (ctx : Context) (policy : PlacementPolicy) (source : Path) : String :=
  let extension :=
    if policy.keepsExtension then (source.extension?.map ("." ++ ·)).getD ".js" else ".ts"
  (ctx.stem? source).getD "" ++ policy.suffix ++ extension

def place (ctx : Context) (kind : ArtifactKind) (suggestedName : String) (source : Path) :
    Placement :=
  let policy := kind.policy
  let root := ctx.outputRoot policy
  let directory :=
    match if policy.keepsPlace then ctx.placeBelowRoot? source else none with
    | some below => root.join below
    | none => root
  let fileName :=
    if policy.isNamed then suggestedName else ctx.derivedFileName policy source
  { directory, file := directory.join ⟨fileName⟩ }

end Context

end SchemaMigration
