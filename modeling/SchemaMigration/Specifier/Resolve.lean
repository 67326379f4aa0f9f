import SchemaMigration.Config.Context
import SchemaMigration.Specifier.Pattern

set_option autoImplicit false

namespace SchemaMigration

inductive Scope where
  | model
  | mixin
deriving DecidableEq, Repr

namespace Disk

def firstFile? (d : Disk) (paths : List Path) : Option Path :=
  (paths.find? d.isFile).map d.canonicalOrNormal

end Disk

namespace Context

def source (ctx : Context) : Scope → SourceRoots
  | .model => ctx.models
  | .mixin => ctx.mixins

def probe? (ctx : Context) (d : Disk) (base : Path) : Option Path :=
  if d.isFile base then some (d.canonicalOrNormal base)
  else
    (d.firstFile? (ctx.extensions.map fun e => ⟨base.text ++ e⟩)).or
      (if d.isDirectory base then
        d.firstFile? (ctx.extensions.map fun e => base.join ⟨"index" ++ e⟩)
      else none)

end Context

namespace SourceRoots

def aliasBase? (s : SourceRoots) (specifier : String) : Option Path := do
  let importAlias ← s.importAlias
  let directory ← s.directory
  let rest ← afterSteps? importAlias.toList specifier.toList
  return if rest.isEmpty then directory else directory.join ⟨String.ofList rest⟩

end SourceRoots

namespace Context

def resolveIn? (ctx : Context) (d : Disk) (specifier : String) (directory : Path)
    (scope : Scope) : Option Path :=
  if isRelativeSpecifier specifier then ctx.probe? d (directory.join ⟨specifier⟩)
  else
    let s := ctx.source scope
    ((s.aliasBase? specifier).bind (ctx.probe? d)).or
      (s.additional.findSome? fun m =>
        (Pattern.match? m.pattern specifier).bind fun matched =>
          ctx.probe? d (Pattern.expand m.directory matched))

def resolve? (ctx : Context) (d : Disk) (specifier : String) (importer : Path) (scope : Scope) :
    Option Path :=
  importer.parent?.bind fun directory => ctx.resolveIn? d specifier directory scope

def resolveFromRoot? (ctx : Context) (d : Disk) (specifier : String) (scope : Scope) :
    Option Path :=
  (ctx.resolveIn? d specifier ctx.projectRoot scope).or
    (ctx.probe? d (ctx.projectRoot.join ⟨specifier⟩))

def resolveMixin? (ctx : Context) (d : Disk) (specifier : String) (importer : Path) :
    Option Path :=
  (ctx.resolve? d specifier importer .mixin).filter fun p => ctx.mixins.roots.any p.isWithin

end Context

end SchemaMigration
