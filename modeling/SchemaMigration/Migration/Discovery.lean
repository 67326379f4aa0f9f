import SchemaMigration.Config.Context

set_option autoImplicit false

namespace SchemaMigration

structure Discovered where
  models : List Path
  mixins : List Path
  excluded : List Path

namespace Discovered

def total (d : Discovered) : Nat :=
  d.models.length + d.mixins.length

end Discovered

def isSourceFile (p : Path) (extensions : List String) : Bool :=
  match p.fileName? with
  | none => false
  | some name =>
    !".d.ts".toList.isSuffixOf name.toList
      && extensions.any fun e => e.toList.isSuffixOf name.toList

def skippedDirectories : List String :=
  ["node_modules", ".git", "dist", "tmp"]

namespace Disk

def isEntered (d : Disk) (directory : Place) : List String → Bool
  -- The last name is that of the entry itself, which may be called as it likes.
  | [] | [_] => true
  | name :: rest =>
    !skippedDirectories.contains name && d.isDirectoryAt (directory ++ [name])
      && d.isEntered (directory ++ [name]) rest

def filesBelow (d : Disk) (directory : Place) : List Place :=
  d.entries.filterMap fun (place, entry) =>
    match entry, directory.isPrefixOf? place with
    | .file _, some (name :: rest) =>
      if d.isEntered directory (name :: rest) then some place else none
    | _, _ => none

end Disk

namespace Context

def sourcesBelow (ctx : Context) (d : Disk) (root : Path) : List Path :=
  if d.isDirectory root then
    match d.find root with
    | .ok place =>
      ((d.filesBelow place).map Disk.pathOf).filter fun p => isSourceFile p ctx.extensions
    | .error _ => []
  else []

def deepest? (p : Path) (roots : List Path) : Option Nat :=
  ((roots.filter p.startsWith).map Path.depth).max?

def isMixin (ctx : Context) (p : Path) : Bool :=
  match deepest? p ctx.models.roots, deepest? p ctx.mixins.roots with
  -- Of two roots that are equally deep, the one of models counts.
  | some models, some mixins => models < mixins
  | none, some _ => true
  | _, none => false

def isModel (ctx : Context) (p : Path) : Bool :=
  (deepest? p ctx.models.roots).isSome && !ctx.isMixin p

def discover (ctx : Context) (d : Disk) : Discovered :=
  let found := (ctx.models.roots ++ ctx.mixins.roots).flatMap (ctx.sourcesBelow d)
  let kept := Path.sortedSet (found.filter fun p => !ctx.isExcluded p)
  { models := kept.filter ctx.isModel
    mixins := kept.filter ctx.isMixin
    excluded := Path.sortedSet (found.filter ctx.isExcluded) }

end Context

end SchemaMigration
