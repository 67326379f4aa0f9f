import SchemaMigration.Config.Basic
import SchemaMigration.Config.Error
import SchemaMigration.Disk.Walk
import SchemaMigration.Path.Order
import SchemaMigration.Text.Parts

set_option autoImplicit false

namespace SchemaMigration

structure SourceRoots where
  importAlias : Option String
  directory : Option Path
  additional : List PathMapping
  roots : List Path

structure Context where
  projectRoot : Path
  extensions : List String
  models : SourceRoots
  mixins : SourceRoots
  output : OutputConfig
  importMappings : List ImportMapping
  intermediateModels : List String
  exclude : List Glob
  dryRun : Bool

namespace Template

def splitLast (s : List Char) : List Char × List Char :=
  match s.reverse.span (· != '/') with
  | (_, []) => ([], s)
  | (last, _ :: before) => (before.reverse, last.reverse)

def splitFirst (s : List Char) : List Char × List Char :=
  match s.span (· != '/') with
  | (_, []) => (s, [])
  | (first, _ :: after) => (first, after)

def anchor (d : Disk) (root template : Path) : Path :=
  if template.isAbsolute then template
  else
    match Text.splitAtStar? template.text.toList with
    | some (before, after) =>
      let (directory, head) := splitLast before
      let canonical := d.canonicalOrNormal (root.join ⟨String.ofList directory⟩)
      ⟨canonical.text ++ "/" ++ String.ofList head ++ "*" ++ String.ofList after⟩
    | none => d.canonicalOrNormal (root.join template)

def isCapture (head tail name : List Char) : Bool :=
  Text.byteLength head + Text.byteLength tail < Text.byteLength name
    && head.isPrefixOf name && tail.isSuffixOf name

def expand (d : Disk) (template : Path) : List Path :=
  match Text.splitAtStar? template.text.toList with
  -- Without a star nothing is looked up: the directory need not exist.
  | none => [template]
  | some (before, after) =>
    let (directory, head) := splitLast before
    let (tail, remainder) := splitFirst after
    let parent : Path := if directory.isEmpty then ⟨"/"⟩ else ⟨String.ofList directory⟩
    match d.find parent with
    | .error _ => []
    | .ok place =>
      Path.sort <| (d.children place).filterMap fun (name, entry) =>
        match entry with
        | .directory =>
          let matched := parent.join ⟨name⟩
          let candidate :=
            if remainder.isEmpty then matched else matched.join ⟨String.ofList remainder⟩
          if isCapture head tail name.toList && d.isDirectory candidate then
            some (d.canonicalOrNormal candidate)
          else none
        -- A link is no match, even if it leads to a directory.
        | _ => none

end Template

namespace SourceRoots

def trimAlias (importAlias : String) : Option String :=
  let trimmed := String.ofList (Text.trimSlashes importAlias.toList)
  if trimmed.isEmpty then none else some trimmed

def ofConfig (d : Disk) (root : Path) (s : SourceConfig) : SourceRoots :=
  let directory := s.directory.map fun p => d.canonicalOrNormal (root.join p)
  let additional := s.additional.map fun m =>
    { m with directory := Template.anchor d root m.directory }
  { importAlias := s.importAlias.bind trimAlias
    directory
    additional
    roots := Path.sortedSet
      (directory.toList ++ additional.flatMap fun m => Template.expand d m.directory) }

end SourceRoots

namespace Context

def hasSources (c : Config) : Bool :=
  c.models.directory.isSome || !c.models.additional.isEmpty
    || c.mixins.directory.isSome || !c.mixins.additional.isEmpty

def crowdedPattern? (c : Config) : Option String :=
  ((c.models.additional ++ c.mixins.additional).map PathMapping.pattern).find? fun pattern =>
    1 < pattern.toList.count '*'

def dotted (extension : String) : String :=
  if extension.toList.head? == some '.' then extension else "." ++ extension

def readExclude (pattern : String) : Except ConfigError Glob :=
  match Glob.ofString pattern with
  | .ok glob => .ok glob
  | .error fault => .error (.invalidExclude pattern fault)

def outputRoots (d : Disk) (root : Path) (o : OutputConfig) : OutputConfig :=
  let absolute (p : Path) := d.canonicalOrNormal (root.join p)
  { resourcesDir := o.resourcesDir.map absolute
    traitsDir := o.traitsDir.map absolute
    extensionsDir := o.extensionsDir.map absolute }

def ofConfig (d : Disk) (c : Config) : Except ConfigError Context :=
  match d.canonicalize c.projectRoot with
  | .error cause => .error (.rootNotAccessible c.projectRoot cause)
  | .ok root =>
    if !hasSources c then .error .noSources
    else
      match crowdedPattern? c with
      | some pattern => .error (.manyWildcards pattern)
      | none => do
        let exclude ← c.exclude.mapM readExclude
        return {
          projectRoot := root
          extensions :=
            if c.extensions.isEmpty then defaultExtensions else c.extensions.map dotted
          models := SourceRoots.ofConfig d root c.models
          mixins := SourceRoots.ofConfig d root c.mixins
          output := outputRoots d root c.output
          importMappings := c.importMappings
          intermediateModels := c.intermediateModels
          exclude
          dryRun := c.dryRun }

def relative (ctx : Context) (p : Path) : Path :=
  (p.below? ctx.projectRoot).getD p

def display (ctx : Context) (p : Path) : String :=
  String.ofList ((ctx.relative p).text.toList.map fun c => if c == '\\' then '/' else c)

def isExcluded (ctx : Context) (p : Path) : Bool :=
  ctx.exclude.any fun glob => glob.isMatch (ctx.relative p).text

end Context

end SchemaMigration
