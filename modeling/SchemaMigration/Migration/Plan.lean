import SchemaMigration.Artifact.Descriptor
import SchemaMigration.Artifact.Interface
import SchemaMigration.Artifact.Placement
import SchemaMigration.Migration.Diagnostic
import SchemaMigration.Specifier.Resolve

set_option autoImplicit false

namespace SchemaMigration

structure TraitEntry where
  name : String
  schemaPath : Path
  typesPath : Option Path

abbrev TraitRegistry := PathMap TraitEntry

inductive Role where
  | model
  | intermediate
  | mixin
deriving DecidableEq, Repr

namespace Role

def descriptorKind : Role → ArtifactKind
  | .model => .schema
  | .intermediate | .mixin => .trait

def extensionKind : Role → ArtifactKind
  | .model => .resourceExtension
  | .intermediate | .mixin => .traitExtension

def typesKind : Role → ArtifactKind
  | .model => .resourceType
  | .intermediate | .mixin => .traitType

def descriptorSource : Role → Descriptor → String
  | .model, d => d.schemaSource
  | .intermediate, d | .mixin, d => d.traitSource

def typesSource (role : Role) (name : String) (fields : List Field)
    (parents : List InterfaceImport) : String :=
  match role with
  | .model => resourceTypeSource name fields parents
  | .intermediate | .mixin => traitTypeSource name fields parents

def scope : Role → Scope
  | .model | .intermediate => .model
  | .mixin => .mixin

end Role

structure Project where
  ctx : Context
  disk : Disk
  parsed : PathMap SourceFile
  mixins : List Path
  intermediates : List Path
  registry : TraitRegistry

namespace Project

def baseModel? (ctx : Context) (d : Disk) (parsed : PathMap SourceFile) (p : Path) :
    Option Path := do
  let f ← parsed.get? p
  let declaration ← f.declaration
  let base ← declaration.base
  let (i, _) ← f.importOf? base
  ctx.resolve? d i.specifier f.path .model

def baseTrait? (project : Project) (f : SourceFile) : Option TraitEntry := do
  let base ← baseModel? project.ctx project.disk project.parsed f.path
  guard (project.intermediates.contains base)
  project.registry.get? base

def mixinTrait? (project : Project) (f : SourceFile) (name : String) : Option TraitEntry := do
  let ctx := project.ctx
  let (i, _) ← f.importOf? name
  let mixin ← ctx.resolveMixin? project.disk i.specifier f.path
  -- Only a mixin that was found and read counts, whether or not something is generated for it.
  guard (project.mixins.contains mixin)
  let mixinFile ← project.parsed.get? mixin
  let isTyped := mixinFile.language == .typeScript
  return {
    name := entityName mixin ctx.mixins.roots ctx.extensions
    schemaPath := (ctx.place .trait "" mixin).file
    typesPath := if isTyped then some (ctx.place .traitType "" mixin).file else none }

def addTrait (traits : List TraitEntry) (entry : TraitEntry) : List TraitEntry :=
  if traits.any (·.name == entry.name) then traits else traits ++ [entry]

def traitsOf (project : Project) (f : SourceFile) (role : Role) (mixins : List String) :
    List TraitEntry :=
  let base := if role == .mixin then none else project.baseTrait? f
  (mixins.filterMap (project.mixinTrait? f)).foldl addTrait base.toList

def extensionTypes (ctx : Context) (f : SourceFile) (name : String) (e : Extension)
    (extensionPath : Path) : Artifact :=
  let fileName := (ctx.stem? f.path).getD name ++ ".ext.types.ts"
  let path := (ctx.place .extensionType fileName f.path).file
  { kind := .extensionType
    name
    code := extensionTypeSource e.exportName e.shape (specifierBetween path extensionPath)
    path }

def parentsOf (typesPath : Path) (traits : List TraitEntry)
    (extension? : Option (Extension × Artifact)) : List InterfaceImport :=
  let ofTrait (t : TraitEntry) := t.typesPath.map fun path =>
    InterfaceImport.mk (traitInterfaceName t.name) (specifierBetween typesPath path)
  let ofExtension := extension?.map fun (e, types) =>
    InterfaceImport.mk (extensionSignatureName e.exportName) (specifierBetween typesPath types.path)
  traits.filterMap ofTrait ++ ofExtension.toList

end Project

structure Plan where
  artifacts : List Artifact
  diagnostics : List Diagnostic
  entry : TraitEntry

namespace Project

def typeArtifacts (ctx : Context) (f : SourceFile) (role : Role) (name : String)
    (traits : List TraitEntry) (extension? : Option Extension) (extensionPath : Path) :
    List Artifact :=
  let withTypes := extension?.map fun e => (e, extensionTypes ctx f name e extensionPath)
  let path := (ctx.place role.typesKind "" f.path).file
  let parents := parentsOf path traits withTypes
  { kind := role.typesKind, name, code := role.typesSource name f.fields parents, path }
    :: (withTypes.map Prod.snd).toList

def extensionOf (ctx : Context) (f : SourceFile) (name : String) (extensionPath : Path) :
    Option Extension × List Diagnostic :=
  match Extension.build? f name (some extensionPath) ctx.importMappings with
  | .ok extension? => (extension?, [])
  | .error fault =>
    (none, [.warning (ctx.display f.path) .generate extensionFailed fault.message])

def descriptorOf (project : Project) (f : SourceFile) (role : Role) (declaration : Declaration)
    (extension? : Option Extension) : Descriptor where
  name := entityName f.path (project.ctx.source role.scope).roots project.ctx.extensions
  fields := f.fields
  traits := (project.traitsOf f role declaration.mixins).map TraitEntry.name
  extension? := extension?.map Extension.exportName

def planDeclared (project : Project) (f : SourceFile) (role : Role) (declaration : Declaration) :
    Plan :=
  let ctx := project.ctx
  let name := entityName f.path (ctx.source role.scope).roots ctx.extensions
  let traits := project.traitsOf f role declaration.mixins
  let extensionPath := (ctx.place role.extensionKind "" f.path).file
  let (extension?, diagnostics) := extensionOf ctx f name extensionPath
  let descriptor := project.descriptorOf f role declaration extension?
  let schemaPath := (ctx.place role.descriptorKind "" f.path).file
  let isTyped := f.language == .typeScript
  let types :=
    if isTyped then typeArtifacts ctx f role name traits extension? extensionPath else []
  let extensions := (extension?.map fun e =>
    Artifact.mk role.extensionKind name e.code extensionPath).toList
  { artifacts :=
      { kind := role.descriptorKind, name, code := role.descriptorSource descriptor,
        path := schemaPath } :: types ++ extensions
    diagnostics
    entry := { name, schemaPath, typesPath := (types.head?).map Artifact.path } }

def plan (project : Project) (f : SourceFile) (role : Role) : Except SkipReason Plan :=
  match f.declaration with
  | none => .error .noDeclaration
  | some declaration => .ok (project.planDeclared f role declaration)

end Project

end SchemaMigration
