import SchemaMigration.Proofs.Extensions
import SchemaMigration.Proofs.References
import SchemaMigration.Proofs.SpelledNames

set_option autoImplicit false

namespace SchemaMigration

open Naming Character

section Names

variable (p : Path) (roots : List Path) (extensions : List String)

-- The steps of a source that its name is made of: those below the deepest root that holds it, or
-- its file name alone.
def namingSteps : List String :=
  let stripped := p.stripExtension extensions
  let file := stripped.fileName?.toList
  match (stripped.deepestRoot? roots).bind stripped.below? with
  | some below => if below.dasherized.isEmpty then file else below.components.map Component.text
  | none => file

def namingPlace : String :=
  "/".intercalate (namingSteps p roots extensions)

theorem entityName_eq :
    entityName p roots extensions =
      "/".intercalate ((namingSteps p roots extensions).map dasherize) := by
  have bare : entityName.bareName (p.stripExtension extensions) =
      "/".intercalate ((p.stripExtension extensions).fileName?.toList.map dasherize) := by
    cases named : (p.stripExtension extensions).fileName? <;> simp [entityName.bareName, named]
  rw [entityName, namingSteps]
  cases (p.stripExtension extensions).deepestRoot? roots with
  | none => exact bare
  | some root =>
    cases found : (p.stripExtension extensions).below? root with
    | none => simpa [found] using bare
    | some below =>
      have nested : below.dasherized =
          "/".intercalate ((below.components.map Component.text).map dasherize) := by
        simp [Path.dasherized, Function.comp_def]
      by_cases empty : below.dasherized.isEmpty = true
      next => simpa [found, empty] using bare
      next => simpa [found, empty] using nested

theorem toList_pascalCase_entityName :
    (pascalCase (entityName p roots extensions)).toList =
      spelledFrom none (namingPlace p roots extensions).toList := by
  have spelled := pascalFrom_intercalate ((namingSteps p roots extensions).map String.toList)
  rw [entityName_eq, pascalCase, String.toList_ofList, namingPlace]
  simpa [String.toList_intercalate, Function.comp_def, dasherize] using spelled

end Names

namespace ArtifactKind

def exportName : ArtifactKind → String → String
  | .schema, entity => schemaConstantName entity
  | .trait, entity => traitConstantName entity
  | .resourceExtension, entity | .traitExtension, entity => extensionExportName entity
  | .resourceType, entity => resourceInterfaceName entity
  | .traitType, entity => traitInterfaceName entity
  | .extensionType, entity => extensionSignatureName (extensionExportName entity)
  | .other, entity => entity

def exportSuffix : ArtifactKind → String
  | .schema => "Schema"
  | .trait | .traitType => "Trait"
  | .resourceExtension | .traitExtension => "Extension"
  | .extensionType => "ExtensionSignature"
  | .resourceType | .other => ""

variable {kind : ArtifactKind}

theorem toList_exportName (known : kind ≠ .other) (entity : String) :
    (kind.exportName entity).toList =
      (pascalCase entity).toList ++ kind.exportSuffix.toList := by
  cases kind <;>
    simp_all [exportName, exportSuffix, schemaConstantName, traitConstantName, traitInterfaceName,
      extensionExportName, resourceInterfaceName, extensionSignatureName]

theorem exportSuffix_chars (kind : ArtifactKind) :
    ∀ x ∈ kind.exportSuffix.toList, isIdentifierChar x = true :=
  List.all_eq_true.mp (by cases kind <;> decide +kernel)

theorem exportSuffix_starts (kind : ArtifactKind) (x : Char)
    (first : kind.exportSuffix.toList.head? = some x) : startsIdentifier x = true := by
  have all : kind.exportSuffix.toList.head?.all startsIdentifier = true := by
    cases kind <;> decide +kernel
  rwa [first] at all

theorem exportSuffix_eq_nil_iff (known : kind ≠ .other) :
    kind.exportSuffix.toList = [] ↔ kind = .resourceType := by
  cases kind <;> simp_all [exportSuffix]

theorem isIdentifier_exportName_iff (known : kind ≠ .other) (p : Path) (roots : List Path)
    (extensions : List String) :
    Text.isIdentifier (kind.exportName (entityName p roots extensions)) = true ↔
      SpellsIdentifier (namingPlace p roots extensions).toList ∧ (kind = .resourceType →
        ∃ c ∈ (namingPlace p roots extensions).toList, isPartSeparator c = false) := by
  have spelled := toList_exportName known (entityName p roots extensions)
  rw [toList_pascalCase_entityName] at spelled
  rw [← String.ofList_toList (s := kind.exportName _), spelled,
    isIdentifier_spelled_iff kind.exportSuffix_chars kind.exportSuffix_starts,
    exportSuffix_eq_nil_iff known]

end ArtifactKind

section Sources

def Exports (code name : String) : Prop :=
  ∃ opening ∈ ["export const ", "export class ", "export interface ", "export type "],
    ∃ before after, code = before ++ opening ++ name ++ (" " ++ after)

variable {code name : String}

theorem Exports.prepend (exports : Exports code name) (front : String) :
    Exports (front ++ code) name := by
  obtain ⟨opening, listed, before, after, rfl⟩ := exports
  exact ⟨opening, listed, front ++ before, after, by simp only [String.append_assoc]⟩

theorem Exports.append (exports : Exports code name) (more : String) :
    Exports (code ++ more) name := by
  obtain ⟨opening, listed, before, after, rfl⟩ := exports
  exact ⟨opening, listed, before, after ++ more, by simp only [String.append_assoc]⟩

theorem exports_opening (opening : String)
    (listed : opening ∈ ["export const ", "export class ", "export interface ", "export type "])
    (name after : String) : Exports (opening ++ name ++ (" " ++ after)) name :=
  ⟨opening, listed, "", after, by rw [String.empty_append]⟩

theorem Descriptor.exports_moduleSource (constant : String) (entries : FieldOptions) :
    Exports (moduleSource constant entries) constant :=
  ((exports_opening "export const " (by simp) constant "= ").append _).append _

theorem exports_interfaceSource (name : String) (fields : List Field)
    (parents : List InterfaceImport) (hasIdentity : Bool) :
    Exports (interfaceSource name fields parents hasIdentity) name := by
  -- What follows the name starts with a blank, whether there are parents or not.
  obtain ⟨after, blank⟩ : ∃ after, (if parents.isEmpty then "" else
      " extends " ++ ", ".intercalate (parents.map InterfaceImport.interface)) ++ " \x7b\n" =
        " " ++ after := by
    split
    next => exact ⟨"\x7b\n", rfl⟩
    next =>
      have lead : " extends " = " " ++ "extends " := rfl
      rw [lead, String.append_assoc, String.append_assoc]
      exact ⟨_, rfl⟩
  have head := (exports_opening "export interface " (by simp) name after).prepend
    (String.join (parents.map InterfaceImport.statement) ++ if parents.isEmpty then "" else "\n")
  rw [← blank] at head
  have identified := head.append (if hasIdentity then "  readonly id: string | null;\n" else "")
  have whole :=
    (identified.append (String.join (fields.map Field.interfaceLine))).append "\x7d\n"
  simpa only [interfaceSource, String.append_assoc] using whole

theorem exports_extensionTypeSource (extensionExport : String) (shape : ExtensionShape)
    (specifier : String) : Exports (extensionTypeSource extensionExport shape specifier)
      (extensionSignatureName extensionExport) := by
  have lead : "\nexport type " = "\n" ++ "export type " := rfl
  have blank : " = " = " " ++ "= " := rfl
  have head := (exports_opening "export type " (by simp) (extensionSignatureName extensionExport)
    "= ").prepend (InterfaceImport.statement ⟨extensionExport, specifier⟩ ++ "\n")
  have whole (type : String) := (head.append type).append ";\n"
  cases shape with
  | classShape =>
    rw [extensionTypeSource, lead, blank]
    simpa only [String.append_assoc] using whole extensionExport
  | objectShape =>
    rw [extensionTypeSource, lead, blank]
    simpa only [String.append_assoc] using whole ("typeof " ++ extensionExport)

theorem Extension.exports_wrapper (shape : ExtensionShape) (exportName : String)
    (members : List String) : Exports (wrapper shape exportName members) exportName := by
  rw [wrapper_eq]
  cases shape with
  | classShape =>
    exact ((exports_opening "export class " (by simp) exportName "\x7b\n").append _).append _
  | objectShape =>
    exact ((exports_opening "export const " (by simp) exportName "= \x7b\n").append _).append _

theorem exists_of_bind_eq_ok {α β ε : Type} {x : Except ε α} {make : α → Except ε β} {made : β}
    (ends : x >>= make = .ok made) : ∃ value, x = .ok value ∧ make value = .ok made := by
  cases x with
  | error fault => cases ends
  | ok value => exact ⟨value, rfl, ends⟩

theorem Extension.exports_build? {f : SourceFile} {entity : String} {target : Option Path}
    {mappings : List ImportMapping} {e : Extension}
    (built : build? f entity target mappings = .ok (some e)) :
    e.exportName = extensionExportName entity ∧ Exports e.code (extensionExportName entity) := by
  rw [build?] at built
  split at built
  next => cases built
  next =>
    obtain ⟨members, -, built⟩ := exists_of_bind_eq_ok built
    obtain ⟨retained, -, built⟩ := exists_of_bind_eq_ok built
    obtain ⟨imports, -, built⟩ := exists_of_bind_eq_ok built
    obtain rfl := Option.some.inj (Except.ok.inj built)
    refine ⟨rfl, ?_⟩
    rw [sections_eq]
    exact (exports_wrapper _ _ members).prepend _

end Sources

namespace Project

variable {project : Project} {f : SourceFile} {role : Role} {declaration : Declaration}

theorem exports_planDeclared {a : Artifact}
    (planned : a ∈ (project.planDeclared f role declaration).artifacts) :
    a.kind ≠ .other ∧ Exports a.code (a.kind.exportName
      (entityName f.path (project.ctx.source role.scope).roots project.ctx.extensions)) := by
  have extension {e : Extension} {name : String} {path : Path}
      (found : (extensionOf project.ctx f name path).1 = some e) :
      e.exportName = extensionExportName name ∧ Exports e.code (extensionExportName name) := by
    rw [extensionOf] at found
    split at found
    next extension? built =>
      obtain rfl : extension? = some e := found
      exact Extension.exports_build? built
    next => cases found
  simp only [planDeclared, List.mem_append, List.mem_cons] at planned
  rcases planned with (rfl | types) | extensions
  next =>
    cases role with
    | model => exact ⟨by simp [Role.descriptorKind], Descriptor.exports_moduleSource _ _⟩
    | intermediate | mixin =>
      exact ⟨by simp [Role.descriptorKind], Descriptor.exports_moduleSource _ _⟩
  next =>
    split at types
    next =>
      rcases List.mem_cons.mp types with rfl | signature
      next =>
        cases role with
        | model => exact ⟨by simp [Role.typesKind], exports_interfaceSource _ _ _ _⟩
        | intermediate | mixin =>
          exact ⟨by simp [Role.typesKind], exports_interfaceSource _ _ _ _⟩
      next =>
        simp only [Option.mem_toList, Option.map_eq_some_iff] at signature
        obtain ⟨-, ⟨e, found, rfl⟩, rfl⟩ := signature
        refine ⟨by simp [extensionTypes], ?_⟩
        change Exports (extensionTypeSource e.exportName e.shape _)
          (extensionSignatureName (extensionExportName _))
        rw [← (extension found).1]
        exact exports_extensionTypeSource _ _ _
    next => cases types
  next =>
    simp only [Option.mem_toList, Option.map_eq_some_iff] at extensions
    obtain ⟨e, found, rfl⟩ := extensions
    cases role with
    | model => exact ⟨by simp [Role.extensionKind], (extension found).2⟩
    | intermediate | mixin => exact ⟨by simp [Role.extensionKind], (extension found).2⟩

end Project

theorem Context.exports_emission {ctx : Context} {d : Disk} {x : Emission}
    (member : x ∈ ctx.emissions d) :
    x.artifact.kind ≠ .other ∧ Exports x.artifact.code (x.artifact.kind.exportName
      (entityName x.source (ctx.source x.role.scope).roots ctx.extensions)) := by
  obtain ⟨v, f, declaration, -, role, source, planned⟩ := ctx.generates_of_emission member
  have exported := Project.exports_planDeclared planned
  rw [role, source]
  exact exported

theorem exports_identifiers (p : Path) (roots : List Path) (extensions : List String) :
    (∀ kind : ArtifactKind, kind ≠ .other →
      (Text.isIdentifier (kind.exportName (entityName p roots extensions)) = true ↔
        SpellsIdentifier (namingPlace p roots extensions).toList ∧ (kind = .resourceType →
          ∃ c ∈ (namingPlace p roots extensions).toList, isPartSeparator c = false))) ∧
    ∀ (ctx : Context) (d : Disk), ∀ x ∈ ctx.emissions d, x.source = p →
      (ctx.source x.role.scope).roots = roots → ctx.extensions = extensions →
      x.artifact.kind ≠ .other ∧
        Exports x.artifact.code (x.artifact.kind.exportName (entityName p roots extensions)) := by
  constructor
  next =>
    intro kind known
    exact ArtifactKind.isIdentifier_exportName_iff known p roots extensions
  next =>
    rintro ctx d x member rfl rfl rfl
    exact Context.exports_emission member

theorem exports_identifiers_nested :
    Text.isIdentifier (schemaConstantName (entityName ⟨"/app/models/admin/HTTPLog_entry.v2.js"⟩
        [⟨"/app/models"⟩] [".js"])) = true ∧
      SpellsIdentifier (namingPlace ⟨"/app/models/admin/HTTPLog_entry.v2.js"⟩
        [⟨"/app/models"⟩] [".js"]).toList := by
  have identifier : Text.isIdentifier (schemaConstantName
      (entityName ⟨"/app/models/admin/HTTPLog_entry.v2.js"⟩ [⟨"/app/models"⟩] [".js"])) = true := by
    decide +kernel
  obtain ⟨spells, -⟩ := exports_identifiers ⟨"/app/models/admin/HTTPLog_entry.v2.js"⟩
    [⟨"/app/models"⟩] [".js"]
  exact ⟨identifier, ((spells .schema (by decide)).mp identifier).1⟩

def modelExports (file : String) : List String :=
  let name := entityName ⟨"/app/models/" ++ file⟩ [⟨"/app/models"⟩] [".js"]
  [schemaConstantName name, traitConstantName name, extensionExportName name,
    resourceInterfaceName name]

-- A digit comes first, a character has no place in an identifier, a capital or a small letter has
-- a mark of its own, or there is nothing to spell.
theorem unspelled_exports :
    (Path.mk "/app/models/2fa.js").fileName? = some "2fa.js" ∧
      modelExports "2fa.js" = ["2faSchema", "2faTrait", "2faExtension", "2fa"] ∧
      (modelExports "2fa.js").map Text.isIdentifier = [false, false, false, false] ∧
      (modelExports "user@home.js").map Text.isIdentifier = [false, false, false, false] ∧
      (modelExports "ǰob.js").map Text.isIdentifier = [false, false, false, false] ∧
      (modelExports "İd.js").map Text.isIdentifier = [false, false, false, false] ∧
      (modelExports "-.js").map Text.isIdentifier = [true, true, true, false] := by
  decide +kernel

end SchemaMigration
