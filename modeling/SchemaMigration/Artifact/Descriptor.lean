import SchemaMigration.Field.Basic
import SchemaMigration.Field.Render
import SchemaMigration.Naming.Entity

set_option autoImplicit false

namespace SchemaMigration

open Naming

def objectExtensions : List String :=
  ["ember-object", "fragment"]

def arrayExtensions : List String :=
  ["ember-object", "ember-array-like", "fragment-array"]

namespace FieldKind

def descriptorName : FieldKind → String
  | .attribute => "attribute"
  | .belongsTo => "belongsTo"
  | .hasMany => "hasMany"
  | .fragment => "schema-object"
  | .fragmentArray => "schema-array"
  | .array => "array"

def defaults : FieldKind → FieldOptions
  | .attribute | .belongsTo | .hasMany => .empty
  | .fragment => ⟨[("objectExtensions", .strings objectExtensions)]⟩
  | .fragmentArray | .array => ⟨[("arrayExtensions", .strings arrayExtensions)]⟩

end FieldKind

namespace Field

def fragmentType (f : Field) : String :=
  "fragment:" ++ f.type?.getD (dasherize f.name)

def descriptorType? (f : Field) : Option String :=
  match f.kind with
  | .fragment | .fragmentArray => some f.fragmentType
  | .attribute | .belongsTo | .hasMany | .array => f.type?

def allOptions (f : Field) : FieldOptions :=
  f.kind.defaults.merge f.options

def descriptor (f : Field) : FieldOptions :=
  let options := f.allOptions
  ⟨[("kind", .string f.kind.descriptorName), ("name", .string f.name)]
    ++ (f.descriptorType?.map fun type => ("type", Literal.string type)).toList
    ++ (if options.isEmpty then [] else [("options", options.toLiteral)])⟩

end Field

structure Descriptor where
  name : String
  fields : List Field
  traits : List String
  extension? : Option String

namespace Descriptor

def fieldEntries (d : Descriptor) : Literal :=
  .array (d.fields.map fun f => f.descriptor.toLiteral)

def tail (d : Descriptor) : List (String × Literal) :=
  ("fields", d.fieldEntries)
    :: (if d.traits.isEmpty then [] else [("traits", .strings d.traits)])
    ++ (d.extension?.map fun e => ("objectExtensions", Literal.strings [e])).toList

def moduleSource (constant : String) (entries : FieldOptions) : String :=
  s!"export const {constant} = " ++ entries.render 0 ++ s!";\n\nexport default {constant};\n"

def schemaSource (d : Descriptor) : String :=
  moduleSource (schemaConstantName d.name)
    ⟨[("type", .string d.name), ("legacy", .bool true),
      ("identity", .raw "\x7b kind: '@id', name: 'id' \x7d")] ++ d.tail⟩

def traitSource (d : Descriptor) : String :=
  moduleSource (traitConstantName d.name)
    ⟨[("name", .string d.name), ("mode", .string "legacy")] ++ d.tail⟩

end Descriptor

end SchemaMigration
