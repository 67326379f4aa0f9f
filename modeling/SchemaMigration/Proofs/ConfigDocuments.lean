import SchemaMigration.Config.Load
import SchemaMigration.Proofs.CanonicalPaths
import SchemaMigration.Proofs.JsonTexts
import SchemaMigration.Proofs.KeptFiles
import SchemaMigration.Proofs.PathPieces

set_option autoImplicit false

namespace SchemaMigration

namespace Json

section Codecs

variable {α : Type} {encode : α → Json} {read : Json → Option α}

def isCamelCase (name : String) : Bool :=
  name.toList.head?.any Char.isLower && name.toList.all Char.isAlpha

structure IsCodec (encode : α → Json) (read : Json → Option α) : Prop where
  plain : ∀ a, (encode a).IsPlain isCamelCase
  inverse : ∀ a, read (encode a) = some a

theorem isCodec_string : IsCodec .string asString? :=
  ⟨fun _ => .string _, fun _ => rfl⟩

theorem isCodec_path : IsCodec ofPath path? :=
  ⟨fun _ => .string _, fun _ => rfl⟩

theorem isCodec_bool : IsCodec .bool asBool? :=
  ⟨fun _ => .bool _, fun _ => rfl⟩

theorem IsCodec.list (codec : IsCodec encode read) :
    IsCodec (fun as => .array (as.map encode)) (list? read) := by
  refine ⟨fun as => .array fun item member => ?_, fun as => ?_⟩
  next =>
    obtain ⟨a, -, rfl⟩ := List.mem_map.mp member
    exact codec.plain a
  next =>
    have inverse : read ∘ encode = fun a => pure (id a) := funext codec.inverse
    rw [list?, List.mapM_map, inverse, List.mapM_pure, List.map_id]
    rfl

-- What is left out is written as null, which must stand for no value then.
theorem IsCodec.optional (codec : IsCodec encode read) (absent : read .null = none) :
    IsCodec (Json.optional encode) (nullable? read) := by
  constructor
  next =>
    rintro (_ | a)
    · exact .null
    · exact codec.plain a
  next =>
    rintro (_ | a)
    · rfl
    · rw [Json.optional, nullable?, codec.inverse a, Option.map_some]
      intro isNull
      have inverse := codec.inverse a
      rw [isNull, absent] at inverse
      cases inverse

theorem filter_key {entries : List (String × Json)} (distinct : (entries.map Prod.fst).Nodup)
    {entry : String × Json} (member : entry ∈ entries) :
    entries.filter (·.1 == entry.1) = [entry] := by
  induction entries with
  | nil => cases member
  | cons first entries ih =>
    obtain ⟨absent, distinct⟩ := List.nodup_cons.mp distinct
    rcases List.mem_cons.mp member with rfl | later
    next =>
      have others : entries.filter (·.1 == entry.1) = [] := by
        refine List.filter_eq_nil_iff.mpr fun other listed same => absent ?_
        exact List.mem_map.mpr ⟨other, listed, beq_iff_eq.mp same⟩
      rw [List.filter_cons_of_pos (by simp), others]
    next =>
      have apart : first.1 ≠ entry.1 := fun same =>
        absent (List.mem_map.mpr ⟨entry, later, same.symm⟩)
      rw [List.filter_cons_of_neg (by simpa using apart), ih distinct later]

theorem fieldsOf?_subset {entries some_ : List (String × Json)}
    (distinct : (entries.map Prod.fst).Nodup) (within : some_ ⊆ entries) :
    fieldsOf? entries (some_.map Prod.fst) = some (some_.map fun entry => some entry.2) := by
  induction some_ with
  | nil => rfl
  | cons entry others ih =>
    obtain ⟨member, within⟩ := List.cons_subset.mp within
    rw [List.map_cons, fieldsOf?, filter_key distinct member, ih within]
    rfl

theorem record?_object (names : List String) (distinct : names.Nodup)
    {entries : List (String × Json)} (named : entries.map Prod.fst = names) :
    record? names (.object entries) = some (entries.map fun entry => some entry.2) := by
  subst named
  exact fieldsOf?_subset distinct (List.Subset.refl entries)

theorem isPlain_object (names : List String) (camel : names.all isCamelCase = true)
    {entries : List (String × Json)} (named : entries.map Prod.fst = names)
    (plain : ∀ value ∈ entries.map Prod.snd, value.IsPlain isCamelCase) :
    (Json.object entries).IsPlain isCamelCase := by
  subst named
  refine .object (fun entry member => ?_) fun entry member => ?_
  · exact List.all_eq_true.mp camel entry.1 (List.mem_map_of_mem member)
  · exact plain entry.2 (List.mem_map_of_mem member)

end Codecs

end Json

open Json

theorem PathMapping.isCodec : IsCodec PathMapping.toJson PathMapping.ofJson? := by
  constructor
  next =>
    intro m
    exact isPlain_object keys (by decide) rfl (by simp [isCodec_string.plain, isCodec_path.plain])
  next =>
    intro m
    rw [ofJson?, toJson, record?_object keys (by decide) rfl]
    rfl

theorem ImportMapping.isCodec : IsCodec ImportMapping.toJson ImportMapping.ofJson? := by
  constructor
  next =>
    intro m
    exact isPlain_object keys (by decide) rfl (by simp [isCodec_string.plain])
  next =>
    intro m
    rw [ofJson?, toJson, record?_object keys (by decide) rfl]
    rfl

theorem SourceConfig.isCodec : IsCodec SourceConfig.toJson SourceConfig.ofJson? := by
  have importAlias := isCodec_string.optional rfl
  have directory := isCodec_path.optional rfl
  have additional := PathMapping.isCodec.list
  constructor
  next =>
    intro s
    exact isPlain_object keys (by decide) rfl
      (by simp [importAlias.plain, directory.plain, additional.plain])
  next =>
    intro s
    rw [ofJson?, toJson, record?_object keys (by decide) rfl]
    simp [orDefault, importAlias.inverse, directory.inverse, additional.inverse]

theorem OutputConfig.isCodec : IsCodec OutputConfig.toJson OutputConfig.ofJson? := by
  have directory := isCodec_path.optional rfl
  constructor
  next =>
    intro o
    exact isPlain_object keys (by decide) rfl (by simp [directory.plain])
  next =>
    intro o
    rw [ofJson?, toJson, record?_object keys (by decide) rfl]
    simp [orDefault, directory.inverse]

namespace Disk

variable {d : Disk}

theorem walkWith_stays {onLink : Place → List String → Except DiskError Target} {followLast : Bool}
    {place : Place} {pieces : List String} (inside : d.isDirectoryAt place = true)
    (stay : ∀ piece ∈ pieces, (piece == "" || piece == ".") = true) :
    d.walkWith onLink followLast place pieces = .ok (.existing place) := by
  induction pieces with
  | nil => rfl
  | cons piece rest ih =>
    obtain ⟨blank, stay⟩ := List.forall_mem_cons.mp stay
    rw [walkWith_blank inside blank, ih stay]

theorem steps_ne_nil_of_find {p : Path} {place : Place} {contents : ByteArray}
    (found : d.find p = .ok place) (held : d.entryAt? place = some (.file contents)) :
    p.steps ≠ [] := by
  intro none
  have stay : ∀ piece ∈ piecesOf p, (piece == "" || piece == ".") = true := by
    intro piece member
    obtain ⟨characters, written, rfl⟩ := List.mem_map.mp member
    have unread := List.filterMap_eq_nil_iff.mp none characters written
    rcases Component.ofPiece?_cases characters with ⟨rfl | rfl, -⟩ | ⟨-, read⟩ | ⟨-, read⟩
    · rfl
    · rfl
    · cases unread.symm.trans read
    · cases unread.symm.trans read
  have filled : piecesOf p ≠ [] := by simp [piecesOf, Path.pieces]
  obtain ⟨-, -, walked⟩ := find_eq_ok_iff.mp found
  rw [maxLinks, walk] at walked
  generalize (if p.isAbsolute then [] else d.workingDirectory) = start at walked
  cases inside : d.isDirectoryAt start with
  | true =>
    -- Without steps the walk ends at the directory it starts from.
    rw [walkWith_stays inside stay] at walked
    cases walked
    rw [isDirectoryAt, held] at inside
    cases inside
  | false =>
    obtain ⟨piece, rest, pieces⟩ := List.exists_cons_of_ne_nil filled
    rw [pieces, walkWith, if_pos (by simp [inside])] at walked
    cases walked

end Disk

namespace Config

theorem isCodec : IsCodec toJson ofJson? := by
  have strings : IsCodec Json.strings (list? asString?) := isCodec_string.list
  have mappings := ImportMapping.isCodec.list
  constructor
  next =>
    intro c
    exact isPlain_object keys (by decide) rfl
      (by simp [isCodec_path.plain, strings.plain, SourceConfig.isCodec.plain,
        OutputConfig.isCodec.plain, mappings.plain, isCodec_bool.plain])
  next =>
    intro c
    rw [ofJson?, toJson, record?_object keys (by decide) rfl]
    simp [orDefault, isCodec_path.inverse, strings.inverse, SourceConfig.isCodec.inverse,
      OutputConfig.isCodec.inverse, mappings.inverse, isCodec_bool.inverse]

theorem ofText?_of_isTextOf {c : Config} {text : String} (spelled : IsTextOf text c.toJson) :
    ofText? text = some c := by
  rw [ofText?, spelled.ofString?]
  exact isCodec.inverse c

theorem load_writeText {c : Config} {d next : Disk} {file : Path} {text : String}
    (spelled : IsTextOf text c.toJson) (saved : d.writeText file text = (next, none))
    (regular : next.isFile file = true) : load next file = .ok (c.anchored file) := by
  obtain ⟨place, writes⟩ := Disk.writes_writeText saved regular
  rw [load, Disk.readText_of_find writes.found writes.written]
  simp only [ofText?_of_isTextOf spelled]

end Config

theorem config_loaded_back (c : Config) :
    c.toJson.IsPlain isCamelCase ∧
    IsTextOf c.render c.toJson ∧ IsTextOf c.toJson.compact c.toJson ∧
    ∀ (text : String) (d next : Disk) (file : Path), IsTextOf text c.toJson →
      d.writeText file text = (next, none) → next.isFile file = true →
      ∃ directory, file.parent? = some directory ∧ Config.load next file = .ok
        (if c.projectRoot.isAbsolute then c
          else { c with projectRoot := directory.join c.projectRoot }) := by
  have plain := Config.isCodec.plain c
  refine ⟨plain, (plain.prettyAt 0).isTextOf, plain.compact.isTextOf, ?_⟩
  intro text d next file spelled saved regular
  obtain ⟨place, writes⟩ := Disk.writes_writeText saved regular
  obtain ⟨directory, above⟩ := Option.isSome_iff_exists.mp
    (Path.parent?_isSome (Disk.steps_ne_nil_of_find writes.found writes.written))
  refine ⟨directory, above, ?_⟩
  rw [Config.load_writeText spelled saved regular, Config.anchored, above, Option.getD_some]

def escapedConfig (projectRoot : Path) : Config where
  projectRoot
  extensions := []
  models := { importAlias := some "a\"b\\c\n\x01", additional := [⟨"m/*", ⟨""⟩⟩] }
  mixins := { directory := some ⟨"é\x1f\t"⟩ }
  output := { traitsDir := some ⟨"null"⟩ }
  importMappings := [⟨"app/core", "\x7b\x7d[],:"⟩, ⟨"", ""⟩]
  exclude := ["**/\x08\x0c\r\x7f"]
  dryRun := true

def savedDisk : Disk where
  entries := [(["p"], .directory), (["p", "migrate.json"], .file "".toUTF8)]
  workingDirectory := ["p"]

theorem savedDisk_writeText (text : String) :
    savedDisk.writeText ⟨"migrate.json"⟩ text =
      (savedDisk.set ["p", "migrate.json"] (.file text.toUTF8), none) ∧
    savedDisk.writeText ⟨"/p/new.json"⟩ text =
      (savedDisk.set ["p", "new.json"] (.file text.toUTF8), none) := by
  have old : savedDisk.openForWriting ⟨"migrate.json"⟩ = .ok ["p", "migrate.json"] := rfl
  have new : savedDisk.openForWriting ⟨"/p/new.json"⟩ = .ok ["p", "new.json"] := rfl
  rw [Disk.writeText, Disk.writeText, old, new]
  exact ⟨rfl, rfl⟩

theorem savedDisk_isFile (contents : ByteArray) :
    (savedDisk.set ["p", "migrate.json"] (.file contents)).isFile ⟨"migrate.json"⟩ = true ∧
    (savedDisk.set ["p", "new.json"] (.file contents)).isFile ⟨"/p/new.json"⟩ = true :=
  ⟨rfl, rfl⟩

theorem config_loaded_back_escaped :
    ∃ next next' : Disk,
      savedDisk.writeText ⟨"migrate.json"⟩ (escapedConfig ⟨"/p"⟩).render = (next, none) ∧
      Config.load next ⟨"migrate.json"⟩ = .ok (escapedConfig ⟨"/p"⟩) ∧
      savedDisk.writeText ⟨"/p/new.json"⟩ (escapedConfig ⟨"../q"⟩).toJson.compact =
        (next', none) ∧
      Config.load next' ⟨"/p/new.json"⟩ = .ok (escapedConfig ⟨"/p/../q"⟩) := by
  obtain ⟨-, rendered, -, loaded⟩ := config_loaded_back (escapedConfig ⟨"/p"⟩)
  obtain ⟨-, -, compact, loaded'⟩ := config_loaded_back (escapedConfig ⟨"../q"⟩)
  obtain ⟨_, -, back⟩ := loaded _ savedDisk _ ⟨"migrate.json"⟩ rendered
    (savedDisk_writeText _).1 (savedDisk_isFile _).1
  obtain ⟨directory, above, back'⟩ := loaded' _ savedDisk _ ⟨"/p/new.json"⟩ compact
    (savedDisk_writeText _).2 (savedDisk_isFile _).2
  have named : (Path.parent? ⟨"/p/new.json"⟩).map Path.text = some "/p" := by decide +kernel
  rw [above] at named
  obtain rfl : directory = ⟨"/p"⟩ := congrArg Path.mk (Option.some.inj named)
  exact ⟨_, _, (savedDisk_writeText _).1, back, (savedDisk_writeText _).2, back'⟩

end SchemaMigration
