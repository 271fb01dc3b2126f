import FactCast.Json.Document
import FactCast.Store.FactStore

/-! Published facts as they are read back.

A header is read by the mapper before it is stored. The database casts it, and its
trigger adds serial and time to `meta`. It is read again in two ways: column by column
where the server makes a fact of its row, and by the mapper, on the server for `meta`
and on the client for everything.

They do not agree on what is there. A repeated identifier in `aggIds` is one identifier
for the mapper, but is refused by the set the server makes; a `meta` that is null is
nothing for the mapper, but becomes an element of an array when the trigger appends to
it, and an array is no map. Other headers are not read as they were because they are
written in an unusual way, like numbers with exponents. `read_back_iff` says which
headers come back.

The mapper's readers for strings, identifiers and numbers are parameters, with what is
known of the former two, and so is how the driver takes a number from a text. Headers
are documents; what the database refuses to cast is not considered. -/
namespace FactCast.ReadBack

/-! ### The mapper -/

/-- What a document is read as for a property of each type, `none` if it cannot be. -/
structure Mapper where
  string : Document → Option (Option String)
  uuid : Document → Option (Option UUID)
  int : Document → Option Int
  string_null : string .null = some none
  string_bool : ∀ b, string (.bool b) = some (some (if b then "true" else "false"))
  string_num : ∀ literal, string (.num literal) = some (some literal)
  string_str : ∀ s, string (.str s) = some (some s)
  string_arr : ∀ items, string (.arr items) = none
  string_obj : ∀ members, string (.obj members) = none
  /-- Only strings stand for identifiers. -/
  uuid_text : ∀ d id, uuid d = some (some id) → ∃ s, d = .str s

/-- A property that a header does not have keeps its default. -/
structure FactHeader where
  id : Option UUID := none
  ns : Option String := none
  type : Option String := none
  version : Int := 0
  aggIds : Option (List (Option UUID)) := some []
  «meta» : Option (List (String × Option String)) := some []

namespace FactHeader

/-- What `meta` has under a key. -/
def entry (h : FactHeader) (key : String) : Option (Option String) :=
  h.meta.bind fun entries => lastMember entries key

end FactHeader

namespace Mapper
variable (mapper : Mapper)

/-- A set of identifiers, or an array of them. -/
def uuids : Document → Option (Option (List (Option UUID)))
  | .null => some none
  | .arr items => (items.mapM mapper.uuid).map some
  | _ => none

def map : Document → Option (Option (List (String × Option String)))
  | .null => some none
  | .obj entries => (readMembers mapper.string entries).map some
  | _ => none

/-- What each member sets; others are ignored. -/
def property (h : FactHeader) (m : String × Document) : Option FactHeader :=
  if m.1 = "id" then (mapper.uuid m.2).map fun id => { h with id }
  else if m.1 = "ns" then (mapper.string m.2).map fun ns => { h with ns }
  else if m.1 = "type" then (mapper.string m.2).map fun type => { h with type }
  else if m.1 = "version" then (mapper.int m.2).map fun version => { h with version }
  else if m.1 = "aggIds" then (mapper.uuids m.2).map fun aggIds => { h with aggIds }
  else if m.1 = "meta" then (mapper.map m.2).map fun entries => { h with «meta» := entries }
  else some h

def readValue : Document → Option FactHeader
  | .obj members => members.foldlM mapper.property {}
  | _ => none

end Mapper

namespace DefaultFact

def validate (h : FactHeader) : Bool :=
  h.id.isSome && h.ns.any (fun ns => !blank ns) && decide (0 ≤ h.version)

def of (mapper : Mapper) (jsonHeader : Document) : Option FactHeader :=
  (mapper.readValue jsonHeader).filter validate

end DefaultFact

/-! ### The database -/

/-- A text; that of an object or an array is kept as what it is the text of. -/
inductive Text where
  | plain (s : String)
  | json (d : Document)

def Text.document : Text → Option Document
  | .plain s => (Json.parse s).map Jsonb.document
  | .json d => some d

/-- What is null has no text. -/
def textOf : Jsonb → Option Text
  | .null => none
  | v => some (match v.scalarText with
    | some s => .plain s
    | none => .json v.document)

/-- `->>` -/
def text (header : Jsonb) (name : String) : Option Text := (header.get? name).bind textOf

/-- `||`: what is not an array is taken for one with this element, unless both are objects. -/
def concat : Jsonb → Jsonb → Jsonb
  | .obj members, .obj others => .obj (others.foldl (fun ms m => Jsonb.setMember ms m.1 m.2) members)
  | .arr items, .arr others => .arr (items ++ others)
  | .arr items, v => .arr (items ++ [v])
  | v, .arr items => .arr (v :: items)
  | v, w => .arr [v, w]

def stamp (ser now : Nat) : Jsonb := .obj [("_ser", .num ⟨ser, 0⟩), ("_ts", .num ⟨now, 0⟩)]

def augmentSerialAndTimestamp (ser now : Nat) (header : Jsonb) : Jsonb :=
  let augmented := concat ((header.get? "meta").getD (.obj [])) (stamp ser now)
  match header with
  | .obj members => .obj (Jsonb.setMember members "meta" augmented)
  | header => header

/-- On headers whose `meta` is an object, or missing, this is what the trigger does in
the model of the store. A `meta` that is null is not in it: it becomes an array. -/
theorem augment_json (clock : Nat → Nat) (ser : Nat) (h : Header)
    (hmeta : h.json.get? "meta" = none ∨ ∃ entries, h.json.get? "meta" = some (.obj entries)) :
    (FactCast.augmentSerialAndTimestamp clock ser h).json =
      augmentSerialAndTimestamp ser (clock ser) h.json := by
  unfold FactCast.augmentSerialAndTimestamp augmentSerialAndTimestamp
  rcases hmeta with hnone | ⟨entries, hobj⟩
  · have hlookup : h.members.lookup "meta" = none := hnone
    rw [hnone]
    simp only [hlookup]
    rfl
  · have hlookup : h.members.lookup "meta" = some (.obj entries) := hobj
    rw [hobj]
    simp only [hlookup]
    rfl

/-! ### A row -/

structure PgFact where
  id : UUID
  ns : Text
  type : Option Text
  version : Int
  aggIds : List UUID
  jsonHeader : Document

namespace PgFact
section
variable (mapper : Mapper) (reader : UuidReader) (driver : String → Option Int)

def fromString : Text → Option UUID
  | .plain s => reader.read s
  | .json _ => none

/-- What is null is zero. -/
def getInt : Option Text → Option Int
  | none => some 0
  | some (.plain s) => driver s
  | some (.json _) => none

/-- A set that must not be given null, nor anything twice. -/
def setOf (values : List (Option UUID)) : Option (List UUID) :=
  let ids : Option (List UUID) := values.mapM fun value => value
  ids.filter fun ids => decide ids.Nodup

/-- The text has more than two characters, spaces around it apart. -/
def long : Text → Bool
  | .plain s =>
    let trimmed := (s.toList.dropWhile fun c => decide (c.toNat ≤ 0x20)).reverse.dropWhile fun c =>
      decide (c.toNat ≤ 0x20)
    decide (2 < trimmed.length)
  | .json (.arr []) => false
  | .json (.obj []) => false
  | .json _ => true

def toUUIDSet (aggIdArrayAsString : Option Text) : Option (List UUID) :=
  match aggIdArrayAsString with
  | some array =>
    if long array then
      match array.document.bind mapper.uuids with
      | some (some readValue) => setOf readValue
      | some none => some []
      | none => none
    else some []
  | none => some []

def «from» (header : Jsonb) : Option PgFact := do
  let id ← (text header "id").bind (fromString reader)
  let ns ← text header "ns"
  let version ← getInt driver (text header "version")
  let aggIds ← toUUIDSet mapper (text header "aggIds")
  return ⟨id, ns, text header "type", version, aggIds, header.document⟩

end
end PgFact

/-! ### Reading back -/

/-- Both are the published fact, entries of `meta` apart that the trigger sets. -/
structure Agrees (published : FactHeader) (fact : PgFact) (server client : FactHeader) : Prop where
  id : published.id = some fact.id ∧ client.id = published.id
  ns : published.ns.map Text.plain = some fact.ns ∧ client.ns = published.ns
  type : published.type.map Text.plain = fact.type ∧ client.type = published.type
  version : fact.version = published.version ∧ client.version = published.version
  aggIds : ∃ ids others, published.aggIds = some ids ∧ client.aggIds = some others ∧
    (∀ id, id ∈ ids ↔ ∃ aggId ∈ fact.aggIds, id = some aggId) ∧ ∀ id, id ∈ others ↔ id ∈ ids
  «meta» : ∀ key, key ≠ "_ser" → key ≠ "_ts" →
    server.entry key = published.entry key ∧ client.entry key = published.entry key

/-- The row can be turned into a fact, whose header the mapper reads, on the client
with the checks it made before, and they agree with what was published. -/
def ReadsBack (mapper : Mapper) (reader : UuidReader) (driver : String → Option Int) (ser now : Nat)
    (jsonHeader : Document) (published : FactHeader) : Prop :=
  ∃ fact server client,
    PgFact.from mapper reader driver (augmentSerialAndTimestamp ser now jsonHeader.toJsonb) = some fact ∧
      mapper.readValue fact.jsonHeader = some server ∧
      DefaultFact.of mapper fact.jsonHeader = some client ∧ Agrees published fact server client

/-- The version is taken from its column, and read by the mapper, as it was before. -/
def versionKept (mapper : Mapper) (driver : String → Option Int) (d : Document) : Bool :=
  decide (mapper.int d.stored = mapper.int d) &&
    decide (PgFact.getInt driver (textOf d.toJsonb) = mapper.int d)

/-- The header has a list of different identifiers if it has `aggIds`, and its `meta` is
not null; numbers are written as the database writes them, and the identifier and the
version in a way that is understood for their columns. -/
structure Kept (mapper : Mapper) (reader : UuidReader) (driver : String → Option Int)
    (members : List (String × Document)) : Prop where
  aggIds : ∀ d, lastMember members "aggIds" = some d →
    ∃ items, ∃ ids : List UUID, d = .arr items ∧ items.mapM mapper.uuid = some (ids.map some) ∧ ids.Nodup
  meta_given : lastMember members "meta" ≠ some .null
  entries : ∀ entries, lastMember members "meta" = some (.obj entries) → ∀ key d, key ≠ "_ser" →
    key ≠ "_ts" → lastMember entries key = some d → d.asWritten = true
  ns : ∀ d, lastMember members "ns" = some d → d.asWritten = true
  type : ∀ d, lastMember members "type" = some d → d.asWritten = true
  id : ∀ s, lastMember members "id" = some (.str s) → mapper.uuid (.str s) = (reader.read s).map some
  version : ∀ d, lastMember members "version" = some d → versionKept mapper driver d = true

/-! ### What the mapper reads -/

section Proofs
variable {mapper : Mapper} {reader : UuidReader} {driver : String → Option Int} {ser now : Nat}
  {members : List (String × Document)} {published h h' : FactHeader} {d : Document}

/-- What a member of another name leaves. -/
structure Keeps (name : String) (h h' : FactHeader) : Prop where
  id : name ≠ "id" → h'.id = h.id
  ns : name ≠ "ns" → h'.ns = h.ns
  type : name ≠ "type" → h'.type = h.type
  version : name ≠ "version" → h'.version = h.version
  aggIds : name ≠ "aggIds" → h'.aggIds = h.aggIds
  «meta» : name ≠ "meta" → h'.meta = h.meta

theorem keeps_property {m : String × Document} (hm : mapper.property h m = some h') : Keeps m.1 h h' := by
  have hset : ∀ {α : Type} {value : Option α} {f : α → FactHeader}, value.map f = some h' →
      (∀ a, Keeps m.1 h (f a)) → Keeps m.1 h h' := by
    intro α value f hvalue hkeeps
    obtain ⟨a, -, rfl⟩ := Option.map_eq_some_iff.mp hvalue
    exact hkeeps a
  unfold Mapper.property at hm
  split at hm
  · rename_i heq
    exact hset hm fun _ => by constructor <;> simp [heq]
  split at hm
  · rename_i heq
    exact hset hm fun _ => by constructor <;> simp [heq]
  split at hm
  · rename_i heq
    exact hset hm fun _ => by constructor <;> simp [heq]
  split at hm
  · rename_i heq
    exact hset hm fun _ => by constructor <;> simp [heq]
  split at hm
  · rename_i heq
    exact hset hm fun _ => by constructor <;> simp [heq]
  split at hm
  · rename_i heq
    exact hset hm fun _ => by constructor <;> simp [heq]
  · cases hm
    constructor <;> intro <;> rfl

/-- Each property is what its last member was read as. -/
structure Reads (mapper : Mapper) (members : List (String × Document)) (h : FactHeader) : Prop where
  id : (lastMember members "id").elim (some none) mapper.uuid = some h.id
  ns : (lastMember members "ns").elim (some none) mapper.string = some h.ns
  type : (lastMember members "type").elim (some none) mapper.string = some h.type
  version : (lastMember members "version").elim (some 0) mapper.int = some h.version
  aggIds : (lastMember members "aggIds").elim (some (some [])) mapper.uuids = some h.aggIds
  «meta» : (lastMember members "meta").elim (some (some [])) mapper.map = some h.meta

theorem reads_of_readValue (hread : mapper.readValue (.obj members) = some h) : Reads mapper members h := by
  have hfold : members.foldlM mapper.property {} = some h := hread
  constructor
  · refine foldlM_lastMember FactHeader.id (fun s d s' hs => ?_)
      (fun s m s' hne hs => (keeps_property hs).id hne) hfold
    obtain ⟨id, hd, rfl⟩ := Option.map_eq_some_iff.mp hs
    exact hd
  · refine foldlM_lastMember FactHeader.ns (fun s d s' hs => ?_)
      (fun s m s' hne hs => (keeps_property hs).ns hne) hfold
    obtain ⟨ns, hd, rfl⟩ := Option.map_eq_some_iff.mp hs
    exact hd
  · refine foldlM_lastMember FactHeader.type (fun s d s' hs => ?_)
      (fun s m s' hne hs => (keeps_property hs).type hne) hfold
    obtain ⟨type, hd, rfl⟩ := Option.map_eq_some_iff.mp hs
    exact hd
  · refine foldlM_lastMember FactHeader.version (fun s d s' hs => ?_)
      (fun s m s' hne hs => (keeps_property hs).version hne) hfold
    obtain ⟨version, hd, rfl⟩ := Option.map_eq_some_iff.mp hs
    exact hd
  · refine foldlM_lastMember FactHeader.aggIds (fun s d s' hs => ?_)
      (fun s m s' hne hs => (keeps_property hs).aggIds hne) hfold
    obtain ⟨aggIds, hd, rfl⟩ := Option.map_eq_some_iff.mp hs
    exact hd
  · refine foldlM_lastMember FactHeader.meta (fun s d s' hs => ?_)
      (fun s m s' hne hs => (keeps_property hs).meta hne) hfold
    obtain ⟨entries, hd, rfl⟩ := Option.map_eq_some_iff.mp hs
    exact hd

/-- A header can be read if each of its members can. -/
theorem exists_readValue (hid : ∀ d, ("id", d) ∈ members → (mapper.uuid d).isSome = true)
    (hstring : ∀ name d, name = "ns" ∨ name = "type" → (name, d) ∈ members → (mapper.string d).isSome = true)
    (hversion : ∀ d, ("version", d) ∈ members → (mapper.int d).isSome = true)
    (haggIds : ∀ d, ("aggIds", d) ∈ members → (mapper.uuids d).isSome = true)
    (hmeta : ∀ d, ("meta", d) ∈ members → (mapper.map d).isSome = true) :
    ∃ h, mapper.readValue (.obj members) = some h := by
  refine foldlM_isSome fun m hm s => ?_
  obtain ⟨name, d⟩ := m
  simp only [Mapper.property]
  split
  · rename_i heq
    rw [Option.isSome_map]
    exact hid d (heq ▸ hm)
  split
  · rename_i heq
    rw [Option.isSome_map]
    exact hstring name d (.inl heq) hm
  split
  · rename_i heq
    rw [Option.isSome_map]
    exact hstring name d (.inr heq) hm
  split
  · rename_i heq
    rw [Option.isSome_map]
    exact hversion d (heq ▸ hm)
  split
  · rename_i heq
    rw [Option.isSome_map]
    exact haggIds d (heq ▸ hm)
  split
  · rename_i heq
    rw [Option.isSome_map]
    exact hmeta d (heq ▸ hm)
  · rfl

/-! ### What is stored -/

/-- `meta` after the trigger. -/
def augmented (ser now : Nat) (members : List (String × Document)) : Jsonb :=
  concat (((lastMember members "meta").map Document.toJsonb).getD (.obj [])) (stamp ser now)

theorem augment_eq : augmentSerialAndTimestamp ser now (Document.obj members).toJsonb =
    .obj (Jsonb.setMember (Jsonb.lastOfEach (members.map fun m => (m.1, m.2.toJsonb))) "meta"
      (augmented ser now members)) := by
  rw [Document.toJsonb, Document.membersToJsonb_eq, augmented]
  unfold augmentSerialAndTimestamp
  dsimp only
  rw [Jsonb.get?_obj, Jsonb.lookup_lastOfEach, lastMember_map]

/-- Columns other than `meta` have what the last member of their name says. -/
theorem text_augment {name : String} (hname : name ≠ "meta") :
    text (augmentSerialAndTimestamp ser now (Document.obj members).toJsonb) name =
      (lastMember members name).bind fun d => textOf d.toJsonb := by
  rw [augment_eq, text, Jsonb.get?_obj, Jsonb.lookup_setMember, if_neg hname, Jsonb.lookup_lastOfEach,
    lastMember_map, Option.bind_map]
  rfl

/-- The header as it is written down. -/
def written (ser now : Nat) (members : List (String × Document)) : List (String × Document) :=
  (Jsonb.setMember (Jsonb.lastOfEach (members.map fun m => (m.1, m.2.toJsonb))) "meta"
    (augmented ser now members)).map fun m => (m.1, m.2.document)

theorem document_augment :
    (augmentSerialAndTimestamp ser now (Document.obj members).toJsonb).document = .obj (written ser now members) := by
  rw [augment_eq, Document.document_obj, written]

theorem lastMember_written (name : String) : lastMember (written ser now members) name =
    if name = "meta" then some (augmented ser now members).document
    else (lastMember members name).map Document.stored := by
  rw [written, lastMember_map, Jsonb.lastMember_setMember, Jsonb.lastMember_lastOfEach, lastMember_map]
  split
  · rfl
  · rw [Option.map_map]
    rfl

/-- A name is written once. -/
theorem lastMember_of_mem_written {name : String} (hm : (name, d) ∈ written ser now members) :
    lastMember (written ser now members) name = some d := by
  obtain ⟨⟨key, v⟩, hv, heq⟩ := List.mem_map.mp hm
  obtain ⟨rfl, rfl⟩ := Prod.mk.inj heq
  rw [written, lastMember_map, Jsonb.lastMember_of_mem_setMember hv]
  rfl

/-! ### Scalars -/

theorem textOf_iff {s : Option String} (hd : mapper.string d = some s) :
    textOf d.toJsonb = s.map .plain ↔ d.asWritten = true := by
  cases d with
  | null =>
    obtain rfl : none = s := Option.some.inj (mapper.string_null.symm.trans hd)
    exact iff_of_true rfl rfl
  | bool b =>
    obtain rfl := Option.some.inj ((mapper.string_bool b).symm.trans hd)
    exact iff_of_true rfl rfl
  | num literal =>
    obtain rfl := Option.some.inj ((mapper.string_num literal).symm.trans hd)
    show some (Text.plain _) = some (Text.plain _) ↔ _
    simp [Document.asWritten]
  | str s =>
    obtain rfl := Option.some.inj ((mapper.string_str s).symm.trans hd)
    exact iff_of_true rfl rfl
  | arr items => cases (mapper.string_arr items).symm.trans hd
  | obj members => cases (mapper.string_obj members).symm.trans hd

theorem string_stored_iff {s : Option String} (hd : mapper.string d = some s) :
    mapper.string d.stored = some s ↔ d.asWritten = true := by
  cases d with
  | num literal =>
    obtain rfl := Option.some.inj ((mapper.string_num literal).symm.trans hd)
    rw [Document.stored_num, mapper.string_num]
    simp [Document.asWritten]
  | arr items => cases (mapper.string_arr items).symm.trans hd
  | obj members => cases (mapper.string_obj members).symm.trans hd
  | _ => exact iff_of_true hd rfl

theorem string_stored_isSome (hd : (mapper.string d).isSome = true) :
    (mapper.string d.stored).isSome = true := by
  cases d with
  | num literal =>
    rw [Document.stored_num, mapper.string_num]
    rfl
  | arr items => cases (congrArg Option.isSome (mapper.string_arr items)).symm.trans hd
  | obj members => cases (congrArg Option.isSome (mapper.string_obj members)).symm.trans hd
  | _ => exact hd

/-- An identifier is read from what is stored as it was before. -/
theorem uuid_stored_iff {id : UUID} : mapper.uuid d.stored = some (some id) ↔ mapper.uuid d = some (some id) := by
  have hstr : ∀ s, d.stored = .str s → d = .str s := by
    intro s hs
    cases d with
    | str => exact hs
    | _ => cases hs
  constructor
  · intro h
    obtain ⟨s, hs⟩ := mapper.uuid_text _ _ h
    rwa [hs, ← hstr s hs] at h
  · intro h
    obtain ⟨s, rfl⟩ := mapper.uuid_text _ _ h
    exact h

theorem uuids_stored_iff {items : List Document} {ids : List UUID} :
    (items.map Document.stored).mapM mapper.uuid = some (ids.map some) ↔
      items.mapM mapper.uuid = some (ids.map some) := by
  rw [mapM_eq_some_iff, mapM_eq_some_iff, List.forall₂_map_left_iff, List.forall₂_map_right_iff,
    List.forall₂_map_right_iff]
  exact ⟨fun h => h.imp fun _ _ => uuid_stored_iff.mp, fun h => h.imp fun _ _ => uuid_stored_iff.mpr⟩

/-! ### Identifiers of aggregates -/

theorem setOf_eq_some_iff {values : List (Option UUID)} {ids : List UUID} :
    PgFact.setOf values = some ids ↔ values = ids.map some ∧ ids.Nodup := by
  have hgiven : (values.mapM fun value => value) = some ids ↔ values = ids.map some := by
    rw [mapM_eq_some_iff]
    constructor
    · intro h
      induction h with
      | nil => rfl
      | cons hhead _ ih => rw [hhead, ih, List.map_cons]
    · rintro rfl
      rw [List.forall₂_map_left_iff]
      exact List.forall₂_same.mpr fun _ _ => rfl
  unfold PgFact.setOf
  rw [Option.filter_eq_some_iff, hgiven, decide_eq_true_iff]

/-- A list is read as a set that must not be given null, nor anything twice. -/
theorem toUUIDSet_arr (items : List Document) :
    PgFact.toUUIDSet mapper (textOf (Document.arr items).toJsonb) =
      ((items.map Document.stored).mapM mapper.uuid).bind PgFact.setOf := by
  have htext : textOf (Document.arr items).toJsonb = some (.json (.arr (items.map Document.stored))) :=
    congrArg (fun d => some (Text.json d)) (Document.stored_arr items)
  rw [htext, PgFact.toUUIDSet]
  cases items with
  | nil => rfl
  | cons d rest =>
    have hlong : PgFact.long (.json (.arr ((d :: rest).map Document.stored))) = true := rfl
    rw [if_pos hlong, Text.document, Option.bind_some, Mapper.uuids]
    cases ((d :: rest).map Document.stored).mapM mapper.uuid <;> rfl

/-! ### Entries of `meta` -/

/-- The entries of an object with serial and time. -/
def writtenEntries (ser now : Nat) (entries : List (String × Document)) : List (String × Document) :=
  (Jsonb.setMember (Jsonb.setMember (Jsonb.lastOfEach (entries.map fun m => (m.1, m.2.toJsonb))) "_ser"
    (.num ⟨ser, 0⟩)) "_ts" (.num ⟨now, 0⟩)).map fun m => (m.1, m.2.document)

theorem lastMember_writtenEntries (entries : List (String × Document)) {key : String} (hser : key ≠ "_ser")
    (hts : key ≠ "_ts") : lastMember (writtenEntries ser now entries) key =
      (lastMember entries key).map Document.stored := by
  rw [writtenEntries, lastMember_map, Jsonb.lastMember_setMember, if_neg hts, Jsonb.lastMember_setMember,
    if_neg hser, Jsonb.lastMember_lastOfEach, lastMember_map, Option.map_map]
  rfl

theorem readMembers_writtenEntries {entries : List (String × Document)}
    (h : ∀ m ∈ entries, (mapper.string m.2).isSome = true) :
    (readMembers mapper.string (writtenEntries ser now entries)).isSome = true := by
  refine readMembers_isSome fun m hm => ?_
  obtain ⟨⟨key, v⟩, hv, rfl⟩ := List.mem_map.mp hm
  have hnum : ∀ n, (mapper.string (Jsonb.num n).document).isSome = true := fun n => by
    rw [Jsonb.document, mapper.string_num]
    rfl
  rcases List.mem_append.mp hv with hv | hv
  · rcases List.mem_append.mp (List.mem_of_mem_filter hv) with hv | hv
    · obtain ⟨e, he, heq⟩ := List.mem_map.mp (Jsonb.mem_of_mem_lastOfEach (List.mem_of_mem_filter hv))
      obtain ⟨rfl, rfl⟩ := Prod.mk.inj heq
      exact string_stored_isSome (h e he)
    · obtain ⟨rfl, rfl⟩ := Prod.mk.inj (List.mem_singleton.mp hv)
      exact hnum _
  · obtain ⟨rfl, rfl⟩ := Prod.mk.inj (List.mem_singleton.mp hv)
    exact hnum _

/-- A header with a `meta` that is not null has entries, none if there is no `meta`. -/
theorem exists_entries (hr : Reads mapper members published)
    (hgiven : lastMember members "meta" ≠ some .null) : ∃ entries values,
      (lastMember members "meta" = some (.obj entries) ∨ lastMember members "meta" = none ∧ entries = []) ∧
        readMembers mapper.string entries = some values ∧ published.meta = some values ∧
          (augmented ser now members).document = .obj (writtenEntries ser now entries) := by
  have hmeta := hr.meta
  unfold augmented
  cases hlast : lastMember members "meta" with
  | none =>
    rw [hlast] at hmeta
    exact ⟨[], [], .inr ⟨rfl, rfl⟩, rfl, (Option.some.inj hmeta).symm, Document.document_obj _⟩
  | some d =>
    rw [hlast] at hmeta
    cases d with
    | null => exact absurd hlast hgiven
    | obj entries =>
      obtain ⟨values, hvalues, heq⟩ := Option.map_eq_some_iff.mp hmeta
      refine ⟨entries, values, .inl rfl, hvalues, heq.symm, ?_⟩
      rw [Option.map_some, Option.getD_some, Document.toJsonb, Document.membersToJsonb_eq]
      exact Document.document_obj _
    | _ => cases hmeta

/-- A null is taken for the element of an array. -/
theorem map_augmented_null (hnull : lastMember members "meta" = some .null) :
    mapper.map (augmented ser now members).document = none := by
  rw [augmented, hnull]
  rfl

/-! ### Which headers come back -/

theorem from_eq_some_iff {header : Jsonb} {fact : PgFact} :
    PgFact.from mapper reader driver header = some fact ↔
      (text header "id").bind (PgFact.fromString reader) = some fact.id ∧ text header "ns" = some fact.ns ∧
        PgFact.getInt driver (text header "version") = some fact.version ∧
          PgFact.toUUIDSet mapper (text header "aggIds") = some fact.aggIds ∧
            fact.type = text header "type" ∧ fact.jsonHeader = header.document := by
  unfold PgFact.from
  constructor
  · intro h
    obtain ⟨id, hid, h⟩ := Option.bind_eq_some_iff.mp h
    obtain ⟨ns, hns, h⟩ := Option.bind_eq_some_iff.mp h
    obtain ⟨version, hversion, h⟩ := Option.bind_eq_some_iff.mp h
    obtain ⟨aggIds, haggIds, h⟩ := Option.bind_eq_some_iff.mp h
    cases h
    exact ⟨hid, hns, hversion, haggIds, rfl, rfl⟩
  · rintro ⟨hid, hns, hversion, haggIds, htype, hheader⟩
    rw [hid, hns, hversion, haggIds, ← htype, ← hheader]
    rfl

theorem validate_iff : DefaultFact.validate h = true ↔
    h.id.isSome = true ∧ (∃ ns, h.ns = some ns ∧ blank ns = false) ∧ 0 ≤ h.version := by
  simp [DefaultFact.validate, and_assoc, Option.any_eq_true]

/-- What the mapper reads of the written header, `meta` apart. -/
theorem reads_written {β : Type} {name : String}
    (hname : name ≠ "meta") {default value : Option β} {read : Document → Option β}
    (hread : (lastMember (written ser now members) name).elim default read = value) :
    (lastMember members name).elim default (fun d => read d.stored) = value := by
  rw [lastMember_written, if_neg hname] at hread
  cases hlast : lastMember members name with
  | none => rwa [hlast] at hread
  | some d => rwa [hlast] at hread

/-- Entries of the published fact are those of its document. -/
theorem entry_eq {entries : List (String × Document)} {values : List (String × Option String)}
    (hvalues : readMembers mapper.string entries = some values) (hmeta : h.meta = some values) (key : String) :
    (h.entry key).map some = (lastMember entries key).map mapper.string := by
  rw [FactHeader.entry, hmeta]
  exact lastMember_readMembers hvalues

/-- Entries of what is read are those that were written. -/
theorem entry_written {entries : List (String × Document)}
    (hdocument : (augmented ser now members).document = .obj (writtenEntries ser now entries))
    (hc : Reads mapper (written ser now members) h) {key : String} (hser : key ≠ "_ser") (hts : key ≠ "_ts") :
    (h.entry key).map some = (lastMember entries key).map fun d => mapper.string d.stored := by
  have hmeta := hc.meta
  rw [lastMember_written, if_pos rfl, Option.elim_some, hdocument] at hmeta
  obtain ⟨values, hvalues, heq⟩ := Option.map_eq_some_iff.mp hmeta
  rw [entry_eq hvalues heq.symm, lastMember_writtenEntries entries hser hts, Option.map_map]
  rfl

/-- A header that comes back is kept. -/
theorem kept_of_readsBack (hr : Reads mapper members published)
    (h : ReadsBack mapper reader driver ser now (.obj members) published) :
    Kept mapper reader driver members := by
  obtain ⟨fact, server, client, hfrom, hserver, hclient, hagrees⟩ := h
  obtain ⟨hid, hns, hversion, haggIds, htype, hheader⟩ := from_eq_some_iff.mp hfrom
  rw [text_augment (by decide)] at hid hns hversion haggIds htype
  have hread : mapper.readValue (.obj (written ser now members)) = some client := by
    rw [← document_augment, ← hheader]
    exact (Option.filter_eq_some_iff.mp hclient).1
  have hc := reads_of_readValue hread
  have hgiven : lastMember members "meta" ≠ some .null := by
    intro hnull
    have hmeta := hc.meta
    rw [lastMember_written, if_pos rfl, Option.elim_some, map_augmented_null hnull] at hmeta
    cases hmeta
  constructor
  · intro d hd
    rw [hd] at haggIds
    have hset := hr.aggIds
    rw [hd, Option.elim_some] at hset
    obtain ⟨ids, -, hids, -⟩ := hagrees.aggIds
    rw [hids] at hset
    cases d with
    | arr items =>
      rw [Option.bind_some, toUUIDSet_arr] at haggIds
      obtain ⟨values, hvalues, hset⟩ := Option.bind_eq_some_iff.mp haggIds
      obtain ⟨rfl, hnodup⟩ := setOf_eq_some_iff.mp hset
      exact ⟨items, fact.aggIds, rfl, uuids_stored_iff.mp hvalues, hnodup⟩
    | _ => cases hset
  · exact hgiven
  · intro entries hentries key d hser hts hd
    obtain ⟨entries', values, hsame, hvalues, hmeta, hdocument⟩ :=
      @exists_entries mapper ser now members published hr hgiven
    obtain rfl : entries' = entries := by
      rcases hsame with hsame | ⟨hnone, -⟩
      · cases hentries.symm.trans hsame
        rfl
      · cases hnone.symm.trans hentries
    have hbefore := entry_eq hvalues hmeta key
    have hafter := entry_written hdocument hc hser hts
    rw [(hagrees.meta key hser hts).2, hbefore, hd, Option.map_some, Option.map_some] at hafter
    obtain ⟨v, hv⟩ := Option.isSome_iff_exists.mp
      (isSome_of_readMembers hvalues _ (mem_of_lastMember hd))
    exact (string_stored_iff hv).mp ((Option.some.inj hafter).symm.trans hv)
  · intro d hd
    have hstring := hr.ns
    rw [hd] at hstring hns
    exact (textOf_iff hstring).mp (hns.trans hagrees.ns.1.symm)
  · intro d hd
    have hstring := hr.type
    rw [hd] at hstring htype
    exact (textOf_iff hstring).mp (htype.symm.trans hagrees.type.1.symm)
  · intro s hs
    have huuid := hr.id
    rw [hs] at huuid hid
    have hreader : reader.read s = some fact.id := hid
    rw [hreader]
    exact huuid.trans (congrArg some hagrees.id.1)
  · intro d hd
    have hint := hr.version
    have hstored := reads_written (by decide) hc.version
    rw [hd] at hint hversion hstored
    have hclient : mapper.int d.stored = some client.version := hstored
    have hpublished : mapper.int d = some published.version := hint
    have hcolumn : PgFact.getInt driver (textOf d.toJsonb) = some fact.version := hversion
    rw [versionKept, hclient, hpublished, hcolumn, hagrees.version.1, hagrees.version.2]
    simp

theorem exists_last_of_ne {β : Type} {name : String} {default value : β} {read : Document → Option β}
    (hread : (lastMember members name).elim (some default) read = some value) (hne : value ≠ default) :
    ∃ d, lastMember members name = some d ∧ read d = some value := by
  cases hlast : lastMember members name with
  | none =>
    rw [hlast] at hread
    exact absurd (Option.some.inj hread).symm hne
  | some d =>
    rw [hlast] at hread
    exact ⟨d, rfl, hread⟩

/-- A member that is written is that of the published header, `meta` apart. -/
theorem exists_of_mem_written {name : String} (hname : name ≠ "meta") (hm : (name, d) ∈ written ser now members) :
    ∃ e, lastMember members name = some e ∧ e.stored = d := by
  have hlast := lastMember_of_mem_written hm
  rw [lastMember_written, if_neg hname] at hlast
  exact Option.map_eq_some_iff.mp hlast

/-- What is kept of an identifier. -/
theorem Kept.exists_id (hk : Kept mapper reader driver members) (hr : Reads mapper members published)
    (hid : published.id.isSome = true) : ∃ s id, lastMember members "id" = some (.str s) ∧
      published.id = some id ∧ reader.read s = some id := by
  obtain ⟨id, hsome⟩ := Option.isSome_iff_exists.mp hid
  obtain ⟨d, hd, huuid⟩ := exists_last_of_ne hr.id (by simp [hsome])
  rw [hsome] at huuid
  obtain ⟨s, rfl⟩ := mapper.uuid_text _ _ huuid
  refine ⟨s, id, hd, hsome, ?_⟩
  have hread := (hk.id s hd).symm.trans huuid
  obtain ⟨_, hid, heq⟩ := Option.map_eq_some_iff.mp hread
  rwa [Option.some.inj heq] at hid

/-- What is written of a header that is kept can be read. -/
theorem Kept.exists_readValue (hk : Kept mapper reader driver members) (hr : Reads mapper members published)
    (hid : published.id.isSome = true) : ∃ h, mapper.readValue (.obj (written ser now members)) = some h := by
  refine ReadBack.exists_readValue ?_ ?_ ?_ ?_ ?_
  · intro d hm
    obtain ⟨e, he, rfl⟩ := exists_of_mem_written (by decide) hm
    obtain ⟨s, id, hs, hsome, -⟩ := hk.exists_id hr hid
    cases he.symm.trans hs
    have huuid := hr.id
    rw [hs, Option.elim_some] at huuid
    exact congrArg Option.isSome huuid
  · intro name d hname hm
    obtain ⟨e, he, rfl⟩ := exists_of_mem_written (by rcases hname with rfl | rfl <;> decide) hm
    refine string_stored_isSome ?_
    rcases hname with rfl | rfl
    · have hstring := hr.ns
      rw [he] at hstring
      exact congrArg Option.isSome hstring
    · have hstring := hr.type
      rw [he] at hstring
      exact congrArg Option.isSome hstring
  · intro d hm
    obtain ⟨e, he, rfl⟩ := exists_of_mem_written (by decide) hm
    have hint := hr.version
    rw [he, Option.elim_some] at hint
    have hsame := of_decide_eq_true (Bool.and_eq_true_iff.mp (hk.version e he)).1
    rw [hsame, hint]
    rfl
  · intro d hm
    obtain ⟨e, he, rfl⟩ := exists_of_mem_written (by decide) hm
    obtain ⟨items, ids, rfl, hids, -⟩ := hk.aggIds e he
    rw [Document.stored_arr, Mapper.uuids, uuids_stored_iff.mpr hids]
    rfl
  · intro d hm
    obtain ⟨entries, values, -, hvalues, -, hdocument⟩ :=
      @exists_entries mapper ser now members published hr hk.meta_given
    have hlast := lastMember_of_mem_written hm
    rw [lastMember_written, if_pos rfl, hdocument] at hlast
    obtain rfl := Option.some.inj hlast
    rw [Mapper.map, Option.isSome_map]
    exact readMembers_writtenEntries (isSome_of_readMembers hvalues)

/-- What is read of the written header is what was published. -/
structure Same (published h : FactHeader) (members : List (String × Document)) : Prop where
  id : h.id = published.id
  ns : h.ns = published.ns
  type : h.type = published.type
  version : h.version = published.version
  aggIds : h.aggIds = published.aggIds
  «meta» : ∀ key, key ≠ "_ser" → key ≠ "_ts" → h.entry key = published.entry key

/-- A value is read again if its member is read again. -/
theorem elim_unchanged {β : Type} {o : Option Document} {default value value' : β}
    {read read' : Document → Option β} (hbefore : o.elim (some default) read = some value)
    (hafter : o.elim (some default) read' = some value')
    (h : ∀ d, o = some d → read d = some value → read' d = some value) : value' = value := by
  cases o with
  | none => exact Option.some.inj (hafter.symm.trans hbefore)
  | some d => exact Option.some.inj (hafter.symm.trans (h d rfl hbefore))

theorem Kept.same (hk : Kept mapper reader driver members) (hr : Reads mapper members published)
    (hid : published.id.isSome = true) (hc : Reads mapper (written ser now members) h) :
    Same published h members := by
  constructor
  · refine elim_unchanged hr.id (reads_written (by decide) hc.id) fun d hd hread => ?_
    obtain ⟨s, id, hs, -, -⟩ := hk.exists_id hr hid
    cases hs.symm.trans hd
    exact hread
  · exact elim_unchanged hr.ns (reads_written (by decide) hc.ns) fun d hd hread =>
      (string_stored_iff hread).mpr (hk.ns d hd)
  · exact elim_unchanged hr.type (reads_written (by decide) hc.type) fun d hd hread =>
      (string_stored_iff hread).mpr (hk.type d hd)
  · refine elim_unchanged hr.version (reads_written (by decide) hc.version) fun d hd hread => ?_
    have hsame := of_decide_eq_true (Bool.and_eq_true_iff.mp (hk.version d hd)).1
    exact hsame.trans hread
  · refine elim_unchanged hr.aggIds (reads_written (by decide) hc.aggIds) fun d hd hread => ?_
    obtain ⟨items, ids, rfl, hids, -⟩ := hk.aggIds d hd
    rw [Mapper.uuids, hids] at hread
    rw [Document.stored_arr, Mapper.uuids, uuids_stored_iff.mpr hids]
    exact hread
  · intro key hser hts
    obtain ⟨entries, values, hsame, hvalues, hmeta, hdocument⟩ :=
      @exists_entries mapper ser now members published hr hk.meta_given
    have hbefore := entry_eq hvalues hmeta key
    have hafter := entry_written hdocument hc hser hts
    refine Option.map_injective (Option.some_injective _) (hafter.trans (Eq.trans ?_ hbefore.symm))
    cases hlast : lastMember entries key with
    | none => rfl
    | some d =>
      have hwritten : d.asWritten = true := by
        rcases hsame with hentries | ⟨-, rfl⟩
        · exact hk.entries entries hentries key d hser hts hlast
        · cases hlast
      obtain ⟨v, hv⟩ := Option.isSome_iff_exists.mp (isSome_of_readMembers hvalues _ (mem_of_lastMember hlast))
      exact congrArg some (((string_stored_iff hv).mpr hwritten).trans hv.symm)

/-- A header that is kept comes back. -/
theorem readsBack_of_kept (hk : Kept mapper reader driver members) (hr : Reads mapper members published)
    (hvalid : DefaultFact.validate published = true) :
    ReadsBack mapper reader driver ser now (.obj members) published := by
  obtain ⟨hid, ⟨ns, hns, hblank⟩, hversion⟩ := validate_iff.mp hvalid
  obtain ⟨s, id, hs, hsome, hreader⟩ := hk.exists_id hr hid
  obtain ⟨h, hread⟩ := @Kept.exists_readValue mapper reader driver ser now members published hk hr hid
  have hsame := hk.same hr hid (reads_of_readValue hread)
  have hclient : DefaultFact.of mapper (.obj (written ser now members)) = some h := by
    refine Option.filter_eq_some_iff.mpr ⟨hread, validate_iff.mpr ?_⟩
    rw [hsame.id, hsame.ns, hsame.version]
    exact ⟨hid, ⟨ns, hns, hblank⟩, hversion⟩
  have htext : ∀ {name : String} {value : Option String},
      (∀ d, lastMember members name = some d → d.asWritten = true) →
      (lastMember members name).elim (some none) mapper.string = some value →
      ((lastMember members name).bind fun d => textOf d.toJsonb) = value.map .plain := by
    intro name value hwritten hbefore
    cases hlast : lastMember members name with
    | none =>
      rw [hlast] at hbefore
      cases hbefore
      rfl
    | some d =>
      rw [hlast] at hbefore
      exact (textOf_iff hbefore).mpr (hwritten d hlast)
  have hcolumn : PgFact.getInt driver ((lastMember members "version").bind fun d => textOf d.toJsonb) =
      some published.version := by
    have hbefore := hr.version
    cases hlast : lastMember members "version" with
    | none =>
      rw [hlast] at hbefore
      exact hbefore
    | some d =>
      rw [hlast] at hbefore
      exact (of_decide_eq_true (Bool.and_eq_true_iff.mp (hk.version d hlast)).2).trans hbefore
  obtain ⟨aggIds, haggIds, hset⟩ : ∃ aggIds : List UUID, published.aggIds = some (aggIds.map some) ∧
      PgFact.toUUIDSet mapper ((lastMember members "aggIds").bind fun d => textOf d.toJsonb) = some aggIds := by
    have hbefore := hr.aggIds
    cases hlast : lastMember members "aggIds" with
    | none =>
      rw [hlast] at hbefore
      exact ⟨[], (Option.some.inj hbefore).symm, rfl⟩
    | some d =>
      obtain ⟨items, ids, rfl, hids, hnodup⟩ := hk.aggIds d hlast
      rw [hlast, Option.elim_some, Mapper.uuids, hids] at hbefore
      refine ⟨ids, (Option.some.inj hbefore).symm, ?_⟩
      rw [Option.bind_some, toUUIDSet_arr, uuids_stored_iff.mpr hids]
      exact setOf_eq_some_iff.mpr ⟨rfl, hnodup⟩
  refine ⟨⟨id, .plain ns, published.type.map .plain, published.version, aggIds,
    .obj (written ser now members)⟩, h, h, ?_, hread, hclient, ?_⟩
  · rw [from_eq_some_iff, text_augment (by decide), text_augment (by decide), text_augment (by decide),
      text_augment (by decide), text_augment (by decide)]
    refine ⟨?_, ?_, hcolumn, hset, (htext hk.type hr.type).symm, document_augment.symm⟩
    · rw [hs]
      exact hreader
    · rw [htext hk.ns hr.ns, hns]
      rfl
  · refine ⟨⟨hsome, hsame.id⟩, ⟨by rw [hns]; rfl, hsame.ns⟩, ⟨rfl, hsame.type⟩, ⟨rfl, hsame.version⟩,
      ⟨_, _, haggIds, hsame.aggIds.trans haggIds, fun id => ?_, fun _ => Iff.rfl⟩,
      fun key hser hts => ⟨hsame.meta key hser hts, hsame.meta key hser hts⟩⟩
    rw [List.mem_map]
    exact exists_congr fun _ => and_congr_right fun _ => eq_comm

end Proofs

/-- A header that was accepted comes back as what was published just when it is kept. -/
theorem read_back_iff (mapper : Mapper) (reader : UuidReader) (driver : String → Option Int) (ser now : Nat)
    (members : List (String × Document)) (published : FactHeader)
    (h : DefaultFact.of mapper (.obj members) = some published) :
    ReadsBack mapper reader driver ser now (.obj members) published ↔ Kept mapper reader driver members := by
  obtain ⟨hread, hvalid⟩ := Option.filter_eq_some_iff.mp h
  have hr := reads_of_readValue hread
  exact ⟨kept_of_readsBack hr, fun hk => readsBack_of_kept hk hr hvalid⟩

/-! ### Two headers -/

/-- A number without fraction. -/
def integer (s : String) : Option Int :=
  match Json.number s.toList with
  | some (.num ⟨mantissa, 0⟩, []) => some mantissa
  | _ => none

/-- A mapper for strings, identifiers as they are written, and whole numbers. -/
def Mapper.plain (reader : UuidReader) : Mapper where
  string
    | .null => some none
    | .bool b => some (some (if b then "true" else "false"))
    | .num literal => some (some literal)
    | .str s => some (some s)
    | _ => none
  uuid
    | .null => some none
    | .str s => (reader.read s).map some
    | _ => none
  int
    | .null => some 0
    | .num literal => integer literal
    | _ => none
  string_null := rfl
  string_bool _ := rfl
  string_num _ := rfl
  string_str _ := rfl
  string_arr _ := rfl
  string_obj _ := rfl
  uuid_text d id h := by
    cases d with
    | str s => exact ⟨s, rfl⟩
    | _ => cases h

/-- An order that was placed, with the identifiers of its customer and its shop. -/
def placed (customer shop : UUID) : List (String × Document) :=
  [("id", .str (⟨7⟩ : UUID).toString), ("ns", .str "orders"), ("version", .num "1"),
    ("aggIds", .arr [.str customer.toString, .str shop.toString]),
    ("meta", .obj [("source", .str "shop"), ("_ser", .str "none")])]

def placedHeader (customer shop : UUID) : FactHeader where
  id := some ⟨7⟩
  ns := some "orders"
  version := 1
  aggIds := some [some customer, some shop]
  «meta» := some [("source", some "shop"), ("_ser", some "none")]

section Placed
variable (reader : UuidReader) (customer shop : UUID)

theorem plain_uuid (id : UUID) : (Mapper.plain reader).uuid (.str id.toString) = some (some id) :=
  congrArg (Option.map some) (reader.read_toString id)

theorem plain_uuids : [Document.str customer.toString, .str shop.toString].mapM (Mapper.plain reader).uuid =
    some [some customer, some shop] := by
  rw [List.mapM_cons, List.mapM_cons, plain_uuid, plain_uuid]
  rfl

theorem placed_accepted : DefaultFact.of (.plain reader) (.obj (placed customer shop)) =
    some (placedHeader customer shop) := by
  have hversion : integer "1" = some 1 := by decide +kernel
  have hread : (Mapper.plain reader).readValue (.obj (placed customer shop)) =
      some (placedHeader customer shop) := by
    simp [Mapper.readValue, placed, Mapper.property, Mapper.plain, reader.read_toString, hversion,
      Mapper.uuids, Mapper.map, readMembers, placedHeader]
  rw [DefaultFact.of, hread]
  rfl

/-- The identifiers are those of the aggregates, so they may not be the same. -/
theorem placed_kept_iff : Kept (.plain reader) reader integer (placed customer shop) ↔ customer ≠ shop := by
  have haggIds : lastMember (placed customer shop) "aggIds" =
      some (.arr [.str customer.toString, .str shop.toString]) := rfl
  constructor
  · rintro hk rfl
    obtain ⟨items, ids, heq, hids, hnodup⟩ := hk.aggIds _ haggIds
    obtain rfl := Document.arr.inj heq
    have hsame := Option.some.inj ((plain_uuids reader customer customer).symm.trans hids)
    obtain rfl : [customer, customer] = ids := Option.some_injective _ |>.list_map hsame
    simp at hnodup
  · intro hne
    constructor
    · intro d hd
      cases hd
      exact ⟨_, [customer, shop], rfl, plain_uuids reader customer shop, by simpa using hne⟩
    · nofun
    · intro entries hentries key d _ _ hd
      cases hentries
      have hmem := mem_of_lastMember hd
      simp only [List.mem_cons, Prod.mk.injEq, List.not_mem_nil, or_false] at hmem
      rcases hmem with ⟨-, rfl⟩ | ⟨-, rfl⟩
      · rfl
      · rfl
    · intro d hd
      cases hd
      rfl
    · nofun
    · intro s hs
      cases hs
      rw [plain_uuid, reader.read_toString]
      rfl
    · intro d hd
      cases hd
      rfl

end Placed

/-- A customer orders in a shop. -/
theorem read_back_placed : ReadsBack (.plain .canonical) .canonical integer 1 0
    (.obj (placed ⟨1⟩ ⟨2⟩)) (placedHeader ⟨1⟩ ⟨2⟩) :=
  (read_back_iff _ _ _ 1 0 _ _ (placed_accepted .canonical ⟨1⟩ ⟨2⟩)).mpr
    ((placed_kept_iff .canonical ⟨1⟩ ⟨2⟩).mpr (by simp))

/-- The customer is the shop, and its identifier is there twice. -/
theorem repeated_not_read_back : ¬ ∀ (mapper : Mapper) (reader : UuidReader) (driver : String → Option Int)
    (ser now : Nat) (members : List (String × Document)) (published : FactHeader),
    DefaultFact.of mapper (.obj members) = some published →
      ReadsBack mapper reader driver ser now (.obj members) published := by
  intro hall
  have haccepted := placed_accepted .canonical ⟨1⟩ ⟨1⟩
  have hreads := hall _ .canonical integer 1 0 _ _ haccepted
  have hkept := kept_of_readsBack (reads_of_readValue (Option.filter_eq_some_iff.mp haccepted).1) hreads
  exact (placed_kept_iff .canonical ⟨1⟩ ⟨1⟩).mp hkept rfl

end FactCast.ReadBack
