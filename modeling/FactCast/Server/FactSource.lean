import FactCast.Machine.HashSet
import FactCast.Store.ReadBack

/-! The source of a fact.

Where the client has given its id, the server tags every fact with it before the fact is
stored: the entry `source` is put into the header that was read, and the fact is made
anew from the header, written.

What is written are the six attributes that a header is read for. Others are lost, and
those that were missing, or written in another way, are there afterwards as the server
writes them. A header whose `meta` is null cannot be tagged at all. So tagging changes
nothing else just if the header has these six, as the server would write them
(`source_only_iff`). -/
namespace FactCast.FactSource
open ReadBack

/-- The orders in which a set of identifiers and a map are iterated. -/
structure Iteration where
  sets : HashOrder (Option UUID)
  maps : HashOrder String

/-- A fact, with its header as it was read and checked. -/
structure Fact (mapper : Mapper) where
  jsonHeader : Document
  jsonPayload : String
  header : FactHeader
  accepted : DefaultFact.of mapper jsonHeader = some header

def Fact.of (mapper : Mapper) (jsonHeader : Document) (jsonPayload : String) : Option (Fact mapper) :=
  match h : DefaultFact.of mapper jsonHeader with
  | some header => some ⟨jsonHeader, jsonPayload, header, h⟩
  | none => none

/-! ### Writing -/

def writeUuid : Option UUID → Document
  | some id => .str id.toString
  | none => .null

def writeString : Option String → Document
  | some s => .str s
  | none => .null

section Write
variable (iteration : Iteration) (n : Nat)

def writeSet : Option (List (Option UUID)) → Document
  | some ids => .arr ((iteration.sets.order n ids.toFinset).map writeUuid)
  | none => .null

def writeEntries (entries : List (String × Option String)) : List (String × Document) :=
  (iteration.maps.order n (entries.map Prod.fst).toFinset).map fun key =>
    (key, writeString (lastMember entries key).join)

def writeMap : Option (List (String × Option String)) → Document
  | some entries => .obj (writeEntries iteration n entries)
  | none => .null

/-- The attributes of the class, in their order. -/
def writeMembers (h : FactHeader) : List (String × Document) :=
  [("id", writeUuid h.id), ("ns", writeString h.ns), ("type", writeString h.type),
    ("version", .num (toString h.version)), ("aggIds", writeSet iteration n h.aggIds),
    ("meta", writeMap iteration n h.meta)]

def writeValueAsString (h : FactHeader) : Document := .obj (writeMembers iteration n h)

/-! ### Tagging -/

/-- `header().meta().put("source", source)`, where the `meta` has these entries. -/
def put (source : String) (h : FactHeader) (entries : List (String × Option String)) : FactHeader :=
  { h with «meta» := some (entries ++ [("source", some source)]) }

variable {mapper : Mapper}

/-- A `meta` that is null cannot be put into. -/
def tagFactSource (source : String) (f : Fact mapper) : Option (Fact mapper) :=
  f.header.meta.bind fun entries =>
    Fact.of mapper (writeValueAsString iteration n (put source f.header entries)) f.jsonPayload

def tagFactSources (source : String) : Nat → List (Fact mapper) → Option (List (Fact mapper))
  | _, [] => some []
  | n, f :: rest => do
    let tagged ← tagFactSource iteration n source f
    let others ← tagFactSources source (n + 1) rest
    return tagged :: others

/-- What is given to the store. -/
def publish (clientId : Option String) (facts : List (Fact mapper)) : Option (List (Fact mapper)) :=
  match clientId with
  | some id => tagFactSources iteration id n facts
  | none => some facts

/-- The same, with the token. -/
def publishConditional (clientId : Option String) (facts : List (Fact mapper)) (token : Option UUID) :
    Option (List (Fact mapper) × Option UUID) :=
  match clientId with
  | some id => (tagFactSources iteration id n facts).map fun tagged => (tagged, token)
  | none => some (facts, token)

end Write

/-! ### What is expected -/

def members : Document → List (String × Document)
  | .obj members => members
  | _ => []

/-- The same items, where these are two arrays. -/
def SameItems : Option Document → Option Document → Prop
  | some (.arr items), some (.arr others) => ∀ d, d ∈ others ↔ d ∈ items
  | d, e => e = d

/-- The entries of `meta`, which may be missing. -/
def EntriesOf (header entries : List (String × Document)) : Prop :=
  (lastMember header "meta").elim (entries = []) fun d => d = .obj entries

/-- The second header is the first one, but for the source. -/
structure SourceOnly (source : String) (submitted stored : List (String × Document)) : Prop where
  others : ∀ name, name ≠ "meta" → name ≠ "aggIds" → lastMember stored name = lastMember submitted name
  aggIds : SameItems (lastMember submitted "aggIds") (lastMember stored "aggIds")
  entries : ∃ before after, EntriesOf submitted before ∧ lastMember stored "meta" = some (.obj after) ∧
    lastMember after "source" = some (.str source) ∧
    ∀ key, key ≠ "source" → lastMember after key = lastMember before key

/-- All facts are stored, and nothing but their source is changed. -/
def SourceTagged {mapper : Mapper} (source : String) (facts : List (Fact mapper))
    (stored : Option (List (Fact mapper))) : Prop :=
  ∃ tagged, stored = some tagged ∧ List.Forall₂ (fun f g => g.jsonPayload = f.jsonPayload ∧
    SourceOnly source (members f.jsonHeader) (members g.jsonHeader)) facts tagged

/-- The header has the attributes that are read, each as the server writes it, the `meta`
apart, which may be missing, and its source, which may be anything. -/
structure AsWritten (header : List (String × Document)) : Prop where
  known : ∀ m ∈ header, m.1 ∈ ["id", "ns", "type", "version", "aggIds", "meta"]
  id : ∃ id : UUID, lastMember header "id" = some (.str id.toString)
  ns : ∃ s, lastMember header "ns" = some (.str s)
  type : ∃ s, lastMember header "type" = some (writeString s)
  version : ∃ v : Int, lastMember header "version" = some (.num (toString v))
  aggIds : lastMember header "aggIds" = some .null ∨
    ∃ items, lastMember header "aggIds" = some (.arr items) ∧ ∀ d ∈ items, ∃ id, d = writeUuid id
  entries : ∃ entries, EntriesOf header entries ∧
    ∀ key d, key ≠ "source" → lastMember entries key = some d → ∃ s, d = writeString s

/-- What the mapper is known to read of what it writes. -/
structure Rereads (mapper : Mapper) : Prop where
  uuid : ∀ id, mapper.uuid (writeUuid id) = some id
  int : ∀ d v, 0 ≤ v → mapper.int d = some v → mapper.int (.num (toString v)) = some v
  int_zero : mapper.int (.num "0") = some 0
  int_toString : ∀ v w : Int, mapper.int (.num (toString v)) = some w → w = v

section Proofs
variable {iteration : Iteration} {n : Nat} {mapper : Mapper} {source : String} {h header : FactHeader}
  {f : Fact mapper} {name key : String}

/-! ### What is written -/

theorem lastMember_writeMembers_of_unknown
    (hname : name ∉ ["id", "ns", "type", "version", "aggIds", "meta"]) :
    lastMember (writeMembers iteration n h) name = none :=
  lastMember_eq_none.mpr hname

theorem lastMember_map_key {β : Type} (keys : List String) (g : String → β) :
    lastMember (keys.map fun key => (key, g key)) key = if key ∈ keys then some (g key) else none := by
  induction keys with
  | nil => rfl
  | cons k rest ih =>
    rw [List.map_cons, lastMember_cons, ih]
    by_cases hrest : key ∈ rest
    · rw [if_pos hrest, if_pos (List.mem_cons_of_mem k hrest), Option.some_or]
    · rw [if_neg hrest, Option.none_or]
      by_cases hk : key = k
      · rw [if_pos hk, if_pos (by simp [hk]), hk]
      · rw [if_neg hk, if_neg (by simp [hk, hrest])]

/-- An entry is written under its key. -/
theorem lastMember_writeEntries (entries : List (String × Option String)) :
    lastMember (writeEntries iteration n entries) key = (lastMember entries key).map writeString := by
  rw [writeEntries, lastMember_map_key]
  cases hlast : lastMember entries key with
  | none =>
    rw [if_neg fun hmem => ?_, Option.map_none]
    rw [iteration.maps.mem, List.mem_toFinset] at hmem
    exact lastMember_eq_none.mp hlast hmem
  | some s =>
    rw [if_pos ?_]
    · rfl
    · rw [iteration.maps.mem, List.mem_toFinset]
      exact List.mem_map_of_mem (mem_of_lastMember hlast)

theorem mem_writeSet {ids : List (Option UUID)} {d : Document} :
    d ∈ (iteration.sets.order n ids.toFinset).map writeUuid ↔ ∃ id ∈ ids, writeUuid id = d := by
  simp [iteration.sets.mem]

theorem string_writeString (s : Option String) : mapper.string (writeString s) = some s := by
  cases s with
  | none => exact mapper.string_null
  | some s => exact mapper.string_str s

/-! ### Reading it again -/

/-- What is written of a header can be read. -/
theorem exists_readValue_written (hreads : Rereads mapper)
    (hversion : mapper.int (.num (toString h.version)) = some h.version) :
    ∃ header, mapper.readValue (writeValueAsString iteration n h) = some header := by
  have hlast : ∀ {name d}, (name, d) ∈ writeMembers iteration n h →
      lastMember (writeMembers iteration n h) name = some d := fun {name d} hm => by
    simp only [writeMembers, List.mem_cons, Prod.mk.injEq, List.not_mem_nil, or_false] at hm
    obtain ⟨rfl, rfl⟩ | ⟨rfl, rfl⟩ | ⟨rfl, rfl⟩ | ⟨rfl, rfl⟩ | ⟨rfl, rfl⟩ | ⟨rfl, rfl⟩ := hm <;> rfl
  refine ReadBack.exists_readValue (fun d hm => ?_) (fun name d hname hm => ?_) (fun d hm => ?_)
    (fun d hm => ?_) fun d hm => ?_
  · rw [← Option.some.inj (hlast hm), hreads.uuid]
    rfl
  · cases hname with
    | inl hns =>
      subst hns
      rw [← Option.some.inj (hlast hm), string_writeString]
      rfl
    | inr htype =>
      subst htype
      rw [← Option.some.inj (hlast hm), string_writeString]
      rfl
  · rw [← Option.some.inj (hlast hm), hversion]
    rfl
  · rw [← Option.some.inj (hlast hm)]
    cases h.aggIds with
    | none => rfl
    | some ids =>
      rw [writeSet, Mapper.uuids, Option.isSome_map]
      have hall : ∀ l : List (Option UUID), (l.map writeUuid).mapM mapper.uuid = some l := fun l =>
        mapM_eq_some_iff.mpr (List.forall₂_map_left_iff.mpr (List.forall₂_same.mpr fun id _ => hreads.uuid id))
      rw [hall]
      rfl
  · rw [← Option.some.inj (hlast hm)]
    cases h.meta with
    | none => rfl
    | some entries =>
      rw [writeMap, Mapper.map, Option.isSome_map]
      refine readMembers_isSome fun m hm => ?_
      obtain ⟨key, _, rfl⟩ := List.mem_map.mp hm
      rw [string_writeString]
      rfl

theorem Fact.exists_of {d : Document} {payload : String} (hd : DefaultFact.of mapper d = some header) :
    ∃ g, Fact.of mapper d payload = some g ∧ g.jsonHeader = d ∧ g.jsonPayload = payload := by
  unfold Fact.of
  split
  · exact ⟨_, rfl, rfl, rfl⟩
  · rename_i hnone
    rw [hd] at hnone
    exact nomatch hnone

theorem Fact.exists_members (f : Fact mapper) : ∃ header, f.jsonHeader = .obj header ∧ Reads mapper header f.header := by
  have hread := (Option.filter_eq_some_iff.mp f.accepted).1
  cases hd : f.jsonHeader with
  | obj header =>
    rw [hd] at hread
    exact ⟨header, rfl, reads_of_readValue hread⟩
  | _ =>
    rw [hd] at hread
    exact nomatch hread

theorem Fact.valid (f : Fact mapper) : f.header.id.isSome = true ∧
    (∃ ns, f.header.ns = some ns ∧ blank ns = false) ∧ 0 ≤ f.header.version :=
  validate_iff.mp (Option.filter_eq_some_iff.mp f.accepted).2

/-- The version is read again. -/
theorem Fact.int_version (f : Fact mapper) (hreads : Rereads mapper) :
    mapper.int (.num (toString f.header.version)) = some f.header.version := by
  obtain ⟨header, _, hr⟩ := f.exists_members
  have hversion := hr.version
  cases hlast : lastMember header "version" with
  | none =>
    rw [hlast] at hversion
    rw [← Option.some.inj hversion]
    exact hreads.int_zero
  | some d =>
    rw [hlast] at hversion
    exact hreads.int d _ f.valid.2.2 hversion

/-- A fact with a `meta` is tagged. -/
theorem exists_tagFactSource (hreads : Rereads mapper) {entries : List (String × Option String)}
    (hmeta : f.header.meta = some entries) : ∃ g, tagFactSource iteration n source f = some g ∧
      g.jsonHeader = writeValueAsString iteration n (put source f.header entries) ∧ g.jsonPayload = f.jsonPayload := by
  obtain ⟨header, hread⟩ :=
    @exists_readValue_written iteration n mapper (put source f.header entries) hreads (f.int_version hreads)
  have hr := reads_of_readValue hread
  obtain ⟨hid, ⟨ns, hns, hblank⟩, hversion⟩ := f.valid
  have hid' : header.id = f.header.id := Option.some.inj (hr.id.symm.trans (hreads.uuid f.header.id))
  have hns' : header.ns = f.header.ns := Option.some.inj (hr.ns.symm.trans (string_writeString f.header.ns))
  have hversion' : header.version = f.header.version :=
    Option.some.inj (hr.version.symm.trans (f.int_version hreads))
  have hvalid : DefaultFact.validate header = true := by
    rw [validate_iff, hid', hns', hversion']
    exact ⟨hid, ⟨ns, hns, hblank⟩, hversion⟩
  have hof : DefaultFact.of mapper (writeValueAsString iteration n (put source f.header entries)) = some header :=
    Option.filter_eq_some_iff.mpr ⟨hread, hvalid⟩
  rw [tagFactSource, hmeta, Option.bind_some]
  exact Fact.exists_of hof

theorem tagFactSource_of_null (hmeta : f.header.meta = none) : tagFactSource iteration n source f = none := by
  rw [tagFactSource, hmeta, Option.bind_none]

/-! ### One header -/

variable {submitted : List (String × Document)} {entries : List (String × Option String)}

/-- A header is what is written of it only if it is written that way. -/
theorem asWritten_of_sourceOnly (hid : h.id.isSome = true) (hns : h.ns.isSome = true)
    (hsource : SourceOnly source submitted (writeMembers iteration n (put source h entries))) :
    AsWritten submitted := by
  have hothers := fun name hmeta haggIds => (hsource.others name hmeta haggIds).symm
  refine ⟨fun m hm => ?_, ?_, ?_, ⟨h.type, hothers "type" (by decide) (by decide)⟩,
    ⟨h.version, hothers "version" (by decide) (by decide)⟩, ?_, ?_⟩
  · by_contra hunknown
    have hne : m.1 ≠ "meta" ∧ m.1 ≠ "aggIds" := by
      simp only [List.mem_cons, List.not_mem_nil, or_false, not_or] at hunknown
      exact ⟨hunknown.2.2.2.2.2, hunknown.2.2.2.2.1⟩
    have hnone := hothers m.1 hne.1 hne.2
    rw [lastMember_writeMembers_of_unknown hunknown] at hnone
    exact lastMember_eq_none.mp hnone (List.mem_map_of_mem hm)
  · obtain ⟨id, heq⟩ := Option.isSome_iff_exists.mp hid
    refine ⟨id, (hothers "id" (by decide) (by decide)).trans ?_⟩
    show some (writeUuid h.id) = _
    rw [heq]
    rfl
  · obtain ⟨ns, heq⟩ := Option.isSome_iff_exists.mp hns
    refine ⟨ns, (hothers "ns" (by decide) (by decide)).trans ?_⟩
    show some (writeString h.ns) = _
    rw [heq]
    rfl
  · have hset : SameItems (lastMember submitted "aggIds") (some (writeSet iteration n h.aggIds)) := hsource.aggIds
    cases haggIds : h.aggIds with
    | none =>
      rw [haggIds, writeSet] at hset
      unfold SameItems at hset
      split at hset
      · rename_i heq
        exact nomatch heq
      · exact .inl hset.symm
    | some ids =>
      rw [haggIds, writeSet] at hset
      unfold SameItems at hset
      split at hset
      · rename_i items others hitems hothers
        injection hothers with hothers
        injection hothers with hothers
        refine .inr ⟨items, hitems, fun d hd => ?_⟩
        have hmem := (hset d).mpr hd
        rw [← hothers] at hmem
        obtain ⟨id, _, heq⟩ := mem_writeSet.mp hmem
        exact ⟨id, heq.symm⟩
      · refine .inr ⟨_, hset.symm, fun d hd => ?_⟩
        obtain ⟨id, _, heq⟩ := mem_writeSet.mp hd
        exact ⟨id, heq.symm⟩
  · obtain ⟨before, after, hbefore, hafter, _, hkeys⟩ := hsource.entries
    refine ⟨before, hbefore, fun key d hkey hd => ?_⟩
    have hwritten : Document.obj (writeEntries iteration n (entries ++ [("source", some source)])) = .obj after :=
      Option.some.inj hafter
    injection hwritten with hwritten
    rw [← hkeys key hkey, ← hwritten, lastMember_writeEntries] at hd
    obtain ⟨s, _, heq⟩ := Option.map_eq_some_iff.mp hd
    exact ⟨s, heq.symm⟩

/-- The items of `aggIds` are written as they are read. -/
theorem sameItems_writeSet (hreads : Rereads mapper) {items : List Document} {ids : List (Option UUID)}
    (hwritten : ∀ d ∈ items, ∃ id, d = writeUuid id) (hread : items.mapM mapper.uuid = some ids) :
    SameItems (some (.arr items)) (some (writeSet iteration n (some ids))) := by
  intro d
  rw [mem_writeSet]
  constructor
  · intro ⟨id, hid, heq⟩
    obtain ⟨e, he, huuid⟩ := exists_of_mem_mapM hread id hid
    obtain ⟨other, rfl⟩ := hwritten e he
    rw [hreads.uuid] at huuid
    rwa [← heq, ← Option.some.inj huuid]
  · intro hd
    obtain ⟨id, rfl⟩ := hwritten d hd
    have hall : ids.map some = items.map mapper.uuid := map_mapM (fun _ _ huuid => huuid.symm) hread
    have hmem : mapper.uuid (writeUuid id) ∈ ids.map some := hall ▸ List.mem_map_of_mem hd
    rw [hreads.uuid] at hmem
    exact ⟨id, (List.mem_map_of_injective (Option.some_injective _)).mp hmem, rfl⟩

/-- The entries of `meta`, as they were read. -/
theorem exists_values (hr : Reads mapper submitted h) {before : List (String × Document)}
    (hbefore : EntriesOf submitted before) :
    ∃ values, h.meta = some values ∧ readMembers mapper.string before = some values := by
  have hmeta := hr.meta
  unfold EntriesOf at hbefore
  cases hlast : lastMember submitted "meta" with
  | none =>
    rw [hlast] at hmeta hbefore
    have hnil : before = [] := hbefore
    subst hnil
    exact ⟨[], (Option.some.inj hmeta).symm, rfl⟩
  | some d =>
    rw [hlast] at hmeta hbefore
    have hobj : d = .obj before := hbefore
    subst hobj
    obtain ⟨values, hvalues, heq⟩ := Option.map_eq_some_iff.mp hmeta
    exact ⟨values, heq.symm, hvalues⟩

/-- A header that is written that way is what is written of it. -/
theorem sourceOnly_of_asWritten (hreads : Rereads mapper) (hr : Reads mapper submitted h)
    (hmeta : h.meta = some entries) (hwritten : AsWritten submitted) :
    SourceOnly source submitted (writeMembers iteration n (put source h entries)) := by
  refine ⟨fun name hname haggIds => ?_, ?_, ?_⟩
  · by_cases hknown : name ∈ ["id", "ns", "type", "version", "aggIds", "meta"]
    · simp only [List.mem_cons, List.not_mem_nil, or_false] at hknown
      obtain rfl | rfl | rfl | rfl | rfl | rfl := hknown
      · obtain ⟨id, hid⟩ := hwritten.id
        have hread := hr.id
        rw [hid, Option.elim_some] at hread
        have hsome : some id = h.id := Option.some.inj ((hreads.uuid (some id)).symm.trans hread)
        rw [hid]
        show some (writeUuid h.id) = _
        rw [← hsome]
        rfl
      · obtain ⟨s, hs⟩ := hwritten.ns
        have hread := hr.ns
        rw [hs, Option.elim_some, mapper.string_str] at hread
        rw [hs]
        show some (writeString h.ns) = _
        rw [← Option.some.inj hread]
        rfl
      · obtain ⟨s, hs⟩ := hwritten.type
        have hread := hr.type
        rw [hs, Option.elim_some, string_writeString] at hread
        rw [hs]
        show some (writeString h.type) = _
        rw [← Option.some.inj hread]
      · obtain ⟨v, hv⟩ := hwritten.version
        have hread := hr.version
        rw [hv, Option.elim_some] at hread
        rw [hv]
        show some (Document.num (toString h.version)) = _
        rw [hreads.int_toString v h.version hread]
      · exact absurd rfl haggIds
      · exact absurd rfl hname
    · rw [lastMember_writeMembers_of_unknown hknown]
      refine (lastMember_eq_none.mpr fun hmem => ?_).symm
      obtain ⟨m, hm, heq⟩ := List.mem_map.mp hmem
      exact hknown (heq ▸ hwritten.known m hm)
  · show SameItems (lastMember submitted "aggIds") (some (writeSet iteration n h.aggIds))
    have hread := hr.aggIds
    cases hwritten.aggIds with
    | inl hnull =>
      rw [hnull, Option.elim_some] at hread
      rw [hnull, ← Option.some.inj hread]
      rfl
    | inr harr =>
      obtain ⟨items, hitems, hall⟩ := harr
      rw [hitems, Option.elim_some] at hread
      obtain ⟨ids, hids, heq⟩ := Option.map_eq_some_iff.mp hread
      rw [hitems, ← heq]
      exact sameItems_writeSet hreads hall hids
  · obtain ⟨before, hbefore, hall⟩ := hwritten.entries
    obtain ⟨values, hvalues, hread⟩ := exists_values hr hbefore
    have heq : values = entries := Option.some.inj (hvalues.symm.trans hmeta)
    subst heq
    refine ⟨before, _, hbefore, rfl, ?_, fun key hkey => ?_⟩
    · rw [lastMember_writeEntries, lastMember_append, lastMember_singleton, if_pos rfl]
      rfl
    · have hsame := @lastMember_readMembers _ _ before key _ _ hread
      rw [lastMember_writeEntries, lastMember_append, lastMember_singleton, if_neg hkey, Option.none_or]
      cases hlast : lastMember before key with
      | none =>
        rw [hlast] at hsame
        rw [Option.map_eq_none_iff.mp hsame]
        rfl
      | some d =>
        obtain ⟨s, rfl⟩ := hall key d hkey hlast
        rw [hlast, Option.map_some, string_writeString] at hsame
        obtain ⟨v, hv, hvs⟩ := Option.map_eq_some_iff.mp hsame
        rw [hv, Option.some.inj hvs]
        rfl

/-- Whether tagging changes nothing else can be seen from the header. -/
theorem tagFactSource_iff (hreads : Rereads mapper) :
    (∃ g, tagFactSource iteration n source f = some g ∧ g.jsonPayload = f.jsonPayload ∧
      SourceOnly source (members f.jsonHeader) (members g.jsonHeader)) ↔ AsWritten (members f.jsonHeader) := by
  obtain ⟨submitted, hsubmitted, hr⟩ := f.exists_members
  obtain ⟨hid, ⟨ns, hns, _⟩, _⟩ := f.valid
  rw [hsubmitted]
  cases hmeta : f.header.meta with
  | none =>
    rw [tagFactSource_of_null hmeta]
    refine iff_of_false (fun ⟨g, hg, _⟩ => nomatch hg) fun hwritten => ?_
    obtain ⟨before, hbefore, _⟩ := hwritten.entries
    obtain ⟨values, hvalues, _⟩ := exists_values hr hbefore
    rw [hmeta] at hvalues
    exact nomatch hvalues
  | some entries =>
    obtain ⟨g, hg, hheader, hpayload⟩ := @exists_tagFactSource iteration n mapper source f hreads entries hmeta
    constructor
    · intro ⟨g', hg', _, hsource⟩
      rw [hg] at hg'
      rw [← Option.some.inj hg', hheader] at hsource
      exact asWritten_of_sourceOnly hid (by rw [hns]; rfl) hsource
    · intro hwritten
      refine ⟨g, hg, hpayload, ?_⟩
      rw [hheader]
      exact sourceOnly_of_asWritten hreads hr hmeta hwritten

/-- Facts are tagged one after the other, and all of them are. -/
theorem sourceTagged_iff (hreads : Rereads mapper) {facts : List (Fact mapper)} :
    SourceTagged source facts (tagFactSources iteration source n facts) ↔
      ∀ f ∈ facts, AsWritten (members f.jsonHeader) := by
  induction facts generalizing n with
  | nil => exact iff_of_true ⟨[], rfl, .nil⟩ (List.forall_mem_nil _)
  | cons f rest ih =>
    rw [List.forall_mem_cons, ← @tagFactSource_iff iteration n mapper source f hreads, ← ih (n := n + 1),
      tagFactSources]
    constructor
    · intro ⟨tagged, htagged, hall⟩
      obtain ⟨g, hg, hrest⟩ := Option.bind_eq_some_iff.mp htagged
      obtain ⟨others, hothers, heq⟩ := Option.bind_eq_some_iff.mp hrest
      obtain rfl : g :: others = tagged := Option.some.inj heq
      rw [List.forall₂_cons] at hall
      exact ⟨⟨g, hg, hall.1⟩, others, hothers, hall.2⟩
    · intro ⟨⟨g, hg, hsource⟩, others, hothers, hall⟩
      refine ⟨g :: others, ?_, .cons hsource hall⟩
      rw [hg, hothers]
      rfl

end Proofs

theorem source_only_iff (mapper : Mapper) (hreads : Rereads mapper) (iteration : Iteration) (n : Nat)
    (source : String) (facts : List (Fact mapper)) (token : Option UUID) :
    (SourceTagged source facts (publish iteration n (some source) facts) ↔
      ∀ f ∈ facts, AsWritten (members f.jsonHeader)) ∧
    (SourceTagged source facts ((publishConditional iteration n (some source) facts token).map Prod.fst) ↔
      ∀ f ∈ facts, AsWritten (members f.jsonHeader)) := by
  refine ⟨sourceTagged_iff hreads, ?_⟩
  have hfacts : (publishConditional iteration n (some source) facts token).map Prod.fst =
      tagFactSources iteration source n facts := by
    rw [publishConditional, Option.map_map]
    exact congrFun Option.map_id _
  rw [hfacts]
  exact sourceTagged_iff hreads

/-! ### A header with a region -/

/-- Numbers without sign. -/
def decimal (literal : String) : Option Int :=
  if literal.toList.all Char.isDigit then some (Nat.ofDigitChars 10 literal.toList 0) else none

/-- A mapper for strings, identifiers as they are written, and these numbers. -/
def plain (reader : UuidReader) : Mapper :=
  { Mapper.plain reader with
    int := fun
      | .null => some 0
      | .num literal => decimal literal
      | _ => none }

theorem decimal_toString (v : Nat) : decimal (toString v) = some (v : Int) := by
  have hdigits : (toString v).toList = Nat.toDigits 10 v := by rw [Nat.toString_eq_repr, Nat.toList_repr]
  have hall : (Nat.toDigits 10 v).all Char.isDigit = true :=
    List.all_eq_true.mpr fun c hc => Nat.isDigit_of_mem_toDigits (by decide) (by decide) hc
  rw [decimal, hdigits, if_pos hall, Nat.ofDigitChars_ten_toDigits]

theorem decimal_negSucc (k : Nat) : decimal (toString (Int.negSucc k)) = none := by
  have htext : (toString (Int.negSucc k)).toList = '-' :: (toString (k + 1)).toList := by
    rw [show toString (Int.negSucc k) = "-" ++ toString (k + 1) from rfl, String.toList_append]
    rfl
  rw [decimal, htext, List.all_cons, if_neg]
  simp

theorem plain_rereads (reader : UuidReader) : Rereads (plain reader) where
  uuid id := by
    cases id with
    | none => rfl
    | some id => exact congrArg (Option.map some) (reader.read_toString id)
  int d v hv _ := by
    obtain ⟨k, rfl⟩ := Int.eq_ofNat_of_zero_le hv
    show decimal (toString k) = some (k : Int)
    exact decimal_toString k
  int_zero := by
    show decimal (toString 0) = some ((0 : Nat) : Int)
    exact decimal_toString 0
  int_toString v w hw := by
    have hread : decimal (toString v) = some w := hw
    cases v with
    | ofNat k =>
      have hnat : decimal (toString k) = some w := hread
      rw [decimal_toString] at hnat
      exact (Option.some.inj hnat).symm
    | negSucc k =>
      rw [decimal_negSucc] at hread
      exact nomatch hread

/-- An order, with further attributes of its header. -/
def placed (attributes : List (String × Document)) : List (String × Document) :=
  [("id", .str (⟨7⟩ : UUID).toString), ("ns", .str "orders"), ("type", .null), ("version", .num "1"),
    ("aggIds", .arr [])] ++ attributes

def placedHeader : FactHeader where
  id := some ⟨7⟩
  ns := some "orders"
  version := 1

theorem placed_accepted (reader : UuidReader) :
    DefaultFact.of (plain reader) (.obj (placed [])) = some placedHeader := by
  have hversion : decimal "1" = some 1 := decimal_toString 1
  have hread : (plain reader).readValue (.obj (placed [])) = some placedHeader := by
    simp [Mapper.readValue, placed, Mapper.property, plain, Mapper.plain, reader.read_toString, hversion,
      Mapper.uuids, placedHeader]
  rw [DefaultFact.of, hread]
  rfl

theorem placed_region_accepted (reader : UuidReader) :
    DefaultFact.of (plain reader) (.obj (placed [("region", .str "eu")])) = some placedHeader := by
  have hread := (Option.filter_eq_some_iff.mp (placed_accepted reader)).1
  refine Option.filter_eq_some_iff.mpr ⟨?_, rfl⟩
  have hfold : (placed []).foldlM (plain reader).property {} = some placedHeader := hread
  show (placed [("region", .str "eu")]).foldlM (plain reader).property {} = some placedHeader
  rw [show placed [("region", .str "eu")] = placed [] ++ [("region", .str "eu")] from rfl, List.foldlM_append, hfold]
  rfl

/-- The order, as the server has it. -/
def placedFact (reader : UuidReader) : Fact (plain reader) := ⟨.obj (placed []), "1", placedHeader, placed_accepted reader⟩

/-- The order is tagged. -/
theorem source_only_placed : ∃ iteration, SourceTagged "shop" [placedFact .canonical]
    (publish iteration 0 (some "shop") [placedFact .canonical]) := by
  let iteration : Iteration := ⟨⟨fun _ s => s.toList, fun _ s => s.nodup_toList, fun _ s _ => s.mem_toList⟩,
    ⟨fun _ s => s.toList, fun _ s => s.nodup_toList, fun _ s _ => s.mem_toList⟩⟩
  refine ⟨iteration, (source_only_iff _ (plain_rereads .canonical) iteration 0 "shop" _ none).1.mpr ?_⟩
  refine List.forall_mem_singleton.mpr ⟨?_, ⟨⟨7⟩, rfl⟩, ⟨"orders", rfl⟩, ⟨none, rfl⟩, ⟨1, rfl⟩,
    .inr ⟨[], rfl, List.forall_mem_nil _⟩, ⟨[], rfl, nofun⟩⟩
  show ∀ m ∈ placed [], m.1 ∈ ["id", "ns", "type", "version", "aggIds", "meta"]
  simp [placed]

/-- The region is lost. -/
theorem region_lost : ¬ ∀ (mapper : Mapper), Rereads mapper → ∀ (iteration : Iteration) (n : Nat)
    (source : String) (facts : List (Fact mapper)) (token : Option UUID),
    SourceTagged source facts (publish iteration n (some source) facts) ∧
      SourceTagged source facts ((publishConditional iteration n (some source) facts token).map Prod.fst) := by
  intro h
  let iteration : Iteration := ⟨⟨fun _ s => s.toList, fun _ s => s.nodup_toList, fun _ s _ => s.mem_toList⟩,
    ⟨fun _ s => s.toList, fun _ s => s.nodup_toList, fun _ s _ => s.mem_toList⟩⟩
  let fact : Fact (plain .canonical) :=
    ⟨.obj (placed [("region", .str "eu")]), "1", placedHeader, placed_region_accepted .canonical⟩
  have htagged := (h _ (plain_rereads .canonical) iteration 0 "shop" [fact] none).1
  have hwritten := (sourceTagged_iff (plain_rereads .canonical)).mp htagged fact (List.mem_singleton_self _)
  have hmem : ("region", Document.str "eu") ∈ placed [("region", .str "eu")] :=
    List.mem_append_right _ (List.mem_singleton_self _)
  exact absurd (hwritten.known _ hmem) (by decide)

end FactCast.FactSource
