import FactCast.Factus.SpecCopies
import FactCast.Json.Document
import Mathlib.Data.Fintype.EquivFin

/-! What the handlers of a projection declare, and what it subscribes with.

A method that was discovered is a handler with the filters of its annotations, and
perhaps a script (`discoverFactSpec_ok`). The specifications that a projection
subscribes with are copies of these. So they match more facts than the methods
declare, unless the filters of each survive the copy (`Method.Survives`), or what
it lets in too much is wanted anyway, by a method for any version that asks for
no more (`Method.Covers`). -/
namespace FactCast

/-! ### What a method declares -/

namespace LinkedMap
variable {β : Type} {m : LinkedMap β} {key name : String} {value : β} {entries : List (String × β)}

theorem lookup_put :
    (m.put key value).entries.lookup name = if name = key then some value else m.entries.lookup name := by
  unfold put
  split
  · rename_i hin
    show (m.entries.map fun e => if e.1 = key then (key, value) else e).lookup name = _
    have hmap : ∀ l : List (String × β), (l.map fun e => if e.1 = key then (key, value) else e).lookup name =
        if name = key then (if key ∈ l.map Prod.fst then some value else none) else l.lookup name := by
      intro l
      induction l with
      | nil => simp
      | cons e rest ih =>
        rw [List.map_cons, List.lookup_cons, ih, List.lookup_cons]
        by_cases hname : name = key
        · by_cases he : e.1 = key
          · simp [hname, he]
          · have hne : (key == e.1) = false := by simpa using Ne.symm he
            have hcons : key ∈ (e :: rest).map Prod.fst ↔ key ∈ rest.map Prod.fst := by
              rw [List.map_cons, List.mem_cons, or_iff_right (Ne.symm he)]
            simp only [hname, he, hne, hcons, if_true, if_false]
        · by_cases he : e.1 = key
          · have hne : (name == key) = false := by simpa using hname
            simp [hname, he, hne]
          · simp [hname, he]
    rw [hmap, if_pos hin]
  · rename_i hout
    show (m.entries ++ [(key, value)]).lookup name = _
    rw [List.lookup_append, List.lookup_cons]
    by_cases hname : name = key
    · have hnone : m.entries.lookup key = none := by
        rw [← Option.not_isSome_iff_eq_none, PgQueryBuilder.lookup_isSome_iff]
        exact hout
      simp [hname, hnone]
    · have hne : (name == key) = false := by simpa using hname
      simp [hname, hne]

/-- Of the values put in for a key the last one stays. -/
theorem lookup_putAll :
    (m.putAll entries).entries.lookup name = (lastMember entries name).or (m.entries.lookup name) := by
  induction entries generalizing m with
  | nil => rfl
  | cons e rest ih =>
    show ((m.put e.1 e.2).putAll rest).entries.lookup name = _
    rw [ih, lookup_put, show e :: rest = (e.1, e.2) :: rest from rfl, lastMember_cons, Option.or_assoc]
    congr 1
    split <;> rfl

theorem mem_entries {e : String × β} : e ∈ m.entries ↔ m.entries.lookup e.1 = some e.2 := by
  refine ⟨fun he => by simpa using PgQueryBuilder.lookup_map_of_mem m.nodup he id, fun h => ?_⟩
  obtain ⟨front, back, hsplit, _⟩ := List.lookup_eq_some_iff.mp h
  rw [hsplit]
  simp

end LinkedMap

namespace Method
variable (m : Method)

/-- The entries of `meta` that are asked for. -/
def metaEntries : List (String × String) := m.filterByMeta.all.map fun a => (a.key, a.value)

/-- The namespace, type and version of the facts for a method. -/
def coordinates (p : ProjectionType) : Option FactSpecCoordinates :=
  match m.handlerFor with
  | some handlerFor => some ⟨handlerFor.ns, some handlerFor.type, handlerFor.version⟩
  | none =>
    match ReflectionTools.eventPojoTypes m with
    | [clazz] => clazz.specification.map fun spec =>
      let override := (m.overrideNamespace.single.map fun o => o.ns).or
        ((ReflectionTools.buildNamespaceOverrides p.classes).entries.lookup clazz.name)
      ⟨override.getD spec.ns, some (if blank spec.type then clazz.simpleName else spec.type), spec.version⟩
    | _ => none

/-- A method as the handler it is. -/
structure Declares (reader : UuidReader) (p : ProjectionType) (h : Handler) : Prop where
  coordinates : m.coordinates p = some h.coordinates
  filterByMeta : h.filterByMeta = m.metaEntries
  filterByMetaExists : h.filterByMetaExists = m.filterByMetaExists.all
  filterByMetaDoesNotExist : h.filterByMetaDoesNotExist = m.filterByMetaDoesNotExist.all
  filterByAggId : (m.filterByAggId.getD []).map reader.read = h.filterByAggId.map some

end Method

namespace ReflectionTools
variable {reader : UuidReader} {p : ProjectionType} {m : Method} {spec base : FactSpec}

theorem filterByMeta_eq :
    filterByMeta m base = { base with «meta» := base.meta.putAll m.metaEntries } := by
  have hfold : ∀ (l : List FilterByMeta) (s : FactSpec), l.foldl (fun spec a => spec.addMeta a.key a.value) s =
      { s with «meta» := s.meta.putAll (l.map fun a => (a.key, a.value)) } := by
    intro l
    induction l with
    | nil => exact fun s => rfl
    | cons a rest ih => exact fun s => ih (s.addMeta a.key a.value)
  exact hfold _ _

/-- Keys are asked for one after another. -/
theorem foldl_keys {keys : List String} {must : Bool} {add : FactSpec → String → FactSpec}
    (hadd : ∀ spec k, add spec k = { spec with metaKeyExists := spec.metaKeyExists.put k must }) :
    keys.foldl add base =
      { base with metaKeyExists := base.metaKeyExists.putAll (keys.map fun k => (k, must)) } := by
  induction keys generalizing base with
  | nil => rfl
  | cons k rest ih =>
    rw [List.foldl_cons, ih, hadd]
    rfl

theorem filterByMetaExists_eq : filterByMetaExists m base =
    { base with
      metaKeyExists := base.metaKeyExists.putAll (m.filterByMetaExists.all.map fun k => (k, true)) } :=
  foldl_keys fun _ _ => rfl

theorem filterByMetaDoesNotExist_eq : filterByMetaDoesNotExist m base =
    { base with
      metaKeyExists := base.metaKeyExists.putAll (m.filterByMetaDoesNotExist.all.map fun k => (k, false)) } :=
  foldl_keys fun _ _ => rfl

theorem addAggIds_ok {l : List String} (h : addAggIds reader base l = .ok spec) :
    ∃ ids : List UUID, l.map reader.read = ids.map some ∧ spec = ids.foldl FactSpec.addAggId base := by
  induction l generalizing base with
  | nil =>
    cases h
    exact ⟨[], rfl, rfl⟩
  | cons s rest ih =>
    rw [addAggIds] at h
    split at h
    · cases h
    · rename_i id hid
      obtain ⟨ids, hmap, hspec⟩ := ih h
      exact ⟨id :: ids, by rw [List.map_cons, hid, hmap, List.map_cons], hspec⟩

/-- A method with filters is a handler with these, and a script. -/
theorem addOptionalFilterInfo_ok {type : String} (hmeta : base.meta = .empty)
    (hkeys : base.metaKeyExists = .empty) (htype : base.type = some type) (haggId : base.aggId = none)
    (haggIds : base.aggIds = []) (hscript : base.filterScript = none)
    (hcoords : m.coordinates p = some base.coordinates)
    (h : addOptionalFilterInfo reader m base = .ok spec) :
    ∃ h : Handler, m.Declares reader p h ∧
      spec = { h.discoverFactSpec with filterScript := m.filterByScript.map fun source => ⟨"js", source⟩ } := by
  unfold addOptionalFilterInfo filterByAggIds at h
  obtain ⟨aggs, hok, hspec⟩ : ∃ aggs, addAggIds reader (filterByMetaDoesNotExist m (filterByMetaExists m
      (filterByMeta m base))) (m.filterByAggId.getD []) = .ok aggs ∧ spec = filterByScript m aggs := by
    cases hadd : addAggIds reader (filterByMetaDoesNotExist m (filterByMetaExists m
        (filterByMeta m base))) (m.filterByAggId.getD []) with
    | error e =>
      rw [hadd] at h
      cases h
    | ok aggs =>
      rw [hadd] at h
      cases h
      exact ⟨aggs, rfl, rfl⟩
  obtain ⟨ids, hids, haggs⟩ := addAggIds_ok hok
  refine ⟨{ method := m.toString, ns := base.ns, ns_given := base.ns_given, type := type, version := base.version
            filterByMeta := m.metaEntries, filterByMetaExists := m.filterByMetaExists.all
            filterByMetaDoesNotExist := m.filterByMetaDoesNotExist.all, filterByAggId := ids },
    ⟨?_, rfl, rfl, rfl, hids⟩, ?_⟩
  · rw [hcoords, FactSpec.coordinates, htype]
    rfl
  · have hkeyed : filterByMetaDoesNotExist m (filterByMetaExists m (filterByMeta m base)) =
        { ns := base.ns, ns_given := base.ns_given, type := some type, version := base.version
          «meta» := LinkedMap.empty.putAll m.metaEntries
          metaKeyExists := (LinkedMap.empty.putAll (m.filterByMetaExists.all.map fun k => (k, true))).putAll
            (m.filterByMetaDoesNotExist.all.map fun k => (k, false)) } := by
      rw [filterByMetaDoesNotExist_eq, filterByMetaExists_eq, filterByMeta_eq]
      simp only [hmeta, hkeys, htype, haggId, haggIds, hscript]
    rw [hkeyed] at haggs
    rw [hspec, haggs]
    unfold filterByScript
    cases m.filterByScript with
    | none =>
      obtain ⟨aggIds, hfold, _⟩ := FactSpec.addAggId_foldl ids
        { ns := base.ns, ns_given := base.ns_given, type := some type, version := base.version
          «meta» := LinkedMap.empty.putAll m.metaEntries
          metaKeyExists := (LinkedMap.empty.putAll (m.filterByMetaExists.all.map fun k => (k, true))).putAll
            (m.filterByMetaDoesNotExist.all.map fun k => (k, false)) }
      show List.foldl FactSpec.addAggId _ ids = { List.foldl FactSpec.addAggId _ ids with filterScript := none }
      rw [hfold]
    | some source => rfl

theorem eq_of_ns_ok {ns : String} (h : FactSpec.ns_ ns = .ok spec) :
    ∃ hns : blank ns = false, spec = { ns := ns, ns_given := hns } := by
  unfold FactSpec.ns_ at h
  split at h
  · rename_i hns
    cases h
    exact ⟨hns, rfl⟩
  · cases h

theorem bind_ok {ε α β : Type} {x : Except ε α} {g : α → Except ε β} {b : β}
    (h : x >>= g = .ok b) : ∃ a, x = .ok a ∧ g a = .ok b := by
  cases x with
  | error e => cases h
  | ok a => exact ⟨a, rfl, h⟩

/-- What is made of a class of events, for a namespace that is in force. -/
theorem eq_of_from_ok {clazz : EventObjectType} (h : FactSpec.from_ clazz = .ok spec) :
    ∃ s, clazz.specification = some s ∧ ∃ hns : blank s.ns = false, spec =
      { ns := s.ns, ns_given := hns, version := s.version
        type := some (if blank s.type then clazz.simpleName else s.type) } := by
  obtain ⟨coords, hcoords, h⟩ := bind_ok h
  obtain ⟨fs, hfs, h⟩ := bind_ok h
  unfold FactSpecCoordinates.from_ at hcoords
  split at hcoords
  · cases hcoords
  · rename_i s hs
    split at hcoords
    · cases hcoords
    · cases hcoords
      obtain ⟨hns, rfl⟩ := eq_of_ns_ok hfs
      cases h
      exact ⟨s, hs, hns, rfl⟩

theorem withNs_ok {newNs : String} (h : base.withNs newNs = .ok spec) :
    ∃ hns : blank newNs = false, spec = { base with ns := newNs, ns_given := hns }.keyless := by
  obtain ⟨fs, hfs, _⟩ := bind_ok h
  obtain ⟨hns, _⟩ := eq_of_ns_ok hfs
  rw [FactSpec.withNs_eq hns] at h
  cases h
  exact ⟨hns, rfl⟩

/-- The namespace in force is the method's, or else the class's, or else the event's. -/
theorem discoverFactSpec_ok (h : discoverFactSpec reader p m = .ok spec) :
    ∃ h : Handler, m.Declares reader p h ∧
      spec = { h.discoverFactSpec with filterScript := m.filterByScript.map fun source => ⟨"js", source⟩ } := by
  unfold discoverFactSpec at h
  split at h
  · rename_i handlerFor hfor
    obtain ⟨fs, hfs, h⟩ := bind_ok h
    obtain ⟨hns, rfl⟩ := eq_of_ns_ok hfs
    refine addOptionalFilterInfo_ok rfl rfl rfl rfl rfl rfl ?_ h
    unfold Method.coordinates
    rw [hfor]
    rfl
  · rename_i hfor
    split at h
    · cases h
    · rename_i clazz hclazz
      obtain ⟨fs, hfs, h⟩ := bind_ok h
      obtain ⟨s, hs, hns, rfl⟩ := eq_of_from_ok hfs
      have hcoords : m.coordinates p = some ⟨((m.overrideNamespace.single.map fun o => o.ns).or
          ((buildNamespaceOverrides p.classes).entries.lookup clazz.name)).getD s.ns,
          some (if blank s.type then clazz.simpleName else s.type), s.version⟩ := by
        unfold Method.coordinates
        simp only [hfor, hclazz, hs, Option.map_some]
      split at h
      · cases h
      · rename_i overrideOnMethod _ hsingle
        rw [hsingle, Option.map_some, Option.some_or] at hcoords
        unfold overrideNamespaceFromMethodAnnotation at h
        split at h
        · cases h
        · split at h
          · cases h
          · obtain ⟨overridden, hover, h⟩ := bind_ok h
            obtain ⟨hnew, rfl⟩ := withNs_ok hover
            refine addOptionalFilterInfo_ok rfl rfl rfl rfl rfl rfl ?_ h
            exact hcoords
      · rename_i _ hsingle
        rw [hsingle, Option.map_none, Option.none_or] at hcoords
        obtain ⟨overridden, hover, h⟩ := bind_ok h
        unfold overrideNamespaceFromTypeAnnotation at hover
        split at hover
        · cases hover
        · split at hover
          · rename_i override hlookup
            rw [hlookup, Option.getD_some] at hcoords
            obtain ⟨hnew, rfl⟩ := withNs_ok hover
            refine addOptionalFilterInfo_ok rfl rfl rfl rfl rfl rfl ?_ h
            exact hcoords
          · rename_i hlookup
            rw [hlookup, Option.getD_none] at hcoords
            cases hover
            refine addOptionalFilterInfo_ok rfl rfl rfl rfl rfl rfl ?_ h
            exact hcoords
    · cases h

end ReflectionTools

/-! ### Declared and asked for -/

namespace Method
section Filters
variable (reader : UuidReader) (ef : JSEngineFactory) (p : ProjectionType) (m : Method) (f : PgFact)

/-- The fact has the namespace and type of the method's events, and the version if
one is given. -/
def Names : Prop :=
  ∃ coords, m.coordinates p = some coords ∧ f.ns = coords.ns ∧ f.type = coords.type ∧
    (coords.version = 0 ∨ coords.version = f.version)

def MeetsAggIds : Prop :=
  ∀ s ∈ m.filterByAggId.getD [], ∃ id ∈ f.aggIds, reader.read s = some id

def MeetsScript : Prop :=
  ∀ source, m.filterByScript = some source →
    ef ("var test=" ++ source) f.jsonHeader.json f.jsonPayload = true

/-- The fact satisfies every filter declared on the method. -/
structure Satisfied : Prop where
  names : m.Names p f
  filterByMeta : ∀ a ∈ m.filterByMeta.all, f.meta? a.key = some a.value
  filterByMetaExists : ∀ key ∈ m.filterByMetaExists.all, (f.meta? key).isSome = true
  filterByMetaDoesNotExist : ∀ key ∈ m.filterByMetaDoesNotExist.all, f.meta? key = none
  filterByAggId : m.MeetsAggIds reader f
  filterByScript : m.MeetsScript ef f

/-- What is still asked for after the copy: of several values for a key the last. -/
structure Kept : Prop where
  names : m.Names p f
  filterByMeta : ∀ key value, lastMember m.metaEntries key = some value → f.meta? key = some value
  filterByAggId : m.MeetsAggIds reader f
  filterByScript : m.MeetsScript ef f

end Filters

/-- The filters of the method survive the copy: no key has two values, each key that
must exist has one, and none must be missing. -/
structure Survives (m : Method) : Prop where
  filterByMeta : ∀ a ∈ m.filterByMeta.all, ∀ b ∈ m.filterByMeta.all, a.key = b.key → a.value = b.value
  filterByMetaExists : ∀ key ∈ m.filterByMetaExists.all, ∃ a ∈ m.filterByMeta.all, a.key = key
  filterByMetaDoesNotExist : m.filterByMetaDoesNotExist.all = []

/-- The other method is for any version of the same events, and asks for no more than
is still asked for here. -/
structure Covers (reader : UuidReader) (p : ProjectionType) (aggregateId : Option UUID) (other m : Method) :
    Prop where
  coordinates : ∃ coords, m.coordinates p = some coords ∧
    other.coordinates p = some { coords with version := 0 }
  filterByMeta : ∀ a ∈ other.filterByMeta.all, lastMember m.metaEntries a.key = some a.value
  filterByAggId : ∀ s ∈ other.filterByAggId.getD [], ∃ id, reader.read s = some id ∧
    (aggregateId = some id ∨ ∃ s' ∈ m.filterByAggId.getD [], reader.read s' = some id)
  filterByScript : ∀ source, other.filterByScript = some source → m.filterByScript = some source

variable {reader : UuidReader} {ef : JSEngineFactory} {p : ProjectionType} {m : Method} {f : PgFact}

theorem exists_of_lastMember {key value : String} (h : lastMember m.metaEntries key = some value) :
    ∃ a ∈ m.filterByMeta.all, a.key = key ∧ a.value = value := by
  have hmem := mem_of_lastMember h
  obtain ⟨a, ha, heq⟩ := List.mem_map.mp hmem
  exact ⟨a, ha, congrArg Prod.fst heq, congrArg Prod.snd heq⟩

theorem exists_lastMember {a : FilterByMeta} (ha : a ∈ m.filterByMeta.all) :
    ∃ value, lastMember m.metaEntries a.key = some value := by
  refine Option.ne_none_iff_exists'.mp fun hnone => lastMember_eq_none.mp hnone ?_
  exact List.mem_map.mpr ⟨(a.key, a.value), List.mem_map.mpr ⟨a, ha, rfl⟩, rfl⟩

theorem Satisfied.kept (h : m.Satisfied reader ef p f) : m.Kept reader ef p f where
  names := h.names
  filterByMeta key value hlast := by
    obtain ⟨a, ha, rfl, rfl⟩ := exists_of_lastMember hlast
    exact h.filterByMeta a ha
  filterByAggId := h.filterByAggId
  filterByScript := h.filterByScript

theorem Kept.satisfied (h : m.Kept reader ef p f) (hs : m.Survives) : m.Satisfied reader ef p f := by
  have hmeta : ∀ a ∈ m.filterByMeta.all, f.meta? a.key = some a.value := by
    intro a ha
    obtain ⟨value, hlast⟩ := exists_lastMember ha
    obtain ⟨b, hb, hkey, hvalue⟩ := exists_of_lastMember hlast
    rw [h.filterByMeta a.key value hlast, ← hvalue, hs.filterByMeta b hb a ha hkey]
  refine ⟨h.names, hmeta, fun key hkey => ?_, fun key hkey => ?_, h.filterByAggId, h.filterByScript⟩
  · obtain ⟨a, ha, rfl⟩ := hs.filterByMetaExists key hkey
    rw [hmeta a ha]
    rfl
  · rw [hs.filterByMetaDoesNotExist] at hkey
    cases hkey

/-- What is still asked for of a method that another one covers, that one asks for. -/
theorem Kept.covered {other : Method} {aggregateId : Option UUID} (h : m.Kept reader ef p f)
    (hc : other.Covers reader p aggregateId m) (hagg : ∀ id, aggregateId = some id → id ∈ f.aggIds) :
    other.Kept reader ef p f where
  names := by
    obtain ⟨coords, hcoords, hother⟩ := hc.coordinates
    obtain ⟨coords', hcoords', hns, htype, _⟩ := h.names
    cases Option.some.inj (hcoords.symm.trans hcoords')
    exact ⟨_, hother, hns, htype, .inl rfl⟩
  filterByMeta key value hlast := by
    obtain ⟨a, ha, rfl, rfl⟩ := exists_of_lastMember hlast
    exact h.filterByMeta _ _ (hc.filterByMeta a ha)
  filterByAggId s hs := by
    obtain ⟨id, hid, hagg' | ⟨s', hs', hid'⟩⟩ := hc.filterByAggId s hs
    · exact ⟨id, hagg id hagg', hid⟩
    · obtain ⟨id', hmem, hread⟩ := h.filterByAggId s' hs'
      cases Option.some.inj (hid'.symm.trans hread)
      exact ⟨id, hmem, hid⟩
  filterByScript source hsource := h.filterByScript source (hc.filterByScript source hsource)

/-- Whatever the fact's entries, it can have all that is still asked for, at a version
that will do, without satisfying filters that do not survive. Beyond what is asked
for it has at most one more entry, with any value. -/
theorem exists_kept (reader : UuidReader) (aggregateId : Option UUID) {h : Handler}
    (hd : m.Declares reader p h) (hs : ¬ m.Survives) {version : Int}
    (hversion : h.version = 0 ∨ h.version = version) (extra : String) :
    let ef : JSEngineFactory := fun source _ _ =>
      decide (m.filterByScript.map (fun s => "var test=" ++ s) = some source)
    ∃ f : PgFact, f.Stored reader ∧ m.Kept reader ef p f ∧ ¬ m.Satisfied reader ef p f ∧
      f.ns = h.ns ∧ f.type = some h.type ∧ f.version = version ∧
      (∀ id, id ∈ f.aggIds ↔ id ∈ h.filterByAggId ∨ aggregateId = some id) ∧
      ∀ key value, f.meta? key = some value → lastMember m.metaEntries key = some value ∨ value = extra := by
  intro ef
  let more := (m.filterByMetaDoesNotExist.all.head?.map fun key => (key, extra)).toList
  obtain ⟨f, hstored, hns, htype, hv, haggIds, hmeta⟩ := exists_stored reader h.ns_given h.type version
    (List.nodup_dedup (h.filterByAggId ++ aggregateId.toList))
    ((LinkedMap.empty.putAll m.metaEntries).entries ++ more)
  have hlookup : ∀ key, f.meta? key = (lastMember m.metaEntries key).or (more.lookup key) := by
    intro key
    rw [hmeta, List.lookup_append, LinkedMap.lookup_putAll]
    congr 1
    exact Option.or_none ..
  have hids : ∀ id, id ∈ f.aggIds ↔ id ∈ h.filterByAggId ∨ aggregateId = some id := by
    intro id
    rw [haggIds, List.mem_dedup, List.mem_append, Option.mem_toList]
  have hread : ∀ s ∈ m.filterByAggId.getD [], ∃ id ∈ h.filterByAggId, reader.read s = some id := by
    intro s hs
    have hmap : reader.read s ∈ h.filterByAggId.map some := by
      rw [← hd.filterByAggId]
      exact List.mem_map.mpr ⟨s, hs, rfl⟩
    obtain ⟨id, hid, hsome⟩ := List.mem_map.mp hmap
    exact ⟨id, hid, hsome.symm⟩
  refine ⟨f, hstored, ⟨?_, fun key value hlast => ?_, fun s hs => ?_, fun source hsource => ?_⟩, fun hsat => hs ?_,
    hns, htype, hv, hids, fun key value hval => ?_⟩
  · exact ⟨h.coordinates, hd.coordinates, hns, htype, hv ▸ hversion⟩
  · rw [hlookup, hlast, Option.some_or]
  · obtain ⟨id, hid, hsome⟩ := hread s hs
    exact ⟨id, (hids id).mpr (.inl hid), hsome⟩
  · simp [ef, hsource]
  · -- what satisfies all filters of the method shows that they survive
    have hnone : m.filterByMetaDoesNotExist.all = [] := by
      by_contra hne
      obtain ⟨key, rest, hcons⟩ := List.exists_cons_of_ne_nil hne
      have hmissing := hsat.filterByMetaDoesNotExist key (by rw [hcons]; exact List.mem_cons_self ..)
      rw [hlookup, Option.or_eq_none_iff] at hmissing
      simp [more, hcons] at hmissing
    refine ⟨fun a ha b hb hkey => ?_, fun key hkey => ?_, hnone⟩
    · have hboth := (hsat.filterByMeta a ha).symm.trans (hkey ▸ hsat.filterByMeta b hb)
      exact Option.some.inj hboth
    · have hsome := hsat.filterByMetaExists key hkey
      rw [hlookup] at hsome
      obtain ⟨value, hlast⟩ : ∃ value, lastMember m.metaEntries key = some value := by
        refine Option.isSome_iff_exists.mp ?_
        simpa [more, hnone] using hsome
      obtain ⟨a, ha, hakey, _⟩ := exists_of_lastMember hlast
      exact ⟨a, ha, hakey⟩
  · rw [hlookup] at hval
    cases hlast : lastMember m.metaEntries key with
    | some last =>
      rw [hlast, Option.some_or] at hval
      exact .inl hval
    | none =>
      rw [hlast, Option.none_or] at hval
      right
      cases hhead : m.filterByMetaDoesNotExist.all.head? with
      | none => simp [more, hhead] at hval
      | some missing =>
        simp only [more, hhead, Option.map_some, Option.toList_some, List.lookup_cons, List.lookup_nil] at hval
        split at hval
        · exact (Option.some.inj hval).symm
        · cases hval

end Method

/-! ### All methods of a class -/

namespace Dispatchers
variable {reader : UuidReader} {p : ProjectionType} {methods : List Method} {map info : Dispatchers}

/-- The method handles facts. -/
def Handles (methods : List Method) (m : Method) : Prop := m ∈ methods ∧ m.isEventHandlerMethod = .ok true

theorem collect_ok (h : collect reader p map methods = .ok info) :
    (∀ d ∈ map.values, d ∈ info.values) ∧
      (∀ d ∈ info.values, d ∈ map.values ∨ Handles methods d.dispatchMethod ∧
        ReflectionTools.discoverFactSpec reader p d.dispatchMethod = .ok d.spec) ∧
      ∀ m, Handles methods m → ∃ d ∈ info.values, d.dispatchMethod = m := by
  induction methods generalizing map with
  | nil =>
    cases h
    exact ⟨fun d hd => hd, fun d hd => .inl hd, fun m hm => nomatch hm.1⟩
  | cons m rest ih =>
    have hlift : ∀ {other}, Handles rest other → Handles (m :: rest) other :=
      fun h => ⟨List.mem_cons_of_mem _ h.1, h.2⟩
    rw [collect] at h
    split at h
    · cases h
    · rename_i hno
      obtain ⟨hkept, hfrom, hall⟩ := ih h
      refine ⟨hkept, fun d hd => (hfrom d hd).imp_right fun hd => ⟨hlift hd.1, hd.2⟩, fun other hother => ?_⟩
      rcases List.mem_cons.mp hother.1 with rfl | hrest
      · cases hno.symm.trans hother.2
      · exact hall other ⟨hrest, hother.2⟩
    · rename_i hyes
      split at h
      · cases h
      · rename_i fs hfs
        split at h
        · cases h
        · obtain ⟨hkept, hfrom, hall⟩ := ih h
          have hput : ∀ d, d ∈ map.values ++ [⟨m, fs⟩] → d ∈ info.values := hkept
          refine ⟨fun d hd => hput d (List.mem_append_left _ hd), fun d hd => ?_, fun other hother => ?_⟩
          · rcases hfrom d hd with hmap | hrest
            · rcases List.mem_append.mp hmap with hmap | hnew
              · exact .inl hmap
              · cases List.mem_singleton.mp hnew
                exact .inr ⟨⟨List.mem_cons_self .., hyes⟩, hfs⟩
            · exact .inr ⟨hlift hrest.1, hrest.2⟩
          · rcases List.mem_cons.mp hother.1 with rfl | hrest
            · exact ⟨_, hput _ (List.mem_append_right _ (List.mem_singleton_self _)), rfl⟩
            · exact hall other ⟨hrest, hother.2⟩

/-- The dispatchers of a class are its handler methods with their specifications. -/
theorem discovered (h : discoverDispatchInfo reader p methods = .ok info) :
    (∀ d ∈ info.values, Handles methods d.dispatchMethod ∧
        ReflectionTools.discoverFactSpec reader p d.dispatchMethod = .ok d.spec) ∧
      ∀ m, Handles methods m → ∃ d ∈ info.values, d.dispatchMethod = m := by
  unfold discoverDispatchInfo at h
  split at h
  · cases h
  · rename_i map hmap
    split at h
    · cases h
    · cases h
      obtain ⟨_, hfrom, hall⟩ := collect_ok hmap
      exact ⟨fun d hd => (hfrom d hd).resolve_left List.not_mem_nil, hall⟩

theorem declares_of_handles (h : discoverDispatchInfo reader p methods = .ok info) {m : Method}
    (hm : Handles methods m) : ∃ h : Handler, m.Declares reader p h := by
  obtain ⟨hfrom, hall⟩ := discovered h
  obtain ⟨d, hd, rfl⟩ := hall m hm
  obtain ⟨handler, hdeclares, _⟩ := ReflectionTools.discoverFactSpec_ok (hfrom d hd).2
  exact ⟨handler, hdeclares⟩

/-- No two methods have the same coordinates. -/
theorem eq_of_coordinates (h : discoverDispatchInfo reader p methods = .ok info) {m other : Method}
    (hm : Handles methods m) (hother : Handles methods other) (heq : m.coordinates p = other.coordinates p) :
    m = other := by
  obtain ⟨hfrom, hall⟩ := discovered h
  obtain ⟨d, hd, rfl⟩ := hall m hm
  obtain ⟨d', hd', rfl⟩ := hall other hother
  have hcoords : ∀ d ∈ info.values, d.dispatchMethod.coordinates p = some d.spec.coordinates := by
    intro d hd
    obtain ⟨handler, hdeclares, hspec⟩ := ReflectionTools.discoverFactSpec_ok (hfrom d hd).2
    obtain ⟨aggIds, _, hdiscover⟩ := handler.discoverFactSpec_eq
    rw [hdeclares.coordinates, hspec, hdiscover]
    rfl
  rw [hcoords d hd, hcoords d' hd'] at heq
  rw [List.inj_on_of_nodup_map info.keyed hd hd' (Option.some.inj heq)]

/-- A copied specification is matched by what its method still asks for. -/
theorem matched_copy_iff {ef : JSEngineFactory} {f : PgFact} {m : Method} {spec : FactSpec}
    (h : ReflectionTools.discoverFactSpec reader p m = .ok spec) :
    spec.copy.Engine ∧ spec.copy.Met ef f ↔ m.Kept reader ef p f := by
  obtain ⟨handler, hd, rfl⟩ := ReflectionTools.discoverFactSpec_ok h
  obtain ⟨aggIds, hids, hdiscover⟩ := handler.discoverFactSpec_eq
  rw [hdiscover, FactSpec.copy_eq]
  have hagg : (∀ id ∈ aggIds, id ∈ f.aggIds) ↔ m.MeetsAggIds reader f := by
    have hread : ∀ id, id ∈ aggIds ↔ ∃ s ∈ m.filterByAggId.getD [], reader.read s = some id := by
      intro id
      rw [hids, ← List.mem_map_of_injective (Option.some_injective UUID), ← hd.filterByAggId, List.mem_map]
    have hall : ∀ s ∈ m.filterByAggId.getD [], ∃ id, reader.read s = some id := by
      intro s hs
      have hmap : reader.read s ∈ handler.filterByAggId.map some := by
        rw [← hd.filterByAggId]
        exact List.mem_map.mpr ⟨s, hs, rfl⟩
      obtain ⟨id, _, hid⟩ := List.mem_map.mp hmap
      exact ⟨id, hid.symm⟩
    refine ⟨fun h s hs => ?_, fun h id hid => ?_⟩
    · obtain ⟨id, hid⟩ := hall s hs
      exact ⟨id, h id ((hread id).mpr ⟨s, hs, hid⟩), hid⟩
    · obtain ⟨s, hs, hid⟩ := (hread id).mp hid
      obtain ⟨id', hmem, hid'⟩ := h s hs
      rw [Option.some.inj (hid.symm.trans hid')]
      exact hmem
  have hmeta : (∀ e ∈ (LinkedMap.empty.putAll handler.filterByMeta).entries, f.meta? e.1 = some e.2) ↔
      ∀ key value, lastMember m.metaEntries key = some value → f.meta? key = some value := by
    have hlookup : ∀ key, (LinkedMap.empty.putAll handler.filterByMeta).entries.lookup key =
        lastMember m.metaEntries key := by
      intro key
      rw [LinkedMap.lookup_putAll, hd.filterByMeta]
      exact Option.or_none ..
    simp only [LinkedMap.mem_entries, hlookup, Prod.forall]
  refine ⟨fun ⟨_, hmet⟩ => ⟨?_, hmeta.mp hmet.meta, hagg.mp hmet.aggIds, fun source hsource => ?_⟩,
    fun hkept => ⟨fun script hscript => ?_, ?_⟩⟩
  · exact ⟨handler.coordinates, hd.coordinates, hmet.ns.symm, hmet.type handler.type rfl, hmet.version⟩
  · refine hmet.filterScript ⟨"js", source⟩ ?_
    show m.filterByScript.map _ = _
    rw [hsource]
    rfl
  · obtain ⟨source, _, hjs⟩ := Option.map_eq_some_iff.mp hscript
    rw [← hjs]
  · obtain ⟨coords, hcoords, hns, htype, hversion⟩ := hkept.names
    cases Option.some.inj (hd.coordinates.symm.trans hcoords)
    refine ⟨hns.symm, fun type hsome => htype.trans hsome, hversion, hagg.mpr hkept.filterByAggId,
      hmeta.mpr hkept.filterByMeta, (fun _ he => nomatch he), fun script hscript => ?_⟩
    obtain ⟨source, hsource, hjs⟩ := Option.map_eq_some_iff.mp hscript
    rw [← hjs]
    exact hkept.filterByScript source hsource

/-- What is subscribed with matches what some method still asks for, of an aggregate
only what is about itself. -/
theorem subscribed_iff {aggregateId : Option UUID} {ef : JSEngineFactory} {f : PgFact}
    (h : discoverDispatchInfo reader p methods = .ok info) :
    (∃ spec ∈ createFactSpecs info aggregateId, spec.matched ef f = some true) ↔
      (∃ m, Handles methods m ∧ m.Kept reader ef p f) ∧ ∀ id, aggregateId = some id → id ∈ f.aggIds := by
  obtain ⟨hfrom, hall⟩ := discovered h
  have hcopies : (∃ d ∈ info.values, d.spec.copy.Engine ∧ d.spec.copy.Met ef f) ↔
      ∃ m, Handles methods m ∧ m.Kept reader ef p f := by
    refine ⟨fun ⟨d, hd, hmet⟩ => ?_, fun ⟨m, hm, hkept⟩ => ?_⟩
    · exact ⟨d.dispatchMethod, (hfrom d hd).1, (matched_copy_iff (hfrom d hd).2).mp hmet⟩
    · obtain ⟨d, hd, rfl⟩ := hall m hm
      exact ⟨d, hd, (matched_copy_iff (hfrom d hd).2).mpr hkept⟩
  rw [← hcopies]
  simp only [FactSpec.matched_iff]
  unfold createFactSpecs
  cases aggregateId with
  | none => simp
  | some id =>
    simp only [List.map_map, List.mem_map, Function.comp_apply, exists_exists_and_eq_and,
      FactSpec.met_addAggId, Option.some.injEq, forall_eq']
    refine ⟨fun ⟨d, hd, hengine, hmet, hid⟩ => ⟨⟨d, hd, hengine, hmet⟩, hid⟩,
      fun ⟨⟨d, hd, hengine, hmet⟩, hid⟩ => ⟨d, hd, hengine, hmet, hid⟩⟩

/-- The filters of each method survive the copy, or what is let in too much is wanted by
another method anyway. -/
def AllCovered (reader : UuidReader) (p : ProjectionType) (aggregateId : Option UUID) (methods : List Method) :
    Prop :=
  ∀ m, Handles methods m → m.Survives ∨
    ∃ other, Handles methods other ∧ other.Survives ∧ other.Covers reader p aggregateId m

/-- A projection is subscribed with what its methods declare exactly if their filters
survive or are covered. -/
theorem declared_iff {aggregateId : Option UUID} (h : discoverDispatchInfo reader p methods = .ok info) :
    (∀ ef, ∀ f : PgFact, f.Stored reader →
      ((∃ spec ∈ createFactSpecs info aggregateId, spec.matched ef f = some true) ↔
        (∃ m, Handles methods m ∧ m.Satisfied reader ef p f) ∧ ∀ id, aggregateId = some id → id ∈ f.aggIds)) ↔
      AllCovered reader p aggregateId methods := by
  simp only [subscribed_iff h]
  refine ⟨fun hall => ?_, fun hcovered ef f _ => ?_⟩
  · -- for a method that does not survive, some other one is satisfied wherever it is let in
    have hother : ∀ m, Handles methods m → ¬ m.Survives → ∀ handler : Handler, m.Declares reader p handler →
        handler.version ≠ 0 ∧ ∃ other, Handles methods other ∧ other.Covers reader p aggregateId m := by
      intro m hm hs handler hd
      -- a version that no method is for, and a value that none asks for
      obtain ⟨fresh, hfresh⟩ := Infinite.exists_notMem_finset
        ((methods.filterMap fun m => (m.coordinates p).map fun c => c.version).toFinset)
      obtain ⟨extra, hextra⟩ := Infinite.exists_notMem_finset
        ((methods.flatMap fun m => m.filterByMeta.all.map fun a => a.value).toFinset)
      have hversion : handler.version = 0 ∨
          handler.version = if handler.version = 0 then fresh else handler.version := by
        by_cases h0 : handler.version = 0
        · exact .inl h0
        · exact .inr (if_neg h0).symm
      obtain ⟨f, hstored, hkept, hunsat, hns, htype, hv, hids, hmeta⟩ :=
        Method.exists_kept reader aggregateId hd hs hversion extra
      obtain ⟨⟨other, hother, hsat⟩, _⟩ := (hall _ f hstored).mp
        ⟨⟨m, hm, hkept⟩, fun id hid => (hids id).mpr (.inr hid)⟩
      obtain ⟨coords, hcoords, hns', htype', hversion'⟩ := hsat.names
      have hne : coords ≠ handler.coordinates := by
        intro heq
        have hsame : other = m := eq_of_coordinates h hother hm (by rw [hcoords, heq, hd.coordinates])
        exact hunsat (hsame ▸ hsat)
      have heq : ∀ version, coords.version = version → coords = ⟨handler.ns, some handler.type, version⟩ := by
        rintro version rfl
        rw [← hns, ← htype, hns', htype']
      have hzero : coords.version = 0 := by
        refine hversion'.resolve_right fun hw => ?_
        rw [hv] at hw
        split at hw
        · refine hfresh (List.mem_toFinset.mpr (List.mem_filterMap.mpr ⟨other, hother.1, ?_⟩))
          rw [hcoords, Option.map_some, hw]
        · exact hne (heq _ hw)
      refine ⟨fun h0 => hne ((heq 0 hzero).trans (by rw [← h0]; rfl)), other, hother, ?_⟩
      refine ⟨⟨_, hd.coordinates, by rw [hcoords, heq 0 hzero]; rfl⟩, fun a ha => ?_, fun s hs => ?_,
        fun source hsource => ?_⟩
      · refine (hmeta _ _ (hsat.filterByMeta a ha)).resolve_right fun hvalue => hextra ?_
        rw [List.mem_toFinset, ← hvalue]
        exact List.mem_flatMap.mpr ⟨other, hother.1, List.mem_map.mpr ⟨a, ha, rfl⟩⟩
      · obtain ⟨id, hid, hread⟩ := hsat.filterByAggId s hs
        refine ⟨id, hread, ((hids id).mp hid).symm.imp_right fun hmem => ?_⟩
        have hmap : some id ∈ (m.filterByAggId.getD []).map reader.read := by
          rw [hd.filterByAggId]
          exact List.mem_map.mpr ⟨id, hmem, rfl⟩
        exact List.mem_map.mp hmap
      · have hrun := hsat.filterByScript source hsource
        simpa using hrun
    intro m hm
    by_cases hs : m.Survives
    · exact .inl hs
    · obtain ⟨handler, hd⟩ := declares_of_handles h hm
      obtain ⟨_, other, hmem, hc⟩ := hother m hm hs handler hd
      refine .inr ⟨other, hmem, ?_, hc⟩
      by_contra hs'
      obtain ⟨handler', hd'⟩ := declares_of_handles h hmem
      obtain ⟨coords, _, hcoords⟩ := hc.coordinates
      have hzero := Option.some.inj (hd'.coordinates.symm.trans hcoords)
      exact (hother other hmem hs' handler' hd').1 (congrArg FactSpecCoordinates.version hzero)
  · refine and_congr_left fun hagg => ⟨fun ⟨m, hm, hkept⟩ => ?_, fun ⟨m, hm, hsat⟩ => ⟨m, hm, hsat.kept⟩⟩
    rcases hcovered m hm with hs | ⟨other, hother, hs, hc⟩
    · exact ⟨m, hm, hkept.satisfied hs⟩
    · exact ⟨other, hother, (hkept.covered hc hagg).satisfied hs⟩

/-- Copies match what the original matches, and copies for another namespace what it
would match there, exactly if its keys are implied. A projection is subscribed with
what its methods declare exactly if their filters survive or are covered. -/
theorem derived_iff (reader : UuidReader) :
    (∀ spec : FactSpec, (∀ ef, ∀ f : PgFact, f.Stored reader → spec.copy.matched ef f = spec.matched ef f) ↔
      spec.KeysImplied) ∧
    (∀ (spec : FactSpec) (newNs : String) (hns : blank newNs = false), (∃ spec', spec.withNs newNs = .ok spec' ∧
        ∀ ef, ∀ f : PgFact, f.Stored reader →
          spec'.matched ef f = { spec with ns := newNs, ns_given := hns }.matched ef f) ↔
      spec.KeysImplied) ∧
    ∀ (p : ProjectionType) (methods : List Method) (info : Dispatchers) (aggregateId : Option UUID),
      discoverDispatchInfo reader p methods = .ok info →
        ((∀ ef, ∀ f : PgFact, f.Stored reader →
          ((∃ spec ∈ createFactSpecs info aggregateId, spec.matched ef f = some true) ↔
            (∃ m, Handles methods m ∧ m.Satisfied reader ef p f) ∧
              ∀ id, aggregateId = some id → id ∈ f.aggIds)) ↔
          AllCovered reader p aggregateId methods) := by
  refine ⟨fun spec => ?_, fun spec newNs hns => ?_, fun p methods info aggregateId h => declared_iff h⟩
  · rw [FactSpec.copy_eq]
    exact FactSpec.keyless_matched_iff reader spec
  · rw [FactSpec.withNs_eq hns]
    simp only [Except.ok.injEq, exists_eq_left']
    exact FactSpec.keyless_matched_iff reader { spec with ns := newNs, ns_given := hns }

/-- Wants to be told of the orders that were cancelled. -/
def onCancelled : Method where
  toString := "void Orders.apply(Fact)"
  declaringClass := "Orders"
  parameterTypes := [.other "org.factcast.core.Fact"]
  handlerFor := some ⟨"orders", "OrderChanged", 0⟩
  filterByMetaExists := { single := some "cancelled" }

def orders : ProjectionType := ⟨"Orders", [⟨"Orders", true, {}⟩], []⟩

def cancelledOrders : FactSpec :=
  { ns := "orders", ns_given := orders_given, type := some "OrderChanged"
    metaKeyExists := LinkedMap.empty.put "cancelled" true }

/-- An order that was not cancelled. -/
def changedOrder : PgFact where
  id := ⟨0⟩
  ns := "orders"
  type := some "OrderChanged"
  version := 1
  aggIds := []
  jsonHeader := askedHeader "orders" orders_given "OrderChanged" 1 [] []
  jsonPayload := .null

/-- It is not matched by the specification, but by copies of it, and by what a projection
subscribes with whose one handler wants cancelled orders. -/
theorem cancelled_key_left_behind :
    changedOrder.Stored .canonical ∧
      cancelledOrders.matched (fun _ _ _ => true) changedOrder = some false ∧
      cancelledOrders.copy.matched (fun _ _ _ => true) changedOrder = some true ∧
      (∃ spec, { cancelledOrders with ns := "*", ns_given := any_given }.withNs "orders" = .ok spec ∧
        spec.matched (fun _ _ _ => true) changedOrder = some true) ∧
      ∃ info, discoverDispatchInfo .canonical orders [onCancelled] = .ok info ∧
        (∃ spec ∈ createFactSpecs info none, spec.matched (fun _ _ _ => true) changedOrder = some true) ∧
        ¬ ∃ m, Handles [onCancelled] m ∧ m.Satisfied .canonical (fun _ _ _ => true) orders changedOrder := by
  refine ⟨⟨⟨1, ⟨⟨0⟩, changedOrder.jsonHeader, .null⟩⟩, rfl⟩, rfl, rfl, ⟨_, rfl, rfl⟩,
    ⟨empty.put ⟨onCancelled, cancelledOrders⟩ rfl, rfl, ⟨_, List.mem_cons_self .., rfl⟩, ?_⟩⟩
  intro ⟨m, hm, hsat⟩
  obtain rfl := List.mem_singleton.mp hm.1
  exact Bool.noConfusion (hsat.filterByMetaExists "cancelled" (by decide))

/-- The handler is not covered. -/
theorem derived_iff_orders : ¬ AllCovered .canonical orders none [onCancelled] := by
  intro hcovered
  have h := ((derived_iff .canonical).2.2 orders [onCancelled] (empty.put ⟨onCancelled, cancelledOrders⟩ rfl) none
    rfl).mpr hcovered (fun _ _ _ => true) changedOrder ⟨⟨1, ⟨⟨0⟩, changedOrder.jsonHeader, .null⟩⟩, rfl⟩
  obtain ⟨⟨m, hm, hsat⟩, _⟩ := h.mp ⟨_, List.mem_cons_self .., rfl⟩
  obtain rfl := List.mem_singleton.mp hm.1
  exact Bool.noConfusion (hsat.filterByMetaExists "cancelled" (by decide))

end Dispatchers
end FactCast
