import FactCast.Factus.SnapshotCache
import Mathlib.Data.List.Basic

/-! Which snapshots are restored.

Versions of an application that share a cache may declare another revision of a class
or another serializer. A snapshot should only be restored where the same is declared
as where it was stored. Keys of old see to that (`createLegacyKeyFor_declared`). The
keys of today do not, and neither does anything else: what was stored last is restored
by whomever, so all depends on who that was (`restores_compatible_iff`). -/
namespace FactCast
variable {β α : Type}

/-! ### Keys -/

theorem UUID.toString_injective {a b : UUID} (h : a.toString = b.toString) : a = b := by
  have hvalue : hexValue a.toString.toList = hexValue b.toString.toList := by rw [h]
  rw [hexValue_toString, hexValue_toString] at hvalue
  cases a
  cases b
  exact congrArg UUID.mk (BitVec.eq_of_toNat_eq hvalue)

theorem chars_split {c : Char} {s t u v : List Char} (hs : c ∉ s) (ht : c ∉ t)
    (h : s ++ c :: u = t ++ c :: v) : s = t ∧ u = v := by
  induction s generalizing t with
  | nil =>
    cases t with
    | nil => exact ⟨rfl, List.tail_eq_of_cons_eq h⟩
    | cons d t => exact absurd (List.mem_cons.mpr (.inl (List.head_eq_of_cons_eq h))) ht
  | cons e s ih =>
    cases t with
    | nil => exact absurd (List.mem_cons.mpr (.inl (List.head_eq_of_cons_eq h).symm)) hs
    | cons d t =>
      obtain ⟨hst, huv⟩ := ih (fun hc => hs (List.mem_cons_of_mem _ hc))
        (fun hc => ht (List.mem_cons_of_mem _ hc)) (List.tail_eq_of_cons_eq h)
      have hhead : e = d := List.head_eq_of_cons_eq h
      exact ⟨by rw [hst, hhead], huv⟩

/-- Where a separator occurs in neither, the parts before it are the same, and the parts behind. -/
theorem split_eq {s t u v : String} {c : Char} (hs : c ∉ s.toList) (ht : c ∉ t.toList)
    (h : s ++ String.singleton c ++ u = t ++ String.singleton c ++ v) : s = t ∧ u = v := by
  have hchars := congrArg String.toList h
  simp only [String.toList_append, String.toList_singleton, List.append_assoc, List.singleton_append] at hchars
  obtain ⟨hst, huv⟩ := chars_split hs ht hchars
  exact ⟨String.toList_injective hst, String.toList_injective huv⟩

theorem toList_revision (n : Int) :
    (toString n).toList = (if n < 0 then ['-'] else []) ++ Nat.toDigits 10 n.natAbs := by
  cases n with
  | ofNat n => exact Nat.toList_repr
  | negSucc n =>
    have hchars : (toString (Int.negSucc n)).toList = "-".toList ++ (Nat.repr (n + 1)).toList :=
      String.toList_append
    rw [hchars, Nat.toList_repr, if_pos (Int.negSucc_lt_zero n)]
    rfl

theorem revision_no_underscore (n : Int) : '_' ∉ (toString n).toList := by
  rw [toList_revision, List.mem_append]
  apply not_or_intro
  · split
    · decide
    · decide
  · exact Nat.underscore_not_in_toDigits

theorem revision_injective {m n : Int} (h : toString m = toString n) : m = n := by
  have hchars := congrArg String.toList h
  rw [toList_revision, toList_revision] at hchars
  have hminus : ∀ k : Nat, '-' ∉ Nat.toDigits 10 k := by
    intro k hk
    exact absurd (Nat.isDigit_of_mem_toDigits (by decide) (le_refl 10) hk) (by decide)
  have hvalue : ∀ k l : Nat, Nat.toDigits 10 k = Nat.toDigits 10 l → k = l := by
    intro k l hkl
    rw [← Nat.ofDigitChars_ten_toDigits (n := k), hkl, Nat.ofDigitChars_ten_toDigits]
  have hsign : (m < 0 ↔ n < 0) ∧ Nat.toDigits 10 m.natAbs = Nat.toDigits 10 n.natAbs := by
    split at hchars
    · split at hchars
      · exact ⟨by tauto, List.append_cancel_left hchars⟩
      · have hmem : '-' ∈ [] ++ Nat.toDigits 10 n.natAbs := by
          rw [← hchars]
          exact List.mem_append_left _ (List.mem_singleton_self _)
        exact absurd hmem (hminus n.natAbs)
    · split at hchars
      · have hmem : '-' ∈ [] ++ Nat.toDigits 10 m.natAbs := by
          rw [hchars]
          exact List.mem_append_left _ (List.mem_singleton_self _)
        exact absurd hmem (hminus m.natAbs)
      · exact ⟨by tauto, hchars⟩
  have habs := hvalue _ _ hsign.2
  omega

namespace RedissonSnapshotCache

/-- The first part of a key. -/
theorem classKey_binary (c : ClassName) : ';' ∉ ("sc_" ++ c.name).toList := by
  have hscheme : ';' ∉ "sc_".toList := by decide
  rw [String.toList_append, List.mem_append]
  exact not_or_intro hscheme c.binary

theorem classKey_injective {c d : ClassName} (h : "sc_" ++ c.name = "sc_" ++ d.name) : c = d := by
  have hchars := congrArg String.toList h
  rw [String.toList_append, String.toList_append, List.append_cancel_left_eq] at hchars
  cases c
  cases d
  simpa using String.toList_injective hchars

theorem createKeyFor_injective {a b : SnapshotIdentifier} (h : createKeyFor a = createKeyFor b) : a = b := by
  obtain ⟨clazz, aggregateId⟩ := a
  obtain ⟨clazz', aggregateId'⟩ := b
  have hseparated : ∀ (key u : String), ';' ∈ (key ++ ";" ++ u).toList := by
    intro key u
    simp
  cases aggregateId with
  | none =>
    cases aggregateId' with
    | none =>
      obtain rfl := classKey_injective (c := clazz) (d := clazz') h
      rfl
    | some u =>
      have hsame : "sc_" ++ clazz.name = "sc_" ++ clazz'.name ++ ";" ++ u.toString := h
      have hnone := classKey_binary clazz
      rw [hsame] at hnone
      exact absurd (hseparated _ _) hnone
  | some u =>
    cases aggregateId' with
    | none =>
      have hsame : "sc_" ++ clazz.name ++ ";" ++ u.toString = "sc_" ++ clazz'.name := h
      have hnone := classKey_binary clazz'
      rw [← hsame] at hnone
      exact absurd (hseparated _ _) hnone
    | some v =>
      obtain ⟨hclass, huuid⟩ := split_eq (c := ';') (classKey_binary clazz) (classKey_binary clazz') h
      rw [classKey_injective hclass, UUID.toString_injective huuid]

end RedissonSnapshotCache

/-! ### What is declared -/

/-- A revision, if any, and the identifier of a serializer. -/
structure Origin where
  revision : Option Int
  serializerId : String
deriving DecidableEq

def Stored.origin (snapshot : Stored β) : Origin := ⟨snapshot.revision, snapshot.snapshotSerializerId⟩

/-- What an application declares for the class of an identifier. -/
def declared (app : ApplicationVersion β α) (id : SnapshotIdentifier) : Origin :=
  let d := app id.projectionClass
  ⟨d.metaData.map ProjectionMetaData.revision, d.snapshots.serializer.id⟩

/-! ### Keys of old tell what was declared -/

theorem ok_of_bind {ε A B : Type} {x : Except ε A} {f : A → Except ε B} {b : B} (h : x >>= f = .ok b) :
    ∃ a, x = .ok a ∧ f a = .ok b := by
  cases x with
  | error e => cases h
  | ok a => exact ⟨a, rfl, h⟩

theorem ScopedName.with_ok {key key' suffix : String} (h : with_ key suffix = .ok key') :
    key' = key ++ "_" ++ suffix := by
  unfold with_ at h
  split at h
  · cases h
  · exact (Except.ok.inj h).symm

theorem ScopedName.fromProjectionMetaData_ok {d : Declaration β α} {clazz : ClassName} {key : String}
    (h : fromProjectionMetaData d clazz = .ok key) :
    ∃ metaData, d.metaData = some metaData ∧ key = d.name metaData ++ "_" ++ toString metaData.revision := by
  unfold fromProjectionMetaData at h
  split at h
  · cases h
  · exact ⟨_, ‹_›, (Except.ok.inj h).symm⟩

namespace RedissonSnapshotCache
variable {app app' : ApplicationVersion β α} {id : SnapshotIdentifier} {key : String}

/-- A key of old, put together. -/
theorem createLegacyKeyFor_ok (h : createLegacyKeyFor app id = .ok key) :
    ∃ metaData, (app id.projectionClass).metaData = some metaData ∧
      key = (app id.projectionClass).name metaData ++ "_" ++ toString metaData.revision ++ "_" ++
        (if id.aggregateId.isSome then LegacySnapshotKeys.RepoType.aggregate else .snapshot).id ++ "_" ++
        (app id.projectionClass).snapshots.serializer.id ++
        (id.aggregateId.getD LegacySnapshotKeys.defaultUuid).toString := by
  unfold createLegacyKeyFor LegacySnapshotKeys.createKeyForType at h
  have hrepo : ∀ repoType aggregateUUID, LegacySnapshotKeys.createKeyForRepoType repoType
      (app id.projectionClass) id.projectionClass (app id.projectionClass).snapshots.serializer.id
        aggregateUUID = .ok key →
      ∃ metaData, (app id.projectionClass).metaData = some metaData ∧
        key = (app id.projectionClass).name metaData ++ "_" ++ toString metaData.revision ++ "_" ++
          repoType.id ++ "_" ++ (app id.projectionClass).snapshots.serializer.id ++
          (aggregateUUID.getD LegacySnapshotKeys.defaultUuid).toString := by
    intro repoType aggregateUUID hcreated
    obtain ⟨revised, hrevised, hrest⟩ := ok_of_bind hcreated
    obtain ⟨repo, hrepo, hrest⟩ := ok_of_bind hrest
    obtain ⟨classLevelKey, hclass, hkey⟩ := ok_of_bind hrest
    obtain ⟨metaData, hmeta, hname⟩ := ScopedName.fromProjectionMetaData_ok hrevised
    refine ⟨metaData, hmeta, ?_⟩
    rw [← Except.ok.inj hkey, ScopedName.with_ok hclass, ScopedName.with_ok hrepo, hname]
  cases haggregate : id.aggregateId with
  | none =>
    rw [haggregate] at h
    exact hrepo .snapshot none h
  | some u =>
    rw [haggregate] at h
    exact hrepo .aggregate (some u) h

/-- What lies under a key of old was stored where the same is declared, as long as the
class kept its name. -/
theorem createLegacyKeyFor_declared (h : createLegacyKeyFor app id = .ok key)
    (h' : createLegacyKeyFor app' id = .ok key)
    (hname : ∀ m m', (app id.projectionClass).metaData = some m → (app' id.projectionClass).metaData = some m' →
      (app id.projectionClass).name m = (app' id.projectionClass).name m') :
    declared app id = declared app' id := by
  obtain ⟨m, hm, hkey⟩ := createLegacyKeyFor_ok h
  obtain ⟨m', hm', hkey'⟩ := createLegacyKeyFor_ok h'
  have hchars := congrArg String.toList (hkey.symm.trans hkey')
  rw [hname m m' hm hm'] at hchars
  simp only [String.toList_append, List.append_assoc, List.append_cancel_left_eq] at hchars
  obtain ⟨hrevision, hserializer⟩ := chars_split (c := '_') (revision_no_underscore _)
    (revision_no_underscore _) hchars
  simp only [List.append_eq, List.nil_append, List.append_cancel_left_eq,
    List.append_cancel_right_eq] at hserializer
  unfold declared
  dsimp only
  rw [hm, hm', Option.map_some, Option.map_some, revision_injective (String.toList_injective hrevision),
    String.toList_injective hserializer]

end RedissonSnapshotCache

/-! ### What is restored -/

/-- What is done with a cache: by versions of an application, by Redis, and by libraries
of old. -/
inductive Use (β α : Type) where
  | store (app : ApplicationVersion β α) (id : SnapshotIdentifier) (projection : α) (state : UUID)
  | find (app : ApplicationVersion β α) (id : SnapshotIdentifier)
  | remove (app : ApplicationVersion β α) (id : SnapshotIdentifier)
  /-- Retention time is over. -/
  | expire (id : SnapshotIdentifier)
  | legacy (key : String) (snapshot : Option (LegacySnapshot β))

namespace Redis
open RedissonSnapshotCache (createKeyFor)

def empty : Redis β := ⟨fun _ => none, fun _ => none⟩

def use (redis : Redis β) : Use β α → Redis β
  | .store app id projection state => SnapshotRepository.store app id projection state redis
  | .find app id => (SnapshotRepository.findLatest app id redis).2
  | .remove app id => RedissonSnapshotCache.remove app id redis
  | .expire id => { redis with buckets := Function.update redis.buckets (createKeyFor id) none }
  | .legacy key snapshot =>
    { redis with legacyBuckets := Function.update redis.legacyBuckets key snapshot }

def afterwards (uses : List (Use β α)) : Redis β := uses.foldl use empty

end Redis

/-- Whatever is restored was stored under the revision and by the serializer that are declared. -/
def RestoresOnlyCompatible (app : ApplicationVersion β α) (id : SnapshotIdentifier) (redis : Redis β) : Prop :=
  ∀ snapshot redis', RedissonSnapshotCache.find app id redis = (.ok (some snapshot), redis') →
    snapshot.origin = declared app id

/-- Where the snapshots come from that were stored last, and what old libraries left. -/
structure Origins (β : Type) where
  latest : SnapshotIdentifier → Option Origin
  legacy : String → Option (LegacySnapshot β)

namespace Origins
open RedissonSnapshotCache (createLegacyKeyFor)

def empty : Origins β := ⟨fun _ => none, fun _ => none⟩

def use (o : Origins β) : Use β α → Origins β
  | .store app id _ _ => { o with latest := Function.update o.latest id (some (declared app id)) }
  | .find app id =>
    match o.latest id, (createLegacyKeyFor app id).toOption.bind o.legacy with
    | none, some _ => { o with latest := Function.update o.latest id (some (declared app id)) }
    | _, _ => o
  | .remove app id =>
    { latest := Function.update o.latest id none
      legacy := (createLegacyKeyFor app id).toOption.elim o.legacy fun key => Function.update o.legacy key none }
  | .expire id => { o with latest := Function.update o.latest id none }
  | .legacy key snapshot => { o with legacy := Function.update o.legacy key snapshot }

/-- Where the snapshot of an identifier comes from, if there is one. -/
def afterwards (uses : List (Use β α)) : Origins β := uses.foldl use empty

end Origins

/-- The origins are those of what lies in the buckets. -/
structure Redis.Shows (redis : Redis β) (o : Origins β) : Prop where
  latest : ∀ id, (redis.buckets (RedissonSnapshotCache.createKeyFor id)).map Stored.origin = o.latest id
  legacy : redis.legacyBuckets = o.legacy

section Shows
variable {redis : Redis β} {o : Origins β} {app : ApplicationVersion β α} {id : SnapshotIdentifier}

/-- A bucket is written, and no other identifier's. -/
theorem Redis.Shows.update (h : redis.Shows o) (id : SnapshotIdentifier) (stored : Option (Stored β)) :
    Redis.Shows ⟨Function.update redis.buckets (RedissonSnapshotCache.createKeyFor id) stored,
        redis.legacyBuckets⟩
      { o with latest := Function.update o.latest id (stored.map Stored.origin) } where
  latest id' := by
    dsimp only
    rcases eq_or_ne id' id with rfl | hne
    · rw [Function.update_self, Function.update_self]
    · have hkey : RedissonSnapshotCache.createKeyFor id' ≠ RedissonSnapshotCache.createKeyFor id :=
        fun hkey => hne (RedissonSnapshotCache.createKeyFor_injective hkey)
      rw [Function.update_of_ne hkey, Function.update_of_ne hne]
      exact h.latest id'
  legacy := h.legacy

theorem findLatest_redis (app : ApplicationVersion β α) (id : SnapshotIdentifier) (redis : Redis β) :
    (SnapshotRepository.findLatest app id redis).2 = (RedissonSnapshotCache.find app id redis).2 := by
  unfold SnapshotRepository.findLatest
  split
  · rw [‹RedissonSnapshotCache.find app id redis = _›]
  · rw [‹RedissonSnapshotCache.find app id redis = _›]
  · rw [‹RedissonSnapshotCache.find app id redis = _›]

/-- A snapshot of old is migrated where there is no other. -/
theorem Redis.Shows.find (h : redis.Shows o) (app : ApplicationVersion β α) (id : SnapshotIdentifier) :
    (RedissonSnapshotCache.find app id redis).2.Shows (o.use (.find app id)) := by
  have hlatest := h.latest id
  unfold RedissonSnapshotCache.find Origins.use
  dsimp only
  rw [← h.legacy]
  cases hbucket : redis.buckets (RedissonSnapshotCache.createKeyFor id) with
  | some snapshot =>
    rw [hbucket] at hlatest
    rw [← hlatest]
    exact h
  | none =>
    rw [hbucket] at hlatest
    rw [← hlatest]
    cases hkey : RedissonSnapshotCache.createLegacyKeyFor app id with
    | error e => exact h
    | ok key =>
      dsimp only [Except.toOption, Option.bind_some]
      cases redis.legacyBuckets key with
      | none => exact h
      | some s =>
        have hmigrated := h.update id (some (RedissonSnapshotCache.migrated app id s))
        rw [← h.legacy] at hmigrated
        exact hmigrated

theorem Redis.Shows.use (h : redis.Shows o) (u : Use β α) : (redis.use u).Shows (o.use u) := by
  cases u with
  | store app id projection state => exact h.update id (some _)
  | find app id =>
    unfold Redis.use
    dsimp only
    rw [findLatest_redis]
    exact h.find app id
  | remove app id =>
    have hremoved := h.update id none
    unfold Redis.use RedissonSnapshotCache.remove Origins.use
    dsimp only
    cases RedissonSnapshotCache.createLegacyKeyFor app id with
    | error e => exact hremoved
    | ok key =>
      refine ⟨hremoved.latest, ?_⟩
      dsimp only [Except.toOption, Option.elim]
      rw [h.legacy]
  | expire id => exact h.update id none
  | legacy key snapshot =>
    refine ⟨h.latest, ?_⟩
    unfold Redis.use Origins.use
    dsimp only
    rw [h.legacy]

theorem shows_afterwards (uses : List (Use β α)) :
    (Redis.afterwards uses).Shows (Origins.afterwards uses) := by
  unfold Redis.afterwards Origins.afterwards
  have hempty : (Redis.empty : Redis β).Shows Origins.empty := ⟨fun _ => rfl, rfl⟩
  revert hempty
  generalize (Redis.empty : Redis β) = redis
  generalize (Origins.empty : Origins β) = o
  intro h
  induction uses generalizing redis o with
  | nil => exact h
  | cons u rest ih => exact ih _ _ (h.use u)

/-- What lies in the bucket is restored, whoever stored it. -/
theorem Redis.Shows.restores_iff (h : redis.Shows o) : RestoresOnlyCompatible app id redis ↔
    ∀ origin, o.latest id = some origin → origin = declared app id := by
  have hlatest := h.latest id
  rw [← hlatest]
  unfold RestoresOnlyCompatible RedissonSnapshotCache.find
  cases redis.buckets (RedissonSnapshotCache.createKeyFor id) with
  | some snapshot =>
    constructor
    · rintro hrestores origin horigin
      cases horigin
      exact hrestores snapshot redis rfl
    · rintro horigin snapshot' redis' hfound
      cases hfound
      exact horigin _ rfl
  | none =>
    constructor
    · intro _ origin horigin
      cases horigin
    · -- nothing but a snapshot of old can be found
      intro _ snapshot redis' hfound
      dsimp only at hfound
      split at hfound
      · cases hfound
      · split at hfound
        · cases hfound
          rfl
        · cases hfound

end Shows

/-- **A snapshot is restored by whatever application finds it.** So only compatible ones
are restored if and only if the last one that was stored is compatible. -/
theorem restores_compatible_iff (uses : List (Use β α)) (app : ApplicationVersion β α)
    (id : SnapshotIdentifier) : RestoresOnlyCompatible app id (Redis.afterwards uses) ↔
      ∀ origin, (Origins.afterwards uses).latest id = some origin → origin = declared app id :=
  (shows_afterwards uses).restores_iff

/-! ### A count of orders -/

theorem orders_binary : ';' ∉ "Orders".toList := by decide

def orders : SnapshotIdentifier := ⟨⟨"Orders", orders_binary⟩, none⟩

def declaring (revision : Int) (serializer : String) : ApplicationVersion Nat Nat := fun _ => {
  metaData := some ⟨"", revision⟩
  nameFor := "Orders"
  snapshots := { serializer := ⟨serializer, id, .ok⟩ } }

/-- What was stored under the first revision is restored under the second, and by another serializer. -/
theorem revision_ignored :
    ¬RestoresOnlyCompatible (declaring 2 "json") orders
        (.afterwards [.store (declaring 1 "json") orders 7 ⟨0⟩]) ∧
      ¬RestoresOnlyCompatible (declaring 1 "xml") orders
        (.afterwards [.store (declaring 1 "json") orders 7 ⟨0⟩]) := by
  constructor
  · intro h
    exact absurd (h _ _ rfl) (by decide)
  · intro h
    exact absurd (h _ _ rfl) (by decide)

end FactCast
