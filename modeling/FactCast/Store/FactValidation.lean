import FactCast.Machine.Run
import FactCast.Store.Registry

/-! What is published is valid.

Before facts are published each of them is validated, by the schema that the registry has
for its key then; the registry may change at any time, also between two facts of one
request, which are validated in any order. If there are errors, nothing is published, and
the first of them are told (`extractMessages`). -/
namespace FactCast.FactValidator

structure StoreConfigurationProperties where
  isSchemaRegistryConfigured : Bool
  isValidationEnabled : Bool
  isAllowUnvalidatedPublish : Bool

/-- The messages of what validation throws. It does not throw without one. -/
structure Schema (J : Type) where
  validate : J → List String

/-- What comes of asking for a schema: the database may fail, and what is stored may not be
the text of a schema. -/
inductive Lookup (J : Type) where
  | found (schema : Schema J)
  | missing
  | thrown

abbrev SchemaRegistry (J : Type) := SchemaKey → Lookup J

/-- What there is to know of a fact, and the parser of payloads with its message. -/
structure FactReader (F J : Type) where
  ns : F → Option String
  type : F → Option String
  version : F → Int
  toValidate : F → Except String J

def maxErrorMessages : Nat := 25

/-- The text of a key. -/
def keyText (key : SchemaKey) : String :=
  "SchemaKey(ns=" ++ key.ns ++ ", type=" ++ key.type ++ ", version=" ++ toString key.version ++ ")"

/-- The text of an error. -/
def errorText (message : String) : String := "FactValidationError(message=" ++ message ++ ")"

section Validate
variable {F J : Type} (props : StoreConfigurationProperties) (reader : FactReader F J) (registry : SchemaRegistry J)

/-- None without a namespace or a type, of which it throws. -/
def schemaKey (fact : F) : Option SchemaKey :=
  (reader.ns fact).bind fun ns => (reader.type fact).map fun type => ⟨ns, type, reader.version fact⟩

def isValidateable (fact : F) : Bool :=
  (reader.ns fact).isSome && (reader.type fact).isSome && decide (0 < reader.version fact)

/-- The schema is asked for outside of the `try`. -/
def doValidate (fact : F) (key : SchemaKey) : Option (List String) :=
  match registry key with
  | .found schema =>
    match reader.toValidate fact with
    | .ok toValidate => some (schema.validate toValidate)
    | .error message => some ["Fact is not parseable. " ++ message]
  | .missing =>
    if props.isAllowUnvalidatedPublish then some []
    else some ["Fact is not validatable. The schema for " ++ keyText key ++ " is missing."]
  | .thrown => none

/-- The errors, unless this throws: for the want of a key, or as the lookup does. -/
def validate (fact : F) : Option (List String) :=
  if props.isSchemaRegistryConfigured && props.isValidationEnabled then
    if isValidateable reader fact then (schemaKey reader fact).bind (doValidate props reader registry fact)
    else if props.isAllowUnvalidatedPublish then some []
    else (schemaKey reader fact).map fun _ =>
      ["Fact is not validatable. (usually lacks necessary information like namespace, type or version)"]
  else some []

end Validate

/-- The first errors, without repetition, and how many more there are. -/
def extractMessages (errors : List String) : List String :=
  let orderedSet := errors.eraseDups
  (orderedSet.take maxErrorMessages).map errorText ++
    if maxErrorMessages < orderedSet.length then
      ["... " ++ toString (orderedSet.length - maxErrorMessages) ++ " more validation errors were suppressed"]
    else []

/-! ### Requests -/

/-- A fact of a request, and what came of its validation. -/
structure Checked (F : Type) where
  fact : F
  result : Option (Option (List String)) := none

inductive Outcome (F : Type) where
  | published (facts : List F)
  | refused (facts : List F) (messages : List String)
  /-- A validation has thrown. -/
  | thrown (facts : List F)
  /-- There are no errors, but the store does not publish, or the state has changed. -/
  | declined (facts : List F)

/-- The last two fields are a record: of all that the registry ever had, and of what
became of requests. -/
structure State (F J : Type) where
  registry : SchemaRegistry J
  requests : Nat → Option (List (Checked F))
  log : List F := []
  served : List (SchemaRegistry J)
  outcomes : List (Outcome F) := []

inductive Action (F J : Type) where
  | update (registry : SchemaRegistry J)
  | publish (i : Nat) (facts : List F)
  | validate (i k : Nat)
  | proceed (i : Nat) (publishes : Bool)
  /-- Other facts are not waited for. -/
  | abort (i : Nat)

section Steps
variable {F J : Type} (props : StoreConfigurationProperties) (reader : FactReader F J)

/-- Nothing if a fact is still to be validated. -/
def results (request : List (Checked F)) : Option (List (Option (List String))) :=
  request.mapM Checked.result

/-- All the errors, unless a validation has thrown. -/
def errors (results : List (Option (List String))) : Option (List String) :=
  (results.mapM id).map List.flatten

/-- What becomes of a request whose facts are all validated. -/
def Outcome.of_ (publishes : Bool) (facts : List F) : Option (List String) → Outcome F
  | none => .thrown facts
  | some errors =>
    if errors.isEmpty then if publishes then .published facts else .declined facts
    else .refused facts (extractMessages errors)

def Outcome.stored : Outcome F → List F
  | .published facts => facts
  | _ => []

def step (s : State F J) : Action F J → Option (State F J)
  | .update registry => some { s with registry := registry, served := registry :: s.served }
  | .publish i facts =>
    if (s.requests i).isNone then
      some { s with requests := Function.update s.requests i (some (facts.map fun fact => { fact := fact })) }
    else none
  | .validate i k =>
    (s.requests i).bind fun request => (request[k]?).map fun checked =>
      let found := { checked with result := some (validate props reader s.registry checked.fact) }
      { s with requests := Function.update s.requests i (some (request.set k found)) }
  | .proceed i publishes =>
    (s.requests i).bind fun request => (results request).map fun results =>
      let outcome := Outcome.of_ publishes (request.map Checked.fact) (errors results)
      { s with
        requests := Function.update s.requests i none
        log := s.log ++ outcome.stored
        outcomes := s.outcomes ++ [outcome] }
  | .abort i =>
    (s.requests i).bind fun request =>
      if request.any fun c => c.result == some none then
        some { s with
          requests := Function.update s.requests i none
          outcomes := s.outcomes ++ [.thrown (request.map Checked.fact)] }
      else none

end Steps

def publishing {F J : Type} (props : StoreConfigurationProperties) (reader : FactReader F J) :
    Machine (State F J) (Action F J) where
  Start s := (∀ i, s.requests i = none) ∧ s.log = [] ∧ s.served = [s.registry] ∧ s.outcomes = []
  step := step props reader

/-! ### What validation means -/

section Meaning
variable {F J : Type} {props : StoreConfigurationProperties} {reader : FactReader F J} {registry : SchemaRegistry J}
  {fact : F}

/-- There is a schema for the fact, and it accepts it. -/
def Accepts (reader : FactReader F J) (registry : SchemaRegistry J) (fact : F) : Prop :=
  ∃ key schema toValidate, schemaKey reader fact = some key ∧ 0 < key.version ∧ registry key = .found schema ∧
    reader.toValidate fact = .ok toValidate ∧ schema.validate toValidate = []

/-- There is no schema for the fact, or it is not one to be validated. -/
def Unknown (reader : FactReader F J) (registry : SchemaRegistry J) (fact : F) : Prop :=
  ∀ key, schemaKey reader fact = some key → 0 < key.version → registry key = .missing

theorem doValidate_nil {key : SchemaKey} : doValidate props reader registry fact key = some [] ↔
    (∃ schema toValidate, registry key = .found schema ∧ reader.toValidate fact = .ok toValidate ∧
      schema.validate toValidate = []) ∨ (registry key = .missing ∧ props.isAllowUnvalidatedPublish = true) := by
  unfold doValidate
  cases hschema : registry key with
  | found schema =>
    cases hparsed : reader.toValidate fact with
    | ok toValidate => simp
    | error message => simp
  | missing =>
    cases props.isAllowUnvalidatedPublish with
    | true => simp
    | false => simp
  | thrown => simp

theorem doValidate_none {key : SchemaKey} (h : doValidate props reader registry fact key = none) :
    registry key = .thrown := by
  unfold doValidate at h
  split at h
  · split at h
    · cases h
    · cases h
  · split at h
    · cases h
    · cases h
  · assumption

theorem isValidateable_iff : isValidateable reader fact = true ↔
    ∃ key, schemaKey reader fact = some key ∧ 0 < key.version := by
  unfold isValidateable schemaKey
  cases reader.ns fact with
  | none => simp
  | some ns =>
    cases reader.type fact with
    | none => simp
    | some type => simp

/-- Without errors are the facts that a schema accepts, and those that are none of the
validator's business. -/
theorem validate_nil : validate props reader registry fact = some [] ↔
    (props.isSchemaRegistryConfigured && props.isValidationEnabled) = false ∨
      Accepts reader registry fact ∨
      (props.isAllowUnvalidatedPublish = true ∧ Unknown reader registry fact) := by
  unfold validate
  cases hon : props.isSchemaRegistryConfigured && props.isValidationEnabled with
  | false => simp
  | true =>
    simp only [if_true, Bool.true_eq_false, false_or]
    by_cases hvalidateable : isValidateable reader fact = true
    · obtain ⟨key, hkey, hversion⟩ := isValidateable_iff.mp hvalidateable
      rw [if_pos hvalidateable, hkey, Option.bind_some, doValidate_nil]
      constructor
      · rintro (⟨schema, toValidate, hschema, hparsed, hvalid⟩ | ⟨hnone, hallow⟩)
        · exact .inl ⟨key, schema, toValidate, hkey, hversion, hschema, hparsed, hvalid⟩
        · refine .inr ⟨hallow, fun key' hkey' _ => ?_⟩
          rw [← Option.some.inj (hkey.symm.trans hkey')]
          exact hnone
      · rintro (⟨key', schema, toValidate, hkey', _, hschema, hparsed, hvalid⟩ | ⟨hallow, hunknown⟩)
        · rw [← Option.some.inj (hkey.symm.trans hkey')] at hschema
          exact .inl ⟨schema, toValidate, hschema, hparsed, hvalid⟩
        · exact .inr ⟨hunknown key hkey hversion, hallow⟩
    · have hnever : ∀ key, schemaKey reader fact = some key → ¬ 0 < key.version :=
        fun key hkey hversion => hvalidateable (isValidateable_iff.mpr ⟨key, hkey, hversion⟩)
      have hrejects : ¬ Accepts reader registry fact :=
        fun ⟨key, _, _, hkey, hversion, _⟩ => hnever key hkey hversion
      have hunknown : Unknown reader registry fact := fun key hkey hversion => absurd hversion (hnever key hkey)
      rw [if_neg hvalidateable]
      cases props.isAllowUnvalidatedPublish with
      | true => simp [hunknown]
      | false => simp [hrejects]

/-- Something is told if there is an error, and not too much. -/
theorem extractMessages_ne_nil {errors : List String} (h : errors ≠ []) : extractMessages errors ≠ [] := by
  obtain ⟨e, rest, rfl⟩ := List.exists_cons_of_ne_nil h
  simp [extractMessages, List.eraseDups_cons, maxErrorMessages]

theorem length_extractMessages_le (errors : List String) :
    (extractMessages errors).length ≤ maxErrorMessages + 1 := by
  unfold extractMessages
  simp only [List.length_append, List.length_map, List.length_take]
  split <;> simp

end Meaning

/-! ### Runs -/

theorem map_of_mapM {α β : Type} {f : α → Option β} {l : List α} {l' : List β} (h : l.mapM f = some l') :
    l.map f = l'.map some := by
  induction l generalizing l' with
  | nil =>
    cases h
    rfl
  | cons a rest ih =>
    rw [List.mapM_cons] at h
    obtain ⟨b, hb, h⟩ := Option.bind_eq_some_iff.mp h
    obtain ⟨bs, hbs, h⟩ := Option.bind_eq_some_iff.mp h
    cases h
    rw [List.map_cons, List.map_cons, hb, ih hbs]

theorem exists_none_of_mapM {α β : Type} {f : α → Option β} {l : List α} (h : l.mapM f = none) :
    ∃ a ∈ l, f a = none := by
  induction l with
  | nil => cases h
  | cons a rest ih =>
    cases hb : f a with
    | none => exact ⟨a, List.mem_cons_self, hb⟩
    | some b =>
      cases hbs : rest.mapM f with
      | none =>
        obtain ⟨c, hc, hnone⟩ := ih hbs
        exact ⟨c, List.mem_cons_of_mem _ hc, hnone⟩
      | some bs =>
        rw [List.mapM_cons, hb] at h
        simp [hbs] at h

section Runs
variable {F J : Type} {props : StoreConfigurationProperties} {reader : FactReader F J} {s s' : State F J}
  {a : Action F J}

/-- What was found of a fact is what was found with a registry there was. -/
def Found (props : StoreConfigurationProperties) (reader : FactReader F J) (served : List (SchemaRegistry J)) (fact : F)
    (result : Option (List String)) : Prop :=
  ∃ registry ∈ served, validate props reader registry fact = result

/-- What became of a request, and why. -/
def Outcome.Justified (props : StoreConfigurationProperties) (reader : FactReader F J)
    (served : List (SchemaRegistry J)) : Outcome F → Prop
  | .published facts => ∀ fact ∈ facts, Found props reader served fact (some [])
  | .refused facts messages => messages ≠ [] ∧ messages.length ≤ maxErrorMessages + 1 ∧
      ∃ fact ∈ facts, ∃ errors, Found props reader served fact (some errors) ∧ errors ≠ []
  | .thrown facts => ∃ fact ∈ facts, Found props reader served fact none
  | .declined facts => ∀ fact ∈ facts, Found props reader served fact (some [])

theorem Found.mono {served : List (SchemaRegistry J)} {registry : SchemaRegistry J} {fact : F}
    {result : Option (List String)} (h : Found props reader served fact result) :
    Found props reader (registry :: served) fact result := by
  obtain ⟨r, hr, hfound⟩ := h
  exact ⟨r, List.mem_cons_of_mem _ hr, hfound⟩

theorem Outcome.Justified.mono {served : List (SchemaRegistry J)} {registry : SchemaRegistry J} {o : Outcome F}
    (h : o.Justified props reader served) : o.Justified props reader (registry :: served) := by
  cases o with
  | published facts => exact fun fact hfact => (h fact hfact).mono
  | refused facts messages =>
    obtain ⟨hmessages, hlength, fact, hfact, errors, hfound, herrors⟩ := h
    exact ⟨hmessages, hlength, fact, hfact, errors, hfound.mono, herrors⟩
  | thrown facts =>
    obtain ⟨fact, hfact, hfound⟩ := h
    exact ⟨fact, hfact, hfound.mono⟩
  | declined facts => exact fun fact hfact => (h fact hfact).mono

/-- A request of which all is found comes to what that justifies. -/
theorem justified {served : List (SchemaRegistry J)} {request : List (Checked F)} {rs : List (Option (List String))}
    (publishes : Bool)
    (hfound : ∀ c ∈ request, ∀ r, c.result = some r → Found props reader served c.fact r)
    (hresults : results request = some rs) :
    (Outcome.of_ publishes (request.map Checked.fact) (errors rs)).Justified props reader served := by
  have hmap : request.map Checked.result = rs.map some := map_of_mapM hresults
  have hback : ∀ r ∈ rs, ∃ c ∈ request, c.result = some r := by
    intro r hr
    have hmem : some r ∈ request.map Checked.result := hmap ▸ List.mem_map_of_mem hr
    exact List.mem_map.mp hmem
  unfold errors
  cases hall : rs.mapM id with
  | none =>
    obtain ⟨r, hr, hnone⟩ := exists_none_of_mapM hall
    obtain ⟨c, hc, hresult⟩ := hback r hr
    rw [show r = none from hnone] at hresult
    exact ⟨c.fact, List.mem_map_of_mem hc, hfound c hc none hresult⟩
  | some lists =>
    have hlists : rs = lists.map some := by
      rw [← map_of_mapM hall, List.map_id]
    rw [Option.map_some, Outcome.of_]
    split
    · rename_i hempty
      rw [List.isEmpty_iff, List.flatten_eq_nil_iff] at hempty
      have hvalid : ∀ fact ∈ request.map Checked.fact, Found props reader served fact (some []) := by
        intro fact hfact
        obtain ⟨c, hc, rfl⟩ := List.mem_map.mp hfact
        have hresult : c.result ∈ rs.map some := hmap ▸ List.mem_map_of_mem hc
        obtain ⟨r, hr, hresult⟩ := List.mem_map.mp hresult
        rw [hlists] at hr
        obtain ⟨l, hl, rfl⟩ := List.mem_map.mp hr
        rw [hempty l hl] at hresult
        exact hfound c hc _ hresult.symm
      cases publishes
      · exact hvalid
      · exact hvalid
    · rename_i hsome
      have hne : lists.flatten ≠ [] := fun h => hsome (List.isEmpty_iff.mpr h)
      refine ⟨extractMessages_ne_nil hne, length_extractMessages_le _, ?_⟩
      have hexists : ∃ l ∈ lists, l ≠ [] := by
        by_contra hnone
        refine hne (List.flatten_eq_nil_iff.mpr fun l hl => ?_)
        by_contra hl'
        exact hnone ⟨l, hl, hl'⟩
      obtain ⟨l, hl, hl'⟩ := hexists
      obtain ⟨c, hc, hresult⟩ := hback (some l) (hlists ▸ List.mem_map_of_mem hl)
      exact ⟨c.fact, List.mem_map_of_mem hc, l, hfound c hc _ hresult, hl'⟩

structure Inv (props : StoreConfigurationProperties) (reader : FactReader F J) (s : State F J) : Prop where
  current : s.registry ∈ s.served
  found : ∀ i request, s.requests i = some request → ∀ c ∈ request, ∀ r, c.result = some r →
    Found props reader s.served c.fact r
  log : s.log = s.outcomes.flatMap Outcome.stored
  outcomes : ∀ o ∈ s.outcomes, o.Justified props reader s.served

/-- Of one request, the others as before. -/
theorem found_update {requests : Nat → Option (List (Checked F))} {served : List (SchemaRegistry J)} {i : Nat}
    {request : Option (List (Checked F))}
    (h : ∀ j request, requests j = some request → ∀ c ∈ request, ∀ r, c.result = some r →
      Found props reader served c.fact r)
    (hi : ∀ new, request = some new → ∀ c ∈ new, ∀ r, c.result = some r → Found props reader served c.fact r) :
    ∀ j new, Function.update requests i request j = some new → ∀ c ∈ new, ∀ r, c.result = some r →
      Found props reader served c.fact r := by
  intro j new hnew
  by_cases hj : j = i
  · rw [hj, Function.update_self] at hnew
    exact hi new hnew
  · rw [Function.update_of_ne hj] at hnew
    exact h j new hnew

theorem Inv.step (h : Inv props reader s) (hs : step props reader s a = some s') : Inv props reader s' := by
  cases a with
  | update registry =>
    cases hs
    refine ⟨List.mem_cons_self, fun i request hrequest c hc r hr => (h.found i request hrequest c hc r hr).mono, h.log,
      fun o ho => (h.outcomes o ho).mono⟩
  | publish i facts =>
    simp only [FactValidator.step] at hs
    split at hs
    · cases hs
      refine ⟨h.current, found_update h.found fun new hnew c hc r hr => ?_, h.log, h.outcomes⟩
      cases hnew
      obtain ⟨fact, _, rfl⟩ := List.mem_map.mp hc
      cases hr
    · cases hs
  | validate i k =>
    obtain ⟨request, hrequest, hs⟩ := Option.bind_eq_some_iff.mp hs
    obtain ⟨checked, hchecked, rfl⟩ := Option.map_eq_some_iff.mp hs
    refine ⟨h.current, found_update h.found fun new hnew c hc r hr => ?_, h.log, h.outcomes⟩
    cases hnew
    obtain hc | rfl := List.mem_or_eq_of_mem_set hc
    · exact h.found i request hrequest c hc r hr
    · cases hr
      exact ⟨s.registry, h.current, rfl⟩
  | proceed i publishes =>
    obtain ⟨request, hrequest, hs⟩ := Option.bind_eq_some_iff.mp hs
    obtain ⟨rs, hresults, rfl⟩ := Option.map_eq_some_iff.mp hs
    have hjustified := justified publishes (h.found i request hrequest) hresults
    refine ⟨h.current, found_update h.found fun new hnew => absurd hnew (by simp), ?_, ?_⟩
    · rw [h.log]
      simp
    · exact List.forall_mem_append.mpr ⟨h.outcomes, List.forall_mem_singleton.mpr hjustified⟩
  | abort i =>
    obtain ⟨request, hrequest, hs⟩ := Option.bind_eq_some_iff.mp hs
    split at hs
    · rename_i hthrown
      cases hs
      obtain ⟨c, hc, hresult⟩ := List.any_eq_true.mp hthrown
      have hjustified : Outcome.Justified props reader s.served (.thrown (request.map Checked.fact)) :=
        ⟨c.fact, List.mem_map_of_mem hc, h.found i request hrequest c hc none (beq_iff_eq.mp hresult)⟩
      refine ⟨h.current, found_update h.found fun new hnew => absurd hnew (by simp), ?_, ?_⟩
      · rw [h.log]
        simp [Outcome.stored]
      · exact List.forall_mem_append.mpr ⟨h.outcomes, List.forall_mem_singleton.mpr hjustified⟩
    · cases hs

theorem inv (h : (publishing props reader).Reachable s) : Inv props reader s := by
  refine h.invariant (I := Inv props reader) ?_ fun _ _ _ h _ hs => Inv.step h hs
  rintro s ⟨hrequests, hlog, hserved, houtcomes⟩
  refine ⟨by simp [hserved], ?_, by simp [hlog, houtcomes], by simp [houtcomes]⟩
  intro i request hrequest
  rw [hrequests] at hrequest
  cases hrequest

/-- It throws only for the want of a key, or as the lookup does. -/
theorem validate_none {registry : SchemaRegistry J} {fact : F} (h : validate props reader registry fact = none) :
    schemaKey reader fact = none ∨ ∃ key, schemaKey reader fact = some key ∧ registry key = .thrown := by
  unfold validate at h
  split at h
  · split at h
    · cases hkey : schemaKey reader fact with
      | none => exact .inl rfl
      | some key =>
        rw [hkey, Option.bind_some] at h
        exact .inr ⟨key, rfl, doValidate_none h⟩
    · split at h
      · cases h
      · exact .inl (Option.map_eq_none_iff.mp h)
  · cases h

end Runs

/-- Whatever is requested and however the registry changes meanwhile: a request is published
as a whole or not at all. Each fact published was accepted by the schema of a registry that
there was, or there was none for it and that is allowed, or nothing is validated. What is
refused has a fact that a registry there was did not accept, and is told at least one and
not more than 26 messages. If a request ends otherwise, a fact of it has no key, or asking a
registry there was for its schema has thrown. -/
theorem only_valid_published {F J : Type} (props : StoreConfigurationProperties) (reader : FactReader F J)
    (s : State F J) (h : (publishing props reader).Reachable s) :
    s.log = s.outcomes.flatMap Outcome.stored ∧
    (∀ fact ∈ s.log, ∃ registry ∈ s.served,
      (props.isSchemaRegistryConfigured && props.isValidationEnabled) = false ∨ Accepts reader registry fact ∨
        (props.isAllowUnvalidatedPublish = true ∧ Unknown reader registry fact)) ∧
    (∀ facts messages, .refused facts messages ∈ s.outcomes → messages ≠ [] ∧ messages.length ≤ 26 ∧
      ∃ fact ∈ facts, ∃ registry ∈ s.served, ¬ Accepts reader registry fact) ∧
    (∀ facts, .thrown facts ∈ s.outcomes → ∃ fact ∈ facts, schemaKey reader fact = none ∨
      ∃ registry ∈ s.served, ∃ key, schemaKey reader fact = some key ∧ registry key = .thrown) := by
  have hinv := inv h
  refine ⟨hinv.log, fun fact hfact => ?_, fun facts messages ho => ?_, fun facts ho => ?_⟩
  · rw [hinv.log] at hfact
    obtain ⟨o, ho, hstored⟩ := List.mem_flatMap.mp hfact
    cases o with
    | published facts =>
      obtain ⟨registry, hregistry, hvalid⟩ := hinv.outcomes _ ho fact hstored
      exact ⟨registry, hregistry, validate_nil.mp hvalid⟩
    | refused facts messages => cases hstored
    | thrown facts => cases hstored
    | declined facts => cases hstored
  · obtain ⟨hmessages, hlength, fact, hfact, errors, ⟨registry, hregistry, hfound⟩, herrors⟩ := hinv.outcomes _ ho
    refine ⟨hmessages, hlength, fact, hfact, registry, hregistry, fun haccepts => herrors ?_⟩
    exact Option.some.inj (hfound.symm.trans (validate_nil.mpr (.inr (.inl haccepts))))
  · obtain ⟨fact, hfact, registry, hregistry, hfound⟩ := hinv.outcomes _ ho
    exact ⟨fact, hfact, (validate_none hfound).imp_right fun hthrown => ⟨registry, hregistry, hthrown⟩⟩

/-- Orders of version 1, with a payload to be one letter. -/
def orderReader : FactReader String String where
  ns _ := some "shop"
  type _ := some "OrderPlaced"
  version _ := 1
  toValidate payload := .ok payload

def oneLetter : SchemaRegistry String := fun key =>
  if key = ⟨"shop", "OrderPlaced", 1⟩ then .found ⟨fun payload => if payload.length = 1 then [] else ["too long"]⟩
  else .missing

/-- The second request has an order that is not valid, the third one is not validated to its
end, since the registry does not answer. -/
def threeRequests : List (Action String String) :=
  [.publish 0 ["a"], .publish 1 ["b", "cd"], .validate 1 1, .validate 0 0, .proceed 0 true, .validate 1 0,
    .proceed 1 true, .publish 2 ["e", "f"], .update fun _ => .thrown, .validate 2 1, .abort 2]

theorem only_valid_published_threeRequests : ∃ s : State String String,
    (publishing ⟨true, true, false⟩ orderReader).Reachable s ∧ s.log = ["a"] ∧ s.outcomes.length = 3 ∧
    ∃ registry ∈ s.served, Accepts orderReader registry "a" := by
  have hstart : (publishing ⟨true, true, false⟩ orderReader).Start
      ({ registry := oneLetter, requests := fun _ => none, served := [oneLetter] } : State String String) :=
    ⟨fun _ => rfl, rfl, rfl, rfl⟩
  obtain ⟨s, hs, hseen⟩ := Machine.exists_reachable hstart threeRequests (fun s => (s.log, s.outcomes.length))
    (b := (["a"], 3)) (by decide +kernel)
  simp only [Prod.mk.injEq] at hseen
  obtain ⟨hlog, houtcomes⟩ := hseen
  have hmem : "a" ∈ s.log := by simp [hlog]
  obtain ⟨registry, hregistry, hoff | haccepts | ⟨hallow, _⟩⟩ :=
    (only_valid_published ⟨true, true, false⟩ orderReader s hs).2.1 "a" hmem
  · cases hoff
  · exact ⟨s, hs, hlog, houtcomes, registry, hregistry, haccepts⟩
  · cases hallow

end FactCast.FactValidator
