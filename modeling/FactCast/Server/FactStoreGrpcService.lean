import FactCast.Server.Access
import FactCast.Server.FactSource
import FactCast.Wire.ProtoConverter

/-! The calls of the service, and who may make them.

A call is checked against the account of its user before the store is asked, those that
fetch a fact after it. `Request.guarded` says what comes of a call for an account, without
the answers that a user remembers; `serve_eq` that this is what is served. Whoever calls,
and in whatever order: what the store is asked is permitted to who asks, and what is
answered may be read by who gets the answer (`access_controlled`). -/
namespace FactCast.FactStoreGrpcService
open Rpc

/-! ### The store -/

/-- What the service asks of a store. -/
inductive StoreCall (F : Type) where
  | publish (facts : List F)
  | publishIfUnchanged (facts : List F) (token : Option UUID)
  | subscribe (specs : List FactSpec)
  | serialOf (id : UUID)
  | enumerateNamespaces
  | enumerateTypes (ns : String)
  | stateFor (specs : List FactSpec)
  | currentStateFor (specs : List FactSpec)
  | invalidate (token : UUID)
  | currentTime
  | fetchById (id : UUID)
  | fetchByIdAndVersion (id : UUID) (version : BitVec 32)
  | fetchBySerial (serial : Long)
  | latestSerial
  | lastSerialBefore (date : LocalDate)

def StoreCall.Result {F : Type} : StoreCall F → Type
  | .publish _ => Unit
  | .publishIfUnchanged _ _ => Bool
  | .subscribe _ => Unit
  | .serialOf _ => Option Long
  | .enumerateNamespaces => Finset String
  | .enumerateTypes _ => Finset String
  | .stateFor _ => UUID
  | .currentStateFor _ => UUID
  | .invalidate _ => Unit
  | .currentTime => Long
  | .fetchById _ => Option F
  | .fetchByIdAndVersion _ _ => Option F
  | .fetchBySerial _ => Option F
  | .latestSerial => Long
  | .lastSerialBefore _ => Long

/-- A store answers or throws, and may be another one afterwards. -/
structure FactStore (F S E : Type) where
  call : (c : StoreCall F) → S → Except E c.Result × S

/-- Why a call fails. -/
inductive Failure (E : Type) where
  | permissionDenied
  | resourceExhausted
  | illegalArgument (message : String)
  | nullPointer
  /-- A text that cannot be read. -/
  | unreadable
  /-- What the store throws. -/
  | thrown (e : E)

/-! ### The service -/

/-- What the service reads of facts and puts into them. A fact is tagged with the client
that publishes it, unless its header has no map for that. -/
structure ServerFacts (F : Type) extends FactKind F where
  ns : F → String
  tagFactSource : F → String → Option F
  ns_tag : ∀ f id g, tagFactSource f id = some g → ns g = ns f

/-- How documents are written as texts and read from them. -/
structure Texts where
  write : Document → String
  read : String → Option Document
  read_write : ∀ d, read (write d) = some d

/-- A fact by its texts, with what is read of them. -/
structure TextFact (texts : Texts) (mapper : ReadBack.Mapper) where
  jsonHeader : String
  fact : FactSource.Fact mapper
  read_header : texts.read jsonHeader = some fact.jsonHeader

namespace TextFact
variable {texts : Texts} {mapper : ReadBack.Mapper}

/-- A text that is no header makes no fact. -/
def of_ (jsonHeader jsonPayload : String) : Option (TextFact texts mapper) :=
  match hread : texts.read jsonHeader with
  | none => none
  | some d =>
    match haccepted : ReadBack.DefaultFact.of mapper d with
    | none => none
    | some header => some ⟨jsonHeader, ⟨d, jsonPayload, header, haccepted⟩, hread⟩

theorem of_texts (f : TextFact texts mapper) : of_ f.jsonHeader f.fact.jsonPayload = some f := by
  obtain ⟨jsonHeader, ⟨d, jsonPayload, header, haccepted⟩, hread⟩ := f
  unfold of_
  split
  · rename_i hnone
    exact nomatch hnone.symm.trans hread
  · rename_i d' hread'
    obtain rfl : d' = d := Option.some.inj (hread'.symm.trans hread)
    split
    · rename_i hnone
      exact nomatch hnone.symm.trans haccepted
    · rename_i header' haccepted'
      obtain rfl : header' = header := Option.some.inj (haccepted'.symm.trans haccepted)
      rfl

def ns (f : TextFact texts mapper) : String := f.fact.header.ns.getD ""

variable (iteration : FactSource.Iteration)

def tagFactSource (f : TextFact texts mapper) (source : String) : Option (TextFact texts mapper) :=
  (FactSource.tagFactSource iteration 0 source f.fact).map fun g =>
    ⟨texts.write g.jsonHeader, g, texts.read_write g.jsonHeader⟩

theorem header_ns_of_tag {source : String} {f g : FactSource.Fact mapper}
    (h : FactSource.tagFactSource iteration 0 source f = some g) : g.header.ns = f.header.ns := by
  obtain ⟨entries, _, hof⟩ := Option.bind_eq_some_iff.mp h
  unfold FactSource.Fact.of at hof
  split at hof
  · rename_i header haccepted
    have hread := ReadBack.reads_of_readValue (Option.filter_eq_some_iff.mp haccepted).1
    rw [← Option.some.inj hof]
    exact Option.some.inj (hread.ns.symm.trans (FactSource.string_writeString f.header.ns))
  · exact nomatch hof

theorem ns_tag (f : TextFact texts mapper) (source : String) (g : TextFact texts mapper)
    (h : tagFactSource iteration f source = some g) : g.ns = f.ns := by
  obtain ⟨tagged, htag, rfl⟩ := Option.map_eq_some_iff.mp h
  exact congrArg (fun ns => ns.getD "") (header_ns_of_tag iteration htag)

/-- The facts of the server. -/
def kind : ServerFacts (TextFact texts mapper) where
  jsonHeader := TextFact.jsonHeader
  jsonPayload f := f.fact.jsonPayload
  of_ := of_
  of_texts := of_texts
  ns := ns
  tagFactSource := tagFactSource iteration
  ns_tag := ns_tag iteration

end TextFact

/-- What the calls have in common. -/
structure Service (F S E : Type) where
  facts : ServerFacts F
  store : FactStore F S E
  /-- The specifications of a text of JSON, or of a subscription request in one. -/
  readSpecs : String → Option (List FactSpec)
  readRequest : String → Option (List FactSpec)
  order : HashOrder String
  config : ServerConfig

/-- What comes with a request. -/
structure RequestMetadata where
  clientId : Option String
  /-- Limits are off, or the subscription is within them. -/
  subscriptionAccepted : Bool

def RequestMetadata.clientIdPrefix (meta_ : RequestMetadata) : String :=
  match meta_.clientId with
  | some id => id ++ "|"
  | none => ""

/-- The user of a call and the store. -/
structure Serving (account : FactCastAccount) (S : Type) where
  user : FactCastUser account
  store : S

abbrev Serve (account : FactCastAccount) (S E : Type) := ExceptT (Failure E) (StateM (Serving account S))

section Serve
variable {account : FactCastAccount} {F S E : Type} (service : Service F S E) (meta_ : RequestMetadata)

def fail {α : Type} (failure : Failure E) : Serve account S E α := throw failure

def canRead (ns : String) : Serve account S E Bool := do
  let σ ← get
  let (answer, user) := σ.user.canRead ns
  set { σ with user }
  return answer

def canWrite (ns : String) : Serve account S E Bool := do
  let σ ← get
  let (answer, user) := σ.user.canWrite ns
  set { σ with user }
  return answer

def assertCanRead (ns : String) : Serve account S E Unit := do
  if ← canRead ns then return () else fail .permissionDenied

def assertCanReadAll (namespaces : List String) : Serve account S E Unit := namespaces.forM assertCanRead

def assertCanWrite (namespaces : List String) : Serve account S E Unit :=
  namespaces.forM fun ns => do
    if ← canWrite ns then return () else fail .permissionDenied

/-- The namespaces that may be read. -/
def filterCanRead : List String → Serve account S E (List String)
  | [] => return []
  | ns :: rest => do
    let answer ← canRead ns
    let others ← filterCanRead rest
    return if answer then ns :: others else others

def call (c : StoreCall F) : Serve account S E c.Result := do
  let σ ← get
  match service.store.call c σ.store with
  | (.ok result, store) =>
    set { σ with store }
    return result
  | (.error e, store) =>
    set { σ with store }
    fail (.thrown e)

/-- A value that is there, or the failure. -/
def orElse {α : Type} (failure : Failure E) : Option α → Serve account S E α
  | some a => return a
  | none => fail failure

/-- The facts as they are stored: tagged, if the client has given its id. -/
def tagged (facts : List F) : Option (List F) :=
  match meta_.clientId with
  | some id => facts.mapM fun f => service.facts.tagFactSource f id
  | none => some facts

/-- One specification for each identifier. -/
def specsFor (ns : String) (aggIds : List UUID) : Option (List FactSpec) :=
  if h : blank ns = false then some (aggIds.map fun id => { ns, ns_given := h, aggIds := [id] })
  else if aggIds.isEmpty then some [] else none

def doStateFor (json : String) (tokenSupplier : List FactSpec → Serve account S E UUID) :
    Serve account S E (Reply F) := do
  let specs ← orElse .unreadable (service.readSpecs json)
  if specs.isEmpty then
    fail (.illegalArgument (meta_.clientIdPrefix ++
      "Cannot determine state for empty list of fact specifications"))
  else
    assertCanReadAll (specs.map FactSpec.ns)
    return .token (← tokenSupplier specs)

/-- The fact is fetched before it is known whether it may be. -/
def doFetch (o : Serve account S E (Option F)) : Serve account S E (Reply F) := do
  let fetched ← o
  match fetched with
  | some f =>
    assertCanRead (service.facts.ns f)
    return .fact (some f)
  | none => return .fact none

/-- What a request is answered. A subscription is not. -/
def serve : Request F → Serve account S E (Option (Reply F))
  | .publish facts => do
    assertCanWrite (facts.map service.facts.ns).eraseDups
    let facts ← orElse .nullPointer (tagged service meta_ facts)
    call service (.publish facts)
    return some .empty
  | .subscribe json => do
    let specs ← orElse .unreadable (service.readRequest json)
    if meta_.subscriptionAccepted then
      assertCanReadAll (specs.map FactSpec.ns).eraseDups
      call service (.subscribe specs)
      return none
    else fail .resourceExhausted
  | .handshake => return some (.config service.config)
  | .serialOf id => return some (.optionalSerial (← call service (.serialOf id)))
  | .enumerateNamespaces => do
    let namespaces ← call service .enumerateNamespaces
    let readable ← filterCanRead (service.order.order 0 namespaces)
    return some (.strings readable.toFinset)
  | .enumerateTypes ns => do
    assertCanRead ns
    return some (.strings (← call service (.enumerateTypes ns)))
  | .publishConditional req => do
    assertCanWrite (req.facts.map service.facts.ns).eraseDups
    let facts ← orElse .nullPointer (tagged service meta_ req.facts)
    return some (.published (← call service (.publishIfUnchanged facts req.token)))
  | .stateFor req => do
    let ns ← orElse .nullPointer req.ns
    assertCanRead ns
    let specs ← orElse (.illegalArgument "Namespace must not be empty") (specsFor ns req.aggIds)
    return some (.token (← call service (.stateFor specs)))
  | .stateForSpecsJson json =>
    some <$> doStateFor service meta_ json fun specs => call service (.stateFor specs)
  | .currentStateForSpecsJson json =>
    some <$> doStateFor service meta_ json fun specs => call service (.currentStateFor specs)
  | .invalidate token => do
    call service (.invalidate token)
    return some .empty
  | .currentTime => return some (.time (← call service .currentTime))
  | .fetchById id => some <$> doFetch service (call service (.fetchById id))
  | .fetchByIdAndVersion id version => some <$> doFetch service (call service (.fetchByIdAndVersion id version))
  | .fetchBySerial serial => some <$> doFetch service (call service (.fetchBySerial serial))
  | .latestSerial => return some (.serial (← call service .latestSerial))
  | .lastSerialBefore date => return some (.serial (← call service (.lastSerialBefore date)))

end Serve

/-! ### What is checked -/

section Guarded
variable {F S E : Type} (service : Service F S E) (account : FactCastAccount)

/-- What is answered when the store has answered. -/
def StoreCall.answer : (c : StoreCall F) → c.Result → Except (Failure E) (Option (Reply F))
  | .publish _, _ => .ok (some .empty)
  | .publishIfUnchanged _ _, success => .ok (some (.published success))
  | .subscribe _, _ => .ok none
  | .serialOf _, serial => .ok (some (.optionalSerial serial))
  | .enumerateNamespaces, set => .ok (some (.strings (set.filter fun ns => account.canRead ns = true)))
  | .enumerateTypes _, set => .ok (some (.strings set))
  | .stateFor _, id => .ok (some (.token id))
  | .currentStateFor _, id => .ok (some (.token id))
  | .invalidate _, _ => .ok (some .empty)
  | .currentTime, millis => .ok (some (.time millis))
  | .fetchById _, f => fetched f
  | .fetchByIdAndVersion _ _, f => fetched f
  | .fetchBySerial _, f => fetched f
  | .latestSerial, serial => .ok (some (.serial serial))
  | .lastSerialBefore _, serial => .ok (some (.serial serial))
where
  fetched : Option F → Except (Failure E) (Option (Reply F))
    | some f => if account.canRead (service.facts.ns f) then .ok (some (.fact (some f))) else .error .permissionDenied
    | none => .ok (some (.fact none))

variable (meta_ : RequestMetadata)

def readable (namespaces : List String) : Bool := namespaces.all account.canRead

def writable (facts : List F) : Bool := facts.all fun f => account.canWrite (service.facts.ns f)

/-- What the store is asked for a state, if it is. -/
def asksState (json : String) (supplier : List FactSpec → StoreCall F) : Except (Failure E) (Option (StoreCall F)) :=
  match service.readSpecs json with
  | none => .error .unreadable
  | some specs =>
    if specs.isEmpty then
      .error (.illegalArgument (meta_.clientIdPrefix ++ "Cannot determine state for empty list of fact specifications"))
    else if readable account (specs.map FactSpec.ns) then .ok (some (supplier specs)) else .error .permissionDenied

/-- What the store is asked, if the request is not refused. -/
def Request.asks : Request F → Except (Failure E) (Option (StoreCall F))
  | .publish facts =>
    if writable service account facts then
      (tagged service meta_ facts).elim (.error .nullPointer) fun facts => .ok (some (.publish facts))
    else .error .permissionDenied
  | .subscribe json =>
    (service.readRequest json).elim (.error .unreadable) fun specs =>
      if meta_.subscriptionAccepted then
        if readable account (specs.map FactSpec.ns) then .ok (some (.subscribe specs)) else .error .permissionDenied
      else .error .resourceExhausted
  | .handshake => .ok none
  | .serialOf id => .ok (some (.serialOf id))
  | .enumerateNamespaces => .ok (some .enumerateNamespaces)
  | .enumerateTypes ns => if account.canRead ns then .ok (some (.enumerateTypes ns)) else .error .permissionDenied
  | .publishConditional req =>
    if writable service account req.facts then
      (tagged service meta_ req.facts).elim (.error .nullPointer) fun facts =>
        .ok (some (.publishIfUnchanged facts req.token))
    else .error .permissionDenied
  | .stateFor req =>
    req.ns.elim (.error .nullPointer) fun ns =>
      if account.canRead ns then
        (specsFor ns req.aggIds).elim (.error (.illegalArgument "Namespace must not be empty")) fun specs =>
          .ok (some (.stateFor specs))
      else .error .permissionDenied
  | .stateForSpecsJson json => asksState service account meta_ json .stateFor
  | .currentStateForSpecsJson json => asksState service account meta_ json .currentStateFor
  | .invalidate token => .ok (some (.invalidate token))
  | .currentTime => .ok (some .currentTime)
  | .fetchById id => .ok (some (.fetchById id))
  | .fetchByIdAndVersion id version => .ok (some (.fetchByIdAndVersion id version))
  | .fetchBySerial serial => .ok (some (.fetchBySerial serial))
  | .latestSerial => .ok (some .latestSerial)
  | .lastSerialBefore date => .ok (some (.lastSerialBefore date))

/-- The store is asked, and its answer passed on. -/
def ask (c : StoreCall F) (s : S) : Except (Failure E) (Option (Reply F)) × S :=
  match service.store.call c s with
  | (.ok result, s') => (c.answer service account result, s')
  | (.error e, s') => (.error (.thrown e), s')

/-- A request of an account: the check, the store, the answer. -/
def Request.guarded (r : Request F) (s : S) : Except (Failure E) (Option (Reply F)) × S :=
  match Request.asks service account meta_ r with
  | .error failure => (.error failure, s)
  | .ok none => (.ok (some (.config service.config)), s)
  | .ok (some c) => ask service account c s

end Guarded

/-! ### What is served -/

section Yields
variable {account : FactCastAccount} {F S E α β : Type} {service : Service F S E} {meta_ : RequestMetadata}

/-- The outcome does not depend on what the user remembers. -/
def Yields (m : Serve account S E α) (g : S → Except (Failure E) α × S) : Prop :=
  ∀ σ, ((m.run.run σ).1, (m.run.run σ).2.store) = g σ.store

theorem yields_pure (a : α) : Yields (pure a : Serve account S E α) fun s => (.ok a, s) := fun _ => rfl

theorem yields_fail (failure : Failure E) : Yields (fail failure : Serve account S E α) fun s => (.error failure, s) :=
  fun _ => rfl

theorem yields_bind {m : Serve account S E α} {g : S → Except (Failure E) α × S} {f : α → Serve account S E β}
    {h : α → S → Except (Failure E) β × S} (hm : Yields m g) (hf : ∀ a, Yields (f a) (h a)) :
    Yields (m >>= f) fun s =>
      match g s with
      | (.ok a, s') => h a s'
      | (.error e, s') => (.error e, s') := by
  intro σ
  have hfirst := hm σ
  have hbind : (m >>= f).run.run σ = match m.run.run σ with
      | (.ok a, σ') => (f a).run.run σ'
      | (.error e, σ') => (.error e, σ') := by
    rw [ExceptT.run_bind, StateT.run_bind]
    rcases m.run.run σ with ⟨_ | _, _⟩ <;> rfl
  rw [hbind]
  show _ = match g σ.store with
    | (.ok a, s') => h a s'
    | (.error e, s') => (.error e, s')
  rw [← hfirst]
  cases hrun : m.run.run σ with
  | mk result σ' =>
    cases result with
    | error e => rfl
    | ok a => exact hf a σ'

theorem yields_congr {m : Serve account S E α} {g h : S → Except (Failure E) α × S} (hm : Yields m g)
    (heq : ∀ s, g s = h s) : Yields m h := fun σ => (hm σ).trans (heq σ.store)

theorem yields_canRead (ns : String) :
    Yields (canRead ns : Serve account S E Bool) fun s => (.ok (account.canRead ns), s) := by
  intro σ
  show (Except.ok (σ.user.canRead ns).1, σ.store) = _
  rw [FactCastUser.canRead_fst]

theorem yields_canWrite (ns : String) :
    Yields (canWrite ns : Serve account S E Bool) fun s => (.ok (account.canWrite ns), s) := by
  intro σ
  show (Except.ok (σ.user.canWrite ns).1, σ.store) = _
  rw [FactCastUser.canWrite_fst]

/-- A check: it passes, or the call is refused. -/
def checked (allowed : Bool) (s : S) : Except (Failure E) Unit × S :=
  (if allowed then .ok () else .error .permissionDenied, s)

theorem yields_check {m : Serve account S E Bool} {allowed : Bool} (h : Yields m fun s => (.ok allowed, s)) :
    Yields (do if ← m then return () else fail .permissionDenied) (checked allowed) := by
  refine yields_congr (yields_bind h fun b => ?_) fun s => rfl
  cases b with
  | true => exact yields_pure ()
  | false => exact yields_fail .permissionDenied

/-- One check after the other, until one fails. -/
theorem yields_forM {check : String → Serve account S E Unit} {allowed : String → Bool}
    (h : ∀ ns, Yields (check ns) (checked (allowed ns))) (namespaces : List String) :
    Yields (namespaces.forM check) (checked (namespaces.all allowed)) := by
  induction namespaces with
  | nil => exact yields_pure ()
  | cons ns rest ih =>
    rw [List.all_cons]
    show Yields (check ns >>= fun _ => rest.forM check) _
    refine yields_congr (yields_bind (h ns) fun _ => ih) fun s => ?_
    unfold checked
    cases allowed ns <;> rfl

theorem yields_assertCanRead (ns : String) :
    Yields (assertCanRead ns : Serve account S E Unit) (checked (account.canRead ns)) :=
  yields_check (yields_canRead ns)

theorem yields_assertCanReadAll (namespaces : List String) :
    Yields (assertCanReadAll namespaces : Serve account S E Unit) (checked (readable account namespaces)) :=
  yields_forM yields_assertCanRead namespaces

theorem yields_assertCanWrite (namespaces : List String) :
    Yields (assertCanWrite namespaces : Serve account S E Unit) (checked (namespaces.all account.canWrite)) :=
  yields_forM (fun ns => yields_check (yields_canWrite ns)) namespaces

/-- The store's answer, or what it throws. -/
def called (service : Service F S E) (c : StoreCall F) (s : S) : Except (Failure E) c.Result × S :=
  match service.store.call c s with
  | (.ok result, s') => (.ok result, s')
  | (.error e, s') => (.error (.thrown e), s')

theorem yields_call (c : StoreCall F) :
    Yields (call service c : Serve account S E c.Result) (called service c) := by
  intro σ
  have hcall : (call service c : Serve account S E c.Result).run.run σ = match service.store.call c σ.store with
      | (.ok result, store) => (.ok result, { σ with store })
      | (.error e, store) => (.error (.thrown e), { σ with store }) := by
    show StateT.run (ExceptT.run (call service c)) σ = _
    unfold call
    rw [ExceptT.run_bind, StateT.run_bind]
    show (match service.store.call c σ.store with
      | (.ok result, store) => _
      | (.error e, store) => _ : Serve account S E c.Result).run.run σ = _
    rcases service.store.call c σ.store with ⟨_ | _, _⟩ <;> rfl
  rw [hcall, called]
  rcases service.store.call c σ.store with ⟨_ | _, _⟩ <;> rfl

theorem yields_orElse (failure : Failure E) (a : Option α) :
    Yields (orElse failure a : Serve account S E α) fun s => (a.elim (.error failure) .ok, s) := by
  cases a with
  | none => exact yields_fail failure
  | some a => exact yields_pure a

theorem yields_filterCanRead (namespaces : List String) :
    Yields (filterCanRead namespaces : Serve account S E (List String))
      fun s => (.ok (namespaces.filter account.canRead), s) := by
  induction namespaces with
  | nil => exact yields_pure []
  | cons ns rest ih =>
    refine yields_congr (yields_bind (yields_canRead ns) fun answer => yields_bind ih fun others =>
      yields_pure (if answer then ns :: others else others)) fun s => ?_
    rw [List.filter_cons]

theorem filter_order (set : Finset String) :
    ((service.order.order 0 set).filter account.canRead).toFinset = set.filter fun ns => account.canRead ns = true := by
  ext ns
  rw [List.mem_toFinset, List.mem_filter, service.order.mem, Finset.mem_filter]

theorem all_eraseDups (p : String → Bool) (l : List String) : l.eraseDups.all p = l.all p := by
  rw [Bool.eq_iff_iff, List.all_eq_true, List.all_eq_true]
  exact ⟨fun h ns hns => h ns (List.mem_eraseDups.mpr hns), fun h ns hns => h ns (List.mem_eraseDups.mp hns)⟩

/-- What is read of a fetched fact is checked. -/
theorem yields_doFetch {o : Serve account S E (Option F)} {g : S → Except (Failure E) (Option F) × S}
    (h : Yields o g) : Yields (some <$> doFetch service o) fun s =>
      match g s with
      | (.ok f, s') => (StoreCall.answer.fetched service account f, s')
      | (.error e, s') => (.error e, s') := by
  have hfetched : ∀ f : Option F, Yields (match f with
      | some f => do
        assertCanRead (service.facts.ns f)
        return .fact (some f)
      | none => return .fact none : Serve account S E (Reply F))
      fun s => ((if (f.map fun f => account.canRead (service.facts.ns f)).getD true then .ok (.fact f)
        else .error .permissionDenied), s) := by
    intro f
    cases f with
    | none => exact yields_pure _
    | some f =>
      refine yields_congr (yields_bind (yields_assertCanRead _) fun _ => yields_pure _) fun s => ?_
      by_cases hread : account.canRead (service.facts.ns f) = true <;> simp [checked, hread]
  refine yields_congr (yields_bind (yields_bind h hfetched) fun r => yields_pure (some r)) fun s => ?_
  rcases g s with ⟨_ | f, s'⟩
  · rfl
  · cases f with
    | none => rfl
    | some f =>
      by_cases hread : account.canRead (service.facts.ns f) = true <;> simp [StoreCall.answer.fetched, hread]

/-- The store's answer becomes the reply. -/
theorem yields_reply {m : Serve account S E (Option (Reply F))} (c : StoreCall F)
    (reply : c.Result → Option (Reply F)) (hm : m = (call service c >>= fun r => pure (reply r)))
    (hreply : ∀ r, c.answer service account r = .ok (reply r)) : Yields m (ask service account c) := by
  subst hm
  refine yields_congr (yields_bind (yields_call c) fun r => yields_pure (reply r)) fun s => ?_
  simp only [called, ask, hreply]
  rcases service.store.call c s with ⟨_ | _, _⟩ <;> rfl

/-- A check in front of what follows. -/
theorem yields_checked {check : Serve account S E Unit} {allowed : Bool} {rest : Serve account S E α}
    {g : S → Except (Failure E) α × S} (hcheck : Yields check (checked allowed)) (hrest : Yields rest g) :
    Yields (check >>= fun _ => rest) fun s => if allowed then g s else (.error .permissionDenied, s) := by
  refine yields_congr (yields_bind hcheck fun _ => hrest) fun s => ?_
  cases allowed <;> rfl

/-- A value that must be there in front of what follows. -/
theorem yields_needed {failure : Failure E} {a : Option β} {rest : β → Serve account S E α}
    {g : β → S → Except (Failure E) α × S} (hrest : ∀ b, Yields (rest b) (g b)) :
    Yields (orElse failure a >>= rest) fun s => a.elim (.error failure, s) fun b => g b s := by
  refine yields_congr (yields_bind (yields_orElse failure a) hrest) fun s => ?_
  cases a <;> rfl

theorem yields_doStateFor {json : String} {supplier : List FactSpec → StoreCall F}
    {tokenSupplier : List FactSpec → Serve account S E UUID}
    (h : ∀ specs, Yields (tokenSupplier specs >>= fun id => pure (some (Reply.token id)))
      (ask service account (supplier specs))) :
    Yields (some <$> doStateFor service meta_ json tokenSupplier) fun s =>
      match asksState service account meta_ json supplier with
      | .error failure => (.error failure, s)
      | .ok none => (.ok (some (.config service.config)), s)
      | .ok (some c) => ask service account c s := by
  have hstate : some <$> doStateFor service meta_ json tokenSupplier =
      (orElse .unreadable (service.readSpecs json) >>= fun specs =>
        if specs.isEmpty then
          fail (.illegalArgument (meta_.clientIdPrefix ++
            "Cannot determine state for empty list of fact specifications"))
        else
          assertCanReadAll (specs.map FactSpec.ns) >>= fun _ =>
            tokenSupplier specs >>= fun id => pure (some (Reply.token id)) :
        Serve account S E (Option (Reply F))) := by
    rw [doStateFor, map_bind]
    refine bind_congr fun specs => ?_
    split
    · rfl
    · rw [map_bind]
      refine bind_congr fun _ => ?_
      rw [map_bind]
      exact bind_congr fun _ => map_pure _ _
  rw [hstate]
  refine yields_congr (yields_needed (g := fun specs s =>
      if specs.isEmpty then (.error (.illegalArgument (meta_.clientIdPrefix ++
        "Cannot determine state for empty list of fact specifications")), s)
      else if readable account (specs.map FactSpec.ns) then ask service account (supplier specs) s
      else (.error .permissionDenied, s)) fun specs => ?_) fun s => ?_
  · split
    · exact yields_fail _
    · exact yields_checked (yields_assertCanReadAll _) (h specs)
  · unfold asksState
    cases service.readSpecs json with
    | none => rfl
    | some specs =>
      simp only [Option.elim_some]
      split
      · rfl
      · split <;> rfl

theorem writable_eq (facts : List F) :
    (facts.map service.facts.ns).eraseDups.all account.canWrite = writable service account facts := by
  rw [all_eraseDups, List.all_map]
  rfl

/-- What is served is the check, the store and the answer. -/
theorem yields_serve (r : Request F) : Yields (serve service meta_ r : Serve account S E (Option (Reply F)))
    (Request.guarded service account meta_ r) := by
  cases r with
  | publish facts =>
    refine yields_congr (yields_checked (yields_assertCanWrite _)
      (yields_needed fun facts => yields_reply (.publish facts) (fun _ => some .empty) rfl fun _ => rfl)) fun s => ?_
    rw [Request.guarded, Request.asks, writable_eq]
    split
    · cases tagged service meta_ facts <;> rfl
    · rfl
  | publishConditional req =>
    refine yields_congr (yields_checked (yields_assertCanWrite _) (yields_needed fun facts =>
      yields_reply (.publishIfUnchanged facts req.token) (fun b => some (.published b)) rfl fun _ => rfl)) fun s => ?_
    rw [Request.guarded, Request.asks, writable_eq]
    split
    · cases tagged service meta_ req.facts <;> rfl
    · rfl
  | subscribe json =>
    refine yields_congr (yields_needed (g := fun specs s =>
      if meta_.subscriptionAccepted then
        if readable account (specs.map FactSpec.ns) then ask service account (.subscribe specs) s
        else (.error .permissionDenied, s)
      else (.error .resourceExhausted, s)) fun specs => ?_) fun s => ?_
    · split
      · refine yields_congr (yields_checked (yields_assertCanReadAll _)
          (yields_reply (.subscribe specs) (fun _ => none) rfl fun _ => rfl)) fun s => ?_
        rw [readable, readable, all_eraseDups]
      · exact yields_fail _
    · rw [Request.guarded, Request.asks]
      cases service.readRequest json with
      | none => rfl
      | some specs =>
        simp only [Option.elim_some]
        split
        · split <;> rfl
        · rfl
  | enumerateNamespaces =>
    refine yields_congr (yields_bind (yields_call .enumerateNamespaces) fun set =>
      yields_bind (yields_filterCanRead _) fun names => yields_pure (some (Reply.strings names.toFinset))) fun s => ?_
    simp only [Request.guarded, Request.asks, ask, called]
    rcases service.store.call .enumerateNamespaces s with ⟨_ | set, _⟩
    · rfl
    · exact congrArg (fun names => (Except.ok (some (Reply.strings names)), _)) (filter_order set)
  | enumerateTypes ns =>
    refine yields_congr (yields_checked (yields_assertCanRead ns)
      (yields_reply (.enumerateTypes ns) (fun set => some (.strings set)) rfl fun _ => rfl)) fun s => ?_
    rw [Request.guarded, Request.asks]
    split <;> rfl
  | stateFor req =>
    refine yields_congr (yields_needed fun ns => yields_checked (yields_assertCanRead ns) (yields_needed fun specs =>
      yields_reply (.stateFor specs) (fun id => some (.token id)) rfl fun _ => rfl)) fun s => ?_
    rw [Request.guarded, Request.asks]
    cases req.ns with
    | none => rfl
    | some ns =>
      simp only [Option.elim_some]
      split
      · cases specsFor ns req.aggIds <;> rfl
      · rfl
  | stateForSpecsJson json =>
    exact yields_doStateFor fun specs => yields_reply (.stateFor specs) (fun id => some (.token id)) rfl fun _ => rfl
  | currentStateForSpecsJson json =>
    exact yields_doStateFor fun specs =>
      yields_reply (.currentStateFor specs) (fun id => some (.token id)) rfl fun _ => rfl
  | fetchById id =>
    refine yields_congr (yields_doFetch (yields_call (.fetchById id))) fun s => ?_
    simp only [Request.guarded, Request.asks, called, ask]
    rcases service.store.call (.fetchById id) s with ⟨_ | _, _⟩ <;> rfl
  | fetchByIdAndVersion id version =>
    refine yields_congr (yields_doFetch (yields_call (.fetchByIdAndVersion id version))) fun s => ?_
    simp only [Request.guarded, Request.asks, called, ask]
    rcases service.store.call (.fetchByIdAndVersion id version) s with ⟨_ | _, _⟩ <;> rfl
  | fetchBySerial serial =>
    refine yields_congr (yields_doFetch (yields_call (.fetchBySerial serial))) fun s => ?_
    simp only [Request.guarded, Request.asks, called, ask]
    rcases service.store.call (.fetchBySerial serial) s with ⟨_ | _, _⟩ <;> rfl
  | handshake => exact yields_pure _
  | serialOf id => exact yields_reply (.serialOf id) (fun serial => some (.optionalSerial serial)) rfl fun _ => rfl
  | invalidate token => exact yields_reply (.invalidate token) (fun _ => some .empty) rfl fun _ => rfl
  | currentTime => exact yields_reply .currentTime (fun millis => some (.time millis)) rfl fun _ => rfl
  | latestSerial => exact yields_reply .latestSerial (fun serial => some (.serial serial)) rfl fun _ => rfl
  | lastSerialBefore date =>
    exact yields_reply (.lastSerialBefore date) (fun serial => some (.serial serial)) rfl fun _ => rfl

end Yields

/-! ### Whoever calls -/

section Access
variable {F S E : Type} (service : Service F S E) (account : FactCastAccount)

/-- What the store may be asked for an account. -/
def Permitted : StoreCall F → Prop
  | .publish facts => ∀ f ∈ facts, account.canWrite (service.facts.ns f) = true
  | .publishIfUnchanged facts _ => ∀ f ∈ facts, account.canWrite (service.facts.ns f) = true
  | .subscribe specs => ∀ spec ∈ specs, account.canRead spec.ns = true
  | .stateFor specs => ∀ spec ∈ specs, account.canRead spec.ns = true
  | .currentStateFor specs => ∀ spec ∈ specs, account.canRead spec.ns = true
  | .enumerateTypes ns => account.canRead ns = true
  | _ => True

/-- What the account may be told. -/
def Shown : StoreCall F → Reply F → Prop
  | _, .fact (some f) => account.canRead (service.facts.ns f) = true
  | .enumerateNamespaces, .strings set => ∀ ns ∈ set, account.canRead ns = true
  | _, _ => True

variable {service account} {meta_ : RequestMetadata}

theorem ns_tagged {facts stored : List F} (h : tagged service meta_ facts = some stored)
    (hfacts : writable service account facts = true) :
    ∀ f ∈ stored, account.canWrite (service.facts.ns f) = true := by
  unfold tagged at h
  rw [writable, List.all_eq_true] at hfacts
  cases hid : meta_.clientId with
  | none =>
    rw [hid] at h
    rw [← Option.some.inj h]
    exact hfacts
  | some id =>
    rw [hid] at h
    replace h : facts.mapM (fun f => service.facts.tagFactSource f id) = some stored := h
    intro g hg
    obtain ⟨f, hf, htag⟩ := exists_of_mem_mapM h g hg
    rw [service.facts.ns_tag f id g htag]
    exact hfacts f hf

theorem ns_specsFor {ns : String} {aggIds : List UUID} {specs : List FactSpec} (h : specsFor ns aggIds = some specs) :
    ∀ spec ∈ specs, spec.ns = ns := by
  unfold specsFor at h
  split at h
  · rw [← Option.some.inj h]
    intro spec hspec
    obtain ⟨id, _, rfl⟩ := List.mem_map.mp hspec
    rfl
  · split at h
    · rw [← Option.some.inj h]
      exact List.forall_mem_nil _
    · cases h

theorem readable_specs {specs : List FactSpec} (h : readable account (specs.map FactSpec.ns) = true) :
    ∀ spec ∈ specs, account.canRead spec.ns = true := fun spec hspec =>
  List.all_eq_true.mp h spec.ns (List.mem_map_of_mem hspec)

theorem permitted_asksState {json : String} {supplier : List FactSpec → StoreCall F} {c : StoreCall F}
    (h : asksState service account meta_ json supplier = .ok (some c))
    (hsupplier : ∀ specs, (∀ spec ∈ specs, account.canRead spec.ns = true) → Permitted service account (supplier specs)) :
    Permitted service account c := by
  unfold asksState at h
  split at h
  · exact nomatch h
  · split at h
    · exact nomatch h
    · split at h
      · rename_i hread
        injection h with h
        rw [← Option.some.inj h]
        exact hsupplier _ (readable_specs hread)
      · exact nomatch h

/-- What gets past the check is permitted. -/
theorem permitted_of_asks {r : Request F} {c : StoreCall F} (h : Request.asks service account meta_ r = .ok (some c)) :
    Permitted service account c := by
  cases r with
  | publish facts =>
    simp only [Request.asks] at h
    split at h
    · rename_i hwrite
      cases htagged : tagged service meta_ facts with
      | none =>
        rw [htagged] at h
        exact nomatch h
      | some stored =>
        rw [htagged] at h
        injection h with h
        rw [← Option.some.inj h]
        exact ns_tagged htagged hwrite
    · exact nomatch h
  | publishConditional req =>
    simp only [Request.asks] at h
    split at h
    · rename_i hwrite
      cases htagged : tagged service meta_ req.facts with
      | none =>
        rw [htagged] at h
        exact nomatch h
      | some stored =>
        rw [htagged] at h
        injection h with h
        rw [← Option.some.inj h]
        exact ns_tagged htagged hwrite
    · exact nomatch h
  | subscribe json =>
    simp only [Request.asks] at h
    cases hspecs : service.readRequest json with
    | none =>
      rw [hspecs] at h
      exact nomatch h
    | some specs =>
      rw [hspecs, Option.elim_some] at h
      split at h
      · split at h
        · rename_i hread
          injection h with h
          rw [← Option.some.inj h]
          exact readable_specs hread
        · exact nomatch h
      · exact nomatch h
  | enumerateTypes ns =>
    simp only [Request.asks] at h
    split at h
    · rename_i hread
      injection h with h
      rw [← Option.some.inj h]
      exact hread
    · exact nomatch h
  | stateFor req =>
    simp only [Request.asks] at h
    cases hns : req.ns with
    | none =>
      rw [hns] at h
      exact nomatch h
    | some ns =>
      rw [hns, Option.elim_some] at h
      split at h
      · rename_i hread
        cases hspecs : specsFor ns req.aggIds with
        | none =>
          rw [hspecs] at h
          exact nomatch h
        | some specs =>
          rw [hspecs, Option.elim_some] at h
          injection h with h
          rw [← Option.some.inj h]
          exact fun spec hspec => ns_specsFor hspecs spec hspec ▸ hread
      · exact nomatch h
  | stateForSpecsJson json =>
    have hstate : asksState service account meta_ json .stateFor = .ok (some c) := h
    exact permitted_asksState hstate fun _ hspecs => hspecs
  | currentStateForSpecsJson json =>
    have hstate : asksState service account meta_ json .currentStateFor = .ok (some c) := h
    exact permitted_asksState hstate fun _ hspecs => hspecs
  | handshake => exact nomatch h
  | _ =>
    injection h with h
    rw [← Option.some.inj h]
    exact trivial

theorem shown_fetched {c : StoreCall F} {f : Option F} {reply : Reply F}
    (h : (StoreCall.answer.fetched service account f : Except (Failure E) (Option (Reply F))) = .ok (some reply)) :
    Shown service account c reply := by
  cases f with
  | none =>
    injection h with h
    rw [← Option.some.inj h]
    exact trivial
  | some f =>
    simp only [StoreCall.answer.fetched] at h
    split at h
    · rename_i hread
      injection h with h
      rw [← Option.some.inj h]
      exact hread
    · exact nomatch h

/-- What is answered may be told. -/
theorem shown_of_answer {c : StoreCall F} {result : c.Result} {reply : Reply F}
    (h : (c.answer service account result : Except (Failure E) (Option (Reply F))) = .ok (some reply)) :
    Shown service account c reply := by
  cases c with
  | fetchById id => exact shown_fetched h
  | fetchByIdAndVersion id version => exact shown_fetched h
  | fetchBySerial serial => exact shown_fetched h
  | subscribe specs => exact nomatch h
  | enumerateNamespaces =>
    injection h with h
    rw [← Option.some.inj h]
    exact fun ns hns => (Finset.mem_filter.mp hns).2
  | _ =>
    injection h with h
    rw [← Option.some.inj h]
    exact trivial

end Access

section Runs
variable {ι F S E : Type} [DecidableEq ι] (service : Service F S E) (accountOf : ι → FactCastAccount)

/-- A user for each who calls, and the store they share. -/
structure System (S : Type) where
  users : ∀ i, FactCastUser (accountOf i)
  store : S

/-- A request, and who makes it. -/
structure Incoming (ι F : Type) where
  principal : ι
  meta_ : RequestMetadata
  request : Request F

abbrev Outcome (F E : Type) := Except (Failure E) (Option (Reply F))

def System.serve (σ : System accountOf S) (e : Incoming ι F) : Outcome F E × System accountOf S :=
  let (outcome, serving) := (FactStoreGrpcService.serve service e.meta_ e.request).run.run
    ⟨σ.users e.principal, σ.store⟩
  (outcome, ⟨Function.update σ.users e.principal serving.user, serving.store⟩)

def System.serveAll (σ : System accountOf S) : List (Incoming ι F) → List (Outcome F E) × System accountOf S
  | [] => ([], σ)
  | e :: rest =>
    let (outcome, next) := σ.serve service accountOf e
    let (outcomes, last) := next.serveAll rest
    (outcome :: outcomes, last)

/-- What the store is asked for the requests, one after another. -/
def askedOf : List (Incoming ι F) → List (ι × StoreCall F)
  | [] => []
  | e :: rest =>
    match Request.asks service (accountOf e.principal) e.meta_ e.request with
    | .ok (some c) => (e.principal, c) :: askedOf rest
    | _ => askedOf rest

/-- The store after it was asked. -/
def afterAll (calls : List (ι × StoreCall F)) (s : S) : S :=
  calls.foldl (fun s call => (service.store.call call.2 s).2) s

/-- What the principal of a request may be told in answer to it. -/
def ShownTo (e : Incoming ι F) (outcome : Outcome F E) : Prop :=
  ∀ reply c, Request.asks service (accountOf e.principal) e.meta_ e.request = .ok (some c) →
    outcome = .ok (some reply) → Shown service (accountOf e.principal) c reply

variable {service accountOf}

theorem serve_eq (σ : System accountOf S) (e : Incoming ι F) :
    ((σ.serve service accountOf e).1, (σ.serve service accountOf e).2.store) =
      Request.guarded service (accountOf e.principal) e.meta_ e.request σ.store :=
  yields_serve e.request ⟨σ.users e.principal, σ.store⟩

theorem snd_ask (account : FactCastAccount) (c : StoreCall F) (s : S) :
    (ask service account c s).2 = (service.store.call c s).2 := by
  unfold ask
  rcases service.store.call c s with ⟨_ | _, _⟩ <;> rfl

theorem shown_ask {account : FactCastAccount} {c : StoreCall F} {s : S} {reply : Reply F}
    (h : (ask service account c s).1 = .ok (some reply)) : Shown service account c reply := by
  unfold ask at h
  rcases hcall : service.store.call c s with ⟨_ | result, s'⟩
  · rw [hcall] at h
    exact nomatch h
  · rw [hcall] at h
    exact shown_of_answer h

/-- Requests are served as they are checked, whatever the users remember. -/
theorem serveAll_store (σ : System accountOf S) (requests : List (Incoming ι F)) :
    (σ.serveAll service accountOf requests).2.store = afterAll service (askedOf service accountOf requests) σ.store := by
  induction requests generalizing σ with
  | nil => rfl
  | cons e rest ih =>
    have hserve : (σ.serve service accountOf e).2.store =
        (Request.guarded service (accountOf e.principal) e.meta_ e.request σ.store).2 :=
      congrArg Prod.snd (serve_eq σ e)
    show ((σ.serve service accountOf e).2.serveAll service accountOf rest).2.store = _
    rw [ih, hserve, askedOf, Request.guarded]
    cases Request.asks service (accountOf e.principal) e.meta_ e.request with
    | error failure => rfl
    | ok asked =>
      cases asked with
      | none => rfl
      | some c =>
        simp only [snd_ask]
        rfl

theorem serveAll_shown (σ : System accountOf S) (requests : List (Incoming ι F)) :
    List.Forall₂ (ShownTo service accountOf) requests (σ.serveAll service accountOf requests).1 := by
  induction requests generalizing σ with
  | nil => exact .nil
  | cons e rest ih =>
    refine .cons (fun reply c hasks hreply => ?_) (ih _)
    have hserve : (σ.serve service accountOf e).1 =
        (Request.guarded service (accountOf e.principal) e.meta_ e.request σ.store).1 :=
      congrArg Prod.fst (serve_eq σ e)
    rw [Request.guarded, hasks] at hserve
    exact shown_ask (hserve.symm.trans hreply)

omit [DecidableEq ι] in
theorem permitted_askedOf (requests : List (Incoming ι F)) :
    ∀ call ∈ askedOf service accountOf requests, Permitted service (accountOf call.1) call.2 := by
  induction requests with
  | nil => exact List.forall_mem_nil _
  | cons e rest ih =>
    rw [askedOf]
    split
    · rename_i c hasks
      exact List.forall_mem_cons.mpr ⟨permitted_of_asks hasks, ih⟩
    · exact ih

end Runs

/-! ### What the store is asked -/

/-- A store that writes down what it is asked. -/
def FactStore.logged {F S E : Type} (store : FactStore F S E) : FactStore F (S × List (StoreCall F)) E where
  call c s := ((store.call c s.1).1, (store.call c s.1).2, s.2 ++ [c])

def Service.logged {F S E : Type} (service : Service F S E) : Service F (S × List (StoreCall F)) E :=
  { service with store := service.store.logged }

section Logged
variable {ι F S E : Type} {service : Service F S E} {accountOf : ι → FactCastAccount}

theorem afterAll_logged (calls : List (ι × StoreCall F)) (s : S × List (StoreCall F)) :
    afterAll service.logged calls s = (afterAll service calls s.1, s.2 ++ calls.map Prod.snd) := by
  induction calls generalizing s with
  | nil => simp [afterAll]
  | cons call rest ih =>
    show afterAll service.logged rest ((service.store.call call.2 s.1).2, s.2 ++ [call.2]) = _
    rw [ih, List.map_cons, List.append_assoc]
    rfl

theorem askedOf_logged (requests : List (Incoming ι F)) :
    askedOf service.logged accountOf requests = askedOf service accountOf requests := by
  induction requests with
  | nil => rfl
  | cons e rest ih =>
    simp only [askedOf, ih]
    rfl

end Logged

/-- Whatever is requested by whomever: the store is asked nothing but what is permitted to
who asks, and is afterwards what it becomes of that. Nobody is told what he may not read. -/
theorem access_controlled {ι F S E : Type} [DecidableEq ι] (service : Service F S E) (accountOf : ι → FactCastAccount)
    (σ : System accountOf (S × List (StoreCall F))) (requests : List (Incoming ι F)) :
    (∀ call ∈ askedOf service accountOf requests, Permitted service (accountOf call.1) call.2) ∧
    (σ.serveAll service.logged accountOf requests).2.store =
      (afterAll service (askedOf service accountOf requests) σ.store.1,
        σ.store.2 ++ (askedOf service accountOf requests).map Prod.snd) ∧
    List.Forall₂ (ShownTo service.logged accountOf) requests (σ.serveAll service.logged accountOf requests).1 := by
  refine ⟨permitted_askedOf requests, ?_, serveAll_shown σ requests⟩
  rw [serveAll_store, askedOf_logged, afterAll_logged]

end FactCast.FactStoreGrpcService
