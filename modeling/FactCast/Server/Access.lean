import FactCast.Store.QueryMeaning

/-! Who may read which facts.

An account has roles, a role has include and exclude patterns, and exclusion has
precedence, both within a role and among roles. A subscription is accepted if the
user may read every namespace its specifications name.

The check is on the names, the selection on the facts. Namespaces that can be
spliced select facts of just that name, so nothing is learned that way. But `*`
is checked as the name `*` and selects every namespace: a user who may read all
but one namespace passes the check and is sent that one as well. A subscription
leaks nothing exactly when an account that asks for `*` may read everything
(`subscription_confined`). -/
namespace FactCast

/-! ### Access rules -/

def matchesPattern (pattern ns : String) : Bool :=
  pattern == ns || pattern == "*" ||
    (pattern.toList.getLast? == some '*' && pattern.toList.dropLast.isPrefixOf ns.toList)

structure AccessRules where
  include_ : List String := []
  exclude : List String := []
deriving DecidableEq

/-- Exclusion has precedence; nothing is said of a namespace no pattern matches. -/
def AccessRules.includes (rules : AccessRules) (ns : String) : Option Bool :=
  if rules.exclude.any fun s => matchesPattern s ns then some false
  else if rules.include_.any fun s => matchesPattern s ns then some true
  else none

structure FactCastRole where
  id : String
  write : AccessRules := {}
  read : AccessRules := {}
deriving DecidableEq

def FactCastRole.canWrite (role : FactCastRole) (ns : String) : Option Bool := role.write.includes ns

def FactCastRole.canRead (role : FactCastRole) (ns : String) : Option Bool := role.read.includes ns

structure FactCastAccessConfiguration where
  roles : List FactCastRole

/-- Of several roles of one name the last one is found. -/
def FactCastAccessConfiguration.findRoleById (config : FactCastAccessConfiguration) (name : String) :
    Option FactCastRole :=
  config.roles.reverse.find? fun r => r.id == name

/-- An account whose roles have been looked up. -/
inductive FactCastAccount where
  /-- Used where security is switched off. -/
  | god
  | account (id : String) (roles : List FactCastRole)
deriving DecidableEq

namespace FactCastAccount

/-- An account that names a role the configuration does not define is refused. -/
def initialize_ (config : FactCastAccessConfiguration) (id : String) (roleNames : List String) :
    Option FactCastAccount :=
  (roleNames.mapM config.findRoleById).map (.account id)

/-- One role that refuses outweighs those that permit. -/
def permitted (answer : FactCastRole → Option Bool) : FactCastAccount → Bool
  | .god => true
  | .account _ roles =>
    let results := (roles.filterMap answer).eraseDups
    if results.contains false then false else results.contains true

def canWrite (account : FactCastAccount) (ns : String) : Bool := account.permitted fun r => r.canWrite ns

def canRead (account : FactCastAccount) (ns : String) : Bool := account.permitted fun r => r.canRead ns

/-- Every namespace a fact can have may be read. -/
def ReadsAll (account : FactCastAccount) : Prop :=
  ∀ ns, blank ns = false → account.canRead ns = true

end FactCastAccount

/-- Answers that are remembered, each of them right. -/
structure AccessCache (answer : String → Bool) where
  answers : List (String × Bool) := []
  right : ∀ e ∈ answers, e.2 = answer e.1 := by simp

namespace AccessCache
variable {answer : String → Bool}

theorem right_cons (cache : AccessCache answer) (ns : String) :
    ∀ e ∈ (ns, answer ns) :: cache.answers, e.2 = answer e.1 := by
  intro e he
  cases List.mem_cons.mp he with
  | inl heq => rw [heq]
  | inr he => exact cache.right e he

def computeIfAbsent (cache : AccessCache answer) (ns : String) : Bool × AccessCache answer :=
  match cache.answers.lookup ns with
  | some remembered => (remembered, cache)
  | none => (answer ns, ⟨(ns, answer ns) :: cache.answers, cache.right_cons ns⟩)

/-- Remembering changes no answer. -/
theorem computeIfAbsent_fst (cache : AccessCache answer) (ns : String) : (cache.computeIfAbsent ns).1 = answer ns := by
  unfold computeIfAbsent
  split
  · rename_i remembered hlookup
    obtain ⟨before, after, hanswers, _⟩ := List.lookup_eq_some_iff.mp hlookup
    exact cache.right (ns, remembered) (by rw [hanswers]; simp)
  · rfl

end AccessCache

structure FactCastUser (account : FactCastAccount) where
  readAccessCache : AccessCache account.canRead := {}
  writeAccessCache : AccessCache account.canWrite := {}

namespace FactCastUser
variable {account : FactCastAccount}

def canRead (user : FactCastUser account) (ns : String) : Bool × FactCastUser account :=
  let (answer, readAccessCache) := user.readAccessCache.computeIfAbsent ns
  (answer, { user with readAccessCache })

def canWrite (user : FactCastUser account) (ns : String) : Bool × FactCastUser account :=
  let (answer, writeAccessCache) := user.writeAccessCache.computeIfAbsent ns
  (answer, { user with writeAccessCache })

@[simp] theorem canRead_fst (user : FactCastUser account) (ns : String) : (user.canRead ns).1 = account.canRead ns :=
  user.readAccessCache.computeIfAbsent_fst ns

@[simp] theorem canWrite_fst (user : FactCastUser account) (ns : String) :
    (user.canWrite ns).1 = account.canWrite ns :=
  user.writeAccessCache.computeIfAbsent_fst ns

end FactCastUser

/-! ### The check of a subscription -/

/-- Why a request is refused. -/
inductive Status where
  | permissionDenied
  | resourceExhausted
deriving DecidableEq

section Check
variable {account : FactCastAccount}

def assertCanRead (user : FactCastUser account) (ns : String) : Except Status (FactCastUser account) :=
  if (user.canRead ns).1 then .ok (user.canRead ns).2 else .error .permissionDenied

/-- Namespace by namespace, until one is refused. -/
def assertCanReadAll : FactCastUser account → List String → Except Status (FactCastUser account)
  | user, [] => .ok user
  | user, ns :: rest => (assertCanRead user ns).bind fun user => assertCanReadAll user rest

/-- The specifications handed to the store, if the request is accepted: by the
limit on subscriptions, and for every namespace that is named. -/
def subscribe (limitsDisabled requestAccepted : Bool) (user : FactCastUser account)
    (specs : List FactSpec) : Except Status (FactCastUser account × List FactSpec) :=
  if limitsDisabled || requestAccepted then
    (assertCanReadAll user (specs.map FactSpec.ns).eraseDups).map fun user => (user, specs)
  else .error .resourceExhausted

end Check

variable {account : FactCastAccount} {user user' : FactCastUser account}

theorem assertCanReadAll_ok {names : List String} (h : assertCanReadAll user names = .ok user') :
    ∀ ns ∈ names, account.canRead ns = true := by
  induction names generalizing user with
  | nil => exact fun _ h => nomatch h
  | cons ns rest ih =>
    rw [assertCanReadAll, assertCanRead, user.canRead_fst] at h
    by_cases hok : account.canRead ns = true
    · rw [if_pos hok] at h
      exact List.forall_mem_cons.mpr ⟨hok, ih h⟩
    · rw [if_neg hok] at h
      cases h

/-- What an accepted subscription was checked for. -/
theorem subscribe_ok {disabled accepted : Bool} {specs specs' : List FactSpec}
    (h : subscribe disabled accepted user specs = .ok (user', specs')) :
    specs' = specs ∧ ∀ spec ∈ specs, account.canRead spec.ns = true := by
  unfold subscribe at h
  split at h
  · cases hall : assertCanReadAll user (specs.map FactSpec.ns).eraseDups with
    | error e =>
      rw [hall] at h
      cases h
    | ok u =>
      rw [hall] at h
      cases h
      refine ⟨rfl, fun spec hspec => assertCanReadAll_ok hall _ ?_⟩
      exact List.mem_eraseDups.mpr (List.mem_map.mpr ⟨spec, hspec, rfl⟩)
  · cases h

/-! ### What a subscription tells -/

/-- Every fact the specifications can select is of a namespace the account may
read. -/
def Confined (jp : JsonPath) (account : FactCastAccount) (specs : List FactSpec) : Prop :=
  ∀ serial select, PgQueryBuilder.selected jp specs serial = some select →
    ∀ row, select row = true → account.canRead row.fact.header.ns = true

/-- Logs that agree on the facts the account may read give the same facts. -/
def Noninterfering (jp : JsonPath) (account : FactCastAccount) (specs : List FactSpec) : Prop :=
  ∀ serial select, PgQueryBuilder.selected jp specs serial = some select →
    ∀ log log' : List FactRow,
      (log.filter fun row => account.canRead row.fact.header.ns) =
        (log'.filter fun row => account.canRead row.fact.header.ns) →
      log.filter select = log'.filter select

variable {jp : JsonPath} {specs : List FactSpec}

/-- The two readings of confidentiality are one. -/
theorem confined_iff_noninterfering : Confined jp account specs ↔ Noninterfering jp account specs := by
  refine ⟨fun h serial select hsel log log' heq => ?_, fun h serial select hsel row hrow => ?_⟩
  · have hkeep : ∀ l : List FactRow, l.filter select =
        (l.filter fun row => account.canRead row.fact.header.ns).filter select := by
      intro l
      rw [List.filter_filter]
      refine List.filter_congr fun row _ => ?_
      cases hs : select row with
      | false => rfl
      | true => simp [h serial select hsel row hs]
    rw [hkeep log, hkeep log', heq]
  · by_contra hno
    -- a log with only this row looks empty to the account
    have hhidden : ([row].filter fun row => account.canRead row.fact.header.ns) = [] := by
      simp [hno]
    have := h serial select hsel [row] [] (by rw [hhidden]; rfl)
    simp [hrow] at this

/-- Plain namespaces select facts of that name, and `*` selects only what may be
read if everything may. -/
theorem confined_of_readsAll (hread : ∀ spec ∈ specs, account.canRead spec.ns = true)
    (hplain : ∀ spec ∈ specs, Json.Plain spec.ns)
    (hall : ∀ spec ∈ specs, spec.ns = "*" → account.ReadsAll) : Confined jp account specs := by
  intro serial select hsel row hrow
  obtain ⟨_, spec, hspec, hholds⟩ := (PgQueryBuilder.selected_row hsel row).mp hrow
  by_cases hstar : spec.ns = "*"
  · exact hall spec hspec hstar _ row.fact.header.ns_given
  · have hc := hholds _ (PgQueryBuilder.mem_criteria.mpr (.inl ⟨hstar, rfl⟩))
    have hns := ((PgQueryBuilder.asks_ns (hplain spec hspec)).2 _).mp hc
    rw [Header.ns_of_get? hns]
    exact hread spec hspec

/-- A specification of every namespace matches some fact of each. -/
theorem exists_match_of_star {spec : FactSpec} (hstar : spec.ns = "*") (hc : spec.Consistent)
    {ns : String} (hns : blank ns = false) : ∃ h : Header, h.ns = ns ∧ spec.Matches h := by
  have hm := PgQueryBuilder.sample_matches { spec with ns := ns, ns_given := hns } hc
  exact ⟨_, rfl, .inl hstar, hm.type, hm.aggIds, hm.meta, hm.metaKeyExists⟩

theorem readsAll_of_confined (hs : ∀ spec ∈ specs, spec.Spliceable) (h : Confined jp account specs)
    {spec : FactSpec} (hspec : spec ∈ specs) (hc : spec.Consistent) (hstar : spec.ns = "*") :
    account.ReadsAll := by
  intro ns hns
  obtain ⟨header, hheader, hm⟩ := exists_match_of_star hstar hc hns
  obtain ⟨select, hsel, hrow⟩ :=
    PgQueryBuilder.denotes_of_spliceable jp (List.ne_nil_of_mem hspec) hs 0
  rw [← hheader]
  exact h 0 select hsel ⟨1, ⟨⟨0⟩, header, .null⟩⟩ ((hrow _).mpr ⟨Int.zero_lt_one, spec, hspec, hm⟩)

/-- An accepted subscription to plain namespaces is confined if an account that
asks for `*` may read everything; where the specifications are spliceable and
consistent, only then. Confined or noninterfering is the same. -/
theorem subscription_confined (jp : JsonPath) (limitsDisabled requestAccepted : Bool)
    (account : FactCastAccount) (user user' : FactCastUser account) (specs handed : List FactSpec)
    (h : subscribe limitsDisabled requestAccepted user specs = .ok (user', handed)) :
    (Confined jp account handed ↔ Noninterfering jp account handed) ∧
    ((∀ spec ∈ specs, Json.Plain spec.ns ∧ (spec.ns = "*" → account.ReadsAll)) →
      Confined jp account handed) ∧
    ((∀ spec ∈ specs, spec.Spliceable ∧ spec.Consistent) →
      (Confined jp account handed ↔ ∀ spec ∈ specs, spec.ns = "*" → account.ReadsAll)) := by
  obtain ⟨rfl, hread⟩ := subscribe_ok h
  refine ⟨confined_iff_noninterfering, fun hcond => ?_, fun hs => ⟨fun hc => ?_, fun hall => ?_⟩⟩
  · exact confined_of_readsAll hread (fun spec hspec => (hcond spec hspec).1)
      fun spec hspec => (hcond spec hspec).2
  · intro spec hspec hstar
    exact readsAll_of_confined (fun x hx => (hs x hx).1) hc hspec (hs spec hspec).2 hstar
  · exact confined_of_readsAll hread (fun spec hspec => (hs spec hspec).1.ns) hall

/-- A role that may read everything but the namespace `secret`. -/
def limitedRole : FactCastRole where
  id := "limited"
  read := { include_ := ["*"], exclude := ["secret"] }

def limitedAccount : FactCastAccount := .account "brain" [limitedRole]

def limitedUser : FactCastUser limitedAccount := {}

example : FactCastAccount.initialize_ ⟨[limitedRole]⟩ "brain" ["limited"] = some limitedAccount := by
  decide +kernel

/-- The limited user subscribes to orders. -/
theorem subscription_confined_orderPlaced : ∃ user' handed,
    subscribe true false limitedUser [PgQueryBuilder.orderPlaced] = .ok (user', handed) ∧
      Confined JsonPath.quoted limitedAccount handed := by
  refine ⟨_, _, rfl, ?_⟩
  refine (subscription_confined JsonPath.quoted true false limitedAccount limitedUser _
    [PgQueryBuilder.orderPlaced] _ rfl).2.1 fun spec hspec => ?_
  rw [List.mem_singleton.mp hspec]
  exact ⟨by decide, fun hstar => absurd hstar (by decide)⟩

/-- The limited user subscribes to everything and is sent the secret. -/
theorem everything_not_confined : ∃ user' handed,
    subscribe true false limitedUser [PgQueryBuilder.everything] = .ok (user', handed) ∧
      ¬ Confined JsonPath.quoted limitedAccount handed := by
  refine ⟨_, _, rfl, fun hc => ?_⟩
  cases hsel : PgQueryBuilder.selected JsonPath.quoted [PgQueryBuilder.everything] 0 with
  | none =>
    have : (PgQueryBuilder.selected JsonPath.quoted [PgQueryBuilder.everything] 0).isSome = true := by decide +kernel
    rw [hsel] at this
    cases this
  | some select =>
    have hrow : (PgQueryBuilder.selected JsonPath.quoted [PgQueryBuilder.everything] 0).any
        (fun s => s PgQueryBuilder.secretRow) = true := by decide +kernel
    rw [hsel] at hrow
    have hread := hc 0 select hsel PgQueryBuilder.secretRow hrow
    exact absurd hread (by decide +kernel)

end FactCast
