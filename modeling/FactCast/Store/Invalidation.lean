import FactCast.Machine.Run
import FactCast.Store.RequestedVersions

/-! The cache of transformed facts, and what an invalidation leaves of it.

What is put into `PgTransformationCache` is buffered. A flush takes the buffer, and
inserts what it took into the table; lookups read the buffer, then the table. An
invalidation flushes the buffer and then deletes what the table has of a namespace
and type. Any number of threads do any of this, one step at a time.

What another flush has taken is in neither place that an invalidation looks at. It is
inserted afterwards, and stays (`taken_comes_back`). Where no flush does that, nothing
that an invalidation supersedes is read after it has returned (`superseded_gone`). -/
namespace FactCast.PgTransformationCache
open FactTransformerService (Key)

/-- A fact in the cache, with the number of its put and the code it was made with. -/
structure Entry where
  fact : PgFact
  number : Nat
  code : Nat

/-! ### The buffer -/

/-- An entry of null means read, any other means write. -/
abbrev Buffer := Key → Option (Option Entry)

namespace CacheBuffer

def empty : Buffer := fun _ => none

def get (b : Buffer) (k : Key) : Option Entry := (b k).join

/-- A read does not override a write. -/
def put (b : Buffer) (k : Key) (x : Option Entry) : Buffer :=
  if x.isSome || (b k).isNone then Function.update b k (some x) else b

def putAllNull (b : Buffer) (keys : List Key) : Buffer := keys.foldl (fun b k => put b k none) b

theorem get_put {b : Buffer} {k k' : Key} {x : Entry} {y : Option Entry}
    (h : get (put b k y) k' = some x) : get b k' = some x ∨ y = some x := by
  unfold put at h
  split at h
  · unfold get at h
    by_cases hk : k' = k
    · rw [hk, Function.update_self] at h
      exact .inr h
    · rw [Function.update_of_ne hk] at h
      exact .inl h
  · exact .inl h

theorem get_putAllNull {b : Buffer} {keys : List Key} {k : Key} {x : Entry}
    (h : get (putAllNull b keys) k = some x) : get b k = some x := by
  induction keys generalizing b with
  | nil => exact h
  | cons k' rest ih =>
    rcases get_put (ih h) with hget | hnull
    · exact hget
    · cases hnull

end CacheBuffer

/-! ### The threads -/

/-- An invalidation that has begun: how many facts were put by then, and what the
code of the namespace and type was. -/
structure Call where
  ns : String
  type : String
  puts : Nat
  code : Nat

/-- The fact is of the namespace and type. -/
def Entry.isOf (x : Entry) (ns type : String) : Bool := x.fact.ns == ns && x.fact.type == some type

/-- It was put before the invalidation began, and made with other code. -/
def Call.supersedes (c : Call) (x : Entry) : Bool :=
  x.isOf c.ns c.type && decide (x.number < c.puts) && decide (x.code < c.code)

/-- The next step of a thread. -/
inductive Phase where
  | idle
  /-- The chain was read, with the code it had. -/
  | transforming (e : PgFact) (chain : TransformationChain) (code : Nat)
  /-- In `find`, with nothing in the buffer. -/
  | query (key : Key)
  /-- In `findAll`, at the buffer. -/
  | look (todo missing : List Key) (facts : List Entry)
  | queryAll (missing : List Key) (facts : List Entry)
  /-- About to register the accesses and to return. -/
  | found (accessed : List Key) (facts : List Entry)
  /-- In `flush`, which may be called by an invalidation. -/
  | flush (call : Option Call)
  /-- The buffer is taken. -/
  | insert (copy : Buffer) (call : Option Call)
  | delete (call : Call)
  | invalidated (call : Call)

/-- What a lookup has in its hands. -/
def Phase.held : Phase → List Entry
  | .look _ _ facts | .queryAll _ facts | .found _ facts => facts
  | _ => []

def Phase.call? : Phase → Option Call
  | .flush call | .insert _ call => call
  | .delete call | .invalidated call => some call
  | _ => none

/-- The invalidation whose own flush has taken the buffer. -/
def Phase.taken? : Phase → Option Call
  | .insert _ call => call
  | .delete call | .invalidated call => some call
  | _ => none

structure State where
  /-- How often other transformations were registered. -/
  code : TransformationKey → Nat
  buffer : Buffer
  table : Key → Option Entry
  threads : List Phase
  /-- How many facts were put so far. -/
  puts : Nat
  /-- The invalidations that are through with the table, and those that have returned. -/
  deleted : List Call
  returned : List Call

structure Config where
  isReadOnlyModeEnabled : Bool
  /-- What the scripts make of a payload, by their code. -/
  trans : Nat → TransformationChain → Jsonb → Option Jsonb

/-- What a thread does next. -/
inductive Move where
  /-- It reads a chain, which may not be the latest. -/
  | transform (e : PgFact) (chain : TransformationChain) (code : Nat)
  | put
  | find (key : Key)
  | findAll (keys : List Key)
  | look
  | query
  | answer
  | flush
  | invalidate (ns type : String)
  | clear
  /-- A batch of what was taken. -/
  | insert (keys : List Key)
  /-- All is inserted, or an error is logged. -/
  | flushed
  | delete
  | returns
  /-- What it does throws. -/
  | fail

inductive Action where
  | move (t : Nat) (m : Move)
  /-- Other transformations are registered. -/
  | register (key : TransformationKey)
  /-- What was not accessed for long is deleted. -/
  | compact (keys : List Key)

def State.put (s : State) (key : Key) (fact : PgFact) (code : Nat) : State :=
  { s with buffer := CacheBuffer.put s.buffer key (some ⟨fact, s.puts, code⟩), puts := s.puts + 1 }

/-- Keys that are there already are left alone. -/
def State.insert (s : State) (copy : Buffer) (keys : List Key) : State :=
  { s with table := fun k => if k ∈ keys then s.table k <|> CacheBuffer.get copy k else s.table k }

def State.delete (s : State) (call : Call) : State :=
  { s with table := fun k => (s.table k).filter fun x => !x.isOf call.ns call.type }

/-- What a thread makes of a state, and what it does next. -/
def next (cfg : Config) (s : State) : Phase → Move → Option (Phase × State)
  | .idle, .transform e chain code =>
    if code ≤ s.code ⟨e.ns, e.type.getD ""⟩ then some (.transforming e chain code, s) else none
  | .transforming e chain code, .put =>
    (cfg.trans code chain e.jsonPayload).map fun payload =>
      (.idle, s.put (e.id, chain.toVersion, chain.id) (e.transformed chain.toVersion payload) code)
  | .idle, .find key =>
    match CacheBuffer.get s.buffer key with
    | some x => some (.found [key] [x], s)
    | none => some (.query key, s)
  | .query key, .query =>
    match s.table key with
    | some x => some (.found [key] [x], s)
    | none => some (.found [] [], s)
  | .idle, .findAll keys => some (.look keys [] [], s)
  | .look (k :: rest) missing facts, .look =>
    match CacheBuffer.get s.buffer k with
    | some x => some (.look rest missing (facts ++ [x]), s)
    | none => some (.look rest (missing ++ [k]) facts, s)
  | .look [] missing facts, .look => some (.queryAll missing facts, s)
  | .queryAll missing facts, .query => some (.found missing (facts ++ missing.filterMap s.table), s)
  -- a full buffer is flushed before the lookup returns, which is here the flush of another thread
  | .found accessed _, .answer => some (.idle, { s with buffer := CacheBuffer.putAllNull s.buffer accessed })
  | .idle, .flush => some (.flush none, s)
  | .idle, .invalidate ns type => some (.flush (some ⟨ns, type, s.puts, s.code ⟨ns, type⟩⟩), s)
  | .flush call, .clear => some (.insert s.buffer call, { s with buffer := CacheBuffer.empty })
  | .insert copy call, .insert keys =>
    if cfg.isReadOnlyModeEnabled then none
    else some (.insert (fun k => if k ∈ keys then none else copy k) call, s.insert copy keys)
  | .insert _ none, .flushed => some (.idle, s)
  | .insert _ (some call), .flushed => some (.delete call, s)
  | .delete call, .delete =>
    some (.invalidated call,
      { (if cfg.isReadOnlyModeEnabled then s else s.delete call) with deleted := call :: s.deleted })
  | .invalidated call, .returns => some (.idle, { s with returned := call :: s.returned })
  | .transforming .., .fail | .query _, .fail | .queryAll .., .fail | .delete _, .fail => some (.idle, s)
  | _, _ => none

def step (cfg : Config) (s : State) : Action → Option State
  | .move t m =>
    (s.threads[t]?).bind fun p =>
      (next cfg s p m).map fun r => { r.2 with threads := s.threads.set t r.1 }
  | .register key => some { s with code := fun k => if k = key then s.code k + 1 else s.code k }
  | .compact keys => some { s with table := fun k => if k ∈ keys then none else s.table k }

/-- Idle threads, an empty buffer, and a table that was filled before. -/
def caching (cfg : Config) : Machine State Action where
  Start s := s.buffer = CacheBuffer.empty ∧ (∀ p ∈ s.threads, p = .idle) ∧ s.deleted = [] ∧
    s.returned = [] ∧ ∀ k x, s.table k = some x → x.number < s.puts
  step := step cfg

/-- What `findAll` returns: facts with one identifier are one. -/
def newHashSet : List Entry → List Entry
  | [] => []
  | x :: rest => x :: (newHashSet rest).filter fun y => y.fact.id != x.fact.id

/-- What a lookup is about to return. -/
def Phase.answer : Phase → List Entry
  | .found _ facts => newHashSet facts
  | _ => []

def returning (s : State) : List Entry := s.threads.flatMap Phase.answer

theorem mem_newHashSet {x : Entry} {facts : List Entry} (h : x ∈ newHashSet facts) : x ∈ facts := by
  induction facts with
  | nil => cases h
  | cons y rest ih =>
    rcases List.mem_cons.mp h with rfl | hrest
    · exact List.mem_cons_self ..
    · exact List.mem_cons_of_mem y (ih (List.mem_filter.mp hrest).1)

/-! ### What a step does -/

section Steps
variable {cfg : Config} {s s' : State} {p q : Phase} {m : Move} {t : Nat} {a : Action} {c : Call}
  {k : Key} {x : Entry}

/-- Nothing in the buffer, or in the table, is superseded. -/
def CleanBuffer (s : State) (c : Call) : Prop :=
  ∀ k x, CacheBuffer.get s.buffer k = some x → c.supersedes x = false

def CleanTable (s : State) (c : Call) : Prop := ∀ k x, s.table k = some x → c.supersedes x = false

/-- No flush inserts what an invalidation supersedes that is through with the table;
an invalidation that must not delete has nothing to delete; and when it returns, no
lookup has in its hands what it supersedes. -/
def Undisturbed (cfg : Config) (s : State) : Action → Prop
  | .move t (.insert keys) => ∀ copy call, s.threads[t]? = some (.insert copy call) →
      ∀ k ∈ keys, ∀ x, CacheBuffer.get copy k = some x → ∀ c ∈ s.deleted, c.supersedes x = false
  | .move t .delete => ∀ c, s.threads[t]? = some (.delete c) → cfg.isReadOnlyModeEnabled = true → CleanTable s c
  | .move t .returns => ∀ c, s.threads[t]? = some (.invalidated c) →
      ∀ p ∈ s.threads, ∀ x ∈ p.held, c.supersedes x = false
  | _ => True

theorem supersedes_old (h : c.supersedes x = true) : x.number < c.puts := by
  simp only [Call.supersedes, Bool.and_eq_true, decide_eq_true_eq] at h
  exact h.1.2

theorem fresh_not_superseded (h : c.puts ≤ x.number) : c.supersedes x = false := by
  by_contra hc
  have hold := supersedes_old (Bool.eq_true_of_not_eq_false hc)
  omega

/-- What a flush has taken, and is about to insert. -/
def Inserts (p : Phase) (m : Move) (k : Key) (x : Entry) : Prop :=
  ∃ copy call keys, p = .insert copy call ∧ m = .insert keys ∧ k ∈ keys ∧ CacheBuffer.get copy k = some x

/-- The table is rid of what an invalidation is about. -/
structure Deletes (cfg : Config) (p : Phase) (m : Move) (s' : State) (c : Call) : Prop where
  phase : p = .delete c
  move : m = .delete
  gone : cfg.isReadOnlyModeEnabled = false → CleanTable s' c

/-- Where what a move puts somewhere comes from. -/
structure Effect (cfg : Config) (s : State) (p : Phase) (m : Move) (q : Phase) (s' : State) : Prop where
  threads : s'.threads = s.threads
  puts : s.puts ≤ s'.puts
  buffer : ∀ k x, CacheBuffer.get s'.buffer k = some x → CacheBuffer.get s.buffer k = some x ∨ x.number = s.puts
  table : ∀ k x, s'.table k = some x → s.table k = some x ∨ Inserts p m k x
  held : ∀ x ∈ q.held, x ∈ p.held ∨ (∃ k, CacheBuffer.get s.buffer k = some x) ∨ ∃ k, s.table k = some x
  call : ∀ c, q.call? = some c → p.call? = some c ∨ c.puts = s.puts
  taken : ∀ c, q.taken? = some c → p.taken? = some c ∨ s'.buffer = CacheBuffer.empty
  deleted : ∀ c ∈ s'.deleted, c ∈ s.deleted ∨ Deletes cfg p m s' c
  kept : ∀ c ∈ s.deleted, c ∈ s'.deleted
  invalidated : ∀ c, q = .invalidated c → c ∈ s'.deleted
  returned : ∀ c ∈ s'.returned, c ∈ s.returned ∨ (p = .invalidated c ∧ m = .returns)

/-- A move after which a thread has in its hands, besides what it had, what was there
to read. -/
theorem Effect.reads (facts : List Entry) (hcall : q.call? = none) (htaken : q.taken? = none)
    (hheld : q.held ⊆ p.held ++ facts)
    (hfacts : ∀ x ∈ facts, (∃ k, CacheBuffer.get s.buffer k = some x) ∨ ∃ k, s.table k = some x) :
    Effect cfg s p m q s where
  threads := rfl
  puts := Nat.le_refl _
  buffer _ _ := .inl
  table _ _ := .inl
  held x hx := (List.mem_append.mp (hheld hx)).imp_right (hfacts x)
  call c hc := absurd (hcall.symm.trans hc) (Option.some_ne_none c).symm
  taken c hc := absurd (htaken.symm.trans hc) (Option.some_ne_none c).symm
  deleted _ := .inl
  kept _ := id
  invalidated c hc := by
    rw [hc] at hcall
    cases hcall
  returned _ := .inl

/-- A move of a thread that goes on with its flush. -/
theorem Effect.goOn (hheld : q.held = []) (hcall : ∀ c, q.call? = some c → p.call? = some c ∨ c.puts = s.puts)
    (htaken : ∀ c, q.taken? = some c → p.taken? = some c) (hq : ∀ c, q ≠ .invalidated c) :
    Effect cfg s p m q s where
  threads := rfl
  puts := Nat.le_refl _
  buffer _ _ := .inl
  table _ _ := .inl
  held x h := by
    rw [hheld] at h
    cases h
  call := hcall
  taken c hc := .inl (htaken c hc)
  deleted _ := .inl
  kept _ := id
  invalidated c hc := absurd hc (hq c)
  returned _ := .inl

theorem effect_put {e : PgFact} {chain : TransformationChain} {code : Nat} {key : Key} {fact : PgFact} :
    Effect cfg s (.transforming e chain code) m .idle (s.put key fact code) where
  threads := rfl
  puts := Nat.le_succ _
  buffer k x hget := by
    simp only [State.put] at hget
    rcases CacheBuffer.get_put hget with hget | hnew
    · exact .inl hget
    · cases hnew
      exact .inr rfl
  table _ _ := .inl
  held x h := by cases h
  call c h := by cases h
  taken c h := by cases h
  deleted _ := .inl
  kept _ := id
  invalidated c h := by cases h
  returned _ := .inl

theorem effect_insert {copy : Buffer} {call : Option Call} {keys : List Key} :
    Effect cfg s (.insert copy call) (.insert keys)
      (.insert (fun k => if k ∈ keys then none else copy k) call) (s.insert copy keys) where
  threads := rfl
  puts := Nat.le_refl _
  buffer _ _ := .inl
  table k x hx := by
    simp only [State.insert] at hx
    split at hx
    · rename_i hk
      cases htable : s.table k with
      | some y =>
        rw [htable] at hx
        exact .inl hx
      | none =>
        rw [htable] at hx
        exact .inr ⟨copy, call, keys, rfl, rfl, hk, hx⟩
    · exact .inl hx
  held x h := by cases h
  call c h := .inl h
  taken c h := .inl h
  deleted _ := .inl
  kept _ := id
  invalidated c h := by cases h
  returned _ := .inl

theorem effect_delete : Effect cfg s (.delete c) .delete (.invalidated c)
    { (if cfg.isReadOnlyModeEnabled then s else s.delete c) with deleted := c :: s.deleted } := by
  have hdelete : ∀ k x, (s.delete c).table k = some x → s.table k = some x ∧ x.isOf c.ns c.type = false := by
    intro k x hx
    simpa using Option.filter_eq_some_iff.mp hx
  constructor
  case threads => split <;> rfl
  case puts => split <;> exact Nat.le_refl _
  case buffer =>
    intro k x hget
    left
    split at hget <;> exact hget
  case table =>
    intro k x hx
    left
    split at hx
    · exact hx
    · exact (hdelete k x hx).1
  case held =>
    intro x h
    cases h
  case call => exact fun c => .inl
  case taken => exact fun c => .inl
  case deleted =>
    intro d hd
    rcases List.mem_cons.mp hd with rfl | hd
    · refine .inr ⟨rfl, rfl, fun hwrite k x hx => ?_⟩
      rw [if_neg (by simp [hwrite])] at hx
      simp [Call.supersedes, (hdelete k x hx).2]
    · exact .inl hd
  case kept => exact fun d hd => List.mem_cons_of_mem c hd
  case invalidated =>
    intro d hd
    cases hd
    exact List.mem_cons_self ..
  case returned =>
    intro d hd
    left
    split at hd <;> exact hd

/-- What a lookup answered from is marked as accessed, which puts nothing. -/
theorem effect_answer {accessed : List Key} {facts : List Entry} :
    Effect cfg s (.found accessed facts) m .idle
      { s with buffer := CacheBuffer.putAllNull s.buffer accessed } where
  threads := rfl
  puts := Nat.le_refl _
  buffer _ _ hget := .inl (CacheBuffer.get_putAllNull hget)
  table _ _ := .inl
  held x h := by cases h
  call c h := by cases h
  taken c h := by cases h
  deleted _ := .inl
  kept _ := id
  invalidated c h := by cases h
  returned _ := .inl

theorem effect_clear {call : Option Call} :
    Effect cfg s (.flush call) m (.insert s.buffer call) { s with buffer := CacheBuffer.empty } where
  threads := rfl
  puts := Nat.le_refl _
  buffer k x h := by cases h
  table _ _ := .inl
  held x h := by cases h
  call _ := .inl
  taken _ _ := .inr rfl
  deleted _ := .inl
  kept _ := id
  invalidated c h := by cases h
  returned _ := .inl

theorem effect_returns : Effect cfg s (.invalidated c) .returns .idle
    { s with returned := c :: s.returned } where
  threads := rfl
  puts := Nat.le_refl _
  buffer _ _ := .inl
  table _ _ := .inl
  held x h := by cases h
  call c h := by cases h
  taken c h := by cases h
  deleted _ := .inl
  kept _ := id
  invalidated c h := by cases h
  returned d hd := by
    rcases List.mem_cons.mp hd with rfl | hd
    · exact .inr ⟨rfl, rfl⟩
    · exact .inl hd

theorem next_effect (h : next cfg s p m = some (q, s')) : Effect cfg s p m q s' := by
  unfold next at h
  split at h
  -- a transformation
  · split at h
    · cases h
      exact .reads [] rfl rfl (List.nil_subset _) (by simp)
    · cases h
  · obtain ⟨payload, _, h⟩ := Option.map_eq_some_iff.mp h
    cases h
    exact effect_put
  -- a lookup of one fact
  · split at h
    · rename_i x hget
      cases h
      exact .reads [x] rfl rfl (List.Subset.refl _) (List.forall_mem_singleton.mpr (.inl ⟨_, hget⟩))
    · cases h
      exact .reads [] rfl rfl (List.nil_subset _) (by simp)
  · split at h
    · rename_i x htable
      cases h
      exact .reads [x] rfl rfl (List.Subset.refl _) (List.forall_mem_singleton.mpr (.inr ⟨_, htable⟩))
    · cases h
      exact .reads [] rfl rfl (List.nil_subset _) (by simp)
  -- a lookup of many
  · cases h
    exact .reads [] rfl rfl (List.nil_subset _) (by simp)
  · split at h
    · rename_i x hget
      cases h
      exact .reads [x] rfl rfl (List.Subset.refl _) (List.forall_mem_singleton.mpr (.inl ⟨_, hget⟩))
    · cases h
      exact .reads [] rfl rfl (List.subset_append_left _ _) (by simp)
  · cases h
    exact .reads [] rfl rfl (List.subset_append_left _ _) (by simp)
  · cases h
    refine .reads _ rfl rfl (List.Subset.refl _) fun x hx => ?_
    obtain ⟨k, _, htable⟩ := List.mem_filterMap.mp hx
    exact .inr ⟨k, htable⟩
  · cases h
    exact effect_answer
  -- a flush, and an invalidation
  · cases h
    exact .reads [] rfl rfl (List.nil_subset _) (by simp)
  · cases h
    refine .goOn rfl (fun c hc => ?_) (fun c hc => hc) (by simp)
    cases hc
    exact .inr rfl
  · cases h
    exact effect_clear
  · split at h
    · cases h
    · cases h
      exact effect_insert
  · cases h
    exact .reads [] rfl rfl (List.nil_subset _) (by simp)
  · cases h
    exact .goOn rfl (fun c => .inl) (fun c => id) (by simp)
  · cases h
    exact effect_delete
  · cases h
    exact effect_returns
  -- a failure
  · cases h
    exact .reads [] rfl rfl (List.nil_subset _) (by simp)
  · cases h
    exact .reads [] rfl rfl (List.nil_subset _) (by simp)
  · cases h
    exact .reads [] rfl rfl (List.nil_subset _) (by simp)
  · cases h
    exact .reads [] rfl rfl (List.nil_subset _) (by simp)
  · cases h

/-! ### What an invalidation leaves -/

/-- Once an invalidation has taken the buffer, nothing in the buffer is superseded;
once it is through with the table, nothing in the table is; and once it has returned,
nothing that was read. -/
structure Inv (s : State) : Prop where
  calls : ∀ p ∈ s.threads, ∀ c, p.call? = some c → c.puts ≤ s.puts
  taken : ∀ p ∈ s.threads, ∀ c, p.taken? = some c → CleanBuffer s c
  deleted : ∀ c ∈ s.deleted, c.puts ≤ s.puts ∧ CleanBuffer s c ∧ CleanTable s c
  invalidated : ∀ c, .invalidated c ∈ s.threads → c ∈ s.deleted
  returned : ∀ c ∈ s.returned, c ∈ s.deleted ∧ ∀ p ∈ s.threads, ∀ x ∈ p.held, c.supersedes x = false

theorem taken_call (h : p.taken? = some c) : p.call? = some c := by
  cases p with
  | insert copy call => exact h
  | delete call => exact h
  | invalidated call => exact h
  | _ => cases h

/-- A buffer stays clean: what is put into it is too new. -/
theorem Effect.cleanBuffer (h : Effect cfg s p m q s') (hputs : c.puts ≤ s.puts) (hclean : CleanBuffer s c) :
    CleanBuffer s' c := by
  intro k x hget
  rcases h.buffer k x hget with hget | hnew
  · exact hclean k x hget
  · exact fresh_not_superseded (hnew ▸ hputs)

/-- A table stays clean, if no flush disturbs it. -/
theorem Effect.cleanTable (h : Effect cfg s p m q s') (hp : s.threads[t]? = some p)
    (hu : Undisturbed cfg s (.move t m)) (hc : c ∈ s.deleted) (hclean : CleanTable s c) :
    CleanTable s' c := by
  intro k x hx
  rcases h.table k x hx with hx | ⟨copy, call, keys, rfl, rfl, hk, hget⟩
  · exact hclean k x hx
  · exact hu copy call hp k hk x hget c hc

theorem mem_set {threads : List Phase} (h : p ∈ threads.set t q) : p ∈ threads ∨ p = q :=
  List.mem_or_eq_of_mem_set h

theorem inv_move (hi : Inv s) (hu : Undisturbed cfg s (.move t m)) (hp : s.threads[t]? = some p)
    (h : next cfg s p m = some (q, s')) : Inv { s' with threads := s.threads.set t q } := by
  have heffect := next_effect h
  have hmem : p ∈ s.threads := List.mem_of_getElem? hp
  constructor
  case calls =>
    intro r hr c hc
    rcases mem_set hr with hr | rfl
    · exact Nat.le_trans (hi.calls r hr c hc) heffect.puts
    · rcases heffect.call c hc with hc | hnew
      · exact Nat.le_trans (hi.calls p hmem c hc) heffect.puts
      · exact hnew ▸ heffect.puts
  case taken =>
    intro r hr c hc
    rcases mem_set hr with hr | rfl
    · exact heffect.cleanBuffer (hi.calls r hr c (taken_call hc)) (hi.taken r hr c hc)
    · rcases heffect.taken c hc with hc | hempty
      · exact heffect.cleanBuffer (hi.calls p hmem c (taken_call hc)) (hi.taken p hmem c hc)
      · intro k x hget
        have hget : CacheBuffer.get s'.buffer k = some x := hget
        rw [hempty] at hget
        cases hget
  case deleted =>
    intro c hc
    rcases heffect.deleted c hc with hold | ⟨rfl, rfl, hgone⟩
    · obtain ⟨hputs, hbuffer, htable⟩ := hi.deleted c hold
      exact ⟨Nat.le_trans hputs heffect.puts, heffect.cleanBuffer hputs hbuffer,
        heffect.cleanTable hp hu hold htable⟩
    · have hputs := hi.calls _ hmem c rfl
      refine ⟨Nat.le_trans hputs heffect.puts, heffect.cleanBuffer hputs (hi.taken _ hmem c rfl), ?_⟩
      cases hmode : cfg.isReadOnlyModeEnabled with
      | false => exact hgone hmode
      | true =>
        intro k x hx
        rcases heffect.table k x hx with hx | ⟨_, _, _, hinserts, _⟩
        · exact hu c hp hmode k x hx
        · cases hinserts
  case invalidated =>
    intro c hc
    rcases mem_set hc with hc | rfl
    · exact heffect.kept c (hi.invalidated c hc)
    · exact heffect.invalidated c rfl
  case returned =>
    intro c hc
    have hdone : c ∈ s.deleted ∧ ∀ r ∈ s.threads, ∀ x ∈ r.held, c.supersedes x = false := by
      rcases heffect.returned c hc with hold | ⟨rfl, rfl⟩
      · exact hi.returned c hold
      · exact ⟨hi.invalidated c hmem, hu c hp⟩
    obtain ⟨_, hbuffer, htable⟩ := hi.deleted c hdone.1
    refine ⟨heffect.kept c hdone.1, fun r hr x hx => ?_⟩
    rcases mem_set hr with hr | rfl
    · exact hdone.2 r hr x hx
    · rcases heffect.held x hx with hx | ⟨k, hget⟩ | ⟨k, htab⟩
      · exact hdone.2 p hmem x hx
      · exact hbuffer k x hget
      · exact htable k x htab

theorem inv_step (hi : Inv s) (hu : Undisturbed cfg s a) (h : step cfg s a = some s') : Inv s' := by
  cases a with
  | move t m =>
    obtain ⟨p, hp, hnext⟩ := Option.bind_eq_some_iff.mp h
    obtain ⟨⟨q, _⟩, hmove, rfl⟩ := Option.map_eq_some_iff.mp hnext
    exact inv_move hi hu hp hmove
  | register key =>
    cases h
    exact ⟨hi.calls, hi.taken, hi.deleted, hi.invalidated, hi.returned⟩
  | compact keys =>
    cases h
    refine ⟨hi.calls, hi.taken, fun c hc => ?_, hi.invalidated, hi.returned⟩
    obtain ⟨hputs, hbuffer, htable⟩ := hi.deleted c hc
    refine ⟨hputs, hbuffer, fun k x hx => ?_⟩
    simp only at hx
    split at hx
    · cases hx
    · exact htable k x hx

end Steps

theorem held_of_answer {p : Phase} {x : Entry} (h : x ∈ p.answer) : x ∈ p.held := by
  cases p with
  | found accessed facts => exact mem_newHashSet h
  | _ => cases h

/-- In every run that nothing disturbs, what a lookup is about to return is not
superseded by any invalidation that has returned. -/
theorem superseded_gone (cfg : Config) (s : State) (h : (caching cfg).ReachableUnder (Undisturbed cfg) s) :
    ∀ x ∈ returning s, ∀ c ∈ s.returned, c.supersedes x = false := by
  have hi : Inv s := by
    refine h.invariant (I := Inv) ?_ fun s a s' hi hu hs => inv_step hi hu hs
    rintro s ⟨hbuffer, hidle, hdeleted, hreturned, _⟩
    refine ⟨fun p hp c hc => ?_, fun p hp c hc => ?_, ?_, fun c hc => ?_, ?_⟩
    · rw [hidle p hp] at hc
      cases hc
    · rw [hidle p hp] at hc
      cases hc
    · simp [hdeleted]
    · cases hidle _ hc
    · simp [hreturned]
  intro x hx c hc
  obtain ⟨p, hp, hx⟩ := List.mem_flatMap.mp hx
  exact (hi.returned c hc).2 p hp x (held_of_answer hx)

/-! ### A flush that comes too late -/

open BufferedTransformingServerPipeline (placedOrder)

/-- `Undisturbed`, for a store that is not read only. -/
def undisturbed (cfg : Config) (s : State) : Action → Bool
  | .move t (.insert keys) =>
    match s.threads[t]? with
    | some (.insert copy _) =>
      keys.all fun k => (CacheBuffer.get copy k).all fun x => s.deleted.all fun c => !c.supersedes x
    | _ => true
  | .move _ .delete => !cfg.isReadOnlyModeEnabled
  | .move t .returns =>
    match s.threads[t]? with
    | some (.invalidated c) => s.threads.all fun p => p.held.all fun x => !c.supersedes x
    | _ => true
  | _ => true

theorem undisturbed_sound (cfg : Config) (s : State) (a : Action) (h : undisturbed cfg s a = true) :
    Undisturbed cfg s a := by
  cases a with
  | move t m =>
    cases m with
    | insert keys =>
      intro copy call hp k hk x hget c hc
      simp only [undisturbed, hp, List.all_eq_true] at h
      have hall := h k hk
      rw [hget, Option.all_some, List.all_eq_true] at hall
      simpa using hall c hc
    | delete =>
      intro c _ hmode
      simp [undisturbed, hmode] at h
    | returns =>
      intro c hp p hmem x hx
      simp only [undisturbed, hp, List.all_eq_true] at h
      simpa using h p hmem x hx
    | _ => trivial
  | _ => trivial

/-- The scripts note their code. -/
def noting : Config := ⟨false, fun code _ _ => some (.num ⟨code, 0⟩)⟩

def toSecond : TransformationChain := ⟨"[1, 2]", ⟨"orders", "OrderPlaced"⟩, 1, 2, [⟨1, 2⟩]⟩

def orderKey : Key := (placedOrder.id, 2, "[1, 2]")

def idleThreads : State := ⟨fun _ => 0, CacheBuffer.empty, fun _ => none, [.idle, .idle, .idle], 0, [], []⟩

theorem idleThreads_start (cfg : Config) : (caching cfg).Start idleThreads :=
  ⟨rfl, by simp [idleThreads], rfl, rfl, by simp [idleThreads]⟩

/-- The order is put, other transformations are registered, and its type is
invalidated; then it is put anew and found. -/
theorem superseded_gone_anew : ∃ s : State, s.returned.length = 1 ∧
    (returning s).map (fun x => (x.number, x.code)) = [(1, 1)] ∧
      ∀ x ∈ returning s, ∀ c ∈ s.returned, c.supersedes x = false := by
  obtain ⟨s, hs, hcomputed⟩ := Machine.exists_reachableUnder (M := caching noting)
    (c := undisturbed noting) (idleThreads_start noting)
    [.move 0 (.transform placedOrder toSecond 0), .move 0 .put, .register ⟨"orders", "OrderPlaced"⟩,
      .move 1 (.invalidate "orders" "OrderPlaced"), .move 1 .clear, .move 1 (.insert [orderKey]),
      .move 1 .flushed, .move 1 .delete, .move 1 .returns,
      .move 0 (.transform placedOrder toSecond 1), .move 0 .put, .move 0 (.find orderKey)]
    (fun s => (s.returned.length, (returning s).map fun x => (x.number, x.code))) (b := (1, [(1, 1)]))
    (by decide +kernel)
  refine ⟨s, congrArg Prod.fst hcomputed, congrArg Prod.snd hcomputed, superseded_gone noting s ?_⟩
  exact hs.mono (undisturbed_sound noting)

/-- A flush has taken the order; it inserts it when the table is rid of orders. -/
theorem taken_comes_back : ¬ ∀ (cfg : Config) (s : State), (caching cfg).Reachable s →
    ∀ x ∈ returning s, ∀ c ∈ s.returned, c.supersedes x = false := by
  intro hall
  obtain ⟨s, hs, hcomputed⟩ := Machine.exists_reachable (M := caching noting) (idleThreads_start noting)
    [.move 0 (.transform placedOrder toSecond 0), .move 0 .put, .move 2 .flush, .move 2 .clear,
      .register ⟨"orders", "OrderPlaced"⟩, .move 1 (.invalidate "orders" "OrderPlaced"), .move 1 .clear,
      .move 1 .flushed, .move 1 .delete, .move 2 (.insert [orderKey]), .move 1 .returns,
      .move 0 (.find orderKey), .move 0 .query]
    (fun s => (returning s).any fun x => s.returned.any fun c => c.supersedes x) (b := true)
    (by decide +kernel)
  obtain ⟨x, hx, hc⟩ := List.any_eq_true.mp hcomputed
  obtain ⟨c, hc, hsupersedes⟩ := List.any_eq_true.mp hc
  rw [hall noting s hs x hx c hc] at hsupersedes
  cases hsupersedes

end FactCast.PgTransformationCache
