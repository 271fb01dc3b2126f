import FactCast.Client.Retry

/-! A publish that ignores duplicates, with its retries.

A batch that meets a fact already stored is refused as a whole; the client then
publishes its facts one by one, each by a call with retries of its own, and skips
those that are there. What such a call throws goes through the retries of the
batch, which may start over. Requests that were given up may still be served, and
others publish facts of their own meanwhile.

Once the call returns, every fact is in the log once, and those it put there
itself lie there in the order of the list (`publish_ignoring_duplicates`): a fact
is only asked for on its own when all before it are in the log (`Asks`). -/
namespace FactCast.GrpcFactStore.Publishing

/-- One call of the client. -/
structure Call where
  facts : List Fact
  /-- Resilience is switched on. -/
  enabled : Bool
  ignoreDuplicateFacts : Bool

/-- Which of the nested calls is at work. -/
inductive Level where
  | batch
  /-- The call for one fact, with the facts still to come. -/
  | single (f : Fact) (rest : List Fact)

def Level.factsToPublish (call : Call) : Level → List Fact
  | .batch => call.facts
  | .single f _ => [f]

inductive Phase where
  /-- About to make an attempt. -/
  | ready (level : Level)
  | waiting (level : Level)
  | returned
  | thrown (e : Throwable)

structure State where
  store : PgFactStore.Store
  phase : Phase
  /-- The number of the latest attempt. -/
  attempt : Nat
  /-- What each attempt asks for. -/
  asked : Nat → List Fact
  /-- The attempts whose request is on its way. -/
  requests : List Nat
  /-- The answers on their way. -/
  responses : List (Nat × PgFactStore.Answer)
  /-- The rows that requests of this call put into the log. -/
  inserted : List FactRow
  /-- The log when the call began. -/
  before : List FactRow

inductive Action where
  | send
  | serve (attempt : Nat)
  | deliver (answer : PgFactStore.Answer) (inner outer : Bool)
  /-- The attempt fails before its answer is there. Whether the attempts are
  exhausted is asked by the call for one fact, and again by that for the batch. -/
  | fail (e : Throwable) (inner outer : Bool)
  | publish (facts : List Fact) (token : Option UUID)
  /-- Serials are used up by an insert that is rolled back. -/
  | skip (serials : Nat)

section Steps
variable (call : Call) (s : State)

/-- The facts that are left are published one by one. -/
def forEach : List Fact → Phase
  | [] => .returned
  | f :: rest => .ready (.single f rest)

def completed : Level → Phase
  | .batch => .returned
  | .single _ rest => forEach rest

/-- The attempt has thrown: there is another one, or the call throws. What the
call for one fact throws, the attempt for the batch has thrown. -/
def handle (level : Level) (e : Throwable) (inner outer : Bool) : Phase :=
  let decodedException := ClientExceptionHelper.from_ e
  match level with
  | .batch =>
    if shouldRetry call.enabled outer decodedException then .ready .batch else .thrown decodedException
  | .single f rest =>
    if shouldRetry call.enabled inner decodedException then .ready (.single f rest)
    else if shouldRetry call.enabled outer (ClientExceptionHelper.from_ decodedException) then
      .ready .batch
    else .thrown (ClientExceptionHelper.from_ decodedException)

def isDuplicate (e : Throwable) : Bool :=
  decide (ClientExceptionHelper.from_ e = .runtime "org.factcast.core.DuplicateFactException")

/-- The call to the server has thrown. -/
def caught (level : Level) (e : Throwable) (inner outer : Bool) : Phase :=
  if isDuplicate e && call.ignoreDuplicateFacts then
    -- if it is only one, it is skipped
    if 1 < (level.factsToPublish call).length then forEach (level.factsToPublish call)
    else completed level
  else handle call level e inner outer

def send : Option State :=
  match s.phase with
  | .ready level =>
    some { s with
      phase := .waiting level, attempt := s.attempt + 1
      asked := Function.update s.asked (s.attempt + 1) (level.factsToPublish call)
      requests := (s.attempt + 1) :: s.requests }
  | _ => none

variable (db : Database)

/-- The server serves a request, whether or not the client still waits for it. -/
def serve (attempt : Nat) : Option State :=
  if attempt ∈ s.requests then
    let (store, answer) := PgFactStore.publishIfUnchanged db s.store (s.asked attempt) none
    let rows := PgFactStore.rowsFrom db s.store.nextSer (s.asked attempt)
    some { s with
      store, requests := s.requests.erase attempt, responses := (attempt, answer) :: s.responses
      inserted := if answer = .returned true then s.inserted ++ rows else s.inserted }
  else none

/-- The answer to the attempt the client waits for arrives. -/
def deliver (answer : PgFactStore.Answer) (inner outer : Bool) : Option State :=
  match s.phase with
  | .waiting level =>
    if (s.attempt, answer) ∈ s.responses then
      some { s with
        phase :=
          match exception answer with
          | none => completed level
          | some e => caught call level e inner outer }
    else none
  | _ => none

/-- The handshake fails, or the connection breaks, or the deadline passes. -/
def fail (e : Throwable) (inner outer : Bool) : Option State :=
  match s.phase with
  | .ready level => some { s with phase := handle call level e inner outer }
  | .waiting level =>
    -- only the store finds duplicates
    if isDuplicate e then none else some { s with phase := caught call level e inner outer }
  | _ => none

/-- Another client publishes other facts. -/
def other (facts : List Fact) (token : Option UUID) : Option State :=
  if facts.all fun f => !(call.facts.map Fact.id).contains f.id then
    some { s with store := (PgFactStore.publishIfUnchanged db s.store facts token).1 }
  else none

end Steps

def step (db : Database) (call : Call) (s : State) : Action → Option State
  | .send => send call s
  | .serve attempt => serve s db attempt
  | .deliver answer inner outer => deliver call s answer inner outer
  | .fail e inner outer => fail call s e inner outer
  | .publish facts token => other call s db facts token
  | .skip serials => some { s with store := { s.store with nextSer := s.store.nextSer + serials } }

/-- The call begins, on a log of distinct facts with ascending serials. -/
structure Start (s : State) : Prop where
  ids : (s.store.log.map fun r => r.fact.id).Nodup
  ascending : Log.Ascending FactRow.ser s.store.log
  below : ∀ row ∈ s.store.log, row.ser < s.store.nextSer
  phase : s.phase = .ready .batch
  requests : s.requests = []
  responses : s.responses = []
  inserted : s.inserted = []
  before : s.before = s.store.log

def publishing (db : Database) (call : Call) : Machine State Action where
  Start := Start
  step := step db call

/-! ### What holds in every run -/

/-- All these facts are in the log. -/
def Settled (log : List FactRow) (facts : List Fact) : Prop :=
  ∀ f ∈ facts, ∃ row ∈ log, row.fact.id = f.id

/-- A request asks for the whole list, or for one fact when those before it are in the log. -/
def Asks (call : Call) (log : List FactRow) (facts : List Fact) : Prop :=
  facts = call.facts ∨
    ∃ pre g post, call.facts = pre ++ g :: post ∧ facts = [g] ∧ Settled log pre

/-- The level at work is at its place in the list. -/
def Level.Valid (call : Call) (log : List FactRow) : Level → Prop
  | .batch => True
  | .single g rest => ∃ pre, call.facts = pre ++ g :: rest ∧ Settled log pre

def Phase.Valid (call : Call) (s : State) : Phase → Prop
  | .ready level => level.Valid call s.store.log
  | .waiting level =>
    level.Valid call s.store.log ∧ s.asked s.attempt = level.factsToPublish call
  | .returned => Settled s.store.log call.facts
  | .thrown _ => True

/-- A fact of the list that this call put into the log has those before it below. -/
def InOrder (facts : List Fact) (log inserted : List FactRow) : Prop :=
  facts.Pairwise fun f g => ∀ row ∈ inserted, row.fact.id = g.id →
    ∃ earlier ∈ log, earlier.fact.id = f.id ∧ earlier.ser < row.ser

structure Inv (db : Database) (call : Call) (s : State) : Prop where
  ids : (s.store.log.map fun r => r.fact.id).Nodup
  ascending : Log.Ascending FactRow.ser s.store.log
  below : ∀ row ∈ s.store.log, row.ser < s.store.nextSer
  origin : ∀ row ∈ s.store.log,
    row ∈ s.before ∨ row ∈ s.inserted ∨ row.fact.id ∉ call.facts.map Fact.id
  inserted : ∀ row ∈ s.inserted, row ∈ s.store.log ∧
    ∃ f ∈ call.facts, row.fact = { f with header := db.augment row.ser f.header }
  attempts : ∀ k ∈ s.requests, k ≤ s.attempt ∧ Asks call s.store.log (s.asked k)
  served : ∀ r ∈ s.responses, r.1 ≤ s.attempt
  accepted : ∀ k success, (k, .returned success) ∈ s.responses → Settled s.store.log (s.asked k)
  refused : ∀ k f, (k, .duplicateFact) ∈ s.responses → s.asked k = [f] →
    Settled s.store.log [f]
  phase : s.phase.Valid call s
  order : InOrder call.facts s.store.log s.inserted

section Steps
variable {db : Database} {call : Call} {s s' : State} {log log' inserted : List FactRow}
  {facts pre rest : List Fact} {level : Level}

theorem Settled.mono (h : Settled log facts) (hlog : log ⊆ log') : Settled log' facts := by
  intro f hf
  obtain ⟨row, hrow, hid⟩ := h f hf
  exact ⟨row, hlog hrow, hid⟩

theorem Settled.append {more : List Fact} (h : Settled log facts) (hmore : Settled log more) :
    Settled log (facts ++ more) := by
  intro f hf
  rcases List.mem_append.mp hf with hf | hf
  · exact h f hf
  · exact hmore f hf

theorem Asks.mono (h : Asks call log facts) (hlog : log ⊆ log') : Asks call log' facts := by
  rcases h with h | ⟨pre, g, post, hlist, hone, hpre⟩
  · exact .inl h
  · exact .inr ⟨pre, g, post, hlist, hone, hpre.mono hlog⟩

theorem Level.Valid.mono (h : level.Valid call log) (hlog : log ⊆ log') : level.Valid call log' := by
  cases level with
  | batch => trivial
  | single g rest =>
    obtain ⟨pre, hlist, hpre⟩ := h
    exact ⟨pre, hlist, hpre.mono hlog⟩

theorem Level.Valid.asks (h : level.Valid call log) : Asks call log (level.factsToPublish call) := by
  cases level with
  | batch => exact .inl rfl
  | single g rest =>
    obtain ⟨pre, hlist, hpre⟩ := h
    exact .inr ⟨pre, g, rest, hlist, rfl, hpre⟩

theorem Phase.Valid.mono {phase : Phase} {store : PgFactStore.Store} (h : phase.Valid call s)
    (hlog : s.store.log ⊆ store.log) : phase.Valid call { s with store } := by
  cases phase with
  | ready level => exact Level.Valid.mono h hlog
  | waiting level => exact ⟨h.1.mono hlog, h.2⟩
  | returned => exact Settled.mono h hlog
  | thrown e => trivial

theorem InOrder.mono (h : InOrder facts log inserted) (hlog : log ⊆ log') :
    InOrder facts log' inserted := by
  refine List.Pairwise.imp (fun {f g} hfg row hrow hid => ?_) h
  obtain ⟨earlier, hearlier, hrest⟩ := hfg row hrow hid
  exact ⟨earlier, hlog hearlier, hrest⟩

/-! ### The client -/

theorem forEach_valid (hlist : call.facts = pre ++ rest) (hpre : Settled s.store.log pre) :
    (forEach rest).Valid call s := by
  cases rest with
  | nil =>
    show Settled s.store.log call.facts
    rw [hlist, List.append_nil]
    exact hpre
  | cons g rest => exact ⟨pre, hlist, hpre⟩

theorem completed_valid (h : level.Valid call s.store.log)
    (hdone : Settled s.store.log (level.factsToPublish call)) : (completed level).Valid call s := by
  cases level with
  | batch => exact hdone
  | single g rest =>
    obtain ⟨pre, hlist, hpre⟩ := h
    exact forEach_valid (by simpa [Level.factsToPublish] using hlist) (hpre.append hdone)

theorem handle_valid {e : Throwable} {inner outer : Bool} (h : level.Valid call s.store.log) :
    (handle call level e inner outer).Valid call s := by
  cases level with
  | batch =>
    simp only [handle]
    split
    · trivial
    · trivial
  | single g rest =>
    simp only [handle]
    split
    · exact h
    · split
      · trivial
      · trivial

/-- A duplicate among several facts starts the publishing one by one; the only
fact that was asked for is there already. -/
theorem caught_valid {e : Throwable} {inner outer : Bool} (h : level.Valid call s.store.log)
    (hdup : isDuplicate e = true → (level.factsToPublish call).length ≤ 1 →
      Settled s.store.log (level.factsToPublish call)) :
    (caught call level e inner outer).Valid call s := by
  unfold caught
  split
  · rename_i hskip
    have hdup := hdup (Bool.and_eq_true_iff.mp hskip).1
    split
    · rename_i hseveral
      cases level with
      | batch => exact forEach_valid (List.nil_append _).symm fun _ hf => nomatch hf
      | single g rest => exact absurd hseveral (Nat.lt_irrefl 1)
    · rename_i hone
      exact completed_valid h (hdup (Nat.le_of_not_lt hone))
  · exact handle_valid h

theorem Inv.phase_of {phase : Phase} (h : Inv db call s) (hphase : phase.Valid call s) :
    Inv db call { s with phase } :=
  { h with phase := hphase }

theorem inv_send (h : Inv db call s) (hs : send call s = some s') : Inv db call s' := by
  unfold send at hs
  split at hs
  · rename_i level hready
    cases hs
    have hvalid : level.Valid call s.store.log := by
      have := h.phase
      rwa [hready] at this
    -- what was asked before is asked still
    have hasked : ∀ k ≤ s.attempt, Function.update s.asked (s.attempt + 1)
        (level.factsToPublish call) k = s.asked k := fun k hk =>
      Function.update_of_ne (by omega) ..
    refine
      { h with
        attempts := fun k hk => ?_, served := fun r hr => Nat.le_succ_of_le (h.served r hr)
        accepted := fun k success hk => ?_, refused := fun k f hk hone => ?_, phase := ?_ }
    · rcases List.mem_cons.mp hk with rfl | hk
      · refine ⟨Nat.le_refl _, ?_⟩
        simp only [Function.update_self]
        exact hvalid.asks
      · obtain ⟨hle, hasks⟩ := h.attempts k hk
        refine ⟨Nat.le_succ_of_le hle, ?_⟩
        simp only [hasked k hle]
        exact hasks
    · simp only [hasked k (h.served _ hk)]
      exact h.accepted k success hk
    · simp only [hasked k (h.served _ hk)] at hone
      exact h.refused k f hk hone
    · exact ⟨hvalid, Function.update_self ..⟩
  · cases hs

theorem inv_deliver {answer : PgFactStore.Answer} {inner outer : Bool} (h : Inv db call s)
    (hs : deliver call s answer inner outer = some s') : Inv db call s' := by
  unfold deliver at hs
  split at hs
  · rename_i level hwaiting
    split at hs
    · rename_i hresponse
      cases hs
      obtain ⟨hvalid, hasked⟩ : level.Valid call s.store.log ∧
          s.asked s.attempt = level.factsToPublish call := by
        have := h.phase
        rwa [hwaiting] at this
      refine h.phase_of ?_
      cases answer with
      | returned success =>
        refine completed_valid hvalid ?_
        rw [← hasked]
        exact h.accepted _ success hresponse
      | dataAccess => exact caught_valid hvalid fun hdup => by cases hdup
      | duplicateFact =>
        refine caught_valid hvalid fun _ hone => ?_
        cases hlist : level.factsToPublish call with
        | nil => exact fun _ hf => nomatch hf
        | cons f rest =>
          rw [hlist] at hone
          obtain rfl : rest = [] := List.length_eq_zero_iff.mp (by simpa using hone)
          exact h.refused _ f hresponse (hasked.trans hlist)
    · cases hs
  · cases hs

theorem inv_fail {e : Throwable} {inner outer : Bool} (h : Inv db call s)
    (hs : fail call s e inner outer = some s') : Inv db call s' := by
  have hphase := h.phase
  unfold fail at hs
  split at hs
  · rename_i level hready
    cases hs
    rw [hready] at hphase
    exact h.phase_of (handle_valid hphase)
  · rename_i level hwaiting
    split at hs
    · cases hs
    · rename_i hdup
      cases hs
      rw [hwaiting] at hphase
      exact h.phase_of (caught_valid hphase.1 fun hyes => absurd hyes hdup)
  · cases hs

/-! ### The store -/

/-- The log grows at its end, by rows that are this call's or of other facts. -/
theorem Inv.grow {store : PgFactStore.Store} {rows mine : List FactRow} (h : Inv db call s)
    (hlog : store.log = s.store.log ++ rows) (hser : store.nextSer = s.store.nextSer + rows.length)
    (hids : (store.log.map fun r => r.fact.id).Nodup) (hascending : Log.Ascending FactRow.ser rows)
    (hrange : ∀ row ∈ rows, s.store.nextSer ≤ row.ser ∧ row.ser < s.store.nextSer + rows.length)
    (horigin : ∀ row ∈ rows, row ∈ mine ∨ row.fact.id ∉ call.facts.map Fact.id)
    (hmine : ∀ row ∈ mine, row ∈ rows ∧
      ∃ f ∈ call.facts, row.fact = { f with header := db.augment row.ser f.header })
    (horder : InOrder call.facts store.log mine) :
    Inv db call { s with store, inserted := s.inserted ++ mine } := by
  have hsub : s.store.log ⊆ store.log := by
    rw [hlog]
    exact List.subset_append_left ..
  refine
    { h with
      ids := hids, ascending := ?_, below := fun row hrow => ?_, origin := fun row hrow => ?_
      inserted := fun row hrow => ?_
      attempts := fun k hk => ⟨(h.attempts k hk).1, (h.attempts k hk).2.mono hsub⟩
      accepted := fun k success hk => (h.accepted k success hk).mono hsub
      refused := fun k f hk hone => (h.refused k f hk hone).mono hsub
      phase := h.phase.mono hsub, order := ?_ }
  · show Log.Ascending FactRow.ser store.log
    rw [hlog]
    refine h.ascending.append hascending fun x hx y hy => ?_
    have := h.below x hx
    have := (hrange y hy).1
    omega
  · show row.ser < store.nextSer
    replace hrow : row ∈ store.log := hrow
    rw [hlog] at hrow
    rcases List.mem_append.mp hrow with hrow | hrow
    · have := h.below row hrow
      omega
    · have := (hrange row hrow).2
      omega
  · replace hrow : row ∈ store.log := hrow
    rw [hlog] at hrow
    rcases List.mem_append.mp hrow with hrow | hrow
    · rcases h.origin row hrow with hbefore | hinserted | hother
      · exact .inl hbefore
      · exact .inr (.inl (List.mem_append_left _ hinserted))
      · exact .inr (.inr hother)
    · rcases horigin row hrow with hmine | hother
      · exact .inr (.inl (List.mem_append_right _ hmine))
      · exact .inr (.inr hother)
  · show row ∈ store.log ∧ _
    rcases List.mem_append.mp hrow with hrow | hrow
    · exact ⟨hsub (h.inserted row hrow).1, (h.inserted row hrow).2⟩
    · rw [hlog]
      exact ⟨List.mem_append_right _ (hmine row hrow).1, (hmine row hrow).2⟩
  · refine List.Pairwise.imp₂ (fun f g hold hnew row hrow hid => ?_) (h.order.mono hsub) horder
    rcases List.mem_append.mp hrow with hrow | hrow
    · exact hold row hrow hid
    · exact hnew row hrow hid

/-- A row of new facts is one of them under the serial it got. -/
theorem fact_rowsFrom {n : Nat} {row : FactRow} (h : row ∈ PgFactStore.rowsFrom db n facts) :
    ∃ f ∈ facts, row.fact = { f with header := db.augment row.ser f.header } := by
  induction facts generalizing n with
  | nil => cases h
  | cons f rest ih =>
    rcases List.mem_cons.mp h with rfl | h
    · exact ⟨f, List.mem_cons_self .., rfl⟩
    · obtain ⟨g, hg, hrow⟩ := ih h
      exact ⟨g, List.mem_cons_of_mem _ hg, hrow⟩

/-- The rows of distinct facts lie in the order of the facts. -/
theorem inOrder_rowsFrom {n : Nat} (h : (facts.map Fact.id).Nodup) :
    InOrder facts (PgFactStore.rowsFrom db n facts) (PgFactStore.rowsFrom db n facts) := by
  induction facts generalizing n with
  | nil => exact List.Pairwise.nil
  | cons f rest ih =>
    obtain ⟨hf, hrest⟩ := List.nodup_cons.mp h
    have hother : ∀ g ∈ rest, f.id ≠ g.id := fun g hg heq => hf (heq ▸ List.mem_map_of_mem hg)
    refine List.pairwise_cons.mpr ⟨fun g hg row hrow hid => ?_, ?_⟩
    · rcases List.mem_cons.mp hrow with rfl | hrow
      · exact absurd hid (hother g hg)
      · exact ⟨_, List.mem_cons_self .., rfl, (PgFactStore.ser_rowsFrom hrow).1⟩
    · refine List.Pairwise.imp_of_mem (fun {a b} _ hb hab row hrow hid => ?_) (ih (n := n + 1) hrest)
      rcases List.mem_cons.mp hrow with rfl | hrow
      · exact absurd hid (hother b hb)
      · obtain ⟨earlier, hearlier, hbelow⟩ := hab row hrow hid
        exact ⟨earlier, List.mem_cons_of_mem _ hearlier, hbelow⟩

/-- Of distinct facts, only those before one of them come before it. -/
theorem pairwise_before {g : Fact} {post : List Fact} (hd : (facts.map Fact.id).Nodup)
    (hlist : facts = pre ++ g :: post) : facts.Pairwise fun a b => b.id = g.id → a ∈ pre := by
  subst hlist
  rw [List.map_append, List.map_cons] at hd
  have hpost : ∀ b ∈ post, b.id ≠ g.id := fun b hb heq =>
    (List.nodup_cons.mp (List.nodup_append.mp hd).2.1).1 (heq ▸ List.mem_map_of_mem hb)
  refine List.pairwise_append.mpr ⟨?_, ?_, fun a ha _ _ _ => ha⟩
  · exact List.pairwise_of_forall_mem_list fun a ha _ _ _ => ha
  · refine List.pairwise_cons.mpr ⟨fun b hb heq => absurd heq (hpost b hb), ?_⟩
    exact List.pairwise_of_forall_mem_list fun _ _ b hb heq => absurd heq (hpost b hb)

/-- One of the facts that a list insert would repeat is in the log. -/
theorem settled_of_not_insertable {f : Fact} (h : PgFactStore.insertable log [f] = false) :
    Settled log [f] := by
  intro g hg
  obtain rfl : g = f := by simpa using hg
  obtain ⟨row, hrow, hid⟩ : ∃ row ∈ log, row.fact.id = g.id := by
    simpa [PgFactStore.insertable] using h
  exact ⟨row, hrow, hid⟩

theorem settled_rowsFrom {n : Nat} : Settled (PgFactStore.rowsFrom db n facts) facts := by
  intro f hf
  have hid : f.id ∈ (PgFactStore.rowsFrom db n facts).map fun r => r.fact.id := by
    rw [PgFactStore.ids_rowsFrom]
    exact List.mem_map_of_mem hf
  obtain ⟨row, hrow, hid⟩ := List.mem_map.mp hid
  exact ⟨row, hrow, hid⟩

/-- What a request adds lies in the order of the list: all of it at once, or one
fact above those before it. -/
theorem inOrder_asked {n : Nat} (hd : (call.facts.map Fact.id).Nodup) (hasks : Asks call log facts)
    (hbelow : ∀ row ∈ log, row.ser < n) :
    InOrder call.facts (log ++ PgFactStore.rowsFrom db n facts) (PgFactStore.rowsFrom db n facts) := by
  rcases hasks with rfl | ⟨pre, g, post, hlist, rfl, hpre⟩
  · exact (inOrder_rowsFrom hd).mono (List.subset_append_right ..)
  · refine List.Pairwise.imp (fun {a b} hab row hrow hid => ?_) (pairwise_before hd hlist)
    obtain rfl := List.mem_singleton.mp hrow
    obtain ⟨earlier, hearlier, hid⟩ := hpre a (hab hid.symm)
    exact ⟨earlier, List.mem_append_left _ hearlier, hid, hbelow earlier hearlier⟩

theorem Asks.subset (h : Asks call log facts) : facts ⊆ call.facts := by
  rcases h with rfl | ⟨pre, g, post, hlist, rfl, _⟩
  · exact List.Subset.refl _
  · rw [hlist]
    intro f hf
    obtain rfl := List.mem_singleton.mp hf
    simp

/-- The server inserts what a request asks for. -/
theorem Inv.insert {store : PgFactStore.Store} (hd : (call.facts.map Fact.id).Nodup)
    (h : Inv db call s) (hasks : Asks call s.store.log facts)
    (hstore : s.store.publish db facts = some store) :
    Inv db call { s with
      store, inserted := s.inserted ++ PgFactStore.rowsFrom db s.store.nextSer facts } := by
  obtain ⟨hnew, rfl⟩ := PgFactStore.Store.publish_eq hstore
  refine h.grow rfl (by rw [PgFactStore.length_rowsFrom])
    (PgFactStore.nodup_append_rowsFrom h.ids hnew) PgFactStore.ascending_rowsFrom
    (fun row hrow => ?_) (fun row hrow => .inl hrow) (fun row hrow => ⟨hrow, ?_⟩)
    (inOrder_asked hd hasks h.below)
  · rw [PgFactStore.length_rowsFrom]
    exact PgFactStore.ser_rowsFrom hrow
  · obtain ⟨f, hf, hfact⟩ := fact_rowsFrom hrow
    exact ⟨f, hasks.subset hf, hfact⟩

/-- The answer to a request is on its way. -/
theorem Inv.answer {attempt : Nat} {answer : PgFactStore.Answer} (h : Inv db call s)
    (hle : attempt ≤ s.attempt)
    (hyes : ∀ success, answer = .returned success → Settled s.store.log (s.asked attempt))
    (hno : answer = .duplicateFact → ∀ f, s.asked attempt = [f] → Settled s.store.log [f]) :
    Inv db call { s with
      requests := s.requests.erase attempt, responses := (attempt, answer) :: s.responses } := by
  refine
    { h with
      attempts := fun k hk => h.attempts k (List.mem_of_mem_erase hk), served := fun r hr => ?_
      accepted := fun k success hk => ?_, refused := fun k f hk hone => ?_ }
  · rcases List.mem_cons.mp hr with rfl | hr
    · exact hle
    · exact h.served r hr
  · rcases List.mem_cons.mp hk with heq | hk
    · cases heq
      exact hyes success rfl
    · exact h.accepted k success hk
  · rcases List.mem_cons.mp hk with heq | hk
    · cases heq
      exact hno rfl f hone
    · exact h.refused k f hk hone

theorem inv_serve {attempt : Nat} (hd : (call.facts.map Fact.id).Nodup) (h : Inv db call s)
    (hs : serve s db attempt = some s') : Inv db call s' := by
  unfold serve at hs
  split at hs
  · rename_i hrequest
    obtain ⟨hle, hasks⟩ := h.attempts attempt hrequest
    cases hpublish : s.store.publish db (s.asked attempt) with
    | some store =>
      simp only [PgFactStore.publishIfUnchanged, hpublish, if_true] at hs
      cases hs
      refine (h.insert hd hasks hpublish).answer hle (fun _ _ => ?_) (fun hno => by cases hno)
      obtain ⟨_, rfl⟩ := PgFactStore.Store.publish_eq hpublish
      exact settled_rowsFrom.mono (List.subset_append_right ..)
    | none =>
      simp only [PgFactStore.publishIfUnchanged, hpublish, reduceCtorEq, if_false] at hs
      cases hs
      refine h.answer hle (fun _ hyes => by cases hyes) (fun _ f hone => ?_)
      refine settled_of_not_insertable ?_
      by_contra hne
      simp [PgFactStore.Store.publish, hone, hne] at hpublish
  · cases hs

/-- The rows of others are of other facts. -/
theorem Inv.others {store : PgFactStore.Store} {rows : List FactRow} (h : Inv db call s)
    (hlog : store.log = s.store.log ++ rows) (hser : store.nextSer = s.store.nextSer + rows.length)
    (hids : (store.log.map fun r => r.fact.id).Nodup) (hascending : Log.Ascending FactRow.ser rows)
    (hrange : ∀ row ∈ rows, s.store.nextSer ≤ row.ser ∧ row.ser < s.store.nextSer + rows.length)
    (hother : ∀ row ∈ rows, row.fact.id ∉ call.facts.map Fact.id) :
    Inv db call { s with store } := by
  have hgrown := h.grow hlog hser hids hascending hrange (fun row hrow => .inr (hother row hrow))
    (List.forall_mem_nil _) (List.pairwise_of_forall fun _ _ _ hrow => nomatch hrow)
  rwa [List.append_nil] at hgrown

theorem inv_other {token : Option UUID} (h : Inv db call s)
    (hs : other call s db facts token = some s') : Inv db call s' := by
  unfold other at hs
  split at hs
  · rename_i hothers
    cases hs
    have hothers : ∀ f ∈ facts, f.id ∉ call.facts.map Fact.id := by
      simpa only [List.all_eq_true, Bool.not_eq_true', List.contains_eq_mem,
        decide_eq_false_iff_not] using hothers
    rcases hcall : PgFactStore.publishIfUnchanged db s.store facts token with ⟨store, answer⟩
    rcases PgFactStore.publishIfUnchanged_grows hcall with ⟨hnew, hlog, hser⟩ | ⟨hlog, hser⟩
    · rw [← @PgFactStore.length_rowsFrom db facts s.store.nextSer] at hser
      refine h.others hlog hser ?_ PgFactStore.ascending_rowsFrom (fun row hrow => ?_)
        (fun row hrow => ?_)
      · rw [hlog]
        exact PgFactStore.nodup_append_rowsFrom h.ids hnew
      · rw [PgFactStore.length_rowsFrom]
        exact PgFactStore.ser_rowsFrom hrow
      · obtain ⟨f, hf, hfact⟩ := fact_rowsFrom hrow
        rw [hfact]
        exact hothers f hf
    · refine h.others (hlog.trans (List.append_nil _).symm) hser ?_ List.Pairwise.nil
        (List.forall_mem_nil _) (List.forall_mem_nil _)
      rw [hlog]
      exact h.ids
  · cases hs

theorem inv_step {a : Action} (hd : (call.facts.map Fact.id).Nodup) (h : Inv db call s)
    (hs : step db call s a = some s') : Inv db call s' := by
  cases a with
  | send => exact inv_send h hs
  | serve attempt => exact inv_serve hd h hs
  | deliver answer inner outer => exact inv_deliver h hs
  | fail e inner outer => exact inv_fail h hs
  | publish facts token => exact inv_other h hs
  | skip serials =>
    cases hs
    exact { h with below := fun row hrow => Nat.lt_add_right serials (h.below row hrow) }

theorem inv_start (h : Start s) : Inv db call s where
  ids := h.ids
  ascending := h.ascending
  below := h.below
  origin := by
    intro row hrow
    rw [h.before]
    exact .inl hrow
  inserted := by simp [h.inserted]
  attempts := by simp [h.requests]
  served := by simp [h.responses]
  accepted := by simp [h.responses]
  refused := by simp [h.responses]
  phase := by
    rw [h.phase]
    trivial
  order := by
    rw [h.inserted]
    exact List.pairwise_of_forall fun _ _ _ hrow => nomatch hrow

end Steps

/-- The fact is in the log once: there from before, or as this call put it. -/
def PublishedOnce (db : Database) (s : State) (f : Fact) : Prop :=
  (s.store.log.map fun r => r.fact.id).count f.id = 1 ∧
    ∀ row ∈ s.store.log, row.fact.id = f.id →
      row ∈ s.before ∨ row ∈ s.inserted ∧ row.fact = { f with header := db.augment row.ser f.header }

/-- Where both facts were put into the log by this call, their serials ascend. -/
def Ordered (s : State) (f g : Fact) : Prop :=
  ∀ row ∈ s.inserted, ∀ row' ∈ s.inserted, row.fact.id = f.id → row'.fact.id = g.id →
    row.ser < row'.ser

/-- Whatever is lost, served late or tried again: once the call returns, each of
its facts is in the log once, and those it inserted lie in the order of the list. -/
theorem publish_ignoring_duplicates (db : Database) (call : Call)
    (hd : (call.facts.map Fact.id).Nodup) (s : State) (h : (publishing db call).Reachable s)
    (hreturned : s.phase = .returned) :
    (∀ f ∈ call.facts, PublishedOnce db s f) ∧ call.facts.Pairwise (Ordered s) := by
  have hinv : Inv db call s :=
    h.invariant (fun _ => inv_start) fun s a s' hi _ hs => by
      have hs : step db call s a = some s' := hs
      exact inv_step hd hi hs
  have hsettled : Settled s.store.log call.facts := by
    have := hinv.phase
    rwa [hreturned] at this
  constructor
  · intro f hf
    obtain ⟨row, hrow, hid⟩ := hsettled f hf
    refine ⟨List.count_eq_one_of_mem hinv.ids (List.mem_map.mpr ⟨row, hrow, hid⟩), fun row hrow hid => ?_⟩
    rcases hinv.origin row hrow with hbefore | hinserted | hother
    · exact .inl hbefore
    · obtain ⟨g, hg, hfact⟩ := (hinv.inserted row hinserted).2
      obtain rfl : g = f := by
        refine List.inj_on_of_nodup_map hd hg hf ?_
        rw [← hid, hfact]
      exact .inr ⟨hinserted, hfact⟩
    · exact absurd (hid ▸ List.mem_map_of_mem hf) hother
  · refine List.Pairwise.imp (fun {f g} hfg row hrow row' hrow' hf hg => ?_) hinv.order
    obtain ⟨earlier, hearlier, hid, hlt⟩ := hfg row' hrow' hg
    -- the row found below is the one that was inserted
    obtain rfl : earlier = row :=
      List.inj_on_of_nodup_map hinv.ids hearlier (hinv.inserted row hrow).1 (hid.trans hf.symm)
    exact hlt

/-- Two orders, of which the second is stored already. -/
def placingBoth : Call := { facts := [placed 1, placed 2], enabled := true, ignoreDuplicateFacts := true }

def stored : State :=
  { store := ⟨PgFactStore.rowsFrom .quoted 1 [placed 2], fun _ => none, 2⟩, phase := .ready .batch
    attempt := 0, asked := fun _ => [], requests := [], responses := [], inserted := []
    before := PgFactStore.rowsFrom .quoted 1 [placed 2] }

theorem stored_start : (publishing .quoted placingBoth).Start stored where
  ids := List.nodup_singleton _
  ascending := List.pairwise_singleton ..
  below := by
    intro row hrow
    obtain rfl := List.mem_singleton.mp hrow
    decide
  phase := rfl
  requests := rfl
  responses := rfl
  inserted := rfl
  before := rfl

/-- The batch is refused, the answer for the first order is lost and asking for it
again finds it there; the second is skipped. -/
def oneByOne : List Action :=
  let lost : Throwable := .status { code := .unavailable }
  [.send, .serve 1, .deliver .duplicateFact false false, .send, .serve 2, .fail lost false false, .send,
    .publish [paid 3] none, .serve 3, .deliver .duplicateFact false false, .send, .serve 4,
    .deliver .duplicateFact false false]

def State.hasReturned (s : State) : Bool :=
  match s.phase with
  | .returned => true
  | _ => false

theorem publish_ignoring_duplicates_oneByOne :
    ∃ s, s.store.log.map FactRow.ser = [1, 2, 3] ∧ s.inserted.map FactRow.ser = [2] ∧
      (∀ f ∈ placingBoth.facts, PublishedOnce .quoted s f) ∧
      placingBoth.facts.Pairwise (Ordered s) := by
  obtain ⟨s, hs, hstate⟩ := Machine.exists_reachable stored_start oneByOne
    (fun s => (s.hasReturned, s.store.log.map FactRow.ser, s.inserted.map FactRow.ser))
    (b := (true, [1, 2, 3], [2])) (by decide +kernel)
  simp only [Prod.mk.injEq] at hstate
  obtain ⟨hreturned, hlog, hinserted⟩ := hstate
  refine ⟨s, hlog, hinserted, publish_ignoring_duplicates .quoted placingBoth (by decide) s hs ?_⟩
  unfold State.hasReturned at hreturned
  split at hreturned
  · assumption
  · cases hreturned

end FactCast.GrpcFactStore.Publishing
