import FactCast.Factus.Locked
import FactCast.Store.QueryMeaning

/-! Attempts are serializable.

When a try publishes, nothing that the lock's specifications select lies above
the serial its token stands for. The update began after that serial was read, so
what the operation was handed has seen all that there is to see; how far the
update got beyond that, and what others did meanwhile, does not matter
(`view_of_unchanged`).

The operation is run once for each step of a 32-bit counter that stays below the
configured number, or reaches it (`Counted`). The counter is incremented before
it is compared: if the configured number is the highest there is, it wraps, and
nothing bounds the tries (`crowded`). -/
namespace FactCast.Locked

/-! ### What holds in every run -/

section Invariant
variable {σ : Type} (lock : Locked σ) (s : State σ)

/-- The token, if it is still there, stands for what was read. -/
def Held (token : UUID) : Prop :=
  ∀ state, s.store.tokens token = some state →
    state = PgFactStore.getCurrentStateFor lock.specs (s.store.log.take s.seen)

/-- The projection has seen at least what the token stands for. -/
def Handed (handed : Option σ) : Prop :=
  ∃ n, s.seen ≤ n ∧ n ≤ s.store.log.length ∧ handed = lock.view (s.store.log.take n)

/-- What holds before the attempt's next step. -/
def Phase.Ok : Phase σ → Prop
  | .next => True
  | .create state => state = PgFactStore.getCurrentStateFor lock.specs (s.store.log.take s.seen)
  | .update token => Held lock s token
  | .updating token begun => Held lock s token ∧ s.seen ≤ begun
  | .operation token handed => Held lock s token ∧ Handed lock s handed
  | .publishIfUnchanged token _ handed => Held lock s token ∧ Handed lock s handed
  | .over _ => True

/-- The operation had seen every matching fact of the log that its facts went to. -/
structure Publication.Ok (log : List FactRow) (p : Publication σ) : Prop where
  handed : p.handed = lock.view p.before
  rows : ∃ n, p.rows = PgFactStore.rowsFrom lock.db n p.facts
  there : p.before ++ p.rows <+: log

structure Inv : Prop where
  ascending : Log.Ascending FactRow.ser s.store.log
  positive : ∀ row ∈ s.store.log, 0 < row.ser
  below : ∀ row ∈ s.store.log, row.ser < s.store.nextSer
  first : 0 < s.store.nextSer
  position : s.position ≤ s.store.log.length
  projection : s.projection = lock.replay (s.store.log.take s.position)
  seen : s.seen ≤ s.store.log.length
  phase : s.phase.Ok lock s
  published : ∀ p ∈ s.publications, p.Ok lock s.store.log
  once : s.publications = [] ∨ ∃ p, s.publications = [p] ∧ s.phase = .over (.returned p.facts)
  sources : ∀ row ∈ s.store.log, row ∈ s.others ∨ ∃ p ∈ s.publications, row ∈ p.rows

/-- The operation is run at most once for each count, and before a run the count
is ahead. -/
def Counted : Prop :=
  (s.runs : Int) ≤ max 0 lock.retries.toInt ∧
    match s.phase with
    | .create _ => (s.runs : Int) < s.count.toInt ∧ s.count ≤ lock.retries
    | .update _ => (s.runs : Int) < s.count.toInt ∧ s.count ≤ lock.retries
    | .updating _ _ => (s.runs : Int) < s.count.toInt ∧ s.count ≤ lock.retries
    | .over _ => True
    | _ => (s.runs : Int) ≤ s.count.toInt ∧ s.count.toInt ≤ max 0 lock.retries.toInt

end Invariant

section Proofs
variable {σ : Type} {lock : Locked σ} {s s' : State σ} {token : UUID} {facts : List Fact}

/-! #### What others do -/

/-- Facts are committed and tokens dropped, the attempt itself does not move. -/
structure Extends (s s' : State σ) : Prop where
  seen : s'.seen = s.seen
  log : s.store.log <+: s'.store.log
  tokens : ∀ t state, s'.store.tokens t = some state → s.store.tokens t = some state

theorem take_of_isPrefix {l m : List FactRow} {n : Nat} (h : l <+: m) (hn : n ≤ l.length) :
    m.take n = l.take n := by
  obtain ⟨rest, rfl⟩ := h
  exact List.take_append_of_le_length hn

theorem Held.extends (h : Held lock s token) (hseen : s.seen ≤ s.store.log.length)
    (he : Extends s s') : Held lock s' token := by
  intro state hstate
  rw [he.seen, take_of_isPrefix he.log hseen]
  exact h state (he.tokens token state hstate)

theorem Handed.extends {handed : Option σ} (h : Handed lock s handed) (he : Extends s s') :
    Handed lock s' handed := by
  obtain ⟨n, hseen, hn, hview⟩ := h
  refine ⟨n, he.seen ▸ hseen, Nat.le_trans hn he.log.length_le, ?_⟩
  rw [take_of_isPrefix he.log hn]
  exact hview

theorem Phase.Ok.extends {phase : Phase σ} (h : phase.Ok lock s)
    (hseen : s.seen ≤ s.store.log.length) (he : Extends s s') : phase.Ok lock s' := by
  cases phase with
  | next => trivial
  | create state =>
    show state = PgFactStore.getCurrentStateFor lock.specs (s'.store.log.take s'.seen)
    rw [he.seen, take_of_isPrefix he.log hseen]
    exact h
  | update token => exact Held.extends h hseen he
  | updating token begun => exact ⟨Held.extends h.1 hseen he, he.seen ▸ h.2⟩
  | operation token handed => exact ⟨Held.extends h.1 hseen he, Handed.extends h.2 he⟩
  | publishIfUnchanged token facts handed =>
    exact ⟨Held.extends h.1 hseen he, Handed.extends h.2 he⟩
  | «over» outcome => trivial

theorem Publication.Ok.of_isPrefix {l m : List FactRow} {p : Publication σ} (h : p.Ok lock l)
    (hlm : l <+: m) : p.Ok lock m :=
  ⟨h.handed, h.rows, h.there.trans hlm⟩

/-- Rows with fresh serials at the end of the log. -/
theorem Inv.appended (h : Inv lock s) (facts : List Fact) :
    let log := s.store.log ++ PgFactStore.rowsFrom lock.db s.store.nextSer facts
    Log.Ascending FactRow.ser log ∧ (∀ row ∈ log, 0 < row.ser) ∧
      ∀ row ∈ log, row.ser < s.store.nextSer + facts.length := by
  refine ⟨h.ascending.append PgFactStore.ascending_rowsFrom fun x hx y hy => ?_, fun row hrow => ?_,
    fun row hrow => ?_⟩
  · exact Nat.lt_of_lt_of_le (h.below x hx) (PgFactStore.ser_rowsFrom hy).1
  · rcases List.mem_append.mp hrow with hrow | hrow
    · exact h.positive row hrow
    · exact Nat.lt_of_lt_of_le h.first (PgFactStore.ser_rowsFrom hrow).1
  · rcases List.mem_append.mp hrow with hrow | hrow
    · have := h.below row hrow
      omega
    · exact (PgFactStore.ser_rowsFrom hrow).2

theorem inv_publish (h : Inv lock s) (hs : lock.publish s facts = some s') : Inv lock s' := by
  obtain ⟨store, hstore, rfl⟩ := Option.map_eq_some_iff.mp hs
  obtain ⟨_, rfl⟩ := PgFactStore.Store.publish_eq hstore
  obtain ⟨hasc, hpos, hbelow⟩ := h.appended facts
  have hgrown := List.prefix_append s.store.log (PgFactStore.rowsFrom lock.db s.store.nextSer facts)
  have hlen := hgrown.length_le
  refine ⟨hasc, hpos, hbelow, Nat.lt_of_lt_of_le h.first (Nat.le_add_right ..),
    Nat.le_trans h.position hlen, ?_, Nat.le_trans h.seen hlen,
    h.phase.extends h.seen ⟨rfl, hgrown, fun _ _ ht => ht⟩,
    fun p hp => (h.published p hp).of_isPrefix hgrown, h.once, fun row hrow => ?_⟩
  · rw [take_of_isPrefix hgrown h.position]
    exact h.projection
  · rcases List.mem_append.mp hrow with hrow | hrow
    · exact (h.sources row hrow).imp_left fun hothers => List.mem_append_left _ hothers
    · exact .inl (List.mem_append_right _ hrow)

/-- A managed projection that goes on has seen what is committed up to there. -/
theorem Inv.catchup (h : Inv lock s) {upTo : Nat} (hup : upTo ≤ s.store.log.length) :
    Inv lock (lock.catchup s upTo) ∧
      (lock.catchup s upTo).projection = lock.replay (s.store.log.take (max s.position upTo)) := by
  have hproj : (lock.catchup s upTo).projection =
      lock.replay (s.store.log.take (max s.position upTo)) := by
    show Log.replay _ _ s.projection _ = _
    rw [h.projection]
    rcases Nat.le_total s.position upTo with hle | hle
    · rw [Nat.max_eq_right hle]
      exact Log.replay_take hle
    · have hnone : (s.store.log.take upTo).drop s.position = [] := by
        refine List.drop_eq_nil_of_le ?_
        rw [List.length_take]
        omega
      rw [Nat.max_eq_left hle, hnone]
      rfl
  have hposition : max s.position upTo ≤ s.store.log.length := Nat.max_le.mpr ⟨h.position, hup⟩
  have hphase : s.phase.Ok lock (lock.catchup s upTo) :=
    h.phase.extends h.seen ⟨rfl, List.prefix_rfl, fun _ _ ht => ht⟩
  exact ⟨{ h with position := hposition, projection := hproj, phase := hphase }, hproj⟩

theorem inv_forget {tokens : List UUID} (h : Inv lock s)
    (hs : lock.step s (.forget tokens) = some s') : Inv lock s' := by
  cases hs
  refine { h with phase := h.phase.extends h.seen ⟨rfl, List.prefix_rfl, fun t state ht => ?_⟩ }
  by_cases hmem : t ∈ tokens
  · simp [hmem] at ht
  · simpa [hmem] using ht

theorem inv_skip {n : Nat} (h : Inv lock s) (hs : lock.step s (.skip n) = some s') : Inv lock s' := by
  cases hs
  have hextends : Extends s { s with store := { s.store with nextSer := s.store.nextSer + n } } :=
    ⟨rfl, List.prefix_rfl, fun _ _ ht => ht⟩
  exact { h with
    below := fun row hrow => Nat.lt_of_lt_of_le (h.below row hrow) (Nat.le_add_right ..)
    first := Nat.lt_of_lt_of_le h.first (Nat.le_add_right ..)
    phase := h.phase.extends h.seen hextends }

/-! #### The attempt -/

/-- Before its end nothing was published. -/
theorem Inv.none_published (h : Inv lock s) (hphase : ∀ outcome, s.phase ≠ .over outcome) :
    s.publications = [] := by
  rcases h.once with hnone | ⟨p, _, hover⟩
  · exact hnone
  · exact absurd hover (hphase _)

/-- Nothing matching lies above the token's serial, so what has been seen since
is all there is. -/
theorem view_of_unchanged (h : Inv lock s) (hheld : Held lock s token) {state : TokenState}
    (hstate : s.store.tokens token = some state)
    (hunchanged : PgFactStore.isStateUnchanged lock.db state s.store.log = some true)
    {handed : Option σ} (hhanded : Handed lock s handed) : handed = lock.view s.store.log := by
  obtain ⟨n, hseen, _, rfl⟩ := hhanded
  obtain ⟨select, hselect, hnone⟩ := PgFactStore.isStateUnchanged_true_iff.mp hunchanged
  rw [hheld state hstate] at hselect
  have hrest : ∀ row ∈ s.store.log.drop n, lock.matching row = false := by
    intro row hrow
    have hdrop : row ∈ s.store.log.drop s.seen :=
      (List.drop_sublist_drop_left s.store.log hseen).subset hrow
    have habove := Log.last_take_lt h.ascending h.positive hdrop
    have hunselected := hnone row (List.mem_of_mem_drop hrow)
    have hiff := PgQueryBuilder.selected_row hselect row
    rw [hunselected] at hiff
    by_contra hmatch
    simp only [matching, PgFactStream.matching, Bool.not_eq_false, Bool.and_eq_true, List.any_eq_true,
      List.all_eq_true] at hmatch
    exact absurd (hiff.mpr ⟨Int.ofNat_lt.mpr habove, hmatch.1⟩) (by simp)
  have hreplay : lock.replay s.store.log = lock.replay (s.store.log.take n) := by
    unfold replay
    conv_lhs => rw [← List.take_append_drop n s.store.log]
    rw [Log.replay_append, Log.replay_of_none hrest]
  unfold view
  rw [hreplay]

theorem inv_enter (h : Inv lock s) (hs : lock.enter s = some s') : Inv lock s' := by
  unfold enter at hs
  dsimp only at hs
  split at hs
  · rename_i hphase
    have hnone := h.none_published (by simp [hphase])
    split at hs
    · cases hs
      refine { h with seen := Nat.le_refl _, phase := ?_, once := .inl hnone }
      show _ = PgFactStore.getCurrentStateFor lock.specs (s.store.log.take s.store.log.length)
      rw [List.take_length]
    · cases hs
      exact { h with phase := trivial, once := .inl hnone }
  · cases hs

theorem inv_createToken (h : Inv lock s) (hs : createToken s token = some s') : Inv lock s' := by
  unfold createToken at hs
  split at hs
  · rename_i state hphase _
    cases hs
    have hok := h.phase
    rw [hphase] at hok
    refine { h with phase := fun st hst => ?_, once := .inl (h.none_published (by simp [hphase])) }
    simp only [Function.update_self, Option.some.injEq] at hst
    rw [← hst]
    exact hok
  · cases hs

theorem inv_beginUpdate (h : Inv lock s) (hs : beginUpdate s = some s') : Inv lock s' := by
  unfold beginUpdate at hs
  split at hs
  · rename_i token hphase
    cases hs
    have hok := h.phase
    rw [hphase] at hok
    exact { h with phase := ⟨hok, h.seen⟩, once := .inl (h.none_published (by simp [hphase])) }
  · cases hs

/-- An attempt that ends without a call to publish has published nothing. -/
theorem Inv.finish (h : Inv lock s) (hphase : ∀ outcome, s.phase ≠ .over outcome) (token : UUID)
    (outcome : Outcome) : Inv lock (s.finish token outcome) :=
  { h with phase := trivial, once := .inl (h.none_published hphase) }

/-- An update moves nothing but a managed projection. -/
theorem update_state {upTo : Nat} {handed : Option σ} (hu : lock.update s upTo = some (handed, s')) :
    s' = s ∨ s' = lock.catchup s upTo := by
  unfold update at hu
  dsimp only at hu
  split at hu
  · split at hu
    · cases hu
      exact .inl rfl
    · cases hu
  · cases hu
    exact .inl rfl
  · cases hu
    exact .inr rfl
  · cases hu
    exact .inl rfl
  · cases hu

/-- Whatever the lock is taken on: what is handed over has seen everything up to
some row, no earlier than asked for. -/
theorem update_handed (h : Inv lock s) {upTo : Nat} (hup : upTo ≤ s.store.log.length)
    {handed : Option σ} (hu : lock.update s upTo = some (handed, s')) :
    ∃ n, upTo ≤ n ∧ n ≤ s.store.log.length ∧ handed = lock.view (s.store.log.take n) := by
  unfold update at hu
  dsimp only at hu
  split at hu
  · rename_i htarget
    split at hu
    · cases hu
      exact ⟨upTo, Nat.le_refl _, hup, by simp [view, htarget]⟩
    · cases hu
  · rename_i htarget
    cases hu
    exact ⟨upTo, Nat.le_refl _, hup, by simp [view, htarget]⟩
  · rename_i htarget
    cases hu
    refine ⟨max s.position upTo, Nat.le_max_right .., Nat.max_le.mpr ⟨h.position, hup⟩, ?_⟩
    rw [(h.catchup hup).2]
    simp [view, htarget]
  · rename_i htarget
    cases hu
    exact ⟨upTo, Nat.le_refl _, hup, by simp [view, htarget]⟩
  · cases hu

theorem inv_endUpdate {upTo : Nat} (h : Inv lock s) (hs : lock.endUpdate s upTo = some s') :
    Inv lock s' := by
  unfold endUpdate at hs
  split at hs
  · rename_i token begun hphase
    have hover : ∀ outcome, s.phase ≠ .over outcome := by simp [hphase]
    split at hs
    · rename_i hrange
      split at hs
      · rename_i handed t hupdate
        cases hs
        obtain ⟨n, hn, hlen, hview⟩ := update_handed h hrange.2 hupdate
        have hok := h.phase
        rw [hphase] at hok
        have hseen : s.seen ≤ n := Nat.le_trans hok.2 (Nat.le_trans hrange.1 hn)
        have hnone := h.none_published hover
        rcases update_state hupdate with rfl | rfl
        · exact { h with phase := ⟨hok.1, n, hseen, hlen, hview⟩, once := .inl hnone }
        · have hcatchup := (h.catchup hrange.2).1
          exact { hcatchup with phase := ⟨hok.1, n, hseen, hlen, hview⟩, once := .inl hnone }
      · cases hs
        exact h.finish hover token .aborted
    · cases hs
  · cases hs

theorem inv_operation {ends : Operation} (h : Inv lock s) (hs : operation s ends = some s') :
    Inv lock s' := by
  unfold operation at hs
  split at hs
  · rename_i token handed hphase
    have hover : ∀ outcome, s.phase ≠ .over outcome := by simp [hphase]
    have hok := h.phase
    rw [hphase] at hok
    split at hs
    · cases hs
      exact h.finish hover token .aborted
    · cases hs
      exact h.finish hover token .aborted
    · cases hs
      exact h.finish hover token (.returned [])
    · cases hs
      exact { h with phase := hok, once := .inl (h.none_published hover) }
  · cases hs

/-- A call that does not publish leaves the log and the serials as they were. -/
theorem Inv.unpublished (h : Inv lock s) (hnone : s.publications = []) {store : PgFactStore.Store}
    (hlog : store.log = s.store.log) (hnext : store.nextSer = s.store.nextSer) {phase : Phase σ}
    (hphase : phase.Ok lock { s with store, phase }) : Inv lock { s with store, phase } where
  ascending := hlog ▸ h.ascending
  positive := hlog ▸ h.positive
  below := hlog ▸ hnext ▸ h.below
  first := hnext ▸ h.first
  position := hlog ▸ h.position
  projection := hlog ▸ h.projection
  seen := hlog ▸ h.seen
  phase := hphase
  published := hlog ▸ h.published
  once := .inl hnone
  sources := hlog ▸ h.sources

theorem inv_publishIfUnchanged (h : Inv lock s) (hs : lock.publishIfUnchanged s = some s') :
    Inv lock s' := by
  unfold publishIfUnchanged at hs
  split at hs
  · rename_i token facts handed hphase
    have hnone := h.none_published (by simp [hphase])
    have hok := h.phase
    rw [hphase] at hok
    split at hs
    · rename_i store hanswer
      cases hs
      rcases PgFactStore.publishIfUnchanged_store hanswer with
        ⟨_, ⟨state, hstate, hunchanged⟩, hlog, hnext⟩ | ⟨hno, _⟩
      · obtain ⟨hasc, hpos, hbelow⟩ := h.appended facts
        have hgrown : s.store.log <+: store.log := hlog ▸ List.prefix_append ..
        have hlen := hgrown.length_le
        refine ⟨hlog ▸ hasc, hlog ▸ hpos, hlog ▸ hnext ▸ hbelow, ?_, Nat.le_trans h.position hlen, ?_,
          Nat.le_trans h.seen hlen, trivial, fun p hp => ?_, .inr ⟨_, by rw [hnone]; rfl, rfl⟩,
          fun row hrow => ?_⟩
        · show 0 < store.nextSer
          rw [hnext]
          exact Nat.lt_of_lt_of_le h.first (Nat.le_add_right ..)
        · show s.projection = lock.replay (store.log.take s.position)
          rw [take_of_isPrefix hgrown h.position]
          exact h.projection
        · rw [hnone] at hp
          cases List.mem_singleton.mp hp
          exact ⟨view_of_unchanged h hok.1 hstate hunchanged hok.2, ⟨_, rfl⟩, hlog ▸ List.prefix_rfl⟩
        · rw [hnone]
          have hrow : row ∈ store.log := hrow
          rw [hlog] at hrow
          rcases List.mem_append.mp hrow with hrow | hrow
          · rcases h.sources row hrow with hothers | ⟨p, hp, _⟩
            · exact .inl hothers
            · rw [hnone] at hp
              cases hp
          · exact .inr ⟨_, List.mem_singleton_self _, hrow⟩
      · exact absurd rfl hno
    · rename_i store hanswer
      cases hs
      rcases PgFactStore.publishIfUnchanged_store hanswer with ⟨hyes, _⟩ | ⟨_, hlog, hnext⟩
      · cases hyes
      · exact h.unpublished hnone hlog hnext trivial
    · rename_i store answer hyes _ hanswer
      cases hs
      rcases PgFactStore.publishIfUnchanged_store hanswer with ⟨rfl, _⟩ | ⟨_, hlog, hnext⟩
      · exact absurd rfl hyes
      · exact h.unpublished hnone hlog hnext trivial
  · cases hs

theorem inv_fail (h : Inv lock s) (hs : fail s = some s') : Inv lock s' := by
  unfold fail at hs
  split at hs
  · rename_i hphase
    cases hs
    exact { h with phase := trivial, once := .inl (h.none_published (by simp [hphase])) }
  · rename_i token hphase
    cases hs
    exact h.finish (by simp [hphase]) token .aborted
  · rename_i token _ hphase
    cases hs
    exact h.finish (by simp [hphase]) token .aborted
  · rename_i hphase
    cases hs
    exact { h with phase := trivial, once := .inl (h.none_published (by simp [hphase])) }
  · cases hs

theorem inv_step {a : Action} (h : Inv lock s) (hs : lock.step s a = some s') : Inv lock s' := by
  cases a with
  | publish facts => exact inv_publish h hs
  | catchup upTo =>
    simp only [step, catchupElsewhere] at hs
    split at hs
    · rename_i hup
      cases hs
      exact (h.catchup hup).1
    · cases hs
  | forget tokens => exact inv_forget h hs
  | skip n => exact inv_skip h hs
  | enter => exact inv_enter h hs
  | create token => exact inv_createToken h hs
  | update => exact inv_beginUpdate h hs
  | updated upTo => exact inv_endUpdate h hs
  | operation ends => exact inv_operation h hs
  | publishIfUnchanged => exact inv_publishIfUnchanged h hs
  | fail => exact inv_fail h hs

theorem inv_start (h : Start lock s) : Inv lock s where
  ascending := h.ascending
  positive := h.positive
  below := h.below
  first := h.first
  position := h.position
  projection := h.projection
  seen := h.seen ▸ Nat.zero_le _
  phase := by
    rw [h.phase]
    trivial
  published := by simp [h.publications]
  once := .inl h.publications
  sources := fun row hrow => .inl (h.others ▸ hrow)

theorem inv (h : (attempting lock).Reachable s) : Inv lock s :=
  h.invariant (fun _ => inv_start) fun s a s' hi _ hs => by
    have hs : lock.step s a = some s' := hs
    exact inv_step hi hs

/-! #### Counting -/

/-- What others do is not counted. -/
theorem Counted.same (h : Counted lock s) (hruns : s'.runs = s.runs) (hcount : s'.count = s.count)
    (hphase : s'.phase = s.phase) : Counted lock s' := by
  unfold Counted
  rw [hruns, hcount, hphase]
  exact h

theorem counted_enter (hretries : lock.retries < Int32.maxValue) (h : Counted lock s)
    (hs : lock.enter s = some s') : Counted lock s' := by
  unfold enter at hs
  dsimp only at hs
  split at hs
  · rename_i hphase
    simp only [Counted, hphase] at h
    split at hs
    · rename_i hmore
      cases hs
      -- the counter is below the highest number it can hold, so it does not wrap
      have hlt : lock.retries.toInt < 2147483647 := Int32.lt_iff_toInt_lt.mp hretries
      have hcount : (s.count + 1).toInt = s.count.toInt + 1 := by
        rw [Int32.toInt_add, Int32.toInt_one, Int.bmod_def]
        omega
      refine ⟨h.1, ?_, hmore⟩
      show (s.runs : Int) < (s.count + 1).toInt
      omega
    · cases hs
      exact ⟨h.1, trivial⟩
  · cases hs

theorem counted_endUpdate {upTo : Nat} (h : Counted lock s) (hs : lock.endUpdate s upTo = some s') :
    Counted lock s' := by
  unfold endUpdate at hs
  split at hs
  · rename_i hphase
    simp only [Counted, hphase] at h
    split at hs
    · split at hs
      · rename_i t hupdate
        cases hs
        have ht : t.count = s.count := by
          rcases update_state hupdate with rfl | rfl
          · rfl
          · rfl
        have hle := Int32.le_iff_toInt_le.mp h.2.2
        refine ⟨?_, ?_, ?_⟩
        · show ((s.runs + 1 : Nat) : Int) ≤ _
          omega
        · show ((s.runs + 1 : Nat) : Int) ≤ t.count.toInt
          rw [ht]
          omega
        · show t.count.toInt ≤ _
          rw [ht]
          omega
      · cases hs
        exact ⟨h.1, trivial⟩
    · cases hs
  · cases hs

theorem counted_step {a : Action} (hretries : lock.retries < Int32.maxValue) (h : Counted lock s)
    (hs : lock.step s a = some s') : Counted lock s' := by
  cases a with
  | publish facts =>
    obtain ⟨store, _, rfl⟩ := Option.map_eq_some_iff.mp hs
    exact h.same rfl rfl rfl
  | catchup upTo =>
    simp only [step, catchupElsewhere] at hs
    split at hs
    · cases hs
      exact h.same rfl rfl rfl
    · cases hs
  | forget tokens =>
    cases hs
    exact h.same rfl rfl rfl
  | skip n =>
    cases hs
    exact h.same rfl rfl rfl
  | enter => exact counted_enter hretries h hs
  | create token =>
    simp only [step, createToken] at hs
    split at hs
    · rename_i hphase _
      simp only [Counted, hphase] at h
      cases hs
      exact h
    · cases hs
  | update =>
    simp only [step, beginUpdate] at hs
    split at hs
    · rename_i hphase
      simp only [Counted, hphase] at h
      cases hs
      exact h
    · cases hs
  | updated upTo => exact counted_endUpdate h hs
  | operation ends =>
    simp only [step, operation] at hs
    split at hs
    · rename_i hphase
      simp only [Counted, hphase] at h
      split at hs
      · cases hs
        exact ⟨h.1, trivial⟩
      · cases hs
        exact ⟨h.1, trivial⟩
      · cases hs
        exact ⟨h.1, trivial⟩
      · cases hs
        exact h
    · cases hs
  | publishIfUnchanged =>
    simp only [step, publishIfUnchanged] at hs
    split at hs
    · rename_i hphase
      simp only [Counted, hphase] at h
      split at hs
      · cases hs
        exact ⟨h.1, trivial⟩
      · cases hs
        exact h
      · cases hs
        exact ⟨h.1, trivial⟩
    · cases hs
  | fail =>
    simp only [step, fail] at hs
    split at hs
    · cases hs
      exact ⟨h.1, trivial⟩
    · cases hs
      exact ⟨h.1, trivial⟩
    · cases hs
      exact ⟨h.1, trivial⟩
    · cases hs
      exact ⟨h.1, trivial⟩
    · cases hs

theorem counted_start (h : Start lock s) : Counted lock s := by
  simp only [Counted, h.phase, h.runs, h.count]
  have hzero : Int32.toInt 0 = 0 := rfl
  omega

theorem counted (hretries : lock.retries < Int32.maxValue) (h : (attempting lock).Reachable s) :
    Counted lock s :=
  h.invariant (fun _ => counted_start) fun s a s' hi _ hs => by
    have hs : lock.step s a = some s' := hs
    exact counted_step hretries hi hs

end Proofs

/-! ### Attempts are serializable -/

/-- Facts are published at most once, after the operation was handed all matching
facts that were committed before them; what is not published here comes from
others, in particular after an abort; and the operation is run as often as
configured at most. -/
theorem attempt_serializable {σ : Type} (lock : Locked σ) (hretries : lock.retries < Int32.maxValue)
    (s : State σ) (h : (attempting lock).Reachable s) :
    (∀ p ∈ s.publications, p.handed = lock.view p.before ∧
      (∃ n, p.rows = PgFactStore.rowsFrom lock.db n p.facts) ∧ p.before ++ p.rows <+: s.store.log) ∧
    s.publications.length ≤ 1 ∧
    (s.runs : Int) ≤ max 0 lock.retries.toInt ∧
    (∀ row ∈ s.store.log, row ∈ s.others ∨ ∃ p ∈ s.publications, row ∈ p.rows) ∧
    (∀ outcome, s.phase = .over outcome → (∀ facts, outcome ≠ .returned facts) →
      s.publications = []) := by
  have hinv := inv h
  refine ⟨fun p hp => ?_, ?_, (counted hretries h).1, hinv.sources, fun outcome hover hno => ?_⟩
  · have hok := hinv.published p hp
    exact ⟨hok.handed, hok.rows, hok.there⟩
  · rcases hinv.once with hnone | ⟨p, hone, _⟩
    · simp [hnone]
    · simp [hone]
  · rcases hinv.once with hnone | ⟨p, _, hreturned⟩
    · exact hnone
    · rw [hover] at hreturned
      cases hreturned
      exact absurd rfl (hno p.facts)

/-- A projection that remembers the identifiers it has seen, on the orders. -/
def remembering : Locked (List UUID) where
  db := .quoted
  target := .managedProjection
  specs := [ofOrders]
  passes := fun _ => true
  initial := []
  apply := fun ids row => ids ++ [row.fact.id]
  retries := 10

def untouched {σ : Type} (projection : σ) : State σ :=
  { store := { log := [], tokens := fun _ => none, nextSer := 1 }, projection, position := 0
    count := 0, phase := .next, runs := 0, seen := 0, publications := [], others := [] }

theorem start_untouched {σ : Type} (lock : Locked σ) : Start lock (untouched lock.initial) :=
  ⟨List.Pairwise.nil, by simp [untouched], by simp [untouched], Nat.one_pos, Nat.zero_le _, rfl, rfl, rfl,
    rfl, rfl, rfl, rfl⟩

/-- The first try is overtaken by an order of somebody else, the second is not. -/
def overtaken : List Action :=
  [.enter, .create ⟨0⟩, .publish [placed 0], .update, .updated 1, .operation (.publishes [placed 1]),
    .publish [placed 2], .publishIfUnchanged,
    .enter, .create ⟨1⟩, .update, .publish [paid 3], .updated 2, .operation (.publishes [placed 1]),
    .publish [paid 4], .publishIfUnchanged]

theorem attempt_serializable_overtaken : ∃ s, (attempting remembering).Reachable s ∧
    (s.publications.map Publication.handed, s.runs) = ([some [(placed 0).id, (placed 2).id]], 2) ∧
    ∀ p ∈ s.publications, p.handed = remembering.view p.before := by
  have hstart : (attempting remembering).Start (untouched remembering.initial) := start_untouched _
  obtain ⟨s, hs, hstate⟩ := Machine.exists_reachable hstart overtaken
    (fun s => (s.publications.map Publication.handed, s.runs))
    (b := ([some [(placed 0).id, (placed 2).id]], 2)) (by decide +kernel)
  exact ⟨s, hs, hstate, fun p hp =>
    ((attempt_serializable remembering (by decide) s hs).1 p hp).1⟩

/-! ### The highest number of retries is no bound -/

/-- As many retries as can be asked for, on specifications. -/
def endless : Locked Unit where
  db := .quoted
  target := .specs
  specs := [ofOrders]
  passes := fun _ => true
  initial := ()
  apply := fun _ _ => ()
  retries := Int32.maxValue

/-- After `n` tries, each overtaken by another order. -/
structure Crowded (n : Nat) (s : State Unit) : Prop where
  reachable : (attempting endless).Reachable s
  log : s.store.log = PgFactStore.rowsFrom .quoted 1 ((List.range n).map placed)
  nextSer : s.store.nextSer = n + 1
  tokens : s.store.tokens = fun _ => none
  phase : s.phase = .next
  runs : s.runs = n

theorem orders_denote : PgQueryBuilder.Denotes JsonPath.quoted [ofOrders] := by
  refine PgQueryBuilder.denotes_of_spliceable _ (by simp) fun spec hspec => ?_
  rw [List.mem_singleton.mp hspec]
  exact ⟨by decide, by simp [ofOrders], by simp [ofOrders, LinkedMap.empty],
    by simp [ofOrders, LinkedMap.empty]⟩

theorem placed_matches (n ser : Nat) :
    ofOrders.Matches (Database.quoted.augment ser (placed n).header) :=
  ⟨.inr rfl, by simp [ofOrders], fun h => absurd rfl h, by simp [ofOrders, LinkedMap.empty],
    by simp [ofOrders, LinkedMap.empty]⟩

/-- Another order since the state was read. -/
theorem crowded_changed (n : Nat) (log : List FactRow) (state : TokenState)
    (hspecs : state.specs = [ofOrders]) (hserial : state.serialOfLastMatchingFact ≤ n) :
    PgFactStore.isStateUnchanged .quoted state
      (log ++ PgFactStore.rowsFrom .quoted (n + 1) [placed n]) = some false := by
  obtain ⟨select, hselect, hrow⟩ := orders_denote state.serialOfLastMatchingFact
  have hselected : PgQueryBuilder.selected (Database.path .quoted) state.specs
      state.serialOfLastMatchingFact = some select := by
    rw [hspecs]
    exact hselect
  have hchanged : PgFactStore.isStateUnchanged .quoted state
      (log ++ PgFactStore.rowsFrom .quoted (n + 1) [placed n]) ≠ some true := by
    intro h
    obtain ⟨select', hselect', hnone⟩ := PgFactStore.isStateUnchanged_true_iff.mp h
    cases hselected.symm.trans hselect'
    have hno := hnone _ (List.mem_append_right _ (List.mem_singleton_self _))
    rw [(hrow _).mpr ⟨by show (_ : Int) < ((n + 1 : Nat) : Int); omega, ofOrders, by simp,
      placed_matches n (n + 1)⟩] at hno
    cases hno
  unfold PgFactStore.isStateUnchanged PgFactStore.doGetState at hchanged ⊢
  rw [hselected] at hchanged ⊢
  simp only [Option.map_some, ne_eq, Option.some.injEq, Bool.not_eq_true] at hchanged ⊢
  exact hchanged

theorem crowded_insertable (n : Nat) (hn : n < 2 ^ 128) :
    PgFactStore.insertable (PgFactStore.rowsFrom .quoted 1 ((List.range n).map placed)) [placed n] =
      true := by
  simp only [PgFactStore.insertable, PgFactStore.ids_rowsFrom, List.map_map, List.map_cons, List.map_nil,
    List.nodup_singleton, decide_true, List.all_cons, List.all_nil, Bool.and_true, Bool.true_and,
    Bool.not_eq_true', List.contains_eq_mem, decide_eq_false_iff_not, List.mem_map, List.mem_range,
    Function.comp_apply]
  rintro ⟨k, hk, heq⟩
  have hbits : BitVec.ofNat 128 k = BitVec.ofNat 128 n := congrArg UUID.bits heq
  have hnat := congrArg BitVec.toNat hbits
  rw [BitVec.toNat_ofNat, BitVec.toNat_ofNat, Nat.mod_eq_of_lt hn,
    Nat.mod_eq_of_lt (Nat.lt_trans hk hn)] at hnat
  omega

/-- A try that the next order overtakes. -/
def missed (n : Nat) : List Action :=
  [.enter, .create ⟨0⟩, .update, .updated n, .operation (.publishes [paid 0]), .publish [placed n],
    .publishIfUnchanged]

/-- A try, up to its facts being handed to the store. -/
theorem endless_tries {s : State Unit} (hphase : s.phase = .next)
    (htokens : s.store.tokens = fun _ => none) :
    (attempting endless).run s [.enter, .create ⟨0⟩, .update, .updated s.store.log.length,
      .operation (.publishes [paid 0])] = some { s with
        count := s.count + 1, seen := s.store.log.length, runs := s.runs + 1
        store := { s.store with
          tokens := Function.update s.store.tokens ⟨0⟩
            (some (PgFactStore.getCurrentStateFor [ofOrders] s.store.log)) }
        phase := .publishIfUnchanged ⟨0⟩ [paid 0] none } := by
  have henter : endless.enter s = some { s with
      count := s.count + 1, seen := s.store.log.length
      phase := .create (PgFactStore.getCurrentStateFor [ofOrders] s.store.log) } := by
    simp only [enter, hphase, endless, Int32.le_maxValue, if_true]
  have hnone : s.store.tokens ⟨0⟩ = none := congrFun htokens ⟨0⟩
  simp only [Machine.run, attempting, step, henter, Option.bind_some, createToken, hnone, beginUpdate,
    endUpdate, Nat.le_refl, and_self, if_true, update, operation]
  rfl

theorem Crowded.next {n : Nat} {s : State Unit} (h : Crowded n s) (hn : n < 2 ^ 128) :
    ∃ s', Crowded (n + 1) s' := by
  obtain ⟨hr, hlog, hnext, htokens, hphase, hruns⟩ := h
  have hlen : s.store.log.length = n := by
    rw [hlog, PgFactStore.length_rowsFrom, List.length_map, List.length_range]
  have hlast : (PgFactStore.getCurrentStateFor [ofOrders] s.store.log).serialOfLastMatchingFact ≤ n := by
    refine Log.last_le fun row hrow => ?_
    have := (PgFactStore.ser_rowsFrom (hlog ▸ hrow)).2
    rw [List.length_map, List.length_range] at this
    omega
  have hchanged := crowded_changed n s.store.log _ rfl hlast
  have hnew := hlog ▸ crowded_insertable n hn
  have htries := endless_tries hphase htokens
  rw [hlen] at htries
  have hrun : ∃ s', (attempting endless).run s (missed n) = some s' ∧
      s'.store.log = s.store.log ++ PgFactStore.rowsFrom .quoted (n + 1) [placed n] ∧
      s'.store.nextSer = n + 2 ∧ (s'.store.tokens = fun _ => none) ∧ s'.phase = .next ∧
      s'.runs = n + 1 := by
    rw [show missed n = [.enter, .create ⟨0⟩, .update, .updated n, .operation (.publishes [paid 0])] ++
      [.publish [placed n], .publishIfUnchanged] from rfl, Machine.run_append, htries]
    simp [Machine.run, attempting, step, endless, publish, PgFactStore.Store.publish, hnew, htokens,
      publishIfUnchanged, PgFactStore.publishIfUnchanged, PgFactStore.Store.invalidate, hnext, hchanged,
      hruns]
  obtain ⟨s', hs', hlog', hnext', htokens', hphase', hruns'⟩ := hrun
  refine ⟨s', Machine.Reachable.run hr _ hs', ?_, hnext', htokens', hphase', hruns'⟩
  rw [hlog', hlog, List.range_succ, List.map_append, PgFactStore.rowsFrom_append, List.length_map,
    List.length_range, Nat.add_comm 1 n, List.map_singleton]

theorem crowded (n : Nat) (hn : n ≤ 2 ^ 128) : ∃ s, Crowded n s := by
  induction n with
  | zero => exact ⟨untouched (), .start (start_untouched endless), rfl, rfl, rfl, rfl, rfl⟩
  | succ n ih =>
    obtain ⟨s, hs⟩ := ih (Nat.le_of_lt hn)
    exact hs.next hn

/-- The counter wraps before it exceeds the highest number, and the loop goes on. -/
theorem endless_runs : ¬ ∀ s : State Unit, (attempting endless).Reachable s →
    (s.runs : Int) ≤ max 0 endless.retries.toInt := by
  intro h
  obtain ⟨s, hs⟩ := crowded (2 ^ 31) (by decide)
  have hmost := h s hs.reachable
  rw [hs.runs] at hmost
  exact absurd hmost (by decide)

end FactCast.Locked
