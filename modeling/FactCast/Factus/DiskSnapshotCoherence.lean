import FactCast.Factus.DiskSnapshotCache

/-! What a `find` returns.

The file is changed in the order of the locks, and a `find` that waits for its lock
reads what was stored last. But between the reading and the memory nothing is locked:
what a `find` puts there may have been replaced since, and every later one gets it
(`replaced_comes_back`). `coherent` takes that this does not happen, that no lock is
dropped while it is used, and that a disk task that fails does not leave a file as it
was.

What is in a file is of no call that had returned before one of those began that have
acquired its lock, and are through with it (`Inv.files`); what is in memory is of none
that had before one began that has returned (`Inv.cache`). A step changes one call
(`Continues`), and makes no call return before one that has begun. -/
namespace FactCast.InMemoryAndDiskSnapshotCache

variable {Path β : Type}

/-! ### Who changed what, and when -/

section Facts
variable (createFile : SnapshotIdentifier → Path) (calls : Nat → Option (Call β))

/-- Call `k` returned before call `n` began. What was there at first is before every call. -/
def Before (k n : Nat) : Prop :=
  k = 0 ∨ ∃ c r, calls k = some c ∧ c.returnedAt = some r ∧ r < n

/-- Call `k` stored or removed the snapshot of `id`, and returned at `r`. -/
def Changed (id : SnapshotIdentifier) (k r : Nat) : Prop :=
  ∃ c, calls k = some c ∧ c.id = id ∧ c.kind.changes = true ∧ c.returnedAt = some r

/-- Call `k` acquired the write lock of the file at `a`. -/
def Locked (path : Path) (k a : Nat) : Prop :=
  ∃ c, calls k = some c ∧ createFile c.id = path ∧ c.lockedAt = some a

/-- The snapshot was there at first, or a call has stored it in this file. -/
def Origin (path : Path) (snapshot : Stored β) : Prop :=
  snapshot.storedBy = 0 ∨ ∃ c, calls snapshot.storedBy = some c ∧ createFile c.id = path ∧
    c.kind = .store snapshot.data

/-- A snapshot of this file, of no call that returned before one of these began. -/
structure Fresh (path : Path) (changes : Nat → Prop) (snapshot : Stored β) : Prop where
  origin : Origin createFile calls path snapshot
  notBefore : ∀ k, changes k → ¬ Before calls snapshot.storedBy k

end Facts

/-- Call `n` has become `c`. What it is about stays, and what is new of it is of this step. -/
structure Continues (s s' : State Path β) (n : Nat) (c : Call β) : Prop where
  calls : s'.calls = Function.update s.calls n (some c)
  time : s'.time = s.time + 1
  same : ∀ c₀, s.calls n = some c₀ → c.id = c₀.id ∧ c.kind = c₀.kind
  lockedAt : ∀ a, c.lockedAt = some a → a = s.time ∨ ∃ c₀, s.calls n = some c₀ ∧ c₀.lockedAt = some a
  returnedAt : ∀ r, c.returnedAt = some r →
    r = s.time ∨ ∃ c₀, s.calls n = some c₀ ∧ c₀.returnedAt = some r

section Continues
variable {createFile : SnapshotIdentifier → Path} {s s' : State Path β} {n k m a r : Nat} {c c' : Call β}
  {id : SnapshotIdentifier} {path : Path} {snapshot : Stored β}

theorem Continues.calls_self (h : Continues s s' n c) : s'.calls n = some c := by
  rw [h.calls, Function.update_self]

theorem Continues.calls_of_ne (h : Continues s s' n c) (hk : k ≠ n) : s'.calls k = s.calls k := by
  rw [h.calls, Function.update_of_ne hk]

/-- What a call is after the step, it was before or has just become. -/
theorem Continues.cases (h : Continues s s' n c) (hk : s'.calls k = some c') :
    k = n ∧ c' = c ∨ k ≠ n ∧ s.calls k = some c' := by
  by_cases hkn : k = n
  · subst hkn
    exact .inl ⟨rfl, Option.some.inj (hk.symm.trans h.calls_self)⟩
  · exact .inr ⟨hkn, (h.calls_of_ne hkn).symm.trans hk⟩

/-- Nothing that returns now returned before a call that has begun. -/
theorem Continues.before (h : Continues s s' n c) (hb : Before s'.calls k m) (hm : m ≤ s.time) :
    Before s.calls k m := by
  obtain rfl | ⟨c', r, hk, hr, hlt⟩ := hb
  · exact .inl rfl
  · obtain ⟨rfl, rfl⟩ | ⟨-, hk⟩ := h.cases hk
    · obtain rfl | ⟨c₀, hc₀, hr₀⟩ := h.returnedAt r hr
      · omega
      · exact .inr ⟨c₀, r, hc₀, hr₀, hlt⟩
    · exact .inr ⟨c', r, hk, hr, hlt⟩

theorem Continues.changed (h : Continues s s' n c) (hch : Changed s'.calls id k r) :
    Changed s.calls id k r ∨ k = n ∧ r = s.time ∧ c.id = id ∧ c.kind.changes = true ∧
      c.returnedAt = some r := by
  obtain ⟨c', hk, hid, hkind, hr⟩ := hch
  obtain ⟨rfl, rfl⟩ | ⟨-, hk⟩ := h.cases hk
  · obtain rfl | ⟨c₀, hc₀, hr₀⟩ := h.returnedAt r hr
    · exact .inr ⟨rfl, rfl, hid, hkind, hr⟩
    · obtain ⟨hsame, hsameKind⟩ := h.same c₀ hc₀
      exact .inl ⟨c₀, hc₀, hsame ▸ hid, hsameKind ▸ hkind, hr₀⟩
  · exact .inl ⟨c', hk, hid, hkind, hr⟩

theorem Continues.locked (h : Continues s s' n c) (hl : Locked createFile s'.calls path k a) :
    Locked createFile s.calls path k a ∨ k = n ∧ a = s.time ∧ createFile c.id = path ∧ c.lockedAt = some a := by
  obtain ⟨c', hk, hpath, ha⟩ := hl
  obtain ⟨rfl, rfl⟩ | ⟨-, hk⟩ := h.cases hk
  · obtain rfl | ⟨c₀, hc₀, ha₀⟩ := h.lockedAt a ha
    · exact .inr ⟨rfl, rfl, hpath, ha⟩
    · exact .inl ⟨c₀, hc₀, (h.same c₀ hc₀).1 ▸ hpath, ha₀⟩
  · exact .inl ⟨c', hk, hpath, ha⟩

theorem Continues.origin (h : Continues s s' n c) (ho : Origin createFile s.calls path snapshot) :
    Origin createFile s'.calls path snapshot := by
  obtain h0 | ⟨c₀, hc₀, hpath, hkind⟩ := ho
  · exact .inl h0
  · by_cases hn : snapshot.storedBy = n
    · obtain ⟨hsame, hsameKind⟩ := h.same c₀ (hn ▸ hc₀)
      exact .inr ⟨c, hn ▸ h.calls_self, hsame ▸ hpath, hsameKind.trans hkind⟩
    · exact .inr ⟨c₀, (h.calls_of_ne hn).trans hc₀, hpath, hkind⟩

end Continues

/-! ### What holds in every run -/

/-- What a call has done is what its phase says. -/
def Call.Fits (c : Call β) : Prop :=
  match c.phase with
  | .lockOn => c.lockedAt = none ∧ c.returnedAt = none
  | .waiting _ => c.lockedAt = none ∧ c.returnedAt = none
  | .reading _ => c.kind.changes = false ∧ c.lockedAt = none ∧ c.returnedAt = none
  | .loaded _ _ => c.kind.changes = false ∧ c.lockedAt = none ∧ c.returnedAt = none
  | .submitted => c.kind.changes = true ∧ c.lockedAt ≠ none ∧ c.returnedAt = none
  | .returned _ => c.returnedAt ≠ none

/-- The times of call `n` are in their order. -/
structure Proper (time n : Nat) (c : Call β) : Prop where
  positive : 0 < n
  began : n < time
  lockedAt : ∀ a, c.lockedAt = some a → a < time
  returnedAt : ∀ r, c.returnedAt = some r → n < r ∧ r < time
  changed : ∀ r, c.kind.changes = true → c.returnedAt = some r → ∃ a, c.lockedAt = some a ∧ a < r
  read : ∀ snapshot read, c.phase = .loaded snapshot read → n < read ∧ read < time
  fits : c.Fits

/-- Every lock in use is the one the file has, and nobody reads a file that a task is to change. -/
structure Locking (createFile : SnapshotIdentifier → Path) (s : State Path β) : Prop where
  call : ∀ n c l, s.calls n = some c → c.phase.lock? = some l →
    ∃ u, s.fileSystemLevelLocks (createFile c.id) = some u ∧ u.lock = l
  task : ∀ n t, s.tasks n = some t → ∃ u, s.fileSystemLevelLocks t.path = some u ∧ u.lock = t.lock
  exclusive : ∀ n c l k t, s.calls n = some c → c.phase = .reading l → s.tasks k = some t →
    t.path ≠ createFile c.id

structure Inv (createFile : SnapshotIdentifier → Path) (s : State Path β) : Prop where
  proper : ∀ n c, s.calls n = some c → Proper s.time n c
  submitted : ∀ n t, s.tasks n = some t → ∃ c, s.calls n = some c ∧ t.path = createFile c.id ∧
    t.leaves = c.kind.leaves n
  locking : Locking createFile s
  /-- Who has acquired a lock did not begin after a call whose task is to come had returned. -/
  pending : ∀ k t j a, s.tasks k = some t → Locked createFile s.calls t.path j a → ¬ Before s.calls k j
  files : ∀ path snapshot, s.files path = some snapshot →
    Fresh createFile s.calls path (fun k => (∃ a, Locked createFile s.calls path k a) ∧ s.tasks k = none) snapshot
  loaded : ∀ n c snapshot read, s.calls n = some c → c.phase = .loaded snapshot read →
    Fresh createFile s.calls (createFile c.id)
      (fun k => ∃ a, Locked createFile s.calls (createFile c.id) k a ∧ a < read) snapshot
  cache : ∀ id snapshot, s.cache id = some snapshot →
    Fresh createFile s.calls (createFile id) (fun k => ∃ r, Changed s.calls id k r) snapshot
  found : ∀ n c snapshot, s.calls n = some c → c.phase = .returned (some snapshot) →
    Fresh createFile s.calls (createFile c.id) (fun k => ∃ r, Changed s.calls c.id k r ∧ r < n) snapshot ∧
      ∀ r, c.returnedAt = some r → snapshot.storedBy < r
  positive : 0 < s.time

section Steps
variable {createFile : SnapshotIdentifier → Path} {s s' : State Path β} {n k a r : Nat}
  {c : Call β} {id : SnapshotIdentifier} {path : Path} {snapshot : Stored β} {P Q : Nat → Prop}

theorem Fresh.mono {calls : Nat → Option (Call β)} (h : Fresh createFile calls path P snapshot)
    (hQ : ∀ k, Q k → P k) : Fresh createFile calls path Q snapshot :=
  ⟨h.origin, fun k hk => h.notBefore k (hQ k hk)⟩

theorem Fresh.continues (h : Fresh createFile s.calls path P snapshot) (hc : Continues s s' n c)
    (hQ : ∀ k, Q k → P k ∧ k ≤ s.time) : Fresh createFile s'.calls path Q snapshot where
  origin := hc.origin h.origin
  notBefore := by
    intro k hk hb
    obtain ⟨hP, hle⟩ := hQ k hk
    exact h.notBefore k hP (hc.before hb hle)

theorem Proper.later {time : Nat} (h : Proper time n c) : Proper (time + 1) n c where
  positive := h.positive
  began := Nat.lt_succ_of_lt h.began
  lockedAt := fun a ha => Nat.lt_succ_of_lt (h.lockedAt a ha)
  returnedAt := fun r hr => ⟨(h.returnedAt r hr).1, Nat.lt_succ_of_lt (h.returnedAt r hr).2⟩
  changed := h.changed
  read := fun snapshot read hphase =>
    ⟨(h.read snapshot read hphase).1, Nat.lt_succ_of_lt (h.read snapshot read hphase).2⟩
  fits := h.fits

theorem Inv.locked_le (h : Inv createFile s) (hl : Locked createFile s.calls path k a) : k ≤ s.time := by
  obtain ⟨c, hk, -, -⟩ := hl
  exact Nat.le_of_lt (h.proper k c hk).began

theorem Inv.changed_le (h : Inv createFile s) (hch : Changed s.calls id k r) : k ≤ s.time := by
  obtain ⟨c, hk, -, -, -⟩ := hch
  exact Nat.le_of_lt (h.proper k c hk).began

/-- A call goes on, and changes neither files nor tasks. If it acquires the write lock, its task
has been submitted, and no other one is pending that came before it. -/
theorem Inv.continues (h : Inv createFile s) (hc : Continues s s' n c)
    (hproper : Proper (s.time + 1) n c) (htasks : s'.tasks = s.tasks) (hfiles : s'.files = s.files)
    (hlocking : Locking createFile s')
    (hlocked : c.lockedAt = (s.calls n).bind Call.lockedAt ∨ s.tasks n ≠ none ∧
      ∀ k t, s.tasks k = some t → t.path = createFile c.id → ¬ Before s.calls k n)
    (hloaded : ∀ snapshot read, c.phase = .loaded snapshot read →
      Fresh createFile s.calls (createFile c.id)
        (fun k => ∃ a, Locked createFile s.calls (createFile c.id) k a ∧ a < read) snapshot)
    (hfound : ∀ snapshot, c.phase = .returned (some snapshot) →
      Fresh createFile s.calls (createFile c.id) (fun k => ∃ r, Changed s.calls c.id k r ∧ r < n) snapshot ∧
        ∀ r, c.returnedAt = some r → snapshot.storedBy < r)
    (hcache : ∀ id snapshot, s'.cache id = some snapshot →
      Fresh createFile s.calls (createFile id)
        (fun k => (∃ r, Changed s.calls id k r) ∨ k = n ∧ c.id = id ∧ c.kind.changes = true ∧
          c.returnedAt ≠ none) snapshot) : Inv createFile s' := by
  -- who has acquired a lock had it before, or acquires it in this step
  have hold : ∀ {path k a}, Locked createFile s'.calls path k a →
      Locked createFile s.calls path k a ∨ k = n ∧ a = s.time ∧ s.tasks n ≠ none ∧
        ∀ j t, s.tasks j = some t → t.path = path → ¬ Before s.calls j n := by
    intro path k a hl
    obtain hl | ⟨rfl, rfl, rfl, ha⟩ := hc.locked hl
    · exact .inl hl
    · obtain hlocked | ⟨htask, hnot⟩ := hlocked
      · rw [hlocked] at ha
        obtain ⟨c₀, hc₀, ha₀⟩ := Option.bind_eq_some_iff.mp ha
        exact .inl ⟨c₀, hc₀, by rw [(hc.same c₀ hc₀).1], ha₀⟩
      · exact .inr ⟨rfl, rfl, htask, hnot⟩
  have hchanged : ∀ {id k r m}, Changed s'.calls id k r → r < m → m ≤ s.time → Changed s.calls id k r := by
    intro id k r m hch hrm hm
    obtain hch | ⟨-, rfl, -, -, -⟩ := hc.changed hch
    · exact hch
    · omega
  have hn : n ≤ s.time := Nat.lt_succ_iff.mp hproper.began
  refine
    { proper := ?_, submitted := ?_, locking := hlocking, pending := ?_, files := ?_, loaded := ?_
      cache := ?_, found := ?_, positive := ?_ }
  · intro k c' hk
    rw [hc.time]
    obtain ⟨rfl, rfl⟩ | ⟨-, hk⟩ := hc.cases hk
    · exact hproper
    · exact (h.proper k c' hk).later
  · intro k t ht
    rw [htasks] at ht
    obtain ⟨c', hk, hpath, hleaves⟩ := h.submitted k t ht
    by_cases hkn : k = n
    · subst hkn
      obtain ⟨hid, hkind⟩ := hc.same c' hk
      exact ⟨c, hc.calls_self, hid ▸ hpath, hkind ▸ hleaves⟩
    · exact ⟨c', (hc.calls_of_ne hkn).trans hk, hpath, hleaves⟩
  · intro k t j a ht hl hb
    rw [htasks] at ht
    obtain hl | ⟨rfl, -, -, hnot⟩ := hold hl
    · exact h.pending k t j a ht hl (hc.before hb (h.locked_le hl))
    · exact hnot k t ht rfl (hc.before hb hn)
  · intro path snapshot hfile
    rw [hfiles] at hfile
    rw [htasks]
    apply (h.files path snapshot hfile).continues hc
    intro k hk
    obtain ⟨⟨a, ha⟩, htask⟩ := hk
    obtain hl | ⟨rfl, -, hsubmitted, -⟩ := hold ha
    · exact ⟨⟨⟨a, hl⟩, htask⟩, h.locked_le hl⟩
    · exact absurd htask hsubmitted
  · intro k c' snapshot read hk hphase
    have hfresh : Fresh createFile s.calls (createFile c'.id)
        (fun k => ∃ a, Locked createFile s.calls (createFile c'.id) k a ∧ a < read) snapshot ∧
          read ≤ s.time := by
      obtain ⟨-, rfl⟩ | ⟨-, hk⟩ := hc.cases hk
      · exact ⟨hloaded snapshot read hphase, Nat.lt_succ_iff.mp (hproper.read snapshot read hphase).2⟩
      · exact ⟨h.loaded k c' snapshot read hk hphase,
          Nat.le_of_lt ((h.proper k c' hk).read snapshot read hphase).2⟩
    apply hfresh.1.continues hc
    intro j hj
    obtain ⟨a, ha, hlt⟩ := hj
    obtain hl | ⟨-, rfl, -⟩ := hold ha
    · exact ⟨⟨a, hl, hlt⟩, h.locked_le hl⟩
    · exact absurd hlt (Nat.not_lt.mpr hfresh.2)
  · intro id snapshot hmemory
    apply (hcache id snapshot hmemory).continues hc
    intro k hk
    obtain ⟨r, hr⟩ := hk
    obtain hr | ⟨rfl, -, hid, hkind, hret⟩ := hc.changed hr
    · exact ⟨.inl ⟨r, hr⟩, h.changed_le hr⟩
    · exact ⟨.inr ⟨rfl, hid, hkind, by simp [hret]⟩, hn⟩
  · intro k c' snapshot hk hphase
    have hfresh : Fresh createFile s.calls (createFile c'.id)
        (fun j => ∃ r, Changed s.calls c'.id j r ∧ r < k) snapshot ∧
          (∀ r, c'.returnedAt = some r → snapshot.storedBy < r) ∧ k ≤ s.time := by
      obtain ⟨rfl, rfl⟩ | ⟨-, hk⟩ := hc.cases hk
      · exact ⟨(hfound snapshot hphase).1, (hfound snapshot hphase).2, hn⟩
      · obtain ⟨hfresh, hlt⟩ := h.found k c' snapshot hk hphase
        exact ⟨hfresh, hlt, Nat.le_of_lt (h.proper k c' hk).began⟩
    obtain ⟨hfresh, hlt, hle⟩ := hfresh
    refine ⟨hfresh.continues hc ?_, hlt⟩
    intro j hj
    obtain ⟨r, hr, hrk⟩ := hj
    have hr := hchanged hr hrk hle
    exact ⟨⟨r, hr, hrk⟩, h.changed_le hr⟩
  · rw [hc.time]
    exact Nat.succ_pos _

theorem Locking.continues (h : Locking createFile s) (hc : Continues s s' n c)
    (htasks : s'.tasks = s.tasks) (hlocks : s'.fileSystemLevelLocks = s.fileSystemLevelLocks)
    (hlock : ∀ l, c.phase.lock? = some l → ∃ c₀, s.calls n = some c₀ ∧ c₀.phase.lock? = some l)
    (hreading : ∀ l k t, c.phase = .reading l → s.tasks k = some t → t.path ≠ createFile c.id) :
    Locking createFile s' where
  call := by
    intro k c' l hk hl
    rw [hlocks]
    obtain ⟨rfl, rfl⟩ | ⟨-, hk⟩ := hc.cases hk
    · obtain ⟨c₀, hc₀, hl₀⟩ := hlock l hl
      rw [(hc.same c₀ hc₀).1]
      exact h.call k c₀ l hc₀ hl₀
    · exact h.call k c' l hk hl
  task := by
    intro k t ht
    rw [htasks] at ht
    rw [hlocks]
    exact h.task k t ht
  exclusive := by
    intro k c' l j t hk hphase ht
    rw [htasks] at ht
    obtain ⟨rfl, rfl⟩ | ⟨-, hk⟩ := hc.cases hk
    · exact hreading l j t hphase ht
    · exact h.exclusive k c' l j t hk hphase ht

theorem continues_of {c₀ : Call β} (hn : s.calls n = some c₀)
    (hcalls : s'.calls = Function.update s.calls n (some c)) (htime : s'.time = s.time + 1)
    (hid : c.id = c₀.id) (hkind : c.kind = c₀.kind)
    (hlocked : c.lockedAt = some s.time ∨ c.lockedAt = c₀.lockedAt)
    (hreturned : c.returnedAt = some s.time ∨ c.returnedAt = c₀.returnedAt) : Continues s s' n c where
  calls := hcalls
  time := htime
  same := by
    intro c₁ hc₁
    obtain rfl := Option.some.inj (hn.symm.trans hc₁)
    exact ⟨hid, hkind⟩
  lockedAt := by
    intro a ha
    obtain hnow | hold := hlocked
    · exact .inl (Option.some.inj (ha.symm.trans hnow))
    · exact .inr ⟨c₀, hn, hold.symm.trans ha⟩
  returnedAt := by
    intro r hr
    obtain hnow | hold := hreturned
    · exact .inl (Option.some.inj (hr.symm.trans hnow))
    · exact .inr ⟨c₀, hn, hold.symm.trans hr⟩

/-- A call takes its next step, and does not return. -/
theorem Inv.goesOn (h : Inv createFile s) (phase : Phase β) (hn : s.calls n = some c)
    (hfits : Call.Fits { c with phase }) (hreturned : ∀ result, phase ≠ .returned result)
    (hcalls : s'.calls = Function.update s.calls n (some { c with phase })) (htime : s'.time = s.time + 1)
    (htasks : s'.tasks = s.tasks) (hfiles : s'.files = s.files) (hcache : s'.cache = s.cache)
    (hlocking : Continues s s' n { c with phase } → Locking createFile s')
    (hloaded : ∀ snapshot read, phase = .loaded snapshot read → read = s.time ∧
      Fresh createFile s.calls (createFile c.id)
        (fun k => ∃ a, Locked createFile s.calls (createFile c.id) k a ∧ a < read) snapshot) :
    Inv createFile s' := by
  have hproper := h.proper n c hn
  have hc : Continues s s' n { c with phase } :=
    continues_of hn hcalls htime rfl rfl (.inr rfl) (.inr rfl)
  have hopen : c.returnedAt = none := by
    cases phase with
    | returned result => exact absurd rfl (hreturned result)
    | lockOn => exact hfits.2
    | waiting => exact hfits.2
    | reading => exact hfits.2.2
    | loaded => exact hfits.2.2
    | submitted => exact hfits.2.2
  have hnow : Proper (s.time + 1) n { c with phase } :=
    { hproper.later with
      fits := hfits
      read := by
        intro snapshot read hphase
        obtain ⟨rfl, -⟩ := hloaded snapshot read hphase
        exact ⟨hproper.began, Nat.lt_succ_self _⟩ }
  refine h.continues hc hnow htasks hfiles (hlocking hc) ?_ (fun _ _ hphase => (hloaded _ _ hphase).2) ?_ ?_
  · rw [hn]
    exact .inl rfl
  · intro snapshot hphase
    exact absurd hphase (hreturned _)
  · intro id snapshot hmemory
    rw [hcache] at hmemory
    exact (h.cache id snapshot hmemory).mono fun k hk =>
      hk.resolve_right fun hnew => hnew.2.2.2 hopen

/-- A call returns, and leaves something in the memory. -/
theorem Inv.finish {result : Option (Stored β)} (h : Inv createFile s) (hn : s.calls n = some c)
    (hlocked : c.kind.changes = true → ∃ a, c.lockedAt = some a)
    (hcalls : s'.calls = (s.finish n c result).calls) (htime : s'.time = s.time + 1)
    (htasks : s'.tasks = s.tasks) (hfiles : s'.files = s.files)
    (hlocks : s'.fileSystemLevelLocks = s.fileSystemLevelLocks)
    (hfound : ∀ snapshot, result = some snapshot →
      Fresh createFile s.calls (createFile c.id) (fun k => ∃ r, Changed s.calls c.id k r ∧ r < n) snapshot)
    (hcache : ∀ id snapshot, s'.cache id = some snapshot →
      Fresh createFile s.calls (createFile id)
        (fun k => (∃ r, Changed s.calls id k r) ∨ k = n ∧ c.id = id ∧ c.kind.changes = true) snapshot) :
    Inv createFile s' := by
  have hproper := h.proper n c hn
  have hc : Continues s s' n { c with phase := .returned result, returnedAt := some s.time } :=
    continues_of hn hcalls htime rfl rfl (.inr rfl) (.inl rfl)
  have hnow : Proper (s.time + 1) n
      { c with phase := Phase.returned result, returnedAt := some s.time } :=
    { hproper.later with
      returnedAt := by
        intro r hr
        obtain rfl := Option.some.inj hr
        exact ⟨hproper.began, Nat.lt_succ_self _⟩
      changed := by
        intro r hchanges hr
        obtain rfl := Option.some.inj hr
        obtain ⟨a, ha⟩ := hlocked hchanges
        exact ⟨a, ha, hproper.lockedAt a ha⟩
      read := nofun
      fits := Option.some_ne_none _ }
  refine h.continues hc hnow htasks hfiles (h.locking.continues hc htasks hlocks ?_ ?_) ?_ ?_ ?_ ?_
  · intro l hl
    cases hl
  · intro l k t hphase
    cases hphase
  · rw [hn]
    exact .inl rfl
  · intro snapshot read hphase
    cases hphase
  · intro snapshot hphase
    have hresult : result = some snapshot := Phase.returned.inj hphase
    refine ⟨hfound snapshot hresult, fun r hr => ?_⟩
    obtain rfl := Option.some.inj hr
    obtain h0 | ⟨c₀, hc₀, -, -⟩ := (hfound snapshot hresult).origin
    · rw [h0]
      exact h.positive
    · exact (h.proper _ c₀ hc₀).began
  · intro id snapshot hmemory
    exact (hcache id snapshot hmemory).mono fun k hk =>
      hk.imp_right fun hnew => ⟨hnew.1, hnew.2.1, hnew.2.2.1⟩

/-! #### One step -/

theorem Inv.unused (h : Inv createFile s) : s.calls s.time = none := by
  cases hn : s.calls s.time with
  | none => rfl
  | some c => exact absurd (h.proper _ c hn).began (Nat.lt_irrefl _)

theorem Inv.begin (h : Inv createFile s) (id : SnapshotIdentifier) (kind : Kind β) :
    Inv createFile (s.setCall s.time { id, kind }) := by
  have hc : Continues s (s.setCall s.time { id, kind }) s.time { id, kind } :=
    { calls := rfl
      time := rfl
      same := fun c₀ hc₀ => absurd (h.unused.symm.trans hc₀) nofun
      lockedAt := nofun
      returnedAt := nofun }
  refine h.continues hc ?_ rfl rfl (h.locking.continues hc rfl rfl nofun nofun) ?_ nofun nofun ?_
  · exact ⟨h.positive, Nat.lt_succ_self _, nofun, nofun, nofun, nofun, rfl, rfl⟩
  · rw [h.unused]
    exact .inl rfl
  · intro id' snapshot hmemory
    exact (h.cache id' snapshot hmemory).mono fun k hk =>
      hk.resolve_right fun hnew => hnew.2.2.2 rfl

theorem inv_call {kind : Kind β} (h : Inv createFile s) : Inv createFile (call s id kind) := by
  have hbegun := h.begin id kind
  unfold call
  dsimp only
  split
  · rename_i snapshot hhit
    have hself : (s.setCall s.time { id, kind := Kind.find (β := β) }).calls s.time =
        some { id, kind := .find } := Function.update_self ..
    have hmemory := hbegun.cache id snapshot hhit
    refine hbegun.finish hself nofun rfl rfl rfl rfl rfl ?_ ?_
    · intro snapshot' hsnapshot
      obtain rfl := Option.some.inj hsnapshot
      exact hmemory.mono fun k hk => hk.imp fun r hr => hr.1
    · intro id' snapshot' hmemory'
      exact (hbegun.cache id' snapshot' hmemory').mono fun k hk =>
        hk.resolve_right fun hnew => Bool.false_ne_true hnew.2.2
  · exact hbegun

/-- A file whose lock is in use keeps it. -/
theorem getUnchecked_lock {u : FileLock} (hu : s.fileSystemLevelLocks path = some u)
    (hused : expired s path = false) : (getUnchecked s path).lock = u.lock := by
  simp only [getUnchecked, hu, hused]

theorem Inv.not_writeLocked {l : Nat} {t : Task Path β} (h : Inv createFile s)
    (hfree : isWriteLocked s l = false) (ht : s.tasks k = some t) : t.lock ≠ l := by
  rintro rfl
  obtain ⟨c, hk, -⟩ := h.submitted k t ht
  have hlocked : isWriteLocked s t.lock = true :=
    List.any_eq_true.mpr ⟨k, List.mem_range.mpr (h.proper k c hk).began, by simp [ht]⟩
  cases hfree.symm.trans hlocked

theorem Inv.not_readLocked {l l' : Nat} (h : Inv createFile s) (hfree : isReadLocked s l = false)
    (hk : s.calls k = some c) (hreading : c.phase = .reading l') : l' ≠ l := by
  rintro rfl
  have hlocked : isReadLocked s l' = true := by
    refine List.any_eq_true.mpr ⟨k, List.mem_range.mpr (h.proper k c hk).began, ?_⟩
    obtain ⟨id, kind, phase, lockedAt, returnedAt⟩ := c
    obtain rfl : phase = .reading l' := hreading
    simp [hk]
  cases hfree.symm.trans hlocked

/-- Whoever waits for a lock that no task holds waits for a file that none is to change. -/
theorem Inv.no_task {l : Nat} {t : Task Path β} (h : Inv createFile s) (hn : s.calls n = some c)
    (hphase : c.phase = .waiting l) (hfree : isWriteLocked s l = false) (ht : s.tasks k = some t) :
    t.path ≠ createFile c.id := by
  intro hpath
  obtain ⟨u, hu, hlock⟩ := h.locking.call n c l hn (by rw [hphase]; rfl)
  obtain ⟨v, hv, hlockt⟩ := h.locking.task k t ht
  rw [hpath] at hv
  obtain rfl := Option.some.inj (hu.symm.trans hv)
  exact h.not_writeLocked hfree ht (hlockt.symm.trans hlock)

theorem Inv.no_reader {l l' : Nat} {c' : Call β} (h : Inv createFile s) (hn : s.calls n = some c)
    (hphase : c.phase = .waiting l) (hfree : isReadLocked s l = false) (hk : s.calls k = some c')
    (hreading : c'.phase = .reading l') : createFile c.id ≠ createFile c'.id := by
  intro hpath
  obtain ⟨u, hu, hlock⟩ := h.locking.call n c l hn (by rw [hphase]; rfl)
  obtain ⟨v, hv, hlock'⟩ := h.locking.call k c' l' hk (by rw [hreading]; rfl)
  rw [← hpath] at hv
  obtain rfl := Option.some.inj (hu.symm.trans hv)
  exact h.not_readLocked hfree hk hreading (hlock'.symm.trans hlock)

/-- What a call stores is before no call that has begun. -/
theorem Inv.not_before (h : Inv createFile s) (hn : s.calls n = some c) (hopen : c.returnedAt = none) :
    ¬ Before s.calls n k := by
  intro hb
  obtain hzero | ⟨c', r, hn', hr, -⟩ := hb
  · have := (h.proper n c hn).positive
    omega
  · obtain rfl := Option.some.inj (hn.symm.trans hn')
    cases hopen.symm.trans hr

/-- A task is submitted that is to change a file which nobody reads. -/
theorem Inv.addTask {t : Task Path β} (h : Inv createFile s) (hn : s.calls n = some c)
    (hopen : c.returnedAt = none) (hpath : t.path = createFile c.id) (hleaves : t.leaves = c.kind.leaves n)
    (hlock : ∃ u, s.fileSystemLevelLocks t.path = some u ∧ u.lock = t.lock)
    (hreader : ∀ k c' l, s.calls k = some c' → c'.phase = .reading l → t.path ≠ createFile c'.id) :
    Inv createFile { s with tasks := Function.update s.tasks n (some t) } := by
  have htasks : ∀ {k t'}, Function.update s.tasks n (some t) k = some t' →
      k = n ∧ t' = t ∨ s.tasks k = some t' := by
    intro k t' ht'
    by_cases hkn : k = n
    · subst hkn
      rw [Function.update_self] at ht'
      exact .inl ⟨rfl, (Option.some.inj ht').symm⟩
    · rw [Function.update_of_ne hkn] at ht'
      exact .inr ht'
  refine { h with submitted := ?_, locking := ⟨h.locking.call, ?_, ?_⟩, pending := ?_, files := ?_ }
  · intro k t' ht'
    obtain ⟨rfl, rfl⟩ | ht' := htasks ht'
    · exact ⟨c, hn, hpath, hleaves⟩
    · exact h.submitted k t' ht'
  · intro k t' ht'
    obtain ⟨-, rfl⟩ | ht' := htasks ht'
    · exact hlock
    · exact h.locking.task k t' ht'
  · intro k c' l j t' hk hreading ht'
    obtain ⟨-, rfl⟩ | ht' := htasks ht'
    · exact hreader k c' l hk hreading
    · exact h.locking.exclusive k c' l j t' hk hreading ht'
  · intro k t' j a ht' hl
    obtain ⟨rfl, -⟩ | ht' := htasks ht'
    · exact h.not_before hn hopen
    · exact h.pending k t' j a ht' hl
  · intro path snapshot hfile
    refine (h.files path snapshot hfile).mono fun k hk => ⟨hk.1, ?_⟩
    have htask : Function.update s.tasks n (some t) k = none := hk.2
    by_cases hkn : k = n
    · subst hkn
      rw [Function.update_self] at htask
      cases htask
    · rwa [Function.update_of_ne hkn] at htask

/-- A writer acquires its lock, and leaves it to a task. -/
theorem Inv.submit {l : Nat} (h : Inv createFile s) (hn : s.calls n = some c)
    (hphase : c.phase = .waiting l) (hwrite : isWriteLocked s l = false)
    (hread : isReadLocked s l = false) (hchanges : c.kind.changes = true) :
    Inv createFile { s.setCall n { c with phase := .submitted, lockedAt := some s.time } with
      tasks := Function.update s.tasks n (some ⟨createFile c.id, l, c.kind.leaves n⟩) } := by
  have hproper := h.proper n c hn
  have hopen : c.returnedAt = none := by
    have hfits := hproper.fits
    rw [Call.Fits, hphase] at hfits
    exact hfits.2
  have hadded := h.addTask (t := ⟨createFile c.id, l, c.kind.leaves n⟩) hn hopen rfl rfl
    (h.locking.call n c l hn (by rw [hphase]; rfl))
    fun k c' l' hk hreading => h.no_reader hn hphase hread hk hreading
  have hnow : Proper (s.time + 1) n { c with phase := Phase.submitted, lockedAt := some s.time } :=
    { hproper.later with
      lockedAt := by
        intro a ha
        obtain rfl := Option.some.inj ha
        exact Nat.lt_succ_self _
      changed := fun r _ hr => absurd (hopen.symm.trans hr) nofun
      read := nofun
      fits := ⟨hchanges, Option.some_ne_none _, hopen⟩ }
  refine hadded.continues ?hc hnow rfl rfl (hadded.locking.continues ?hc rfl rfl nofun nofun)
    (.inr ⟨?_, fun k t ht hpath => ?_⟩) nofun nofun fun id snapshot hmemory => ?_
  case hc => exact continues_of hn rfl rfl rfl rfl (.inl rfl) (.inr rfl)
  · show Function.update s.tasks n _ n ≠ none
    rw [Function.update_self]
    exact Option.some_ne_none _
  · have ht : Function.update s.tasks n _ k = some t := ht
    by_cases hkn : k = n
    · subst hkn
      exact h.not_before hn hopen
    · rw [Function.update_of_ne hkn] at ht
      exact absurd hpath (h.no_task (c := c) hn hphase hwrite ht)
  · exact (h.cache id snapshot hmemory).mono fun k hk =>
      hk.resolve_right fun hnew => hnew.2.2.2 hopen

theorem inv_acquire (h : Inv createFile s) (hs : acquire createFile s n = some s') :
    Inv createFile s' := by
  unfold acquire at hs
  split at hs
  · rename_i c hn
    split at hs
    · rename_i l hphase
      split at hs
      · cases hs
      · rename_i hwrite
        have hwrite : isWriteLocked s l = false := by simpa using hwrite
        have hfits : c.Fits := (h.proper n c hn).fits
        rw [Call.Fits, hphase] at hfits
        split at hs
        · rename_i hreader
          cases hs
          have hkind : c.kind.changes = false := by simpa using hreader
          refine h.goesOn (.reading l) hn ⟨hkind, hfits⟩ nofun rfl rfl rfl rfl rfl
            (fun hc => h.locking.continues hc rfl rfl ?_ ?_) nofun
          · intro l' hl
            exact ⟨c, hn, by rw [hphase]; exact hl⟩
          · intro l' k t _ ht
            exact h.no_task (c := c) hn hphase hwrite ht
        · rename_i hreader
          have hchanges : c.kind.changes = true := by simpa using hreader
          split at hs
          · cases hs
          · rename_i hread
            cases hs
            exact h.submit hn hphase hwrite (by simpa using hread) hchanges
    · cases hs
  · cases hs

/-- What is read is not older than what has acquired the lock before. -/
theorem Inv.fresh_read {l : Nat} (h : Inv createFile s) (hn : s.calls n = some c)
    (hreading : c.phase = .reading l) (hfile : s.files (createFile c.id) = some snapshot) :
    Fresh createFile s.calls (createFile c.id)
      (fun k => ∃ a, Locked createFile s.calls (createFile c.id) k a ∧ a < s.time) snapshot := by
  refine (h.files _ snapshot hfile).mono fun k hk => ?_
  obtain ⟨a, ha, -⟩ := hk
  refine ⟨⟨a, ha⟩, ?_⟩
  cases ht : s.tasks k with
  | none => rfl
  | some t =>
    obtain ⟨c', hk, hpath, -⟩ := h.submitted k t ht
    obtain ⟨c'', hk', hpath', -⟩ := ha
    obtain rfl := Option.some.inj (hk.symm.trans hk')
    exact absurd (hpath.trans hpath') (h.locking.exclusive n c l k t hn hreading ht)

/-- A `find` returns that puts nothing. -/
theorem Inv.finish_find {result : Option (Stored β)} (h : Inv createFile s) (hn : s.calls n = some c)
    (hkind : c.kind.changes = false)
    (hfound : ∀ snapshot, result = some snapshot →
      Fresh createFile s.calls (createFile c.id) (fun k => ∃ r, Changed s.calls c.id k r ∧ r < n) snapshot) :
    Inv createFile (s.finish n c result) := by
  refine h.finish hn ?_ rfl rfl rfl rfl rfl hfound ?_
  · intro hchanges
    cases hkind.symm.trans hchanges
  · intro id snapshot hmemory
    exact (h.cache id snapshot hmemory).mono fun k hk =>
      hk.resolve_right fun hnew => Bool.false_ne_true (hkind.symm.trans hnew.2.2)

theorem inv_read (h : Inv createFile s) (hs : read createFile s n = some s') : Inv createFile s' := by
  unfold read at hs
  split at hs
  · rename_i c hn
    split at hs
    · rename_i l hphase
      have hfits : c.Fits := (h.proper n c hn).fits
      rw [Call.Fits, hphase] at hfits
      split at hs
      · rename_i snapshot hfile
        cases hs
        refine h.goesOn (.loaded snapshot s.time) hn hfits nofun rfl rfl rfl rfl rfl
          (fun hc => h.locking.continues hc rfl rfl nofun nofun) ?_
        intro snapshot' read hloaded
        obtain ⟨rfl, rfl⟩ := Phase.loaded.inj hloaded
        exact ⟨rfl, h.fresh_read hn hphase hfile⟩
      · cases hs
        exact h.finish_find hn hfits.1 nofun
    · cases hs
  · cases hs

theorem inv_readFails (h : Inv createFile s) (hs : readFails s n = some s') : Inv createFile s' := by
  unfold readFails at hs
  split at hs
  · rename_i c hn
    have hfits : c.Fits := (h.proper n c hn).fits
    split at hs
    · rename_i hkind hphase
      cases hs
      rw [Call.Fits, hphase] at hfits
      exact h.finish_find hn (by rw [hkind]; rfl) nofun
    · rename_i hkind hphase
      cases hs
      rw [Call.Fits, hphase] at hfits
      exact h.finish_find hn hfits.1 nofun
    · cases hs
  · cases hs

/-- What was not replaced was read after every change that has returned. -/
theorem Inv.locked_before {read : Nat} (h : Inv createFile s) (hkept : replaced s id read = false)
    (hch : Changed s.calls id k r) : ∃ a, Locked createFile s.calls (createFile id) k a ∧ a < read := by
  obtain ⟨c, hk, rfl, hkind, hr⟩ := hch
  have hproper := h.proper k c hk
  obtain ⟨a, ha, -⟩ := hproper.changed r hkind hr
  refine ⟨a, ⟨c, hk, rfl, ha⟩, ?_⟩
  by_contra hge
  have hreplaced : replaced s c.id read = true := by
    refine List.any_eq_true.mpr ⟨k, List.mem_range.mpr hproper.began, ?_⟩
    simp [hk, hkind, hr, ha, Nat.le_of_not_lt hge]
  cases hkept.symm.trans hreplaced

/-- A call returns that has changed the memory. -/
theorem Inv.finish_put {result left : Option (Stored β)} (h : Inv createFile s)
    (hn : s.calls n = some c)
    (hlocked : c.kind.changes = true → ∃ a, c.lockedAt = some a)
    (hfound : ∀ snapshot, result = some snapshot →
      Fresh createFile s.calls (createFile c.id) (fun k => ∃ r, Changed s.calls c.id k r ∧ r < n) snapshot)
    (hleft : ∀ snapshot, left = some snapshot →
      Fresh createFile s.calls (createFile c.id)
        (fun k => (∃ r, Changed s.calls c.id k r) ∨ k = n ∧ c.kind.changes = true) snapshot) :
    Inv createFile { s.finish n c result with cache := Function.update s.cache c.id left } := by
  refine h.finish hn hlocked rfl rfl rfl rfl rfl hfound ?_
  intro id snapshot hmemory
  have hmemory : Function.update s.cache c.id left id = some snapshot := hmemory
  by_cases hid : id = c.id
  · subst hid
    rw [Function.update_self] at hmemory
    exact (hleft snapshot hmemory).mono fun k hk => hk.imp_right fun hnew => ⟨hnew.1, hnew.2.2⟩
  · rw [Function.update_of_ne hid] at hmemory
    exact (h.cache id snapshot hmemory).mono fun k hk =>
      hk.resolve_right fun hnew => hid hnew.2.1.symm

theorem Kind.leaves_eq_some {kind : Kind β} (h : kind.leaves n = some snapshot) :
    kind = .store snapshot.data ∧ snapshot.storedBy = n := by
  cases kind with
  | store data =>
    obtain rfl := Option.some.inj h
    exact ⟨rfl, rfl⟩
  | _ => cases h

theorem inv_change (h : Inv createFile s) (hs : change s n = some s') : Inv createFile s' := by
  unfold change at hs
  split at hs
  · rename_i c hn
    split at hs
    · rename_i hphase
      cases hs
      have hfits : c.Fits := (h.proper n c hn).fits
      rw [Call.Fits, hphase] at hfits
      obtain ⟨hchanges, hlocked, hopen⟩ := hfits
      refine h.finish_put hn (fun _ => Option.ne_none_iff_exists'.mp hlocked) nofun ?_
      intro snapshot hleaves
      obtain ⟨hkind, rfl⟩ := Kind.leaves_eq_some hleaves
      exact ⟨.inr ⟨c, hn, rfl, hkind⟩, fun k _ => h.not_before hn hopen⟩
    · cases hs
  · cases hs

/-- Whatever is taken away from the files or the memory, what stays is as fresh. -/
theorem Inv.forget (h : Inv createFile s) (cache : SnapshotIdentifier → Option (Stored β))
    (files : Path → Option (Stored β)) (now : Nat)
    (hcache : ∀ id snapshot, cache id = some snapshot → s.cache id = some snapshot)
    (hfiles : ∀ path snapshot, files path = some snapshot → s.files path = some snapshot) :
    Inv createFile { s with cache, files, now } :=
  { h with
    locking := ⟨h.locking.call, h.locking.task, h.locking.exclusive⟩
    files := fun path snapshot hfile => h.files path snapshot (hfiles path snapshot hfile)
    cache := fun id snapshot hmemory => h.cache id snapshot (hcache id snapshot hmemory) }

theorem inv_start (h : Start s) : Inv createFile s where
  proper := fun n c hn => absurd ((h.calls n).symm.trans hn) nofun
  submitted := fun n t ht => absurd ((h.tasks n).symm.trans ht) nofun
  locking :=
    ⟨fun n c _ hn => absurd ((h.calls n).symm.trans hn) nofun,
      fun n t ht => absurd ((h.tasks n).symm.trans ht) nofun,
      fun n c _ _ _ hn => absurd ((h.calls n).symm.trans hn) nofun⟩
  pending := fun n t _ _ ht => absurd ((h.tasks n).symm.trans ht) nofun
  files := by
    intro path snapshot hfile
    refine ⟨.inl (h.files path snapshot hfile), fun k hk => ?_⟩
    obtain ⟨⟨a, c, hk, -⟩, -⟩ := hk
    cases (h.calls k).symm.trans hk
  loaded := fun n c _ _ hn => absurd ((h.calls n).symm.trans hn) nofun
  cache := fun id snapshot hmemory => absurd ((h.cache id).symm.trans hmemory) nofun
  found := fun n c _ hn => absurd ((h.calls n).symm.trans hn) nofun
  positive := by rw [h.time]; exact Nat.one_pos

section
variable [DecidableEq Path]

theorem inUse_of_call (h : Inv createFile s) (hn : s.calls n = some c) (hlock : c.phase.lock?.isSome) :
    inUse createFile s (createFile c.id) = true := by
  refine List.any_eq_true.mpr ⟨n, List.mem_range.mpr (h.proper n c hn).began, ?_⟩
  simp [hn, hlock]

theorem inUse_of_task {t : Task Path β} (h : Inv createFile s) (ht : s.tasks n = some t) :
    inUse createFile s t.path = true := by
  obtain ⟨c, hn, -⟩ := h.submitted n t ht
  refine List.any_eq_true.mpr ⟨n, List.mem_range.mpr (h.proper n c hn).began, ?_⟩
  simp [ht]

theorem inv_lockOn (h : Inv createFile s) (htimely : timely createFile s (.lockOn n) = true)
    (hs : lockOn createFile s n = some s') : Inv createFile s' := by
  unfold lockOn at hs
  split at hs
  · rename_i c hn
    split at hs
    · rename_i hphase
      cases hs
      have hfits : c.Fits := (h.proper n c hn).fits
      rw [Call.Fits, hphase] at hfits
      have hkept : inUse createFile s (createFile c.id) = true →
          expired s (createFile c.id) = false := by
        simpa [timely, hn, imp_iff_or_not, or_comm] using htimely
      -- whoever uses a lock of the file keeps the one that the file has
      have hlock : ∀ path u, inUse createFile s path = true → s.fileSystemLevelLocks path = some u →
          ∃ v, Function.update s.fileSystemLevelLocks (createFile c.id)
            (some (getUnchecked s (createFile c.id))) path = some v ∧ v.lock = u.lock := by
        intro path u hused hu
        by_cases hpath : path = createFile c.id
        · subst hpath
          rw [Function.update_self]
          exact ⟨_, rfl, getUnchecked_lock hu (hkept hused)⟩
        · rw [Function.update_of_ne hpath]
          exact ⟨u, hu, rfl⟩
      refine h.goesOn (.waiting (getUnchecked s (createFile c.id)).lock) hn hfits nofun rfl rfl rfl rfl
        rfl (fun hc => ⟨?_, ?_, ?_⟩) nofun
      · intro k c' l hk hl
        obtain ⟨rfl, rfl⟩ | ⟨-, hk⟩ := hc.cases hk
        · obtain rfl := Option.some.inj hl
          exact ⟨_, Function.update_self .., rfl⟩
        · obtain ⟨u, hu, rfl⟩ := h.locking.call k c' l hk hl
          exact hlock _ u (inUse_of_call h hk (by simp [hl])) hu
      · intro k t ht
        obtain ⟨u, hu, hlockt⟩ := h.locking.task k t ht
        rw [← hlockt]
        exact hlock _ u (inUse_of_task h ht) hu
      · intro k c' l j t hk hreading ht
        obtain ⟨rfl, rfl⟩ | ⟨-, hk⟩ := hc.cases hk
        · cases hreading
        · exact h.locking.exclusive k c' l j t hk hreading ht
    · cases hs
  · cases hs


theorem inv_put (h : Inv createFile s) (htimely : timely createFile s (.put n) = true)
    (hs : put s n = some s') : Inv createFile s' := by
  unfold put at hs
  split at hs
  · rename_i c hn
    split at hs
    · rename_i snapshot read hphase
      cases hs
      have hproper := h.proper n c hn
      have hfits : c.Fits := hproper.fits
      rw [Call.Fits, hphase] at hfits
      have hread := h.loaded n c snapshot read hn hphase
      have hkept : replaced s c.id read = false := by
        obtain ⟨id, kind, phase, lockedAt, returnedAt⟩ := c
        obtain rfl : phase = .loaded snapshot read := hphase
        simpa [timely, hn] using htimely
      have hfind : c.kind.changes = true → False := fun hchanges => by
        cases hfits.1.symm.trans hchanges
      refine h.finish_put hn (fun hchanges => (hfind hchanges).elim) ?_ ?_
      · intro snapshot' hsnapshot
        obtain rfl := Option.some.inj hsnapshot
        refine hread.mono fun k hk => ?_
        obtain ⟨r, ⟨c', hk, hid, hkind, hret⟩, hlt⟩ := hk
        -- what had returned before the call began had its lock before the file was read
        obtain ⟨a, ha, har⟩ := (h.proper k c' hk).changed r hkind hret
        have hlate := (hproper.read snapshot read hphase).1
        exact ⟨a, ⟨c', hk, by rw [hid], ha⟩, by omega⟩
      · intro snapshot' hsnapshot
        obtain rfl := Option.some.inj hsnapshot
        refine hread.mono fun k hk => ?_
        obtain ⟨r, hr⟩ | ⟨-, hchanges⟩ := hk
        · exact h.locked_before hkept hr
        · exact (hfind hchanges).elim
    · cases hs
  · cases hs

theorem update_none {κ α : Type} [DecidableEq κ] {f : κ → Option α} {x y : κ} {v : α}
    (h : Function.update f x none y = some v) : f y = some v := by
  by_cases hy : y = x
  · subst hy
    rw [Function.update_self] at h
    cases h
  · rwa [Function.update_of_ne hy] at h

/-- A task ends, and releases its lock. -/
theorem Inv.unlock {t : Task Path β} {left : Option (Stored β)} (h : Inv createFile s)
    (hleft : ∀ snapshot, left = some snapshot →
      Fresh createFile s.calls t.path (fun k => ∃ a, Locked createFile s.calls t.path k a) snapshot)
    (ht : s.tasks n = some t) :
    Inv createFile { s with
      files := Function.update s.files t.path left
      tasks := Function.update s.tasks n none } := by
  have htasks : ∀ {k t'}, Function.update s.tasks n none k = some t' → s.tasks k = some t' := by
    intro k t' hk
    exact update_none hk
  refine
    { h with
      submitted := fun k t' hk => h.submitted k t' (htasks hk)
      locking := ⟨h.locking.call, fun k t' hk => h.locking.task k t' (htasks hk), ?_⟩
      pending := fun k t' j a hk => h.pending k t' j a (htasks hk)
      files := ?_ }
  · intro k c l j t' hk hreading ht'
    exact h.locking.exclusive k c l j t' hk hreading (htasks ht')
  · intro path snapshot hfile
    have hfile : Function.update s.files t.path left path = some snapshot := hfile
    by_cases hpath : path = t.path
    · subst hpath
      rw [Function.update_self] at hfile
      exact (hleft snapshot hfile).mono fun k hk => hk.1
    · rw [Function.update_of_ne hpath] at hfile
      refine (h.files path snapshot hfile).mono fun k hk => ⟨hk.1, ?_⟩
      obtain ⟨⟨a, c, hk, hfileOf, -⟩, htask⟩ := hk
      have hkn : k ≠ n := by
        rintro rfl
        obtain ⟨c', hk', hpath', -⟩ := h.submitted k t ht
        obtain rfl := Option.some.inj (hk.symm.trans hk')
        exact hpath (hfileOf.symm.trans hpath'.symm)
      exact (Function.update_of_ne hkn ..).symm.trans htask

theorem inv_run (h : Inv createFile s) (hs : runAndUnlock s n Task.leaves = some s') :
    Inv createFile s' := by
  obtain ⟨t, ht, rfl⟩ := Option.map_eq_some_iff.mp hs
  apply h.unlock _ ht
  intro snapshot hleaves
  obtain ⟨c, hn, hpath, htask⟩ := h.submitted n t ht
  obtain ⟨hkind, rfl⟩ := Kind.leaves_eq_some (htask.symm.trans hleaves)
  refine ⟨.inr ⟨c, hn, hpath.symm, hkind⟩, fun k hk => ?_⟩
  obtain ⟨a, ha⟩ := hk
  exact h.pending _ t k a ht ha

theorem inv_runFails {kept : Bool} (h : Inv createFile s)
    (htimely : timely createFile s (.runFails n kept) = true)
    (hs : (runAndUnlock s n fun t => if kept then s.files t.path else none) = some s') :
    Inv createFile s' := by
  obtain ⟨t, ht, rfl⟩ := Option.map_eq_some_iff.mp hs
  apply h.unlock _ ht
  intro snapshot hleft
  have hlost : kept = false := by simpa [timely] using htimely
  rw [hlost] at hleft
  cases hleft

theorem inv_step {action : Action Path β} (h : Inv createFile s)
    (htimely : timely createFile s action = true) (hs : step createFile s action = some s') :
    Inv createFile s' := by
  cases action with
  | call id kind =>
    cases hs
    exact inv_call h
  | lockOn n => exact inv_lockOn h htimely hs
  | acquire n => exact inv_acquire h hs
  | read n => exact inv_read h hs
  | readFails n => exact inv_readFails h hs
  | put n => exact inv_put h htimely hs
  | change n => exact inv_change h hs
  | run n => exact inv_run h hs
  | runFails n kept => exact inv_runFails h htimely hs
  | cleanup path =>
    cases hs
    exact h.forget _ _ _ (fun _ _ => id) fun _ _ hfile => update_none hfile
  | evict id =>
    cases hs
    exact h.forget _ _ _ (fun _ _ hmemory => update_none hmemory) fun _ _ hfile => hfile
  | elapse ms =>
    cases hs
    exact h.forget _ _ _ (fun _ _ hmemory => hmemory) fun _ _ hfile => hfile

end

end Steps

/-! ### What a `find` returns -/

section Main
variable {createFile : SnapshotIdentifier → Path} {s s' : State Path β} {n k r : Nat}
  {id : SnapshotIdentifier} {snapshot : Stored β}

/-- Call `n` is a `find` that has returned. -/
def Found (s : State Path β) (n : Nat) (id : SnapshotIdentifier) (result : Option (Stored β)) : Prop :=
  ∃ c, s.calls n = some c ∧ c.id = id ∧ c.kind = .find ∧ c.phase = .returned result

/-- Something was stored in the file, by a call that began before call `n` returned, and had not
returned before call `k` began. -/
def StoredSince (createFile : SnapshotIdentifier → Path) (s : State Path β) (path : Path) (k n : Nat) :
    Prop :=
  ∃ j c d data, s.calls j = some c ∧ createFile c.id = path ∧ c.kind = .store data ∧
    s.calls n = some d ∧ (∀ r, d.returnedAt = some r → j < r) ∧ ¬ Before s.calls j k

/-- What is found is of a call that had not returned before a change began that returned before
the `find` did. -/
theorem Inv.not_older (h : Inv createFile s) (hfound : Found s n id (some snapshot))
    {c : Call β} (hk : s.calls k = some c) (hid : c.id = id) (hchanges : c.kind.changes = true)
    (hbefore : Before s.calls k n) : ¬ Before s.calls snapshot.storedBy k := by
  obtain ⟨d, hn, rfl, -, hphase⟩ := hfound
  obtain hzero | ⟨c', r, hk', hr, hlt⟩ := hbefore
  · have := (h.proper k c hk).positive
    omega
  · obtain rfl := Option.some.inj (hk.symm.trans hk')
    exact (h.found n d snapshot hn hphase).1.notBefore k ⟨r, ⟨c, hk, hid, hchanges, hr⟩, hlt⟩

/-- If nothing was stored since, then what is found is older. -/
theorem Inv.older (h : Inv createFile s) (hfound : Found s n id (some snapshot))
    (hnone : ¬ StoredSince createFile s (createFile id) k n) : Before s.calls snapshot.storedBy k := by
  obtain ⟨d, hn, rfl, -, hphase⟩ := hfound
  obtain ⟨⟨horigin, -⟩, hlt⟩ := h.found n d snapshot hn hphase
  obtain hzero | ⟨c, hc, hpath, hkind⟩ := horigin
  · exact .inl hzero
  · by_contra hnot
    exact hnone ⟨_, c, d, _, hc, hpath, hkind, hn, hlt, hnot⟩

/-- A `find` that puts what was replaced brings it back: the next one finds it. -/
theorem replaced_comes_back (h : Inv createFile s) {c : Call β} {read : Nat} (hn : s.calls n = some c)
    (hphase : c.phase = .loaded snapshot read) (hk : Changed s.calls c.id k r)
    (hreplaced : Before s.calls snapshot.storedBy k) (hs : put s n = some s') :
    Found (call s' c.id .find) s'.time c.id (some snapshot) ∧
      Before (call s' c.id .find).calls k s'.time ∧ Before (call s' c.id .find).calls snapshot.storedBy k := by
  have hs' : s' = { s.finish n c (some snapshot) with
      cache := Function.update s.cache c.id (some snapshot) } := by
    unfold put at hs
    rw [hn] at hs
    simp only [hphase] at hs
    exact (Option.some.inj hs).symm
  have hhit : s'.cache c.id = some snapshot := by
    rw [hs']
    exact Function.update_self ..
  have htime : s'.time = s.time + 1 := by rw [hs']; rfl
  have hcall : call s' c.id .find =
      (s'.setCall s'.time { id := c.id, kind := .find }).finish s'.time { id := c.id, kind := .find }
        (some snapshot) := by
    unfold call
    rw [hhit]
  have hopen : c.returnedAt = none := by
    have hfits : c.Fits := (h.proper n c hn).fits
    rw [Call.Fits, hphase] at hfits
    exact hfits.2.2
  -- whoever has returned is neither of the two calls
  have hsame : ∀ {j d q}, s.calls j = some d → d.returnedAt = some q →
      (call s' c.id .find).calls j = some d := by
    intro j d q hj hq
    have hlt : j < s'.time := htime ▸ Nat.lt_succ_of_lt (h.proper j d hj).began
    have hjn : j ≠ n := by
      rintro rfl
      obtain rfl := Option.some.inj (hn.symm.trans hj)
      cases hopen.symm.trans hq
    rw [hcall]
    show Function.update (Function.update s'.calls s'.time _) s'.time _ j = some d
    rw [Function.update_of_ne (Nat.ne_of_lt hlt), Function.update_of_ne (Nat.ne_of_lt hlt), hs']
    exact (Function.update_of_ne hjn ..).trans hj
  obtain ⟨d, hd⟩ : ∃ d : Call β, d = ⟨c.id, .find, .returned (some snapshot), none, some (s'.time + 1)⟩ :=
    ⟨_, rfl⟩
  have hfound : (call s' c.id .find).calls s'.time = some d := by
    rw [hcall, hd]
    exact Function.update_self ..
  refine ⟨⟨d, hfound, by rw [hd], by rw [hd], by rw [hd]⟩, ?_, ?_⟩
  · obtain ⟨d, hd, -, -, hr⟩ := hk
    have hlt := ((h.proper k d hd).returnedAt r hr).2
    exact .inr ⟨d, r, hsame hd hr, hr, by omega⟩
  · obtain hzero | ⟨d, q, hd, hq, hlt⟩ := hreplaced
    · exact .inl hzero
    · exact .inr ⟨d, q, hsame hd hq, hq, hlt⟩

end Main

/-- As long as no `find` puts what was replaced, no lock is dropped while it is in use and no
failing task leaves a file as it was, a `find` that begins after a `store` has returned finds
nothing older; and one that begins after a `remove` has returned finds nothing, if nothing was
stored since. -/
theorem coherent {Path β : Type} [DecidableEq Path] (createFile : SnapshotIdentifier → Path)
    (s : State Path β)
    (h : (machine createFile).ReachableUnder (fun s a => timely createFile s a = true) s)
    (n k : Nat) (id : SnapshotIdentifier) (result : Option (Stored β)) (c : Call β)
    (hfound : Found s n id result) (hk : s.calls k = some c) (hid : c.id = id)
    (hbefore : Before s.calls k n) :
    (∀ data snapshot, c.kind = .store data → result = some snapshot →
      ¬ Before s.calls snapshot.storedBy k) ∧
    (c.kind = .remove → ¬ StoredSince createFile s (createFile id) k n → result = none) := by
  have hinv : Inv createFile s :=
    h.invariant (fun _ => inv_start) fun s a s' hi ht hs =>
      inv_step hi ht (show step createFile s a = some s' from hs)
  constructor
  · intro data snapshot hkind hresult
    subst hresult
    exact hinv.not_older hfound hk hid (by rw [hkind]; rfl) hbefore
  · intro hkind hnone
    cases result with
    | none => rfl
    | some snapshot =>
      have hnot := hinv.not_older hfound hk hid (by rw [hkind]; rfl) hbefore
      exact absurd (hinv.older hfound hnone) hnot

/-! ### A snapshot that was replaced -/

deriving instance DecidableEq for SnapshotData, Stored, Kind, Phase, Call

def overview : SnapshotIdentifier := ⟨⟨"orders.OpenOrders", by decide⟩, none⟩

def first : SnapshotData Nat := ⟨1, "JacksonSnapshotSerializer", ⟨1⟩⟩

def second : SnapshotData Nat := ⟨2, "JacksonSnapshotSerializer", ⟨2⟩⟩

/-- Every identifier has a file of its own. -/
def started : State SnapshotIdentifier Nat where
  cache := fun _ => none
  files := fun _ => none
  now := 0

theorem started_start : (machine id).Start started where
  cache := fun _ => rfl
  files := fun _ _ hfile => nomatch hfile
  fileSystemLevelLocks := fun _ => rfl
  calls := fun _ => rfl
  tasks := fun _ => rfl
  time := rfl

/-- The first snapshot is stored, and forgotten in memory before a `find` reads its file. -/
def readAgain : List (Action SnapshotIdentifier Nat) :=
  [.call overview (.store first), .lockOn 1, .acquire 1, .change 1, .run 1, .evict overview,
    .call overview .find, .lockOn 5, .acquire 5, .read 5]

/-- Call `n` stores the second one. -/
def storeSecond (n : Nat) : List (Action SnapshotIdentifier Nat) :=
  [.call overview (.store second), .lockOn n, .acquire n, .change n, .run n]

/-- The `find` puts what it has read before the second one is stored, and another reads that. -/
def inTime : List (Action SnapshotIdentifier Nat) :=
  readAgain ++ [.put 5] ++ storeSecond 10 ++
    [.evict overview, .call overview .find, .lockOn 14, .acquire 14, .read 14, .put 14]

/-- The `find` puts what it has read after the second one was stored, and another finds that. -/
def tooLate : List (Action SnapshotIdentifier Nat) :=
  readAgain ++ storeSecond 9 ++ [.put 5, .call overview .find]

theorem coherent_inTime : ∃ s : State SnapshotIdentifier Nat,
    Found s 14 overview (some ⟨second, 10⟩) ∧ Before s.calls 1 10 ∧ ¬ Before s.calls 10 10 := by
  obtain ⟨s, hs, hcalls⟩ := Machine.exists_reachableUnder (c := timely id) started_start inTime
    (fun s => (s.calls 1, s.calls 10, s.calls 14))
    (b := (some ⟨overview, .store first, .returned none, some 3, some 4⟩,
      some ⟨overview, .store second, .returned none, some 12, some 13⟩,
      some ⟨overview, .find, .returned (some ⟨second, 10⟩), none, some 18⟩)) (by decide +kernel)
  obtain ⟨hfirst, hrest⟩ := Prod.mk.injEq .. ▸ hcalls
  obtain ⟨hsecond, hfind⟩ := Prod.mk.injEq .. ▸ hrest
  have hfound : Found s 14 overview (some ⟨second, 10⟩) := ⟨_, hfind, rfl, rfl, rfl⟩
  have hbefore : Before s.calls 10 14 := .inr ⟨_, 13, hsecond, rfl, by decide⟩
  have hcoherent := coherent id s hs 14 10 overview _ _ hfound hsecond rfl hbefore
  exact ⟨s, hfound, .inr ⟨_, 4, hfirst, rfl, by decide⟩, hcoherent.1 second ⟨second, 10⟩ rfl rfl⟩

/-- A `find` that began after the second snapshot was stored finds the first one. -/
theorem first_comes_back : ∃ s : State SnapshotIdentifier Nat, (machine id).Reachable s ∧
    Found s 14 overview (some ⟨first, 1⟩) ∧ Before s.calls 1 9 ∧ Before s.calls 9 14 ∧
    ∃ c, s.calls 9 = some c ∧ c.id = overview ∧ c.kind = .store second := by
  obtain ⟨s, hs, hcalls⟩ := Machine.exists_reachable started_start tooLate
    (fun s => (s.calls 1, s.calls 9, s.calls 14))
    (b := (some ⟨overview, .store first, .returned none, some 3, some 4⟩,
      some ⟨overview, .store second, .returned none, some 11, some 12⟩,
      some ⟨overview, .find, .returned (some ⟨first, 1⟩), none, some 15⟩)) (by decide +kernel)
  obtain ⟨hfirst, hrest⟩ := Prod.mk.injEq .. ▸ hcalls
  obtain ⟨hsecond, hfind⟩ := Prod.mk.injEq .. ▸ hrest
  exact ⟨s, hs, ⟨_, hfind, rfl, rfl, rfl⟩, .inr ⟨_, 4, hfirst, rfl, by decide⟩,
    .inr ⟨_, 12, hsecond, rfl, by decide⟩, _, hsecond, rfl, rfl⟩

end FactCast.InMemoryAndDiskSnapshotCache
