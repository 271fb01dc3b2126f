import Mathlib.Logic.Basic

/-! Programs in lockstep.

A program changes a state, and returns a value or throws, or does not come to an end. Two
programs over different states agree under a relation of the states if from related states
both end, in the same way and in related states, or neither does. Whatever agreeing programs
are put together to agrees again, and so what runs on one state can be told from what runs
on the other (`Alike.run_eq`). -/
namespace Lockstep

abbrev Program (σ ε α : Type) := ExceptT ε (StateT σ Option) α

variable {σ σ' ε α β : Type}

/-- A program that does not come to an end. -/
def unending : Program σ ε α := ExceptT.mk fun _ => none

/-- A program that does one thing. -/
def step (f : σ → Except ε α × σ) : Program σ ε α := ExceptT.mk fun s => some (f s)

theorem run_step (f : σ → Except ε α × σ) (s : σ) : (step f).run.run s = some (f s) := rfl

theorem run_modify (f : σ → σ) (s : σ) : (modify f : Program σ ε PUnit).run.run s = some (.ok (), f s) := rfl

theorem run_bind (m : Program σ ε α) (f : α → Program σ ε β) (s : σ) :
    (m >>= f).run.run s = (m.run.run s).bind fun
      | (.ok a, s) => (f a).run.run s
      | (.error e, s) => some (.error e, s) := by
  rw [ExceptT.run_bind, StateT.run_bind]
  congr 1
  funext ⟨outcome, s⟩
  cases outcome <;> rfl

theorem run_tryCatch (m : Program σ ε α) (handler : ε → Program σ ε α) :
    (tryCatch m handler).run = m.run >>= fun
      | .ok a => pure (.ok a)
      | .error e => (handler e).run := by
  show (ExceptT.tryCatch m handler).run = _
  unfold ExceptT.tryCatch
  congr 1

/-- To catch and throw again is not to catch. -/
theorem tryCatch_throw {m : Program σ ε α} {handler : ε → Program σ ε α} (h : ∀ e, handler e = throw e) :
    tryCatch m handler = m := by
  refine ExceptT.ext ?_
  rw [run_tryCatch]
  refine Eq.trans ?_ (bind_pure m.run)
  refine bind_congr fun outcome => ?_
  cases outcome with
  | ok a => rfl
  | error e => exact congrArg ExceptT.run (h e)

/-- What comes of the same outcome over different states. -/
def Same (R : σ → σ' → Prop) (r : α × σ) (r' : α × σ') : Prop := r.1 = r'.1 ∧ R r.2 r'.2

def Alike (R : σ → σ' → Prop) (m : StateT σ Option α) (m' : StateT σ' Option α) : Prop :=
  ∀ s s', R s s' → Option.Rel (Same R) (m.run s) (m'.run s')

variable {R : σ → σ' → Prop}

theorem alike_pure (a : α) : Alike R (pure a) (pure a) := fun _ _ hs => .some ⟨rfl, hs⟩

/-- What agrees and goes on alike agrees. -/
theorem Alike.bind {m : StateT σ Option α} {m' : StateT σ' Option α} {f : α → StateT σ Option β}
    {f' : α → StateT σ' Option β} (hm : Alike R m m') (hf : ∀ a, Alike R (f a) (f' a)) :
    Alike R (m >>= f) (m' >>= f') := by
  intro s s' hs
  rw [StateT.run_bind, StateT.run_bind]
  have hrun := hm s s' hs
  rcases hleft : m.run s with _ | ⟨a, t⟩ <;> rcases hright : m'.run s' with _ | ⟨a', t'⟩ <;>
    rw [hleft, hright] at hrun <;> cases hrun
  · exact .none
  · rename_i hsame
    obtain ⟨rfl, ht⟩ := hsame
    exact hf a t t' ht

/-! ### What programs are made of -/

theorem alike_unending : Alike R (unending : Program σ ε α).run (unending : Program σ' ε α).run :=
  fun _ _ _ => .none

theorem alike_return (a : α) : Alike R (pure a : Program σ ε α).run (pure a : Program σ' ε α).run :=
  alike_pure _

theorem alike_throw (e : ε) : Alike R (throw e : Program σ ε α).run (throw e : Program σ' ε α).run :=
  alike_pure _

theorem alike_step {f : σ → Except ε α × σ} {f' : σ' → Except ε α × σ'}
    (h : ∀ s s', R s s' → Same R (f s) (f' s')) : Alike R (step f).run (step f').run :=
  fun s s' hs => .some (h s s' hs)

theorem alike_modify {f : σ → σ} {f' : σ' → σ'} (h : ∀ s s', R s s' → R (f s) (f' s')) :
    Alike R (modify f : Program σ ε PUnit).run (modify f' : Program σ' ε PUnit).run :=
  fun s s' hs => .some ⟨rfl, h s s' hs⟩

/-- What is read of the states is the same. -/
theorem alike_gets {f : σ → α} {f' : σ' → α} (h : ∀ s s', R s s' → f s = f' s') :
    Alike R (f <$> get : Program σ ε α).run (f' <$> get : Program σ' ε α).run :=
  fun s s' hs => .some ⟨congrArg Except.ok (h s s' hs), hs⟩

theorem alike_bind {m : Program σ ε α} {m' : Program σ' ε α} {f : α → Program σ ε β}
    {f' : α → Program σ' ε β} (hm : Alike R m.run m'.run) (hf : ∀ a, Alike R (f a).run (f' a).run) :
    Alike R (m >>= f).run (m' >>= f').run := by
  rw [ExceptT.run_bind, ExceptT.run_bind]
  refine hm.bind fun outcome => ?_
  cases outcome with
  | ok a => exact hf a
  | error e => exact alike_pure _


theorem alike_tryCatch {m : Program σ ε α} {m' : Program σ' ε α} {handler : ε → Program σ ε α}
    {handler' : ε → Program σ' ε α} (hm : Alike R m.run m'.run)
    (hh : ∀ e, Alike R (handler e).run (handler' e).run) :
    Alike R (tryCatch m handler).run (tryCatch m' handler').run := by
  rw [run_tryCatch, run_tryCatch]
  refine hm.bind fun outcome => ?_
  cases outcome with
  | ok a => exact alike_pure _
  | error e => exact hh e

theorem alike_forM {f : α → Program σ ε PUnit} {f' : α → Program σ' ε PUnit} {l : List α}
    (h : ∀ a ∈ l, Alike R (f a).run (f' a).run) : Alike R (l.forM f).run (l.forM f').run := by
  induction l with
  | nil => exact alike_return _
  | cons a rest ih =>
    exact alike_bind (h a (List.mem_cons_self ..)) fun _ =>
      ih fun b hb => h b (List.mem_cons_of_mem _ hb)

/-- From related states the same comes out, with what the relation tells of the states. -/
theorem Alike.run_eq {γ : Type} {m : StateT σ Option α} {m' : StateT σ' Option α} {g : σ → γ}
    {g' : σ' → γ} (h : Alike R m m') (hg : ∀ s s', R s s' → g s = g' s') {s : σ} {s' : σ'} (hs : R s s') :
    ((m.run s).map fun r => (r.1, g r.2)) = (m'.run s').map fun r => (r.1, g' r.2) := by
  have hrun := h s s' hs
  rcases hleft : m.run s with _ | ⟨a, t⟩ <;> rcases hright : m'.run s' with _ | ⟨a', t'⟩ <;>
    rw [hleft, hright] at hrun <;> cases hrun
  · rfl
  · rename_i hsame
    obtain ⟨rfl, ht⟩ := hsame
    simp only [Option.map_some, hg t t' ht]

end Lockstep
