import FactCast.Store.FactStore
import FactCast.Store.Pipeline

/-! The transforming stage keeps the order.

What the stage has received falls into segments: signals it passed on as they
came, and batches that begin with a fact to be transformed. The k-th batch is
what the k-th call of the service was about: if the service answers, the parent
is given the batch with its facts transformed, if not, one error in its place
(`outputs`). What is left is in the buffer, in order, and nothing is once a
signal came that is no fact (`inv_process`, and `inv_run` by induction on what
was received). -/
namespace FactCast.BufferedTransformingServerPipeline
variable (p : BufferedTransformingServerPipeline) (t : TransformationRequest → PgFact)

/-- What stands for a signal in the buffer. -/
def supplier : Signal → Supplier
  | .fact f =>
    match p.prepareTransformation f with
    | some request => .transformed request
    | none => .signal (.fact f)
  | s => .signal s

/-- The signal, its fact transformed if it is to be. -/
def replaced : Signal → Signal
  | .fact f =>
    match p.prepareTransformation f with
    | some request => .fact (t request)
    | none => .fact f
  | s => s

def requests (signals : List Signal) : List TransformationRequest :=
  signals.filterMap fun s => (p.supplier s).request?

inductive Segment where
  /-- Passed on as it came. -/
  | direct (signal : Signal)
  /-- Buffered, and flushed as a whole. -/
  | batch (signals : List Signal)

def Segment.signals : Segment → List Signal
  | .direct s => [s]
  | .batch signals => signals

/-- A batch is a call of the service. -/
def Segment.calls : Segment → Nat
  | .direct _ => 0
  | .batch _ => 1

/-- What the parent is given for a segment, when the service is called for the
`n`-th time. -/
def output (n : Nat) : Segment → List Signal
  | .direct s => [s]
  | .batch signals =>
    match p.transform n (p.requests signals) with
    | .ok _ => signals.map (p.replaced t)
    | .error (.transformationException message) => [.error (.transformationException message)]
    | .error _ => []

def outputs : Nat → List Segment → List Signal
  | _, [] => []
  | n, segment :: rest => p.output t n segment ++ outputs (n + segment.calls) rest

/-- The first signal is a fact to be transformed. -/
def Opens (signals : List Signal) : Prop :=
  ∃ s rest, signals = s :: rest ∧ (p.supplier s).request? ≠ none

/-- Only a fact to be transformed begins a batch, and a batch fits the buffer. -/
def Fits : Segment → Prop
  | .direct s => (p.supplier s).request? = none
  | .batch signals => p.Opens signals ∧ signals.length ≤ p.maxBufferSize

structure Inv (received : List Signal) (s : State) (segments : List Segment) (held : List Signal) :
    Prop where
  received : received = segments.flatMap Segment.signals ++ held
  parent : s.parent = p.outputs t 0 segments
  calls : s.calls = (segments.map Segment.calls).sum
  fits : ∀ segment ∈ segments, p.Fits segment
  buffer : s.buffer = held.map p.supplier
  mode : s.mode = .direct ∧ held = [] ∨ s.mode = .buffering ∧ p.Opens held
  below : held.length < p.maxBufferSize
  most : s.most ≤ p.maxBufferSize

section Proofs
variable {p t} {received held signals : List Signal} {segments : List Segment} {s : State} {x : Signal}

theorem outputs_append {n : Nat} {segment : Segment} : p.outputs t n (segments ++ [segment]) =
    p.outputs t n segments ++ p.output t (n + (segments.map Segment.calls).sum) segment := by
  induction segments generalizing n with
  | nil => simp [outputs]
  | cons first rest ih =>
    simp only [List.cons_append, outputs, ih, List.map_cons, List.sum_cons, List.append_assoc,
      Nat.add_assoc]

/-- Each place is taken by the transformation that was asked for there. -/
theorem resolve_map :
    resolve (signals.map p.supplier) ((p.requests signals).map t) = signals.map (p.replaced t) := by
  induction signals with
  | nil => rfl
  | cons x rest ih =>
    have hx : (∃ request, p.supplier x = .transformed request ∧ p.replaced t x = .fact (t request)) ∨
        (p.supplier x = .signal x ∧ p.replaced t x = x) := by
      unfold supplier replaced
      split
      · split
        · exact .inl ⟨_, rfl, rfl⟩
        · exact .inr ⟨rfl, rfl⟩
      · exact .inr ⟨rfl, rfl⟩
    rcases hx with ⟨request, hsupplier, hreplaced⟩ | ⟨hsupplier, hreplaced⟩
    · simp only [requests, List.map_cons, List.filterMap_cons, hsupplier, Supplier.request?, resolve,
        hreplaced]
      exact congrArg _ ih
    · simp only [requests, List.map_cons, List.filterMap_cons, hsupplier, Supplier.request?, resolve,
        hreplaced]
      exact congrArg _ ih

theorem requests_eq : (signals.map p.supplier).filterMap Supplier.request? = p.requests signals := by
  rw [requests, List.filterMap_map]
  rfl

theorem requests_ne_nil (h : p.Opens signals) : p.requests signals ≠ [] := by
  obtain ⟨x, rest, rfl, hx⟩ := h
  obtain ⟨request, hrequest⟩ := Option.ne_none_iff_exists'.mp hx
  simp [requests, hrequest]

/-- A fact to be transformed, or anything once something is buffered, goes to the
buffer; the rest goes on. -/
theorem process_eq : process p s x =
    if (p.supplier x).request? = none ∧ s.mode = .direct then s.pass [x]
    else flushIfNecessary p ({ s with mode := .buffering }.add (p.supplier x)) (some x) := by
  have hpass : (p.supplier x = .signal x) → passOrBuffer p s x =
      if (p.supplier x).request? = none ∧ s.mode = .direct then s.pass [x]
      else flushIfNecessary p ({ s with mode := .buffering }.add (p.supplier x)) (some x) := by
    intro hx
    rw [hx]
    unfold passOrBuffer
    split
    · rename_i hmode
      simp [Supplier.request?, hmode]
    · rename_i hmode
      have hsame : { s with mode := .buffering } = s := by rw [← hmode]
      simp [Supplier.request?, hmode, hsame]
  cases x with
  | fact f =>
    cases hf : p.prepareTransformation f with
    | none =>
      have hx : p.supplier (.fact f) = .signal (.fact f) := by simp [supplier, hf]
      rw [← hpass hx]
      simp [process, hf]
    | some request =>
      have hx : p.supplier (.fact f) = .transformed request := by simp [supplier, hf]
      rw [hx]
      simp [process, hf, Supplier.request?, flushIfNecessary, Signal.indicatesFlush]
  | flush => exact hpass rfl
  | catchup => exact hpass rfl
  | complete => exact hpass rfl
  | fastForward position => exact hpass rfl
  | factStreamInfo info => exact hpass rfl
  | error e => exact hpass rfl

/-- A flush empties the buffer, and the parent is given what the batch is worth. -/
theorem doFlush_batch
    (hservice : ∀ n requests facts, p.transform n requests = .ok facts → facts = requests.map t)
    (hbuffer : s.buffer = signals.map p.supplier) (hopens : p.Opens signals) :
    (doFlush p s).buffer = [] ∧ (doFlush p s).mode = .direct ∧ (doFlush p s).most = s.most ∧
      (doFlush p s).calls = s.calls + 1 ∧
      (doFlush p s).parent = s.parent ++ p.output t s.calls (.batch signals) := by
  have hfull : s.buffer.isEmpty = false := by
    obtain ⟨x, rest, rfl, _⟩ := hopens
    simp [hbuffer]
  have hflush : doFlush p s = (answer p s (p.requests signals)).reset := by
    unfold doFlush
    rw [hfull, hbuffer, requests_eq]
    simp only [Bool.false_eq_true, if_false]
    split
    · rename_i hnone
      exact absurd hnone (requests_ne_nil hopens)
    · rfl
  rw [hflush]
  unfold answer output
  dsimp only
  cases htransform : p.transform s.calls (p.requests signals) with
  | ok facts =>
    have hfacts := hservice _ _ _ htransform
    have hlength : ¬ (p.requests signals).length ≠ facts.length := by
      rw [hfacts, List.length_map]
      simp
    simp only [if_neg hlength]
    refine ⟨rfl, rfl, rfl, rfl, ?_⟩
    show s.parent ++ resolve s.buffer facts = _
    rw [hbuffer, hfacts, resolve_map]
  | error e =>
    cases e with
    | transformationException message => exact ⟨rfl, rfl, rfl, rfl, rfl⟩
    | illegalState message => exact ⟨rfl, rfl, rfl, rfl, (List.append_nil _).symm⟩
    | other message => exact ⟨rfl, rfl, rfl, rfl, (List.append_nil _).symm⟩

/-- What is buffered next is flushed with the rest, or waits. -/
theorem inv_process
    (hservice : ∀ n requests facts, p.transform n requests = .ok facts → facts = requests.map t)
    (h : Inv p t received s segments held) : ∃ segments' held',
      Inv p t (received ++ [x]) (process p s x) segments' held' ∧
        (x.indicatesFlush = true → held' = []) := by
  rw [process_eq]
  by_cases hdirect : (p.supplier x).request? = none ∧ s.mode = .direct
  · rw [if_pos hdirect]
    have hempty : held = [] := by
      rcases h.mode with ⟨_, hempty⟩ | ⟨hmode, _⟩
      · exact hempty
      · exact absurd (hdirect.2.symm.trans hmode) (by decide)
    subst hempty
    refine ⟨segments ++ [.direct x], [], ⟨?_, ?_, ?_, ?_, h.buffer, h.mode, h.below, h.most⟩,
      fun _ => rfl⟩
    · rw [h.received]
      simp [Segment.signals]
    · rw [outputs_append, ← h.parent]
      rfl
    · rw [List.map_append, List.sum_append, ← h.calls]
      rfl
    · intro segment hsegment
      rcases List.mem_append.mp hsegment with hsegment | hsegment
      · exact h.fits segment hsegment
      · rw [List.mem_singleton.mp hsegment]
        exact hdirect.1
  · rw [if_neg hdirect]
    have hopens : p.Opens (held ++ [x]) := by
      rcases h.mode with ⟨hmode, hempty⟩ | ⟨_, y, rest, hheld, hy⟩
      · refine ⟨x, [], by rw [hempty]; rfl, fun hnone => hdirect ⟨hnone, hmode⟩⟩
      · exact ⟨y, rest ++ [x], by rw [hheld]; rfl, hy⟩
    have hlength : s.buffer.length = held.length := by rw [h.buffer, List.length_map]
    have hbelow := h.below
    have hmost : max s.most (s.buffer.length + 1) ≤ p.maxBufferSize :=
      Nat.max_le.mpr ⟨h.most, by omega⟩
    have hbuffer : s.buffer ++ [p.supplier x] = (held ++ [x]).map p.supplier := by
      rw [List.map_append, ← h.buffer]
      rfl
    unfold flushIfNecessary
    split
    · obtain ⟨hb, hm, hmo, hc, hp⟩ := doFlush_batch hservice
        (s := { s with mode := .buffering }.add (p.supplier x)) hbuffer hopens
      refine ⟨segments ++ [.batch (held ++ [x])], [], ⟨?_, ?_, ?_, ?_, hb, .inl ⟨hm, rfl⟩, ?_, ?_⟩,
        fun _ => rfl⟩
      · rw [h.received]
        simp [Segment.signals]
      · rw [hp, outputs_append, ← h.parent, Nat.zero_add, ← h.calls]
        rfl
      · rw [hc, List.map_append, List.sum_append, ← h.calls]
        rfl
      · intro segment hsegment
        rcases List.mem_append.mp hsegment with hsegment | hsegment
        · exact h.fits segment hsegment
        · rw [List.mem_singleton.mp hsegment]
          refine ⟨hopens, ?_⟩
          rw [List.length_append, List.length_singleton]
          exact hbelow
      · exact Nat.lt_trans (by decide) p.admitted
      · rw [hmo]
        exact hmost
    · rename_i hwait
      simp only [Option.any_some, not_or, Nat.not_le] at hwait
      refine ⟨segments, held ++ [x], ⟨?_, h.parent, h.calls, h.fits, hbuffer, .inr ⟨rfl, hopens⟩, ?_,
        hmost⟩, fun hflush => absurd hflush hwait.2⟩
      · rw [h.received, List.append_assoc]
      · have hfree := hwait.1
        simp only [State.add, List.length_append, List.length_singleton] at hfree
        rw [List.length_append, List.length_singleton]
        omega

theorem inv_run
    (hservice : ∀ n requests facts, p.transform n requests = .ok facts → facts = requests.map t)
    (signals : List Signal) : ∃ segments held, Inv p t signals (run p signals) segments held ∧
      (signals.getLast?.any Signal.indicatesFlush = true → held = []) := by
  induction signals using List.reverseRecOn with
  | nil =>
    refine ⟨[], [], ⟨rfl, rfl, rfl, by simp, rfl, .inl ⟨rfl, rfl⟩, ?_, Nat.zero_le _⟩, fun _ => rfl⟩
    exact Nat.lt_trans (by decide) p.admitted
  | append_singleton signals x ih =>
    obtain ⟨segments, held, hinv, _⟩ := ih
    obtain ⟨segments', held', hinv', hlast⟩ := inv_process hservice hinv (x := x)
    refine ⟨segments', held', ?_, fun hflush => hlast ?_⟩
    · rw [run, List.foldl_append]
      exact hinv'
    · simpa using hflush

/-- Where every call is answered, nothing is missing. -/
theorem outputs_answered (hanswers : ∀ n requests e, p.transform n requests ≠ .error e) {n : Nat}
    (hfits : ∀ segment ∈ segments, p.Fits segment) :
    p.outputs t n segments = (segments.flatMap Segment.signals).map (p.replaced t) := by
  induction segments generalizing n with
  | nil => rfl
  | cons segment rest ih =>
    have hsegment : p.output t n segment = segment.signals.map (p.replaced t) := by
      cases segment with
      | direct x =>
        have hx : (p.supplier x).request? = none := hfits _ (List.mem_cons_self ..)
        have hsame : p.replaced t x = x := by
          unfold supplier at hx
          unfold replaced
          split at hx
          · rename_i f
            cases hf : p.prepareTransformation f with
            | none => rfl
            | some request =>
              rw [hf] at hx
              cases hx
          · rfl
        show [x] = [p.replaced t x]
        rw [hsame]
      | batch signals =>
        unfold output
        cases hcall : p.transform n (p.requests signals) with
        | ok facts =>
          simp only [hcall]
          rfl
        | error e => exact absurd hcall (hanswers _ _ e)
    rw [outputs, hsegment, ih fun other hother => hfits other (List.mem_cons_of_mem _ hother),
      List.flatMap_cons, List.map_append]

end Proofs

/-- What the stage has made of any signals: segments in their order, each passed
on, or batched and answered as a whole, and the rest in the buffer, which is
empty after a signal that is no fact and never overfull. If every call is
answered, what was forwarded by then is all there was. -/
theorem pipeline_in_order (p : BufferedTransformingServerPipeline) (t : TransformationRequest → PgFact)
    (hservice : ∀ n requests facts, p.transform n requests = .ok facts → facts = requests.map t)
    (signals : List Signal) :
    (∃ segments held, (∀ segment ∈ segments, p.Fits segment) ∧
      signals = segments.flatMap Segment.signals ++ held ∧
      (run p signals).parent = p.outputs t 0 segments ∧
      (run p signals).buffer = held.map p.supplier ∧
      (signals.getLast?.any Signal.indicatesFlush = true → held = [])) ∧
    (run p signals).most ≤ p.maxBufferSize ∧
    ((∀ n requests e, p.transform n requests ≠ .error e) →
      signals.getLast?.any Signal.indicatesFlush = true →
      (run p signals).parent = signals.map (p.replaced t) ∧ (run p signals).buffer = []) := by
  obtain ⟨segments, held, hinv, hlast⟩ := inv_run hservice signals
  refine ⟨⟨segments, held, hinv.fits, hinv.received, hinv.parent, hinv.buffer, hlast⟩, hinv.most,
    fun hanswers hflush => ?_⟩
  have hempty := hlast hflush
  subst hempty
  refine ⟨?_, hinv.buffer⟩
  have hreceived := hinv.received
  rw [List.append_nil] at hreceived
  rw [hinv.parent, outputs_answered hanswers hinv.fits, hreceived]

/-- An order in some version. -/
def order (version : Int) : PgFact where
  id := (placed 0).id
  ns := "orders"
  type := none
  version := version
  aggIds := []
  jsonHeader := (placed 0).header
  jsonPayload := .null

def upcast (request : TransformationRequest) : PgFact := { request.toTransform with version := 2 }

/-- Facts of version 1 are to be transformed; the second batch cannot be. -/
def upcasting : BufferedTransformingServerPipeline where
  prepareTransformation := fun f => if f.version = 1 then some ⟨f, [2]⟩ else none
  transform := fun n requests =>
    if n = 1 then .error (.transformationException "no chain") else .ok (requests.map upcast)
  maxBufferSize := 3
  admitted := by decide

/-- A batch that fills the buffer, one that is refused, and one after that. -/
def mixed : List Signal :=
  [.fact (order 5), .fact (order 1), .fact (order 6), .fact (order 1), .fact (order 7),
    .fact (order 1), .flush, .fact (order 8), .fact (order 1), .fact (order 9), .catchup]

theorem pipeline_in_order_mixed :
    (∃ segments held, mixed = segments.flatMap Segment.signals ++ held ∧
      (run upcasting mixed).parent = upcasting.outputs upcast 0 segments) ∧
    ((run upcasting mixed).parent.map fun | .fact f => f.version | _ => 0) =
      [5, 2, 6, 2, 7, 0, 8, 2, 9, 0] ∧ (run upcasting mixed).most = 3 := by
  have hservice : ∀ n requests facts, upcasting.transform n requests = .ok facts →
      facts = requests.map upcast := by
    intro n requests facts h
    simp only [upcasting] at h
    split at h
    · cases h
    · exact (Except.ok.inj h).symm
  obtain ⟨⟨segments, held, _, hsignals, hparent, _⟩, _, _⟩ :=
    pipeline_in_order upcasting upcast hservice mixed
  exact ⟨⟨segments, held, hsignals, hparent⟩, by decide +kernel, by decide +kernel⟩

end FactCast.BufferedTransformingServerPipeline
