import FactCast.Server.Transport
import FactCast.Wire.Protobuf
import Mathlib.Algebra.Order.BigOperators.Group.List

/-! How large a batch gets on the wire.

The adapter fills a batch up to nine tenths of the size its client asks for,
counting for each fact the code units of its texts and eight more. On the wire a
code unit takes up to three bytes. A batch is a run of consecutive facts within
the budget, and every such run can become a batch, so no batch is too large if and
only if no such run is (`batch_size_iff`). Facts of ASCII texts never make one
that is (`budgetSuffices_of_ascii`). -/
namespace FactCast.Transport
open Protobuf

/-! ### Messages -/

namespace ProtoConverter

/-- A fact as a message. -/
def toProto (fact : JsonFact) : List UInt8 := string 1 fact.jsonHeader ++ string 2 fact.jsonPayload

/-- The facts as a message. -/
def toProtos (facts : List JsonFact) : List UInt8 :=
  facts.flatMap fun fact => lengthDelimited 1 (toProto fact)

/-- The notification of type `Facts`. -/
def createNotificationFor (stagedFacts : List JsonFact) : List UInt8 :=
  enum 1 4 ++ lengthDelimited 4 (toProtos stagedFacts)

end ProtoConverter

def serializedSize (facts : List JsonFact) : Nat := (ProtoConverter.createNotificationFor facts).length

/-- What the adapter counts for a fact, in numbers without bound. -/
def unitsOf (fact : JsonFact) : Nat := utf16Length fact.jsonPayload + utf16Length fact.jsonHeader + 8

def units (facts : List JsonFact) : Nat := (facts.map unitsOf).sum

/-- The facts can be staged together. -/
def WithinBudget (requested : Int) (facts : List JsonFact) : Prop :=
  units facts < (StagedFacts.of_ (calculateMaxInboundMessageSize requested)).maxBytes

instance (requested : Int) (facts : List JsonFact) : Decidable (WithinBudget requested facts) :=
  inferInstanceAs (Decidable (_ < _))

/-! ### Calls -/

def Call.fact? : Call → Option JsonFact
  | .onNext fact => some fact
  | _ => none

def factsOf (calls : List Call) : List JsonFact := calls.filterMap Call.fact?

/-- No matter when it is flushed, no notification exceeds the size. -/
def WithinSize (requested : Int) (given : List JsonFact) : Prop :=
  ∀ supportsFastForward calls ending, factsOf calls = given →
    ∀ facts, .onNext (.facts facts) ∈ (transported requested supportsFastForward calls ending).sent →
      serializedSize facts ≤ calculateMaxInboundMessageSize requested

/-- At all times the count is that of the facts staged, and one more fits an integer. -/
def NeverOverflows (requested : Int) (given : List JsonFact) : Prop :=
  ∀ supportsFastForward calls, factsOf calls <+: given →
    let stagedFacts := ((GrpcObserverAdapter.of_ requested supportsFastForward).run calls).stagedFacts
    stagedFacts.currentBytes = units stagedFacts.staged ∧
      ∀ fact ∈ given, stagedFacts.currentBytes + unitsOf fact < 2 ^ 31

/-- Consecutive facts within the budget do not exceed the size. -/
def BudgetSuffices (requested : Int) (given : List JsonFact) : Prop :=
  ∀ facts, facts <:+: given → WithinBudget requested facts →
    serializedSize facts ≤ calculateMaxInboundMessageSize requested

/-! ### Sizes -/

section Sizes
variable {s : String} {fact : JsonFact} {facts : List JsonFact} {requested : Int}

/-- A code unit takes a byte at least. -/
theorem utf16Length_le : utf16Length s ≤ (utf8 s).length := by
  rw [length_utf8, utf16Length]
  refine List.sum_le_sum fun c _ => ?_
  have hpos := c.utf8Size_pos
  split
  · omega
  · rename_i hlarge
    have hone : c.utf8Size ≠ 1 := fun h => by
      have := UInt32.le_iff_toNat_le.mp (Char.utf8Size_eq_one_iff.mp h)
      exact hlarge (Nat.lt_of_le_of_lt this (by decide))
    omega

theorem length_toProto_le :
    (ProtoConverter.toProto fact).length ≤ serializedSize [fact] := by
  have hfact := @le_length_lengthDelimited 1 (ProtoConverter.toProto fact)
  have hfacts := @le_length_lengthDelimited 4 (ProtoConverter.toProtos [fact])
  have hone : ProtoConverter.toProtos [fact] = lengthDelimited 1 (ProtoConverter.toProto fact) :=
    List.append_nil _
  rw [hone] at hfacts
  rw [serializedSize, ProtoConverter.createNotificationFor, List.length_append, hone]
  omega

/-- What fits on the wire is counted far within an integer. -/
theorem unitsOf_le : unitsOf fact ≤ serializedSize [fact] + 8 := by
  have hheader := @le_length_string 1 fact.jsonHeader
  have hpayload := @le_length_string 2 fact.jsonPayload
  have hunits := @utf16Length_le fact.jsonHeader
  have hunits' := @utf16Length_le fact.jsonPayload
  have hsize := @length_toProto_le fact
  rw [ProtoConverter.toProto, List.length_append] at hsize
  unfold unitsOf
  omega

theorem maxInbound_le : calculateMaxInboundMessageSize requested ≤ 32 * 1024 * 1024 := by
  unfold calculateMaxInboundMessageSize
  omega

theorem le_maxInbound : 2 * 1024 * 1024 ≤ calculateMaxInboundMessageSize requested := by
  unfold calculateMaxInboundMessageSize
  omega

theorem budget_pos : 0 < (StagedFacts.of_ (calculateMaxInboundMessageSize requested)).maxBytes := by
  have := @le_maxInbound requested
  simp only [StagedFacts.of_]
  omega

@[simp] theorem units_nil : units [] = 0 := rfl

@[simp] theorem units_cons : units (fact :: facts) = unitsOf fact + units facts := rfl

@[simp] theorem units_append {more : List JsonFact} : units (facts ++ more) = units facts + units more := by
  simp [units]

theorem units_singleton : units [fact] = unitsOf fact := by simp

theorem WithinBudget.of_append {more : List JsonFact} (h : WithinBudget requested (facts ++ more)) :
    WithinBudget requested facts := by
  unfold WithinBudget at h ⊢
  rw [units_append] at h
  omega

/-- The empty batch is within the budget. -/
theorem withinBudget_nil : WithinBudget requested [] := budget_pos

end Sizes

/-! ### What the adapter stages and sends -/

/-- What is staged are the last facts given, counted without overflow; what was
sent are consecutive facts within the budget. -/
structure Batched (requested : Int) (given : List JsonFact) (a : GrpcObserverAdapter) : Prop where
  maxBytes : a.stagedFacts.maxBytes = (StagedFacts.of_ (calculateMaxInboundMessageSize requested)).maxBytes
  counted : a.stagedFacts.currentBytes = units a.stagedFacts.staged
  staged : a.stagedFacts.staged <:+ given ∧ WithinBudget requested a.stagedFacts.staged
  sent : ∀ facts, .onNext (.facts facts) ∈ a.sent → facts <:+: given ∧ WithinBudget requested facts

section Runs
variable {requested : Int} {given facts : List JsonFact} {fact : JsonFact} {a : GrpcObserverAdapter}

/-- A count within the budget does not wrap around when a fact is added. -/
theorem count_add (hfit : serializedSize [fact] ≤ calculateMaxInboundMessageSize requested)
    (hstaged : WithinBudget requested facts) :
    int32 (units facts + StagedFacts.byteSizeOf fact) = (units (facts ++ [fact]) : Nat) := by
  have hunits := @unitsOf_le fact
  have hmax := @maxInbound_le requested
  have hmin := @le_maxInbound requested
  have hbudget : (units facts : Int) < _ := hstaged
  simp only [StagedFacts.of_] at hbudget
  have hsize : StagedFacts.byteSizeOf fact = unitsOf fact := by
    simp only [StagedFacts.byteSizeOf, int32, unitsOf] at hunits ⊢
    rw [Int.bmod_eq_of_le]
    all_goals omega
  rw [hsize, units_append, units_singleton, int32, Int.bmod_eq_of_le]
  all_goals omega

theorem Batched.send {message : Message} (h : Batched requested given a)
    (hmessage : ∀ facts, message ≠ .onNext (.facts facts)) :
    Batched requested given (a.send message) where
  maxBytes := h.maxBytes
  counted := h.counted
  staged := h.staged
  sent := by
    intro facts hfacts
    rcases List.mem_append.mp hfacts with hfacts | hfacts
    · exact h.sent facts hfacts
    · exact absurd (List.mem_singleton.mp hfacts).symm (hmessage facts)

/-- What was staged is sent. -/
theorem Batched.flush (h : Batched requested given a) : Batched requested given a.flush := by
  unfold GrpcObserverAdapter.flush
  split
  · exact h
  · refine
      { maxBytes := h.maxBytes, counted := rfl, staged := ⟨List.nil_suffix, withinBudget_nil⟩
        sent := fun facts hfacts => ?_ }
    rcases List.mem_append.mp hfacts with hfacts | hfacts
    · exact h.sent facts hfacts
    · obtain rfl : facts = a.stagedFacts.staged := by simpa [StagedFacts.popAll] using hfacts
      exact ⟨h.staged.1.isInfix, h.staged.2⟩

/-- More is given. -/
theorem Batched.given_append (h : Batched requested given a) (hstaged : a.stagedFacts.staged = []) :
    Batched requested (given ++ facts) a where
  maxBytes := h.maxBytes
  counted := h.counted
  staged := by
    rw [hstaged]
    exact ⟨List.nil_suffix, withinBudget_nil⟩
  sent := fun batch hbatch =>
    ⟨(h.sent batch hbatch).1.trans (List.prefix_append ..).isInfix, (h.sent batch hbatch).2⟩

/-- A fact fits if it keeps what is staged within the budget. -/
theorem Batched.fits_iff (h : Batched requested given a)
    (hfit : serializedSize [fact] ≤ calculateMaxInboundMessageSize requested) :
    a.stagedFacts.fits fact = true ↔ WithinBudget requested (a.stagedFacts.staged ++ [fact]) := by
  rw [StagedFacts.fits, decide_eq_true_iff, h.counted, count_add hfit h.staged.2, h.maxBytes]
  exact Iff.rfl

theorem Batched.add (h : Batched requested given a)
    (hfit : serializedSize [fact] ≤ calculateMaxInboundMessageSize requested)
    (hfits : a.stagedFacts.fits fact = true) :
    Batched requested (given ++ [fact]) { a with stagedFacts := (a.stagedFacts.add fact).1 } := by
  have hadd : (a.stagedFacts.add fact).1 =
      { a.stagedFacts with
        staged := a.stagedFacts.staged ++ [fact]
        currentBytes := int32 (a.stagedFacts.currentBytes + StagedFacts.byteSizeOf fact) } := by
    rw [StagedFacts.add, if_pos hfits]
  rw [hadd]
  refine
    { maxBytes := h.maxBytes, counted := ?_, staged := ⟨?_, (h.fits_iff hfit).mp hfits⟩
      sent := fun batch hbatch =>
        ⟨(h.sent batch hbatch).1.trans (List.prefix_append ..).isInfix, (h.sent batch hbatch).2⟩ }
  · show int32 _ = _
    rw [h.counted, count_add hfit h.staged.2]
  · obtain ⟨before, hbefore⟩ := h.staged.1
    exact ⟨before, by rw [← List.append_assoc, hbefore]⟩

/-- A fact is staged, alone if it does not fit what is there, or dropped. -/
theorem Batched.onNext (h : Batched requested given a)
    (hfit : serializedSize [fact] ≤ calculateMaxInboundMessageSize requested) :
    Batched requested (given ++ [fact]) (a.onNext fact) := by
  unfold GrpcObserverAdapter.onNext
  by_cases hfits : a.stagedFacts.fits fact = true
  · have hadd : a.stagedFacts.add fact = ((a.stagedFacts.add fact).1, true) := by
      simp [StagedFacts.add, hfits]
    rw [hadd]
    exact h.add hfit hfits
  · have hadd : a.stagedFacts.add fact = (a.stagedFacts, false) := by
      simp [StagedFacts.add, hfits]
    rw [hadd]
    by_cases hempty : a.flush.stagedFacts.fits fact = true
    · exact h.flush.add hfit hempty
    · have hkept : (a.flush.stagedFacts.add fact).1 = a.flush.stagedFacts := by
        simp [StagedFacts.add, hempty]
      rw [hkept]
      exact h.flush.given_append GrpcObserverAdapter.staged_flush

theorem Batched.call {c : Call} (h : Batched requested given a)
    (hfit : ∀ fact ∈ factsOf [c], serializedSize [fact] ≤ calculateMaxInboundMessageSize requested) :
    Batched requested (given ++ factsOf [c]) (a.call c) := by
  cases c with
  | onNext fact => exact h.onNext (hfit fact (List.mem_singleton_self _))
  | flush => exact (List.append_nil given).symm ▸ h.flush
  | onFastForward id serial =>
    rw [show factsOf [.onFastForward id serial] = [] from rfl, List.append_nil]
    show Batched requested given (a.onFastForward id serial)
    unfold GrpcObserverAdapter.onFastForward
    split
    · exact h.send fun _ hfacts => by cases hfacts
    · exact h
  | onCatchup => exact (List.append_nil given).symm ▸ h.flush.send fun _ hfacts => by cases hfacts

theorem factsOf_cons {c : Call} {rest : List Call} : factsOf (c :: rest) = factsOf [c] ++ factsOf rest := by
  rw [factsOf, factsOf, factsOf, ← List.filterMap_append]
  rfl

theorem Batched.run {calls : List Call} (h : Batched requested given a)
    (hfit : ∀ fact ∈ factsOf calls, serializedSize [fact] ≤ calculateMaxInboundMessageSize requested) :
    Batched requested (given ++ factsOf calls) (a.run calls) := by
  induction calls generalizing a given with
  | nil => exact (List.append_nil given).symm ▸ h
  | cons c rest ih =>
    rw [factsOf_cons] at hfit ⊢
    rw [← List.append_assoc]
    exact ih (h.call fun fact hfact => hfit fact (List.mem_append_left _ hfact))
      fun fact hfact => hfit fact (List.mem_append_right _ hfact)

theorem Batched.finish {ending : Ending} (h : Batched requested given a) :
    Batched requested given (a.finish ending) := by
  cases ending with
  | onComplete =>
    exact (h.flush.send fun _ hfacts => by cases hfacts).send fun _ hfacts => by cases hfacts
  | onError => exact h.flush.send fun _ hfacts => by cases hfacts

theorem batched_of {supportsFastForward : Bool} :
    Batched requested [] (GrpcObserverAdapter.of_ requested supportsFastForward) where
  maxBytes := rfl
  counted := rfl
  staged := ⟨List.nil_suffix, withinBudget_nil⟩
  sent := fun _ hfacts => nomatch hfacts

/-! ### Any consecutive facts can be a batch -/

theorem sent_flush {m : Message} (h : m ∈ a.sent) : m ∈ a.flush.sent := by
  unfold GrpcObserverAdapter.flush
  split
  · exact h
  · exact List.mem_append_left _ h

/-- What is sent stays sent. -/
theorem sent_finish {ending : Ending} {m : Message} (h : m ∈ a.sent) : m ∈ (a.finish ending).sent := by
  cases ending with
  | onComplete => exact List.mem_append_left _ (List.mem_append_left _ (sent_flush h))
  | onError => exact List.mem_append_left _ (sent_flush h)

theorem mem_flush (hstaged : a.stagedFacts.staged = facts) (hne : facts ≠ []) :
    .onNext (.facts facts) ∈ a.flush.sent := by
  unfold GrpcObserverAdapter.flush
  rw [hstaged, if_neg (by simpa using hne)]
  refine List.mem_append_right _ (List.mem_singleton.mpr ?_)
  rw [← hstaged]
  rfl

theorem run_append {calls more : List Call} : a.run (calls ++ more) = (a.run calls).run more := by
  induction calls generalizing a with
  | nil => rfl
  | cons c rest ih => exact ih

theorem factsOf_append {calls more : List Call} : factsOf (calls ++ more) = factsOf calls ++ factsOf more :=
  List.filterMap_append ..

theorem factsOf_onNext : factsOf (facts.map .onNext) = facts := by
  induction facts with
  | nil => rfl
  | cons fact rest ih => rw [List.map_cons, factsOf_cons, ih]; rfl

/-- Facts that are within the budget together with what is staged are staged after it. -/
theorem staged_run (h : Batched requested given a)
    (hfit : ∀ fact ∈ facts, serializedSize [fact] ≤ calculateMaxInboundMessageSize requested)
    (hbudget : WithinBudget requested (a.stagedFacts.staged ++ facts)) :
    (a.run (facts.map .onNext)).stagedFacts.staged = a.stagedFacts.staged ++ facts := by
  induction facts generalizing a given with
  | nil => exact (List.append_nil _).symm
  | cons fact rest ih =>
    have hfact := hfit fact (List.mem_cons_self ..)
    have hfits : a.stagedFacts.fits fact = true := by
      rw [h.fits_iff hfact]
      rw [List.append_cons] at hbudget
      exact hbudget.of_append
    have hnext : a.onNext fact = { a with stagedFacts := (a.stagedFacts.add fact).1 } := by
      simp only [GrpcObserverAdapter.onNext, StagedFacts.add, hfits, if_true]
    have hstaged : (a.onNext fact).stagedFacts.staged = a.stagedFacts.staged ++ [fact] := by
      rw [hnext]
      simp only [StagedFacts.add, hfits, if_true]
    have hrest := ih (h.onNext hfact) (fun f hf => hfit f (List.mem_cons_of_mem _ hf)) (by
      rwa [hstaged, List.append_assoc])
    rw [hstaged, List.append_assoc] at hrest
    exact hrest

/-- A flush before consecutive facts within the budget and one after make them a batch. -/
theorem exists_batch {before after : List JsonFact} (hne : facts ≠ [])
    (hfit : ∀ fact ∈ before ++ facts ++ after,
      serializedSize [fact] ≤ calculateMaxInboundMessageSize requested)
    (hbudget : WithinBudget requested facts) :
    ∃ calls, factsOf calls = before ++ facts ++ after ∧
      .onNext (.facts facts) ∈ (transported requested true calls .onComplete).sent := by
  let prelude := before.map Call.onNext ++ [.flush]
  let calls := prelude ++ (facts.map Call.onNext ++ [.flush] ++ after.map Call.onNext)
  have hprelude : factsOf prelude = before := by
    simp only [prelude, factsOf_append, factsOf_onNext]
    exact List.append_nil before
  have hcalls : factsOf calls = before ++ facts ++ after := by
    simp only [calls, factsOf_append, hprelude, factsOf_onNext, List.append_assoc]
    rfl
  refine ⟨calls, hcalls, sent_finish ?_⟩
  have hbatched : Batched requested ([] ++ factsOf prelude)
      ((GrpcObserverAdapter.of_ requested true).run prelude) :=
    batched_of.run fun fact hfact =>
      hfit fact (List.mem_append_left _ (List.mem_append_left _ (hprelude ▸ hfact)))
  have hempty : ((GrpcObserverAdapter.of_ requested true).run prelude).stagedFacts.staged = [] := by
    simp only [prelude, run_append]
    exact GrpcObserverAdapter.staged_flush
  have hstaged := staged_run hbatched
    (fun fact hfact => hfit fact (List.mem_append_left _ (List.mem_append_right _ hfact)))
    (by rwa [hempty])
  rw [hempty, List.nil_append] at hstaged
  simp only [calls, run_append]
  exact (GrpcObserverAdapter.sent_run (after.map .onNext)).subset (mem_flush hstaged hne)

end Runs

/-! ### The bound -/

section Bound
variable {requested : Int} {given : List JsonFact}

theorem neverOverflows
    (hfit : ∀ fact ∈ given, serializedSize [fact] ≤ calculateMaxInboundMessageSize requested) :
    NeverOverflows requested given := by
  intro supportsFastForward calls hcalls
  have hbatched := (@batched_of requested supportsFastForward).run fun fact hfact =>
    hfit fact (hcalls.subset hfact)
  refine ⟨hbatched.counted, fun fact hfact => ?_⟩
  have hsize := hfit fact hfact
  have hunits := @unitsOf_le fact
  have hmax := @maxInbound_le requested
  have hmin := @le_maxInbound requested
  have hbudget : (units _ : Int) < _ := hbatched.staged.2
  rw [hbatched.counted]
  simp only [StagedFacts.of_] at hbudget
  omega

theorem withinSize_iff
    (hfit : ∀ fact ∈ given, serializedSize [fact] ≤ calculateMaxInboundMessageSize requested) :
    WithinSize requested given ↔ BudgetSuffices requested given := by
  constructor
  · rintro hsize facts ⟨before, after, rfl⟩ hbudget
    by_cases hne : facts = []
    · subst hne
      have hempty : serializedSize [] = 4 := by decide +kernel
      have hmin := @le_maxInbound requested
      rw [hempty]
      omega
    · obtain ⟨calls, hcalls, hsent⟩ := exists_batch hne hfit hbudget
      exact hsize true calls .onComplete hcalls facts hsent
  · rintro hbudget supportsFastForward calls ending rfl facts hsent
    have hbatched := @Batched.finish _ _ _ ending ((@batched_of requested supportsFastForward).run hfit)
    rw [List.nil_append] at hbatched
    obtain ⟨hconsecutive, hwithin⟩ := hbatched.sent facts hsent
    exact hbudget facts hconsecutive hwithin

end Bound

/-- For facts that fit one by one: the count never overflows, and no notification
exceeds the size exactly if no consecutive facts within the budget do. -/
theorem batch_size_iff (requested : Int) (given : List JsonFact)
    (hfit : ∀ fact ∈ given, serializedSize [fact] ≤ calculateMaxInboundMessageSize requested) :
    WithinSize requested given ∧ NeverOverflows requested given ↔ BudgetSuffices requested given := by
  rw [withinSize_iff hfit]
  exact and_iff_left (neverOverflows hfit)

/-! ### Texts of ASCII, and others -/

def Ascii (s : String) : Prop := ∀ c ∈ s.toList, c.toNat < 128

instance (s : String) : Decidable (Ascii s) := List.decidableBAll (fun c : Char => c.toNat < 128) s.toList

theorem length_utf8_of_ascii {s : String} (h : Ascii s) : (utf8 s).length = utf16Length s := by
  rw [length_utf8, utf16Length]
  congr 1
  refine List.map_congr_left fun c hc => ?_
  have hsmall := h c hc
  rw [if_pos (by omega), Char.utf8Size_eq_one_iff, UInt32.le_iff_toNat_le]
  exact Nat.le_of_lt_succ hsmall

/-- The overhead of a fact on the wire, a thirty-second of what is counted at most. -/
theorem length_proto_le {fact : JsonFact} (hheader : Ascii fact.jsonHeader)
    (hpayload : Ascii fact.jsonPayload) :
    32 * (lengthDelimited 1 (ProtoConverter.toProto fact)).length ≤ 33 * unitsOf fact := by
  have hfield := @length_lengthDelimited_le 1 (ProtoConverter.toProto fact) (by decide)
  have hfirst := @length_string_le 1 fact.jsonHeader (by decide)
  have hsecond := @length_string_le 2 fact.jsonPayload (by decide)
  rw [length_utf8_of_ascii hheader] at hfirst
  rw [length_utf8_of_ascii hpayload] at hsecond
  have hproto : (ProtoConverter.toProto fact).length =
      (string 1 fact.jsonHeader).length + (string 2 fact.jsonPayload).length := List.length_append
  unfold unitsOf
  omega

theorem toProtos_cons {fact : JsonFact} {rest : List JsonFact} :
    ProtoConverter.toProtos (fact :: rest) =
      lengthDelimited 1 (ProtoConverter.toProto fact) ++ ProtoConverter.toProtos rest :=
  List.flatMap_cons

theorem length_toProtos_le {facts : List JsonFact}
    (h : ∀ fact ∈ facts, Ascii fact.jsonHeader ∧ Ascii fact.jsonPayload) :
    32 * (ProtoConverter.toProtos facts).length ≤ 33 * units facts := by
  induction facts with
  | nil => exact Nat.le_refl 0
  | cons fact rest ih =>
    have hfact := h fact (List.mem_cons_self ..)
    have hone := length_proto_le hfact.1 hfact.2
    have hrest := ih fun f hf => h f (List.mem_cons_of_mem _ hf)
    rw [toProtos_cons, List.length_append, units_cons]
    omega

/-- The reserve covers the overhead of texts without other characters. -/
theorem budgetSuffices_of_ascii {requested : Int} {given : List JsonFact}
    (h : ∀ fact ∈ given, Ascii fact.jsonHeader ∧ Ascii fact.jsonPayload) :
    BudgetSuffices requested given := by
  intro facts hconsecutive hbudget
  have hfacts := length_toProtos_le fun fact hfact => h fact (hconsecutive.subset hfact)
  have hfield := @length_lengthDelimited_le 4 (ProtoConverter.toProtos facts) (by decide)
  have htype : (enum 1 4).length = 2 := by decide +kernel
  have hmin := @le_maxInbound requested
  replace hbudget : (units facts : Int) < _ := hbudget
  simp only [StagedFacts.of_] at hbudget
  rw [serializedSize, ProtoConverter.createNotificationFor, List.length_append, htype]
  omega

/-- A fact of a thousand letters. -/
def plainFact : JsonFact :=
  ⟨"\x7b\"id\":\"00000000-0000-0000-0000-000000000001\",\"ns\":\"orders\"\x7d", "\x7b\"note\":\"a\"\x7d"⟩

theorem batch_size_iff_plain :
    WithinSize 0 [plainFact, plainFact] ∧ NeverOverflows 0 [plainFact, plainFact] :=
  (batch_size_iff 0 [plainFact, plainFact] (by decide +kernel)).mpr
    (budgetSuffices_of_ascii (by decide +kernel))

/-- A text of a character that is one code unit and three bytes. -/
def euros (n : Nat) : JsonFact :=
  ⟨plainFact.jsonHeader, "\"" ++ String.ofList (List.replicate n '€') ++ "\""⟩

theorem euros_sizes (n : Nat) :
    (string 1 (euros n).jsonHeader).length ≤ 100 ∧ utf16Length (euros n).jsonHeader ≤ 100 ∧
      utf16Length (euros n).jsonPayload = n + 2 ∧ (utf8 (euros n).jsonPayload).length = 3 * n + 2 := by
  have heuro : '€'.utf8Size = 3 := by decide
  have hquote : '"'.utf8Size = 1 := by decide
  refine ⟨?_, ?_, ?_, ?_⟩
  · show (string 1 plainFact.jsonHeader).length ≤ 100
    decide +kernel
  · show utf16Length plainFact.jsonHeader ≤ 100
    decide +kernel
  · simp [euros, utf16Length]
    omega
  · simp [length_utf8, euros, heuro, hquote]
    omega

/-- What a single fact weighs in a notification, at most. -/
theorem serializedSize_singleton_le {fact : JsonFact} {n : Nat}
    (h : (ProtoConverter.toProto fact).length ≤ n) :
    serializedSize [fact] ≤ n + n / 128 + (n + n / 128 + 2) / 128 + 6 := by
  have hone : ProtoConverter.toProtos [fact] = lengthDelimited 1 (ProtoConverter.toProto fact) :=
    List.append_nil _
  have hfield := @length_lengthDelimited_le 1 (ProtoConverter.toProto fact) (by decide)
  have hfacts := @length_lengthDelimited_le 4 (ProtoConverter.toProtos [fact]) (by decide)
  have htype : (enum 1 4).length = 2 := by decide +kernel
  rw [hone] at hfacts
  rw [serializedSize, ProtoConverter.createNotificationFor, List.length_append, htype, hone]
  omega

/-- Texts travel as they are. -/
theorem le_serializedSize {facts : List JsonFact} :
    (facts.map fun fact => (utf8 fact.jsonPayload).length).sum ≤ serializedSize facts := by
  have hfacts : (facts.map fun fact => (utf8 fact.jsonPayload).length).sum ≤
      (ProtoConverter.toProtos facts).length := by
    induction facts with
    | nil => exact Nat.le_refl 0
    | cons fact rest ih =>
      have hpayload := @le_length_string 2 fact.jsonPayload
      have hfield := @le_length_lengthDelimited 1 (ProtoConverter.toProto fact)
      have hproto : (ProtoConverter.toProto fact).length =
          (string 1 fact.jsonHeader).length + (string 2 fact.jsonPayload).length := List.length_append
      rw [toProtos_cons, List.length_append, List.map_cons, List.sum_cons]
      omega
  have hcontent := @le_length_lengthDelimited 4 (ProtoConverter.toProtos facts)
  rw [serializedSize, ProtoConverter.createNotificationFor, List.length_append]
  omega

/-- Two such facts of 600000 characters are counted as 1200000 and weigh three times as much. -/
theorem euros_exceed : ¬ ∀ requested given,
    (∀ fact ∈ given, serializedSize [fact] ≤ calculateMaxInboundMessageSize requested) →
    WithinSize requested given ∧ NeverOverflows requested given := by
  intro hall
  have hmax : calculateMaxInboundMessageSize 2097152 = 2097152 := by decide
  obtain ⟨hstring, hheader, hunits, hpayload⟩ := euros_sizes 600000
  have hall := hall 2097152 [euros 600000, euros 600000]
  -- the text itself is not looked at any more
  generalize euros 600000 = fact at hstring hheader hunits hpayload hall
  have hsingle : serializedSize [fact] ≤ calculateMaxInboundMessageSize 2097152 := by
    have hbody := @length_string_le 2 fact.jsonPayload (by decide)
    have hproto : (ProtoConverter.toProto fact).length ≤ 1815000 := by
      rw [ProtoConverter.toProto, List.length_append]
      omega
    have := serializedSize_singleton_le hproto
    rw [hmax]
    omega
  have hfit : ∀ f ∈ [fact, fact], serializedSize [f] ≤ calculateMaxInboundMessageSize 2097152 := by
    intro f hf
    obtain rfl : f = fact := by simpa using hf
    exact hsingle
  have hbudget : WithinBudget 2097152 [fact, fact] := by
    have hcount : units [fact, fact] ≤ 1200300 := by
      have hone : unitsOf fact ≤ 600110 := by
        rw [unitsOf, hunits]
        omega
      rw [units_cons, units_singleton]
      omega
    simp only [WithinBudget, StagedFacts.of_, hmax]
    omega
  have hsize := (withinSize_iff hfit).mp (hall hfit).1 _ List.infix_rfl hbudget
  have hleast := @le_serializedSize [fact, fact]
  simp only [List.map_cons, List.map_nil, List.sum_cons, List.sum_nil, hpayload] at hleast
  rw [hmax] at hsize
  omega

end FactCast.Transport
