import EconomyLab.Economy.BatchCalls

/-!
# The submit coalescer

Concurrent calls are gathered into batches. A caller gets what a direct submit would have given
as long as no batch carries a key twice, no velocity verdict in it needs an attempt that the
batch has yet to put back, and none of its journals are open when an earlier batch puts one back.
-/

namespace EconomyLab

open Foundation Coalescer

section Coalesced

variable {Op : Type} (p : Catalog Op) (env : Env) (config : Config)

/-- `createSubmitCoalescer` over a store, after the events; the steps of the batches under way are
events as well. -/
def createSubmitCoalescer (maxBatch : Nat) (w : World) (events : List (CoalescerEvent (Op × Int))) :
    Coalescer (Op × Int) (Batches Op) Nat Slot :=
  events.foldl (Coalescer.step (batchService p env config) maxBatch) (Coalescer.start ⟨w, []⟩)

/-- Every call settles once, with what the calls submitted directly in their order of arrival give. -/
structure AsDirect (w : World) (k : Coalescer (Op × Int) (Batches Op) Nat Slot) : Prop where
  once : (k.settled.map Prod.snd).Nodup
  all : k.Quiet → ∀ ticket < k.arrivals.length, ticket ∈ k.settled.map Prod.snd
  same : ∀ slot ticket, (slot, ticket) ∈ k.settled → (submitEach p env config k.arrivals w).1[ticket]? =
    some slot

/-- The batch carries no key twice, and no velocity verdict in it needs what the batch puts aside. -/
structure FitsBatch (w : World) (ops : List (Op × Int)) : Prop where
  distinct : DistinctKeys p config ops
  unmoved : Along p env config (Unmoved p env config) [] ops w

/-- A batch that the event hands on fits where the direct calls before it lead, and journals that
the event opens find every attempt of the batches before put back. -/
def EventFits (maxBatch : Nat) (w : World) (k : Coalescer (Op × Int) (Batches Op) Nat Slot)
    (e : CoalescerEvent (Op × Int)) : Prop :=
  (∀ n, e = .advance n → k.state.Apart n) ∧
    HandsFit (fun entry w => submit p env config entry.1 entry.2 w) (batchService p env config) maxBatch
      (FitsBatch p env config) w k e

theorem batchItems_length (ops : List Op) (w : World) :
    (batchItems p env config ops w).1.length = ops.length := by
  induction ops generalizing w with
  | nil => rfl
  | cons op ops ih => simp only [batchItems, List.length_cons, ih]

theorem fillSlots_length {screened : List (Slot ⊕ Op)} {settled : List Slot}
    (h : settled.length = (screened.filterMap Sum.getRight?).length) :
    (fillSlots screened settled).length = screened.length := by
  induction screened generalizing settled with
  | nil =>
    cases settled <;> rfl
  | cons entry screened ih =>
    cases entry with
    | inl slot =>
      simp only [fillSlots, List.length_cons]
      exact congrArg _ (ih h)
    | inr op =>
      cases settled with
      | nil => cases h
      | cons slot settled =>
        simp only [fillSlots, List.length_cons]
        exact congrArg _ (ih (Nat.succ.inj h))

theorem batchAnswers_length (ops : List (Op × Int)) (w : World) :
    (batchAnswers p env config ops w).1.length = ops.length := by
  unfold batchAnswers submitBatch
  simp only
  split
  · rename_i hsubmit
    split at hsubmit
    · rename_i hempty
      cases hsubmit
      rw [fillSlots_length, screenBatch_length]
      rw [List.isEmpty_iff.mp hempty]
      rfl
    · split at hsubmit
      · cases hsubmit
      · cases hsubmit
        rw [fillSlots_length, screenBatch_length]
        rw [settleBatchSlots_eq, List.length_map, batchItems_length]
  · exact List.length_map _

theorem submitEach_oneByOne (ops : List (Op × Int)) (w : World) :
    submitEach p env config ops w =
      oneByOne (fun entry w => submit p env config entry.1 entry.2 w) ops w := by
  induction ops generalizing w with
  | nil => rfl
  | cons entry ops ih =>
    obtain ⟨op, now⟩ := entry
    simp only [submitEach, oneByOne, ih]

variable {p env config}

theorem batchAnswers_servesAs (hbrief : Brief env config) :
    ServesAs (fun entry w => submit p env config entry.1 entry.2 w) (batchAnswers p env config) (Even env)
      (FitsBatch p env config) := by
  intro s b ops heven hfits
  obtain ⟨hslots, hafter⟩ := heven.batch hbrief ops hfits.distinct hfits.unmoved
  rw [← submitEach_oneByOne]
  unfold batchAnswers
  split
  · rename_i hsubmit
    rw [hsubmit] at hslots hafter
    exact ⟨Except.ok.inj hslots, hafter⟩
  · rename_i hsubmit
    rw [hsubmit] at hslots
    cases hslots

theorem handed_single {Item State Ref Answer : Type} (service : Service Item State Ref Answer)
    (k : Coalescer Item State Ref Answer) (e : CoalescerEvent Item) :
    (handed service 1 k e).length ≤ 1 := by
  have hbatch : (batch 1 k).length ≤ 1 := by simp [batch]
  cases e with
  | submit item =>
    simp only [handed]
    split
    · exact List.length_take_le 1 _
    · exact Nat.zero_le 1
  | fire =>
    simp only [handed]
    split
    · exact Nat.zero_le 1
    · exact hbatch
  | flush => exact hbatch
  | resume loop =>
    simp only [handed]
    split
    · exact hbatch
    · exact Nat.zero_le 1
  | advance n => exact Nat.zero_le 1

theorem FitsBatch.single {w : World} {ops : List (Op × Int)} (h : ops.length ≤ 1) :
    FitsBatch p env config w ops := by
  have hnone : ∀ op w, Unmoved p env config [] op w := by
    intro op w
    rw [Unmoved, verdictWithout, verdictOf_eq]
    cases screenedAt p env op w with
    | none => rfl
    | some screened => simp [TrustTables.withheld, TrustWindow.sumOf]
  cases ops with
  | nil => exact ⟨List.nodup_nil, trivial⟩
  | cons op rest =>
    obtain rfl : rest = [] := List.eq_nil_of_length_eq_zero (Nat.le_zero.mp (Nat.le_of_succ_le_succ h))
    refine ⟨?_, fun _ => hnone op.1 _, trivial⟩
    exact (List.filter_sublist.map _).nodup (List.nodup_singleton _)

/-- Where every event fits, the coalescer is not to be told from direct calls. -/
theorem coalescer_as_direct (hbrief : Brief env config) {maxBatch : Nat} (hmax : 0 < maxBatch) {w : World}
    (hc : w.Closed) (hs : w.Sound) (ht : w.trust.rows.Counted) (events : List (CoalescerEvent (Op × Int)))
    (hfits : RunMeets (Coalescer.step (batchService p env config) maxBatch)
      (EventFits p env config maxBatch w) (Coalescer.start ⟨w, []⟩) events) :
    AsDirect p env config w (createSubmitCoalescer p env config maxBatch w events) := by
  have hserve : ∀ ops w, (batchAnswers p env config ops w).1.length = ops.length :=
    batchAnswers_length p env config
  have hstart : Follows (batchAnswers p env config) w (Served p env config w)
      (Coalescer.start ⟨w, []⟩ : Coalescer (Op × Int) (Batches Op) Nat Slot) (Coalescer.start w) [] :=
    ⟨rfl, rfl, rfl, rfl, rfl, .nil, rfl, .start w⟩
  obtain ⟨events', batches, hfollows, hmeets⟩ := hstart.run maxBatch (batches_in_turn p env config w) hfits
  change Follows _ w _ (createSubmitCoalescer p env config maxBatch w events) _ batches at hfollows
  generalize createSubmitCoalescer p env config maxBatch w events = k at hfollows ⊢
  obtain ⟨honce, -, hall⟩ := settles_once hmax hserve events' w
  have hsame := answers_as_alone hmax hserve (batchAnswers_servesAs hbrief) (.start hc hs ht) hmeets
  refine ⟨hfollows.settled ▸ honce, ?_, ?_⟩
  · rintro ⟨hdeferred, hloops⟩ ticket hticket
    have hquiet := hfollows.loops
    rw [hloops, List.forall₂_nil_left_iff] at hquiet
    rw [← hfollows.settled]
    exact hall ⟨hfollows.deferred.trans hdeferred, hquiet⟩ ticket (hfollows.arrivals ▸ hticket)
  · intro slot ticket hsettled
    rw [submitEach_oneByOne, ← hfollows.arrivals]
    exact hsame slot ticket (hfollows.settled ▸ hsettled)

end Coalesced

theorem I64.sixty : I64 60 := by decide

/-- The first and the third are of one buyer, whose limit they exceed together. -/
def sampleCalls : List (Operation × Int) :=
  [(samplePurchase "key_1" ⟨.credit, 60, .sixty⟩, 0),
    (.spend ⟨"key_2", .user "usr_x", "key_2", "usr_x", "sku_a", ⟨.credit, 10, .ten⟩,
      [⟨"usr_b", 10000⟩], false, none⟩, 0),
    (samplePurchase "key_3" ⟨.credit, 60, .sixty⟩, 0)]

/-- Every call is a batch of its own; the batches take the steps given and answer. -/
def sampleRun (steps : List (Nat × Nat)) : List (CoalescerEvent (Operation × Int)) :=
  sampleCalls.map .submit ++ steps.flatMap (fun p => List.replicate p.2 (.advance p.1)) ++
    List.replicate 3 (.resume 0)

def sampleCoalescer (maxBatch : Nat) (events : List (CoalescerEvent (Operation × Int))) :
    Coalescer (Operation × Int) (Batches Operation) Nat Slot :=
  createSubmitCoalescer (registry samplePorts) sampleStill sampleLimited maxBatch World.empty events

def opensApart (k : Coalescer (Operation × Int) (Batches Operation) Nat Slot)
    (e : CoalescerEvent (Operation × Int)) : Bool :=
  match e with
  | .advance n => !k.state.opens n || k.state.calls.all fun call => call.backs.isEmpty
  | _ => true

theorem EventFits.of_opensApart {w : World} {k : Coalescer (Operation × Int) (Batches Operation) Nat Slot}
    {e : CoalescerEvent (Operation × Int)} (h : opensApart k e = true) :
    EventFits (registry samplePorts) sampleStill sampleLimited 1 w k e := by
  refine ⟨?_, fun _ => FitsBatch.single (handed_single _ k e)⟩
  rintro n rfl hopens call hcall
  simp only [opensApart, hopens, Bool.not_true, Bool.false_or] at h
  exact List.isEmpty_iff.mp (List.all_eq_true.mp h call hcall)

/-- The second and the third batch wait for the attempts of those before to be put back. -/
theorem coalescer_as_direct_apart : AsDirect (registry samplePorts) sampleStill sampleLimited World.empty
    (sampleCoalescer 1 (sampleRun [(0, 7), (1, 7), (2, 7)])) := by
  have hapart : RunMeets
      (Coalescer.step (batchService (registry samplePorts) sampleStill sampleLimited) 1)
      (fun k e => opensApart k e = true) (Coalescer.start ⟨World.empty, []⟩)
      (sampleRun [(0, 7), (1, 7), (2, 7)]) := by
    decide +kernel
  exact coalescer_as_direct sampleStill_brief (by decide) World.empty_closed World.empty_sound
    TrustTables.empty_counted _ (hapart.imp fun _ _ h => EventFits.of_opensApart h)

def reasonsGiven (k : Coalescer (Operation × Int) (Batches Operation) Nat Slot) :
    List (Option RejectionCode × Nat) :=
  k.settled.map fun answer => (slotReason answer.1, answer.2)

theorem not_asDirect {k : Coalescer (Operation × Int) (Batches Operation) Nat Slot} {ticket : Nat}
    {given direct : Option RejectionCode} (hgiven : (given, ticket) ∈ reasonsGiven k)
    (hdirect : ((submitEach (registry samplePorts) sampleStill sampleLimited k.arrivals
      World.empty).1[ticket]?).map slotReason = some direct) (hne : given ≠ direct) :
    ¬ AsDirect (registry samplePorts) sampleStill sampleLimited World.empty k := by
  intro h
  obtain ⟨⟨slot, found⟩, hmem, he⟩ := List.mem_map.mp hgiven
  cases he
  rw [h.same slot found hmem, Option.map_some, Option.some.injEq] at hdirect
  exact hne hdirect

/-- Two calls of one key in a batch: the second faults, and submitted directly is refused as the
first one is. Batches of one: the attempt of the first call is put back while the second batch is
at work and goes with it, so the third call is refused for another reason than directly. -/
theorem coalescer_told_apart :
    ¬ AsDirect (registry samplePorts) sampleStill sampleLimited World.empty
      (sampleCoalescer 16 (List.replicate 2 (.submit (samplePurchase "key_1" ⟨.credit, 60, by
        decide⟩, 0)) ++
        [.fire] ++ List.replicate 7 (.advance 0) ++ [.resume 0])) ∧
    ¬ AsDirect (registry samplePorts) sampleStill sampleLimited World.empty
      (sampleCoalescer 1 (sampleRun [(0, 5), (1, 3), (0, 2), (1, 4), (2, 7)])) := by
  constructor
  · refine @not_asDirect _ 1 none (some .insufficientFunds) ?_ ?_ (by decide)
    · decide +kernel
    · decide +kernel
  · refine @not_asDirect _ 2 (some .insufficientFunds) (some .riskDenied) ?_ ?_ (by decide)
    · decide +kernel
    · decide +kernel

end EconomyLab
