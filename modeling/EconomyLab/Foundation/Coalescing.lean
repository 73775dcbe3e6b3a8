import EconomyLab.Foundation.Runs
import Mathlib.Data.List.Perm.Basic
import Mathlib.Data.List.Range

/-!
# Coalescing calls

Calls are queued and handed on in batches, in the order they came. Several flushes may be
under way at once: each waits for the answers of its batch, gives them out and goes on while
calls are queued. Every call is answered once, and where a batch answers as its calls would
one by one, every call gets the answer it would have got alone. What takes the batches may
work on them meanwhile, as long as it answers as if they came one after the other.
-/

namespace EconomyLab.Foundation

universe u v w x y

/-- What takes the batches. It gives a reference for each, by which the answers are collected once
they are there, and takes steps of its own. -/
structure Service (Item : Type u) (State : Type v) (Ref : Type w) (Answer : Type x) where
  hand : List Item → State → Ref × State
  collect : Ref → State → Option (List Answer)
  advance : Nat → State → State

def Service.atOnce {Item : Type u} {State : Type v} {Answer : Type x}
    (serve : List Item → State → List Answer × State) : Service Item State (List Answer) Answer where
  hand := serve
  collect := fun answers _ => some answers
  advance := fun _ state => state

/-- `deferred` counts the flushes left to the scheduler that have not run yet, and `loops` the
flushes that wait, each for its batch and with the tickets in it; a call has its number as a
ticket. -/
structure Coalescer (Item : Type u) (State : Type v) (Ref : Type w) (Answer : Type x) where
  queue : List (Item × Nat)
  scheduled : Bool
  deferred : Nat
  loops : List (Ref × List Nat)
  settled : List (Answer × Nat)
  arrivals : List Item
  state : State

inductive CoalescerEvent (Item : Type u)
  | submit (item : Item)
  /-- The scheduler runs a flush that was left to it. -/
  | fire
  | flush
  /-- A flush gets the answers it waits for. -/
  | resume (loop : Nat)
  /-- What takes the batches takes one of its steps. -/
  | advance (n : Nat)

namespace Coalescer

variable {Item : Type u} {State : Type v} {Ref : Type w} {Answer : Type x}

def start (state : State) : Coalescer Item State Ref Answer := ⟨[], false, 0, [], [], [], state⟩

section Steps

variable (service : Service Item State Ref Answer) (maxBatch : Nat)

/-- The head of the loop: the next batch is handed on, unless nothing is queued. -/
def next (k : Coalescer Item State Ref Answer) : Coalescer Item State Ref Answer :=
  if k.queue = [] then k
  else
    let batch := k.queue.take maxBatch
    let handed := service.hand (batch.map Prod.fst) k.state
    { k with
      queue := k.queue.drop maxBatch
      loops := k.loops ++ [(handed.1, batch.map Prod.snd)]
      state := handed.2 }

def flush (k : Coalescer Item State Ref Answer) : Coalescer Item State Ref Answer :=
  next service maxBatch { k with scheduled := false }

def submit (item : Item) (k : Coalescer Item State Ref Answer) : Coalescer Item State Ref Answer :=
  let queued := { k with
    queue := k.queue ++ [(item, k.arrivals.length)]
    arrivals := k.arrivals ++ [item] }
  if maxBatch ≤ queued.queue.length then flush service maxBatch queued
  else if queued.scheduled then queued
  else { queued with scheduled := true, deferred := queued.deferred + 1 }

def fire (k : Coalescer Item State Ref Answer) : Coalescer Item State Ref Answer :=
  if k.deferred = 0 then k else flush service maxBatch { k with deferred := k.deferred - 1 }

/-- The answers that the flush waits for, if they are there. -/
def collected (loop : Nat) (k : Coalescer Item State Ref Answer) : Option (List Answer × List Nat) :=
  match k.loops[loop]? with
  | none => none
  | some (ref, tickets) => (service.collect ref k.state).map fun answers => (answers, tickets)

def resume (loop : Nat) (k : Coalescer Item State Ref Answer) : Coalescer Item State Ref Answer :=
  match k.collected service loop with
  | none => k
  | some (answers, tickets) => next service maxBatch { k with
      loops := k.loops.eraseIdx loop
      settled := k.settled ++ answers.zip tickets }

def step (k : Coalescer Item State Ref Answer) : CoalescerEvent Item → Coalescer Item State Ref Answer
  | .submit item => submit service maxBatch item k
  | .fire => fire service maxBatch k
  | .flush => flush service maxBatch k
  | .resume loop => resume service maxBatch loop k
  | .advance n => { k with state := service.advance n k.state }

def batch (k : Coalescer Item State Ref Answer) : List Item := (k.queue.take maxBatch).map Prod.fst

/-- What the event hands on. -/
def handed (k : Coalescer Item State Ref Answer) : CoalescerEvent Item → List Item
  | .submit item =>
    let queued := k.queue.map Prod.fst ++ [item]
    if maxBatch ≤ queued.length then queued.take maxBatch else []
  | .fire => if k.deferred = 0 then [] else batch maxBatch k
  | .flush => batch maxBatch k
  | .resume loop => if (k.collected service loop).isSome then batch maxBatch k else []
  | .advance _ => []

/-- No flush is under way, and none is left to the scheduler. -/
def Quiet (k : Coalescer Item State Ref Answer) : Prop := k.deferred = 0 ∧ k.loops = []

/-- The calls that were handed on already. -/
def taken (k : Coalescer Item State Ref Answer) : List Item :=
  k.arrivals.take (k.arrivals.length - k.queue.length)

end Steps

/-! ## Every call is answered once -/

/-- A coalescer whose batches are answered at once. -/
abbrev Prompt (Item : Type u) (State : Type v) (Answer : Type x) :=
  Coalescer Item State (List Answer) Answer

/-- The answers that flushes are about to give out. -/
def owed (k : Prompt Item State Answer) : List (Answer × Nat) :=
  k.loops.flatMap fun loop => loop.1.zip loop.2

variable {serve : List Item → State → List Answer × State} {maxBatch : Nat}

/-- The calls taken so far have these answers, given out or about to be; the others are queued. -/
structure Answered (k : Prompt Item State Answer) (taken : List Item) (answers : List Answer) :
    Prop where
  length : answers.length = taken.length
  arrivals : k.arrivals = taken ++ k.queue.map Prod.fst
  tickets : k.queue = (k.queue.map Prod.fst).zipIdx taken.length
  given : (k.settled ++ k.owed).Perm answers.zipIdx

/-- What is queued will be handed on: a flush is left to the scheduler, or one is under way. -/
structure Awaited (k : Coalescer Item State Ref Answer) : Prop where
  queue : k.queue ≠ [] → k.scheduled = true ∨ k.loops ≠ []
  scheduled : k.scheduled = true → 0 < k.deferred

/-- Calls may have come and answers may have been given out, but nothing was handed on. -/
structure Prepared (k k' : Prompt Item State Answer) : Prop where
  state : k'.state = k.state
  grown : ∃ more : List Item, k'.arrivals = k.arrivals ++ more ∧ k'.queue =
    k.queue ++ more.zipIdx k.arrivals.length
  given : (k'.settled ++ k'.owed).Perm (k.settled ++ k.owed)

theorem Answered.start (state : State) : Answered (start state : Prompt Item State Answer) [] [] :=
  ⟨rfl, rfl, rfl, .refl _⟩

theorem Awaited.start (state : State) : Awaited (start state : Coalescer Item State Ref Answer) :=
  ⟨fun h => absurd rfl h, fun h => absurd h Bool.false_ne_true⟩

variable {service : Service Item State Ref Answer}

theorem next_idle {k : Coalescer Item State Ref Answer}
    (h : k.queue = []) : next service maxBatch k = k :=
  if_pos h

theorem tickets_append {front back : List (Item × Nat)} {n : Nat}
    (h : front ++ back = ((front ++ back).map Prod.fst).zipIdx n) :
    front = (front.map Prod.fst).zipIdx n ∧ back = (back.map Prod.fst).zipIdx (n + front.length) := by
  rw [List.map_append, List.zipIdx_append, List.length_map] at h
  exact List.append_inj h (by simp)

variable {k : Prompt Item State Answer} {answers : List Answer}

theorem Answered.prepared {k k' : Prompt Item State Answer} {taken : List Item}
    (h : Answered k taken answers) (hk : Prepared k k') : Answered k' taken answers := by
  obtain ⟨more, harrivals, hqueue⟩ := hk.grown
  have hmore : k'.queue.map Prod.fst = k.queue.map Prod.fst ++ more := by
    rw [hqueue, List.map_append, List.zipIdx_map_fst]
  refine ⟨h.length, ?_, ?_, hk.given.trans h.given⟩
  · rw [harrivals, h.arrivals, hmore, List.append_assoc]
  · have hlength : k.arrivals.length = taken.length + (k.queue.map Prod.fst).length := by
      rw [h.arrivals, List.length_append]
    rw [hmore, List.zipIdx_append, ← h.tickets, ← hlength]
    exact hqueue

variable (maxBatch) in
theorem Answered.next (hserve : ∀ items state, (serve items state).1.length = items.length)
    {taken : List Item} (h : Answered k taken answers) (hqueue : k.queue ≠ []) :
    Answered (next (.atOnce serve) maxBatch k) (taken ++ batch maxBatch k)
        (answers ++ (serve (batch maxBatch k) k.state).1) ∧
      (Coalescer.next (.atOnce serve) maxBatch k).state = (serve (batch maxBatch k) k.state).2 := by
  unfold Coalescer.next
  rw [if_neg hqueue]
  have hsplit := h.tickets
  rw [← List.take_append_drop maxBatch k.queue] at hsplit
  obtain ⟨hfront, hback⟩ := tickets_append hsplit
  have hbatch : (batch maxBatch k).length = (k.queue.take maxBatch).length := List.length_map _
  refine ⟨⟨?_, ?_, ?_, ?_⟩, rfl⟩
  · rw [List.length_append, List.length_append, hserve, h.length]
  · rw [List.append_assoc]
    unfold batch
    rw [← List.map_append, List.take_append_drop]
    exact h.arrivals
  · rw [List.length_append, hbatch]
    exact hback
  · have htickets : (k.queue.take maxBatch).map Prod.snd =
        List.range' taken.length (serve (batch maxBatch k) k.state).1.length := by
      rw [hserve, hbatch]
      have hsnd := congrArg (List.map Prod.snd) hfront
      rwa [List.zipIdx_map_snd, List.length_map] at hsnd
    have hloop : (serve (batch maxBatch k) k.state).1.zip ((k.queue.take maxBatch).map Prod.snd) =
        (serve (batch maxBatch k) k.state).1.zipIdx answers.length := by
      rw [htickets, h.length, List.zipIdx_eq_zip_range']
    have howed : owed { k with
        queue := k.queue.drop maxBatch
        loops := k.loops ++ [((serve (batch maxBatch k) k.state).1, (k.queue.take maxBatch).map Prod.snd)]
        state := (serve (batch maxBatch k) k.state).2 } =
        k.owed ++ (serve (batch maxBatch k) k.state).1.zipIdx answers.length := by
      simp only [owed, List.flatMap_append, List.flatMap_singleton, hloop]
    rw [List.zipIdx_append, Nat.zero_add]
    refine (List.Perm.of_eq ?_).trans (h.given.append (.refl _))
    exact (congrArg (k.settled ++ ·) howed).trans (List.append_assoc _ _ _).symm

variable (serve maxBatch) in
/-- Every event first queues or gives out, and then perhaps hands a batch on. -/
theorem step_cases (k : Prompt Item State Answer) (e : CoalescerEvent Item) :
    ∃ k', Prepared k k' ∧
      ((step (.atOnce serve) maxBatch k e = next (.atOnce serve) maxBatch k' ∧
        handed (.atOnce serve) maxBatch k e = batch maxBatch k') ∨
        (step (.atOnce serve) maxBatch k e = k' ∧ handed (.atOnce serve) maxBatch k e = [])) := by
  have still : ∀ k' : Prompt Item State Answer, k'.state = k.state → k'.arrivals = k.arrivals →
      k'.queue = k.queue → k'.settled = k.settled → k'.loops = k.loops → Prepared k k' := by
    intro k' hstate harrivals hqueue hsettled hloops
    exact ⟨hstate, ⟨[], by simp [harrivals], by simp [hqueue]⟩, by rw [hsettled, owed, owed, hloops]⟩
  cases e with
  | submit item =>
    have queued : ∀ scheduled deferred, Prepared k { k with
        queue := k.queue ++ [(item, k.arrivals.length)]
        arrivals := k.arrivals ++ [item]
        scheduled
        deferred } := fun scheduled deferred => ⟨rfl, ⟨[item], rfl, rfl⟩, .refl _⟩
    have hlength : (k.queue ++ [(item, k.arrivals.length)]).length =
        (k.queue.map Prod.fst ++ [item]).length := by
      simp
    simp only [step, submit, handed, hlength]
    split
    · refine ⟨_, queued false k.deferred, Or.inl ⟨rfl, ?_⟩⟩
      unfold batch
      rw [List.map_take, List.map_append]
      rfl
    · split
      · rename_i hscheduled
        exact ⟨_, queued k.scheduled k.deferred, Or.inr ⟨rfl, rfl⟩⟩
      · exact ⟨_, queued true (k.deferred + 1), Or.inr ⟨rfl, rfl⟩⟩
  | fire =>
    simp only [step, fire, handed]
    split
    · exact ⟨k, still k rfl rfl rfl rfl rfl, Or.inr ⟨rfl, rfl⟩⟩
    · exact ⟨_, still { k with deferred := k.deferred - 1, scheduled := false } rfl rfl rfl rfl rfl,
        Or.inl ⟨rfl, rfl⟩⟩
  | flush =>
    exact ⟨_, still { k with scheduled := false } rfl rfl rfl rfl rfl, Or.inl ⟨rfl, rfl⟩⟩
  | resume loop =>
    have hcollected : k.collected (.atOnce serve) loop = k.loops[loop]? := by
      unfold collected
      cases k.loops[loop]? with
      | none => rfl
      | some waiting => rfl
    simp only [step, resume, handed, hcollected]
    cases hloop : k.loops[loop]? with
    | none => exact ⟨k, still k rfl rfl rfl rfl rfl, Or.inr ⟨rfl, rfl⟩⟩
    | some waiting =>
      obtain ⟨answers, tickets⟩ := waiting
      obtain ⟨hlt, hwaiting⟩ := List.getElem?_eq_some_iff.mp hloop
      have hgiven : (answers.zip tickets ++ owed { k with
          loops := k.loops.eraseIdx loop
          settled := k.settled ++ answers.zip tickets }).Perm k.owed := by
        have herase := (List.getElem_cons_eraseIdx_perm hlt).flatMap_right fun loop => loop.1.zip loop.2
        rwa [hwaiting, List.flatMap_cons] at herase
      refine ⟨{ k with
        loops := k.loops.eraseIdx loop
        settled := k.settled ++ answers.zip tickets },
        ⟨rfl, ⟨[], by simp, by simp⟩, ?_⟩, Or.inl ⟨rfl, rfl⟩⟩
      simp only [List.append_assoc]
      exact hgiven.append_left _
  | advance n => exact ⟨k, still k rfl rfl rfl rfl rfl, Or.inr ⟨rfl, rfl⟩⟩

theorem Awaited.next {k : Coalescer Item State Ref Answer}
    (h : k.scheduled = true → 0 < k.deferred) : Awaited (Coalescer.next service maxBatch k) := by
  by_cases hqueue : k.queue = []
  · rw [next_idle hqueue]
    exact ⟨fun hne => absurd hqueue hne, h⟩
  · unfold Coalescer.next
    rw [if_neg hqueue]
    exact ⟨fun _ => Or.inr (by simp), h⟩

theorem Awaited.step {k : Coalescer Item State Ref Answer}
    (h : Awaited k) (e : CoalescerEvent Item) : Awaited (Coalescer.step service maxBatch k e) := by
  cases e with
  | submit item =>
    simp only [Coalescer.step, submit]
    split
    · exact Awaited.next fun hscheduled => absurd hscheduled Bool.false_ne_true
    · split
      · rename_i hscheduled
        exact ⟨fun _ => Or.inl hscheduled, h.scheduled⟩
      · exact ⟨fun _ => Or.inl rfl, fun _ => Nat.succ_pos _⟩
  | fire =>
    simp only [Coalescer.step, fire]
    split
    · exact h
    · exact Awaited.next fun hscheduled => absurd hscheduled Bool.false_ne_true
  | flush => exact Awaited.next fun hscheduled => absurd hscheduled Bool.false_ne_true
  | resume loop =>
    simp only [Coalescer.step, resume]
    split
    · exact h
    · exact Awaited.next h.scheduled
  | advance n => exact ⟨h.queue, h.scheduled⟩

section Runs

variable (hmax : 0 < maxBatch) (hserve : ∀ items state, (serve items state).1.length = items.length)
include hmax hserve

/-- What an event takes from the queue is what it hands on, and it is answered. -/
theorem Answered.step {taken : List Item} (h : Answered k taken answers) (e : CoalescerEvent Item) :
    ∃ answers', Answered (Coalescer.step (.atOnce serve) maxBatch k e)
      (taken ++ handed (.atOnce serve) maxBatch k e)
      (answers ++ answers') ∧
      (handed (.atOnce serve) maxBatch k e = [] → answers' = [] ∧
        (Coalescer.step (.atOnce serve) maxBatch k e).state = k.state) ∧
      (handed (.atOnce serve) maxBatch k e ≠ [] → answers' =
        (serve (handed (.atOnce serve) maxBatch k e) k.state).1 ∧
        (Coalescer.step (.atOnce serve) maxBatch k e).state =
        (serve (handed (.atOnce serve) maxBatch k e) k.state).2) := by
  obtain ⟨k', hprepared, hnext | hstay⟩ := step_cases serve maxBatch k e
  · obtain ⟨hstep, hhanded⟩ := hnext
    rw [hstep, hhanded]
    have hk' := h.prepared hprepared
    by_cases hqueue : k'.queue = []
    · have hbatch : batch maxBatch k' = [] := by
        unfold batch
        rw [hqueue, List.take_nil]
        rfl
      rw [next_idle hqueue, hbatch]
      refine ⟨[], ?_, fun _ => ⟨rfl, hprepared.state⟩, fun hne => absurd rfl hne⟩
      rw [List.append_nil, List.append_nil]
      exact hk'
    · obtain ⟨hanswered, hstate⟩ := hk'.next maxBatch hserve hqueue
      rw [hprepared.state] at hanswered hstate
      refine ⟨_, hanswered, fun hnone => absurd hnone ?_, fun _ => ⟨rfl, hstate⟩⟩
      unfold batch
      rw [List.map_eq_nil_iff, List.take_eq_nil_iff, not_or]
      exact ⟨Nat.pos_iff_ne_zero.mp hmax, hqueue⟩
  · obtain ⟨hstep, hhanded⟩ := hstay
    rw [hstep, hhanded]
    refine ⟨[], ?_, fun _ => ⟨rfl, hprepared.state⟩, fun hne => absurd rfl hne⟩
    rw [List.append_nil, List.append_nil]
    exact h.prepared hprepared

/-- What holds of every state a coalescer reaches. -/
theorem run_answered (events : List (CoalescerEvent Item)) (state : State) :
    let k := events.foldl (Coalescer.step (.atOnce serve) maxBatch) (Coalescer.start state)
    (∃ taken answers, Answered k taken answers) ∧ Awaited k := by
  have key : ∀ k : Prompt Item State Answer, (∃ taken answers, Answered k taken answers) ∧ Awaited k →
      (∃ taken answers, Answered (events.foldl (Coalescer.step (.atOnce serve) maxBatch) k)
        taken answers) ∧
        Awaited (events.foldl (Coalescer.step (.atOnce serve) maxBatch) k) := by
    induction events with
    | nil => exact fun k hk => hk
    | cons e events ih =>
      rintro k ⟨⟨taken, answers, hanswered⟩, hawaited⟩
      obtain ⟨answers', hnext, -⟩ := hanswered.step hmax hserve e
      exact ih _ ⟨⟨_, _, hnext⟩, hawaited.step e⟩
  exact key _ ⟨⟨[], [], .start state⟩, .start state⟩

/-- No call is answered twice, none that did not come, and once nothing is under way none is left. -/
theorem settles_once (events : List (CoalescerEvent Item)) (state : State) :
    let k := events.foldl (Coalescer.step (.atOnce serve) maxBatch) (Coalescer.start state)
    (k.settled.map Prod.snd).Nodup ∧ (∀ ticket ∈ k.settled.map Prod.snd, ticket < k.arrivals.length) ∧
      (k.Quiet → ∀ ticket < k.arrivals.length, ticket ∈ k.settled.map Prod.snd) := by
  intro k
  have hrun : (∃ taken answers, Answered k taken answers) ∧ Awaited k :=
    run_answered hmax hserve events state
  clear_value k
  obtain ⟨⟨taken, answers, h⟩, hawaited⟩ := hrun
  have hgiven : (k.settled.map Prod.snd ++ k.owed.map Prod.snd).Perm
      (List.range' 0 taken.length) := by
    have hmap := h.given.map Prod.snd
    rwa [List.map_append, List.zipIdx_map_snd, h.length] at hmap
  have htaken : taken.length ≤ k.arrivals.length := by
    have harrivals := congrArg List.length h.arrivals
    rw [List.length_append] at harrivals
    omega
  refine ⟨(List.nodup_append.mp (hgiven.nodup_iff.mpr List.nodup_range')).1, ?_, ?_⟩
  · intro ticket hticket
    have hmem := hgiven.subset (List.mem_append_left _ hticket)
    rw [List.mem_range'_1] at hmem
    omega
  · rintro ⟨hdeferred, hloops⟩ ticket hticket
    have hqueue : k.queue = [] := by
      by_contra hne
      rcases hawaited.queue hne with hscheduled | hloop
      · have hpending := hawaited.scheduled hscheduled
        omega
      · exact hloop hloops
    have harrivals := h.arrivals
    rw [hqueue, List.map_nil, List.append_nil] at harrivals
    rw [owed, hloops, List.flatMap_nil, List.map_nil, List.append_nil] at hgiven
    rw [hgiven.mem_iff, List.mem_range'_1, ← harrivals]
    omega

end Runs

section Alone

variable {S : Type y} (one : Item → S → Answer × S)

def oneByOne : List Item → S → List Answer × S
  | [], s => ([], s)
  | item :: items, s =>
    let first := one item s
    let rest := oneByOne items first.2
    (first.1 :: rest.1, rest.2)

theorem oneByOne_append (items more : List Item) (s : S) :
    oneByOne one (items ++ more) s =
      ((oneByOne one items s).1 ++ (oneByOne one more (oneByOne one items s).2).1,
        (oneByOne one more (oneByOne one items s).2).2) := by
  induction items generalizing s with
  | nil => rfl
  | cons item items ih => simp only [List.cons_append, oneByOne, ih]

/-- From a state that is even with the one of single calls, a batch that fits answers as its calls
would one by one, and leaves the states even. -/
def ServesAs (serve : List Item → State → List Answer × State) (even : S → State → Prop)
    (fits : S → List Item → Prop) : Prop :=
  ∀ s b items, even s b → fits s items →
    (serve items b).1 = (oneByOne one items s).1 ∧ even (oneByOne one items s).2 (serve items b).2

/-- The batch that the event hands on fits where the single calls before it lead. -/
def HandsFit (service : Service Item State Ref Answer) (maxBatch : Nat) (fits : S → List Item → Prop)
    (s₀ : S) (k : Coalescer Item State Ref Answer) (e : CoalescerEvent Item) : Prop :=
  handed service maxBatch k e ≠ [] →
    fits (oneByOne one k.taken s₀).2 (handed service maxBatch k e)

variable {one} {even : S → State → Prop} {fits : S → List Item → Prop}

/-- The answers so far are those of the single calls, and the states are even. -/
structure Matches (one : Item → S → Answer × S) (even : S → State → Prop) (s₀ : S)
    (k : Prompt Item State Answer) (taken : List Item) (answers : List Answer) : Prop where
  answered : Answered k taken answers
  answers : answers = (oneByOne one taken s₀).1
  even : even (oneByOne one taken s₀).2 k.state

theorem Answered.taken_eq {taken : List Item} (h : Answered k taken answers) : k.taken = taken := by
  unfold Coalescer.taken
  have hlength : k.arrivals.length - k.queue.length = taken.length := by
    rw [h.arrivals, List.length_append, List.length_map]
    omega
  rw [hlength, h.arrivals]
  exact List.take_left' rfl

variable (hmax : 0 < maxBatch) (hserve : ∀ items state, (serve items state).1.length = items.length)
  (has : ServesAs one serve even fits)
include hmax hserve has

theorem Matches.step {s₀ : S} {taken : List Item}
    (h : Matches one even s₀ k taken answers) {e : CoalescerEvent Item}
    (hfits : HandsFit one (.atOnce serve) maxBatch fits s₀ k e) :
    ∃ taken' answers', Matches one even s₀ (Coalescer.step (.atOnce serve) maxBatch k e) taken'
      answers' := by
  obtain ⟨answers', hanswered, hnone, hsome⟩ := h.answered.step hmax hserve e
  refine ⟨_, _, hanswered, ?_, ?_⟩
  all_goals
    by_cases hhanded : handed (.atOnce serve) maxBatch k e = []
    · obtain ⟨rfl, hstate⟩ := hnone hhanded
      simp only [hhanded, List.append_nil, hstate]
      first
      | exact h.answers
      | exact h.even
    · obtain ⟨rfl, hstate⟩ := hsome hhanded
      have hhere := hfits hhanded
      rw [h.answered.taken_eq] at hhere
      obtain ⟨hserved, heven⟩ := has _ _ _ h.even hhere
      rw [oneByOne_append]
      first
      | exact congrArg₂ _ h.answers hserved
      | exact hstate ▸ heven

/-- Where every batch that is handed on fits, every call is answered as it would be by itself. -/
theorem answers_as_alone {s₀ : S} {b₀ : State} (heven : even s₀ b₀) {events : List (CoalescerEvent Item)}
    (hfits : RunMeets (Coalescer.step (.atOnce serve) maxBatch)
      (HandsFit one (.atOnce serve) maxBatch fits s₀)
      (Coalescer.start b₀ : Prompt Item State Answer) events) :
    let k := events.foldl (Coalescer.step (.atOnce serve) maxBatch) (Coalescer.start b₀)
    ∀ answer ticket, (answer, ticket) ∈ k.settled → (oneByOne one k.arrivals s₀).1[ticket]? =
      some answer := by
  intro k answer ticket hsettled
  have hstart : ∃ taken answers, Matches one even s₀ (Coalescer.start b₀ : Prompt Item State Answer)
      taken answers := ⟨[], [], .start b₀, rfl, heven⟩
  obtain ⟨taken, answers, h⟩ := hfits.inv
    (I := fun k => ∃ taken answers, Matches one even s₀ k taken answers)
    (fun k e ⟨_, _, hk⟩ he => hk.step hmax hserve has he) hstart
  have hin : (answer, ticket) ∈ answers.zipIdx :=
    h.answered.given.subset (List.mem_append_left _ hsettled)
  have hat := List.mem_zipIdx_iff_getElem?.mp hin
  have hlength := (List.getElem?_eq_some_iff.mp hat).1
  have harrivals := h.answered.arrivals
  rw [harrivals, oneByOne_append, ← h.answers, List.getElem?_append_left hlength]
  exact hat

end Alone

end Coalescer

end EconomyLab.Foundation
