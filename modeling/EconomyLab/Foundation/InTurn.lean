import EconomyLab.Foundation.Coalescing

/-!
# Batches in turn

What takes the batches may work on several at once and give out their answers late. As long as
they are those of the batches one after the other, a coalescer over it is not to be told from
one whose batches are answered at once.
-/

namespace EconomyLab.Foundation.Coalescer

universe u v w x y

variable {Item : Type u} {State : Type v} {Ref : Type w} {Answer : Type x}

section Meanwhile

variable {S : Type y} (serve : List Item → S → List Answer × S) (s₀ : S)

/-- The batches handed on so far, one after the other. -/
abbrev inTurn (batches : List (List Item × Ref)) : List (List Answer) × S :=
  oneByOne serve (batches.map Prod.fst) s₀

def Due (batches : List (List Item × Ref)) (ref : Ref) (answers : List Answer) : Prop :=
  ∃ (i : Nat) (items : List Item), batches[i]? = some (items, ref) ∧
    (inTurn serve s₀ batches).1[i]? = some answers

/-- As long as it takes only steps that it may, a service gives out what the batches give one
after the other; `inv` says how far it has got with them. -/
structure ServesInTurn (service : Service Item State Ref Answer) (may : State → Nat → Prop)
    (inv : List (List Item × Ref) → State → Prop) : Prop where
  hand : ∀ batches state items, inv batches state →
    inv (batches ++ [(items, (service.hand items state).1)]) (service.hand items state).2
  advance : ∀ batches state n, inv batches state → may state n → inv batches (service.advance n state)
  collect : ∀ batches state ref answers given, inv batches state → Due serve s₀ batches ref answers →
    service.collect ref state = some given → given = answers

/-- The coalescer `k` has handed on the batches that `k'` has, whose answers came at once. -/
structure Follows (inv : List (List Item × Ref) → State → Prop) (k : Coalescer Item State Ref Answer)
    (k' : Prompt Item S Answer) (batches : List (List Item × Ref)) : Prop where
  queue : k'.queue = k.queue
  scheduled : k'.scheduled = k.scheduled
  deferred : k'.deferred = k.deferred
  settled : k'.settled = k.settled
  arrivals : k'.arrivals = k.arrivals
  loops : List.Forall₂ (fun loop loop' => Due serve s₀ batches loop.1 loop'.1 ∧ loop'.2 = loop.2)
    k.loops k'.loops
  state : k'.state = (inTurn serve s₀ batches).2
  inv : inv batches k.state

variable {serve s₀} {inv : List (List Item × Ref) → State → Prop} {batches : List (List Item × Ref)}

theorem Due.append {ref : Ref} {answers : List Answer} (h : Due serve s₀ batches ref answers)
    (more : List (List Item × Ref)) : Due serve s₀ (batches ++ more) ref answers := by
  obtain ⟨i, items, hbatch, hanswers⟩ := h
  refine ⟨i, items, ?_, ?_⟩
  · rw [List.getElem?_append_left (List.getElem?_eq_some_iff.mp hbatch).1]
    exact hbatch
  · unfold inTurn
    rw [List.map_append, oneByOne_append,
      List.getElem?_append_left (List.getElem?_eq_some_iff.mp hanswers).1]
    exact hanswers

theorem oneByOne_length {I : Type*} {A : Type*} (one : I → S → A × S) (items : List I) (s : S) :
    (oneByOne one items s).1.length = items.length := by
  induction items generalizing s with
  | nil => rfl
  | cons item items ih => simp [oneByOne, ih]

theorem Due.last (items : List Item) (ref : Ref) :
    Due serve s₀ (batches ++ [(items, ref)]) ref (serve items (inTurn serve s₀ batches).2).1 := by
  refine ⟨batches.length, items, List.getElem?_concat_length, ?_⟩
  have hlength : (oneByOne serve (batches.map Prod.fst) s₀).1.length = batches.length :=
    (oneByOne_length serve _ _).trans (List.length_map _)
  unfold inTurn
  rw [List.map_append, oneByOne_append, ← hlength]
  exact List.getElem?_concat_length

variable {k : Coalescer Item State Ref Answer}

theorem collected_some {service : Service Item State Ref Answer} {loop : Nat} {answers : List Answer}
    {tickets : List Nat} (h : k.collected service loop = some (answers, tickets)) :
    ∃ ref, k.loops[loop]? = some (ref, tickets) ∧ service.collect ref k.state = some answers := by
  unfold collected at h
  split at h
  · cases h
  · rename_i ref tickets' hloop
    obtain ⟨given, hgiven, he⟩ := Option.map_eq_some_iff.mp h
    cases he
    exact ⟨ref, hloop, hgiven⟩

variable {S' : Type*} {service : Service Item State Ref Answer} {may : State → Nat → Prop} (maxBatch : Nat)
  (hturn : ServesInTurn serve s₀ service may inv)
include hturn

theorem Follows.next {k' : Prompt Item S Answer} (h : Follows serve s₀ inv k k' batches) : ∃ batches',
      Follows serve s₀ inv (next service maxBatch k) (next (.atOnce serve) maxBatch k') batches' := by
  by_cases hqueue : k.queue = []
  · rw [next_idle hqueue, next_idle (h.queue.trans hqueue)]
    exact ⟨batches, h⟩
  · have hqueue' : k'.queue ≠ [] := fun he => hqueue (h.queue.symm.trans he)
    unfold Coalescer.next
    rw [if_neg hqueue, if_neg hqueue', h.queue, h.state]
    have hlast := @Due.last _ _ _ _ serve s₀ batches ((k.queue.take maxBatch).map Prod.fst)
      (service.hand ((k.queue.take maxBatch).map Prod.fst) k.state).1
    refine ⟨_, rfl, h.scheduled, h.deferred, h.settled, h.arrivals, ?_, ?_, hturn.hand _ _ _ h.inv⟩
    · refine List.rel_append (h.loops.imp ?_) (.cons ⟨hlast, rfl⟩ .nil)
      rintro loop loop' ⟨hdue, htickets⟩
      exact ⟨hdue.append _, htickets⟩
    · unfold inTurn
      rw [List.map_append, oneByOne_append]
      rfl

theorem Follows.step {k' : Prompt Item S Answer}
    (h : Follows serve s₀ inv k k' batches) {e : CoalescerEvent Item}
    (hmay : ∀ n, e = .advance n → may k.state n) : ∃ k'' batches',
      Follows serve s₀ inv (Coalescer.step service maxBatch k e) k'' batches' ∧
      (k'' = k' ∨ k'' = Coalescer.step (.atOnce serve) maxBatch k' e ∧
        handed (.atOnce serve) maxBatch k' e = handed service maxBatch k e) := by
  have handed_eq : batch maxBatch k' = batch maxBatch k := by
    unfold batch
    rw [h.queue]
  cases e with
  | submit item =>
    have queued : ∀ scheduled deferred, Follows serve s₀ inv
        { k with
          queue := k.queue ++ [(item, k.arrivals.length)]
          arrivals := k.arrivals ++ [item]
          scheduled
          deferred }
        { k' with
          queue := k.queue ++ [(item, k.arrivals.length)]
          arrivals := k.arrivals ++ [item]
          scheduled
          deferred } batches :=
      fun _ _ => ⟨rfl, rfl, rfl, h.settled, rfl, h.loops, h.state, h.inv⟩
    simp only [Coalescer.step, submit, flush, handed, h.queue, h.arrivals, h.scheduled, h.deferred]
    by_cases hfull : maxBatch ≤ (k.queue ++ [(item, k.arrivals.length)]).length
    · simp only [if_pos hfull]
      obtain ⟨batches', hnext⟩ := (queued false k.deferred).next maxBatch hturn
      exact ⟨_, batches', hnext, Or.inr ⟨rfl, trivial⟩⟩
    · simp only [if_neg hfull]
      by_cases hscheduled : k.scheduled = true
      · simp only [if_pos hscheduled]
        exact ⟨_, batches, queued _ _, Or.inr ⟨rfl, trivial⟩⟩
      · simp only [if_neg hscheduled]
        exact ⟨_, batches, queued _ _, Or.inr ⟨rfl, trivial⟩⟩
  | fire =>
    simp only [Coalescer.step, fire, flush, handed, h.deferred, handed_eq]
    by_cases hnone : k.deferred = 0
    · simp only [if_pos hnone]
      exact ⟨k', batches, h, Or.inl rfl⟩
    · simp only [if_neg hnone]
      have hfired : Follows serve s₀ inv { k with deferred := k.deferred - 1, scheduled := false }
          { k' with deferred := k.deferred - 1, scheduled := false } batches :=
        ⟨h.queue, rfl, rfl, h.settled, h.arrivals, h.loops, h.state, h.inv⟩
      obtain ⟨batches', hnext⟩ := hfired.next maxBatch hturn
      exact ⟨_, batches', hnext, Or.inr ⟨rfl, trivial⟩⟩
  | flush =>
    simp only [Coalescer.step, flush, handed, handed_eq]
    have hflushed : Follows serve s₀ inv { k with scheduled := false } { k' with scheduled := false }
        batches :=
      ⟨h.queue, rfl, h.deferred, h.settled, h.arrivals, h.loops, h.state, h.inv⟩
    obtain ⟨batches', hnext⟩ := hflushed.next maxBatch hturn
    exact ⟨_, batches', hnext, Or.inr ⟨rfl, trivial⟩⟩
  | resume loop =>
    simp only [Coalescer.step, resume, handed, handed_eq]
    cases hcollected : k.collected service loop with
    | none => exact ⟨k', batches, h, Or.inl rfl⟩
    | some given =>
      obtain ⟨answers, tickets⟩ := given
      obtain ⟨ref, hloop, hgiven⟩ := collected_some hcollected
      obtain ⟨hlt, hwaits⟩ := List.getElem?_eq_some_iff.mp hloop
      have hlt' : loop < k'.loops.length := h.loops.length_eq ▸ hlt
      have hpair := h.loops.get hlt hlt'
      simp only [List.get_eq_getElem, hwaits] at hpair
      have hanswers : answers = k'.loops[loop].1 := hturn.collect _ _ _ _ _ h.inv hpair.1 hgiven
      have hcollected' : k'.collected (.atOnce serve) loop = some (answers, tickets) := by
        unfold collected
        rw [List.getElem?_eq_getElem hlt', hanswers, ← hpair.2]
        rfl
      rw [hcollected']
      have hresumed : Follows serve s₀ inv
          { k with
            loops := k.loops.eraseIdx loop
            settled := k.settled ++ answers.zip tickets }
          { k' with
            loops := k'.loops.eraseIdx loop
            settled := k'.settled ++ answers.zip tickets } batches := by
        refine ⟨h.queue, h.scheduled, h.deferred, by rw [h.settled], h.arrivals, ?_, h.state, h.inv⟩
        rw [List.eraseIdx_eq_take_drop_succ, List.eraseIdx_eq_take_drop_succ]
        exact List.rel_append (List.forall₂_take loop h.loops) (List.forall₂_drop (loop + 1) h.loops)
      obtain ⟨batches', hnext⟩ := hresumed.next maxBatch hturn
      exact ⟨_, batches', hnext, Or.inr ⟨rfl, rfl⟩⟩
  | advance n =>
    exact ⟨k', batches, ⟨h.queue, h.scheduled, h.deferred, h.settled, h.arrivals, h.loops, h.state,
      hturn.advance _ _ _ h.inv (hmay n rfl)⟩, Or.inl rfl⟩

/-- What a run gives out a run with answers at once gives out, with the same batches. -/
theorem Follows.run {one : Item → S' → Answer × S'} {fits : S' → List Item → Prop} {t₀ : S'}
    {events : List (CoalescerEvent Item)} {k : Coalescer Item State Ref Answer} {k' : Prompt Item S Answer}
    (h : Follows serve s₀ inv k k' batches)
    (hmeets : RunMeets (Coalescer.step service maxBatch) (fun k e =>
      (∀ n, e = .advance n → may k.state n) ∧ HandsFit one service maxBatch fits t₀ k e) k events) :
    ∃ events' batches', Follows serve s₀ inv (events.foldl (Coalescer.step service maxBatch) k)
        (events'.foldl (Coalescer.step (.atOnce serve) maxBatch) k') batches' ∧
      RunMeets (Coalescer.step (.atOnce serve) maxBatch)
        (HandsFit one (.atOnce serve) maxBatch fits t₀) k' events' := by
  induction events generalizing k k' batches with
  | nil => exact ⟨[], batches, h, trivial⟩
  | cons e events ih =>
    obtain ⟨⟨hmay, hfits⟩, hrest⟩ := hmeets
    obtain ⟨k'', batches', hstep, hsame | ⟨hk'', hhanded⟩⟩ := h.step maxBatch hturn hmay
    · subst hsame
      exact ih hstep hrest
    · obtain ⟨events', batches'', hrun, hmeets'⟩ := ih hstep hrest
      subst hk''
      refine ⟨e :: events', batches'', hrun, ?_, hmeets'⟩
      unfold HandsFit taken at hfits ⊢
      rw [hhanded, h.arrivals, h.queue]
      exact hfits

end Meanwhile

end EconomyLab.Foundation.Coalescer
