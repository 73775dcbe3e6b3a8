import EconomyLab.Stores.Velocity

/-!
# Attempts that are recorded, taken back and put back

What recording an attempt, rolling that back and inserting it again leave in every window, as
long as the attempt has not aged out in between.
-/

namespace EconomyLab

open Foundation Journaled

namespace TrustWindow

/-- The attempts that are left once all up to the cutoff have aged out. -/
def unexpired (cutoff : Int) (attempts : List Attempt) : List Attempt :=
  attempts.dropWhile (·.at_ ≤ cutoff)

theorem unexpired_append {cutoff : Int} {attempts recent : List Attempt}
    (h : ∀ a ∈ recent, cutoff < a.at_) :
    unexpired cutoff (attempts ++ recent) = unexpired cutoff attempts ++ recent := by
  have hrecent : unexpired cutoff recent = recent := by
    cases recent with
    | nil => rfl
    | cons a recent =>
      have ha : ¬a.at_ ≤ cutoff := Int.not_le.mpr (h a List.mem_cons_self)
      simp [unexpired, ha]
  induction attempts with
  | nil => exact hrecent
  | cons a attempts ih =>
    by_cases ha : a.at_ ≤ cutoff
    · simpa [unexpired, ha] using ih
    · simp [unexpired, ha]

/-- An attempt pushed, measured and taken out again leaves only what the measuring aged out. -/
theorem measured_without {w : TrustWindow} {attempt : Attempt} {cutoff : Int} (h : w.Counted)
    (hrecent : cutoff < attempt.at_) (hkey : ∀ a ∈ w.attempts, a.idempotencyKey ≠ attempt.idempotencyKey) :
    let left := ((w.push attempt).measure cutoff).without attempt
    left.live = unexpired cutoff w.live ∧ left.Counted ∧ ∀ a ∈ left.attempts, a ∈ w.attempts := by
  intro left
  obtain ⟨hlive, hcounted, hsuffix⟩ := measure_spec (h.push attempt) cutoff
  have hnewest : ((w.push attempt).measure cutoff).live = unexpired cutoff w.live ++ [attempt] := by
    rw [hlive, live_push h]
    apply unexpired_append
    intro a ha
    rw [List.mem_singleton.mp ha]
    exact hrecent
  clear hlive
  have hleft : left = ((w.push attempt).measure cutoff).without attempt := rfl
  generalize (w.push attempt).measure cutoff = m at hnewest hcounted hsuffix hleft
  obtain ⟨dropped, hdropped⟩ := hsuffix
  rcases List.eq_nil_or_concat m.attempts with hnil | ⟨kept, last, hkept⟩
  · rw [live, hnil, List.drop_nil] at hnewest
    simp at hnewest
  · rw [List.concat_eq_append] at hkept
    have hends : dropped ++ kept ++ [last] = w.attempts ++ [attempt] := by
      rw [List.append_assoc, ← hkept]
      exact hdropped
    obtain ⟨hinit, hlast⟩ := List.append_inj' hends rfl
    cases hlast
    have hold : ∀ a ∈ kept, a ∈ w.attempts := fun a ha => hinit ▸ List.mem_append_right _ ha
    have hin : m.head ≤ kept.length := by
      have hlength := congrArg List.length hnewest
      rw [live, hkept, List.length_drop, List.length_append, List.length_append,
        List.length_singleton] at hlength
      omega
    have herase : (kept ++ [attempt]).eraseIdx kept.length = kept := by
      rw [List.eraseIdx_append_of_length_le (Nat.le_refl _)]
      simp
    have hrest : kept.drop m.head = unexpired cutoff w.live := by
      rw [live, hkept, List.drop_append_of_le_length hin] at hnewest
      exact (List.append_inj' hnewest rfl).1
    have hwithout : left = ⟨kept, m.head, m.sumMinor - attempt.amount.minor⟩ := by
      rw [hleft]
      unfold without
      simp only [hkept, findIdx_push fun a ha => hkey a (hold a ha), herase, if_pos hin]
    rw [hwithout]
    refine ⟨hrest, ⟨hin, ?_⟩, hold⟩
    have hsum := hcounted.sumMinor
    rw [hnewest, sumOf_append] at hsum
    simp only [live, hrest, hsum]
    simp [sumOf]

end TrustWindow

namespace TrustTables

open TrustWindow

def live (t : TrustTables) (subject : String) : List Attempt := (t.window subject).live

variable {t t' : TrustTables} {attempt : Attempt} {j : Journaled TrustTables}

theorem live_measure (h : t.Counted) (windowMs now : Int) (subject subject' : String) :
    (t.measure windowMs now subject).live subject' =
      if subject' = subject then unexpired (now - windowMs) (t.live subject) else t.live subject' := by
  obtain ⟨hlive, -, -⟩ := TrustWindow.measure_spec (h.windows subject) (now - windowMs)
  unfold live
  rw [window_measure]
  split
  · exact hlive
  · rfl

/-- `t'` is `t` with only a window measured. -/
structure Measured (cutoff : Int) (subject : String) (t t' : TrustTables) : Prop where
  counted : t'.Counted
  seen : ∀ key, key ∈ t'.seenAttempts ↔ key ∈ t.seenAttempts
  live : ∀ subject', t'.live subject' =
    if subject' = subject then unexpired cutoff (t.live subject) else t.live subject'

theorem Counted.measured (h : t.Counted) (windowMs now : Int) (subject : String) :
    Measured (now - windowMs) subject t (t.measure windowMs now subject) where
  counted := h.measure windowMs now subject
  seen key := by rw [measure_seen]
  live subject' := live_measure h windowMs now subject subject'

section Insert

variable {j : Journaled TrustTables} (h : j.rows.Counted) {subject : String} {attempt : Attempt}
include h

theorem insert_counted : (insert subject attempt j).rows.Counted := by
  unfold insert
  split
  · exact h
  · exact h.push subject attempt

omit h in
theorem insert_seen (key : String) :
    key ∈ (insert subject attempt j).rows.seenAttempts ↔
      key = attempt.idempotencyKey ∨ key ∈ j.rows.seenAttempts := by
  unfold insert
  split
  · rename_i hseen
    constructor
    · exact Or.inr
    · rintro (rfl | hk)
      · exact hseen
      · exact hk
  · exact List.mem_cons

theorem live_insert (subject' : String) :
    (insert subject attempt j).rows.live subject' =
      if attempt.idempotencyKey ∈ j.rows.seenAttempts then j.rows.live subject'
      else if subject' = subject then j.rows.live subject ++ [attempt] else j.rows.live subject' := by
  unfold insert
  split
  · rfl
  · have hwindow := window_set j.rows subject subject' ((j.rows.window subject).push attempt)
      (attempt.idempotencyKey :: j.rows.seenAttempts)
    simp only [live, Journaled.write, Journaled.record, hwindow]
    split
    · exact TrustWindow.live_push (h.windows subject) attempt
    · rfl

variable (windowMs now : Int)

theorem live_record (subject' : String) :
    ((TrustWrite.record subject attempt).run windowMs now j).rows.live subject' =
      if subject' = subject then
        unexpired (now - windowMs)
          (if attempt.idempotencyKey ∈ j.rows.seenAttempts then j.rows.live subject
           else j.rows.live subject ++ [attempt])
      else j.rows.live subject' := by
  simp only [TrustWrite.run, live_measure (insert_counted h), live_insert h]
  by_cases hs : subject' = subject
  · simp [hs]
  · simp [hs]

omit h in
theorem record_seen (key : String) :
    key ∈ ((TrustWrite.record subject attempt).run windowMs now j).rows.seenAttempts ↔
      key = attempt.idempotencyKey ∨ key ∈ j.rows.seenAttempts := by
  simp only [TrustWrite.run, measure_seen]
  exact insert_seen key

omit h in
/-- An attempt that had been seen records no undo; another one is removed again. -/
theorem rollbackTo_record (hopen : j.recording = true) :
    ((TrustWrite.record subject attempt).run windowMs now j).rollbackTo j.mark =
      { j with rows :=
          if attempt.idempotencyKey ∈ j.rows.seenAttempts then
            ((TrustWrite.record subject attempt).run windowMs now j).rows
          else remove subject attempt ((TrustWrite.record subject attempt).run windowMs now j).rows } := by
  obtain ⟨rows, undos⟩ := j
  cases undos with
  | none => simp [Journaled.recording] at hopen
  | some undos =>
    by_cases hseen : attempt.idempotencyKey ∈ rows.seenAttempts
    · have hself := @Journaled.Recoils.popTo_append TrustTables [] undos
      simp only [TrustWrite.run, insert, if_pos hseen]
      simp only [Journaled.rollbackTo, Journaled.mark, Option.map_some, Option.getD_some]
      rw [List.nil_append] at hself
      rw [hself]
      rfl
    · have hone := @Journaled.Recoils.popTo_append TrustTables [remove subject attempt] undos
      simp only [TrustWrite.run, insert, if_neg hseen, Journaled.write, Journaled.record, Option.map_some]
      simp only [Journaled.rollbackTo, Journaled.mark, Option.map_some, Option.getD_some]
      rw [List.singleton_append] at hone
      rw [hone]
      rfl

/-- Recorded and rolled back, an attempt leaves only what the measuring aged out. -/
theorem rollbackTo_record_spec (hopen : j.recording = true) (hrecent : now - windowMs < attempt.at_) :
    let back := ((TrustWrite.record subject attempt).run windowMs now j).rollbackTo j.mark
    back.undos = j.undos ∧ Measured (now - windowMs) subject j.rows back.rows := by
  intro back
  have hback : back = _ := rollbackTo_record windowMs now hopen
  have hcounted : ((TrustWrite.record subject attempt).run windowMs now j).rows.Counted :=
    (TrustWrite.record subject attempt).run_counted h
  by_cases hseen : attempt.idempotencyKey ∈ j.rows.seenAttempts
  · rw [if_pos hseen] at hback
    rw [hback]
    refine ⟨rfl, hcounted, ?_, ?_⟩
    · intro key
      rw [record_seen]
      constructor
      · rintro (rfl | hk)
        · exact hseen
        · exact hk
      · exact Or.inr
    · intro subject'
      rw [live_record h, if_pos hseen]
  · rw [if_neg hseen] at hback
    have hkeys : ∀ a ∈ (j.rows.window subject).attempts, a.idempotencyKey ≠ attempt.idempotencyKey :=
      fun a ha he => hseen (he ▸ h.seen subject a ha)
    have hrun : ((TrustWrite.record subject attempt).run windowMs now j).rows.window subject =
        ((j.rows.window subject).push attempt).measure (now - windowMs) := by
      simp only [TrustWrite.run, insert, if_neg hseen, Journaled.write, Journaled.record, window_measure,
        window_set, if_true]
    obtain ⟨hwithout, hleft, hold⟩ := measured_without (h.windows subject) hrecent hkeys
    rw [← hrun] at hwithout hleft hold
    have hwindows : ∀ subject', back.rows.window subject' =
        if subject' = subject then
          (((TrustWrite.record subject attempt).run windowMs now j).rows.window subject).without attempt
        else ((TrustWrite.record subject attempt).run windowMs now j).rows.window subject' := by
      intro subject'
      rw [hback]
      exact window_remove subject attempt _ subject'
    have hbackSeen : ∀ key, key ∈ back.rows.seenAttempts ↔ key ∈ j.rows.seenAttempts := by
      intro key
      have hfilter : back.rows.seenAttempts =
          ((TrustWrite.record subject attempt).run windowMs now j).rows.seenAttempts.filter
            (· ≠ attempt.idempotencyKey) := by
        rw [hback]
        simp only [remove]
        split <;> rfl
      rw [hfilter, List.mem_filter, record_seen]
      constructor
      · rintro ⟨rfl | hk, hne⟩
        · simp at hne
        · exact hk
      · intro hk
        refine ⟨Or.inr hk, ?_⟩
        simpa using fun he : key = attempt.idempotencyKey => hseen (he ▸ hk)
    refine ⟨by rw [hback], ⟨?_, ?_⟩, hbackSeen, ?_⟩
    · intro subject'
      rw [hwindows]
      split
      · exact hleft
      · exact hcounted.windows subject'
    · intro subject' a ha
      rw [hwindows] at ha
      rw [hbackSeen]
      split at ha
      · exact h.seen subject a (hold a ha)
      · rename_i hne
        have hother : ((TrustWrite.record subject attempt).run windowMs now j).rows.window subject' =
            j.rows.window subject' := by
          simp only [TrustWrite.run, insert, if_neg hseen, Journaled.write, Journaled.record,
            window_measure, window_set, if_neg hne]
        rw [hother] at ha
        exact h.seen subject' a ha
    · intro subject'
      unfold live
      rw [hwindows]
      by_cases hs : subject' = subject
      · rw [if_pos hs, if_pos hs]
        exact hwithout
      · have hother := @live_record j h subject attempt windowMs now subject'
        rw [if_neg hs] at hother
        rw [if_neg hs, if_neg hs]
        exact hother

end Insert

/-! ## Windows that trail behind -/

def attemptsOf (aside : List (String × Attempt)) (subject : String) : List Attempt :=
  (aside.filter (·.1 = subject)).map Prod.snd

def withheld (aside : List (String × Attempt)) (subject : String) : Int :=
  sumOf (attemptsOf aside subject)

@[simp] theorem attemptsOf_nil (subject : String) : attemptsOf [] subject = [] := rfl

theorem attemptsOf_append (aside more : List (String × Attempt)) (subject : String) :
    attemptsOf (aside ++ more) subject = attemptsOf aside subject ++ attemptsOf more subject := by
  simp [attemptsOf]

theorem attemptsOf_singleton (subject' : String) (attempt : Attempt) (subject : String) :
    attemptsOf [(subject', attempt)] subject = if subject = subject' then [attempt] else [] := by
  by_cases hs : subject' = subject
  · simp [attemptsOf, hs]
  · simp [attemptsOf, hs, Ne.symm hs]

/-- `t'` has yet to see the attempts put aside; from some point on, the windows hold the same
attempts with those, in whatever order. -/
structure Trailing (recent : Attempt → Prop) (aside : List (String × Attempt)) (t t' : TrustTables) :
    Prop where
  counted : t.Counted
  counted_behind : t'.Counted
  seen : ∀ key, key ∈ t.seenAttempts ↔
    key ∈ t'.seenAttempts ∨ ∃ a ∈ aside, a.2.idempotencyKey = key
  unseen : ∀ a ∈ aside, a.2.idempotencyKey ∉ t'.seenAttempts
  nodup : (aside.map (·.2.idempotencyKey)).Nodup
  live : ∀ subject, ∃ old ys xs, t'.live subject = old ++ ys ∧ t.live subject = old ++ xs ∧
    xs.Perm (ys ++ attemptsOf aside subject) ∧ ∀ a ∈ xs, recent a

structure SameAttempts (t t' : TrustTables) : Prop where
  seen : ∀ key, key ∈ t.seenAttempts ↔ key ∈ t'.seenAttempts
  live : ∀ subject, (t.live subject).Perm (t'.live subject)

theorem spent_eq (h : t.Counted) (subject : String) :
    (t.window subject).sumMinor = sumOf (t.live subject) :=
  (h.windows subject).sumMinor

theorem sumOf_perm {xs ys : List Attempt} (h : xs.Perm ys) : sumOf xs = sumOf ys :=
  (h.map _).sum_eq

namespace Trailing

theorem refl (h : t.Counted) (recent : Attempt → Prop) : Trailing recent [] t t where
  counted := h
  counted_behind := h
  seen key := by simp
  unseen := by simp
  nodup := List.nodup_nil
  live subject := ⟨t.live subject, [], [], by simp, by simp, by simp, by simp⟩

variable {recent : Attempt → Prop} {aside : List (String × Attempt)} {t t' : TrustTables}
variable (h : Trailing recent aside t t')
include h

theorem spent (subject : String) :
    (t.window subject).sumMinor = (t'.window subject).sumMinor + withheld aside subject := by
  obtain ⟨old, ys, xs, hbehind, hlive, hperm, -⟩ := h.live subject
  rw [spent_eq h.counted, spent_eq h.counted_behind, hbehind, hlive, sumOf_append, sumOf_append,
    sumOf_perm hperm, sumOf_append, withheld, Int.add_assoc]

theorem seen_iff {key : String} (hkey : ∀ a ∈ aside, a.2.idempotencyKey ≠ key) :
    key ∈ t.seenAttempts ↔ key ∈ t'.seenAttempts := by
  rw [h.seen]
  constructor
  · rintro (hk | ⟨a, ha, rfl⟩)
    · exact hk
    · exact absurd rfl (hkey a ha)
  · exact Or.inl

variable {cutoff : Int} (hrecent : ∀ a, recent a → cutoff < a.at_)
include hrecent

variable {subject : String}

theorem measured {u u' : TrustTables} (hu : Measured cutoff subject t u)
    (hu' : Measured cutoff subject t' u') : Trailing recent aside u u' where
  counted := hu.counted
  counted_behind := hu'.counted
  seen key := by rw [hu.seen, hu'.seen, h.seen]
  unseen a ha := by
    rw [hu'.seen]
    exact h.unseen a ha
  nodup := h.nodup
  live subject' := by
    obtain ⟨old, ys, xs, hbehind, hlive, hperm, hxs⟩ := h.live subject'
    have hys : ∀ a ∈ ys, recent a := fun a ha => hxs a (hperm.mem_iff.mpr (List.mem_append_left _ ha))
    rw [hu.live, hu'.live]
    by_cases hs : subject' = subject
    · subst hs
      rw [if_pos rfl, if_pos rfl, hbehind, hlive]
      refine ⟨unexpired cutoff old, ys, xs, ?_, ?_, hperm, hxs⟩
      · exact unexpired_append fun a ha => hrecent a (hys a ha)
      · exact unexpired_append fun a ha => hrecent a (hxs a ha)
    · rw [if_neg hs, if_neg hs]
      exact ⟨old, ys, xs, hbehind, hlive, hperm, hxs⟩

omit hrecent in
theorem insert (hattempt : recent attempt)
    (hkey : ∀ a ∈ aside, a.2.idempotencyKey ≠ attempt.idempotencyKey) {j j' : Journaled TrustTables}
    (hj : j.rows = t) (hj' : j'.rows = t') :
    Trailing recent aside (TrustTables.insert subject attempt j).rows
      (TrustTables.insert subject attempt j').rows where
  counted := insert_counted (hj ▸ h.counted)
  counted_behind := insert_counted (hj' ▸ h.counted_behind)
  seen key := by rw [insert_seen, insert_seen, hj, hj', h.seen, or_assoc]
  unseen a ha := by
    rw [insert_seen, hj', not_or]
    exact ⟨hkey a ha, h.unseen a ha⟩
  nodup := h.nodup
  live subject' := by
    subst hj hj'
    obtain ⟨old, ys, xs, hbehind, hlive, hperm, hxs⟩ := h.live subject'
    rw [live_insert h.counted, live_insert h.counted_behind]
    by_cases hseen : attempt.idempotencyKey ∈ j.rows.seenAttempts
    · rw [if_pos hseen, if_pos ((h.seen_iff hkey).mp hseen)]
      exact ⟨old, ys, xs, hbehind, hlive, hperm, hxs⟩
    · rw [if_neg hseen, if_neg (mt (h.seen_iff hkey).mpr hseen)]
      by_cases hs : subject' = subject
      · subst hs
        rw [if_pos rfl, if_pos rfl, hbehind, hlive]
        refine ⟨old, ys ++ [attempt], xs ++ [attempt], by simp, by simp, ?_, ?_⟩
        · rw [List.append_assoc]
          have hrest := hperm.append_right [attempt]
          rw [List.append_assoc] at hrest
          exact hrest.trans (List.perm_append_comm.append_left ys)
        · intro a ha
          cases List.mem_append.mp ha with
          | inl ha => exact hxs a ha
          | inr ha => exact List.mem_singleton.mp ha ▸ hattempt
      · rw [if_neg hs, if_neg hs]
        exact ⟨old, ys, xs, hbehind, hlive, hperm, hxs⟩

omit hrecent in
theorem record (hattempt : recent attempt)
    (hkey : ∀ a ∈ aside, a.2.idempotencyKey ≠ attempt.idempotencyKey) {j j' : Journaled TrustTables}
    (hj : j.rows = t) (hj' : j'.rows = t') {windowMs now : Int}
    (hrecent : ∀ a, recent a → now - windowMs < a.at_) :
    Trailing recent aside ((TrustWrite.record subject attempt).run windowMs now j).rows
      ((TrustWrite.record subject attempt).run windowMs now j').rows := by
  have hinserted : Trailing recent aside (TrustTables.insert subject attempt j).rows
      (TrustTables.insert subject attempt j').rows := h.insert hattempt hkey hj hj'
  exact hinserted.measured hrecent (hinserted.counted.measured windowMs now subject)
    (hinserted.counted_behind.measured windowMs now subject)

omit hrecent in
theorem putAside (hattempt : recent attempt) (hj : j.rows = t)
    (hnew : attempt.idempotencyKey ∉ j.rows.seenAttempts) :
    Trailing recent (aside ++ [(subject, attempt)]) (TrustTables.insert subject attempt j).rows t' where
  counted := insert_counted (hj ▸ h.counted)
  counted_behind := h.counted_behind
  seen key := by
    rw [insert_seen, hj, h.seen]
    simp only [List.mem_append, List.mem_singleton]
    constructor
    · rintro (rfl | hk | ⟨a, ha, rfl⟩)
      · exact Or.inr ⟨_, Or.inr rfl, rfl⟩
      · exact Or.inl hk
      · exact Or.inr ⟨a, Or.inl ha, rfl⟩
    · rintro (hk | ⟨a, ha | rfl, rfl⟩)
      · exact Or.inr (Or.inl hk)
      · exact Or.inr (Or.inr ⟨a, ha, rfl⟩)
      · exact Or.inl rfl
  unseen a ha := by
    cases List.mem_append.mp ha with
    | inl ha => exact h.unseen a ha
    | inr ha =>
      rw [List.mem_singleton.mp ha]
      exact fun hk => hnew (hj ▸ (h.seen _).mpr (Or.inl hk))
  nodup := by
    rw [List.map_append, List.nodup_append]
    refine ⟨h.nodup, by simp, ?_⟩
    intro key hk key' hk' heq
    obtain ⟨a, ha, rfl⟩ := List.mem_map.mp hk
    rw [List.map_singleton, List.mem_singleton] at hk'
    exact hnew (hj ▸ (h.seen _).mpr (Or.inr ⟨a, ha, heq.trans hk'⟩))
  live subject' := by
    subst hj
    obtain ⟨old, ys, xs, hbehind, hlive, hperm, hxs⟩ := h.live subject'
    rw [live_insert h.counted, if_neg hnew, attemptsOf_append, attemptsOf_singleton]
    by_cases hs : subject' = subject
    · subst hs
      rw [if_pos rfl, if_pos rfl, hlive]
      refine ⟨old, ys, xs ++ [attempt], hbehind, by simp, ?_, ?_⟩
      · rw [← List.append_assoc]
        exact hperm.append_right [attempt]
      · intro a ha
        cases List.mem_append.mp ha with
        | inl ha => exact hxs a ha
        | inr ha => exact List.mem_singleton.mp ha ▸ hattempt
    · rw [if_neg hs, if_neg hs, List.append_nil]
      exact ⟨old, ys, xs, hbehind, hlive, hperm, hxs⟩

end Trailing

variable {recent : Attempt → Prop}

/-- The first attempt put aside is inserted on the other side too. -/
theorem Trailing.catchUp {subject : String} {aside : List (String × Attempt)}
    (h : Trailing recent ((subject, attempt) :: aside) t t')
    (hj : j.rows = t') :
    Trailing recent aside t (TrustTables.insert subject attempt j).rows := by
  have hnodup := h.nodup
  rw [List.map_cons, List.nodup_cons] at hnodup
  have hnew := h.unseen _ List.mem_cons_self
  refine ⟨h.counted, insert_counted (hj ▸ h.counted_behind), ?_, ?_, hnodup.2, ?_⟩
  · intro key
    rw [insert_seen, hj, h.seen]
    simp only [List.mem_cons]
    constructor
    · rintro (hk | ⟨a, rfl | ha, rfl⟩)
      · exact Or.inl (Or.inr hk)
      · exact Or.inl (Or.inl rfl)
      · exact Or.inr ⟨a, ha, rfl⟩
    · rintro ((rfl | hk) | ⟨a, ha, rfl⟩)
      · exact Or.inr ⟨_, Or.inl rfl, rfl⟩
      · exact Or.inl hk
      · exact Or.inr ⟨a, Or.inr ha, rfl⟩
  · intro a ha
    rw [insert_seen, hj, not_or]
    refine ⟨?_, h.unseen a (List.mem_cons_of_mem _ ha)⟩
    exact fun heq => hnodup.1 (heq ▸ List.mem_map_of_mem ha)
  · intro subject'
    subst hj
    obtain ⟨old, ys, xs, hbehind, hlive, hperm, hxs⟩ := h.live subject'
    rw [← List.singleton_append, attemptsOf_append, attemptsOf_singleton] at hperm
    rw [live_insert h.counted_behind, if_neg hnew]
    by_cases hs : subject' = subject
    · subst hs
      rw [if_pos rfl] at hperm
      rw [if_pos rfl, hbehind]
      refine ⟨old, ys ++ [attempt], xs, by simp, hlive, ?_, hxs⟩
      rwa [List.append_assoc]
    · rw [if_neg hs, List.nil_append] at hperm
      rw [if_neg hs]
      exact ⟨old, ys, xs, hbehind, hlive, hperm, hxs⟩

/-- Those of the attempts that a store has not seen. -/
def unseenOf (backs : List (String × Attempt)) (t : TrustTables) : List (String × Attempt) :=
  backs.filter (·.2.idempotencyKey ∉ t.seenAttempts)

theorem unseenOf_append (backs more : List (String × Attempt)) (t : TrustTables) :
    unseenOf (backs ++ more) t = unseenOf backs t ++ unseenOf more t :=
  List.filter_append backs more

theorem unseenOf_congr {backs : List (String × Attempt)}
    (h : ∀ a ∈ backs, a.2.idempotencyKey ∈ t.seenAttempts ↔ a.2.idempotencyKey ∈ t'.seenAttempts) :
    unseenOf backs t = unseenOf backs t' := by
  apply List.filter_congr
  intro a ha
  rw [decide_eq_decide, h a ha]

/-- An attempt inserted on the one side is aside if it is new. -/
theorem Trailing.bumped {aside : List (String × Attempt)}
    (h : Trailing recent aside t t') (subject : String) (hattempt : recent attempt) (hj : j.rows = t) :
    Trailing recent (aside ++ unseenOf [(subject, attempt)] t)
      (TrustTables.insert subject attempt j).rows t' := by
  subst hj
  by_cases hseen : attempt.idempotencyKey ∈ j.rows.seenAttempts
  · have hsame : TrustTables.insert subject attempt j = j := if_pos hseen
    have hnone : unseenOf [(subject, attempt)] j.rows = [] := by simp [unseenOf, hseen]
    rw [hsame, hnone, List.append_nil]
    exact h
  · have hone : unseenOf [(subject, attempt)] j.rows = [(subject, attempt)] := by simp [unseenOf, hseen]
    rw [hone]
    exact h.putAside hattempt rfl hseen

def putBackAll (backs : List (String × Attempt)) (j : Journaled TrustTables) : Journaled TrustTables :=
  backs.foldl (fun j a => insert a.1 a.2 j) j

theorem putBackAll_closed (backs : List (String × Attempt)) (h : j.undos = none) :
    (putBackAll backs j).undos = none := by
  induction backs generalizing j with
  | nil => exact h
  | cons a backs ih => exact ih (insert_closed h)

/-- Once all attempts are put back, none is aside. -/
theorem Trailing.settled {recent : Attempt → Prop} {t : TrustTables} (backs : List (String × Attempt))
    {j : Journaled TrustTables} (h : Trailing recent (unseenOf backs j.rows) t j.rows)
    (hnodup : (backs.map (·.2.idempotencyKey)).Nodup) :
    Trailing recent [] t (putBackAll backs j).rows := by
  induction backs generalizing j with
  | nil => exact h
  | cons a backs ih =>
    rw [List.map_cons, List.nodup_cons] at hnodup
    have hstep : putBackAll (a :: backs) j = putBackAll backs (TrustTables.insert a.1 a.2 j) := rfl
    rw [hstep]
    apply ih ?_ hnodup.2
    by_cases hseen : a.2.idempotencyKey ∈ j.rows.seenAttempts
    · have hunseen : unseenOf (a :: backs) j.rows = unseenOf backs j.rows := by simp [unseenOf, hseen]
      have hsame : TrustTables.insert a.1 a.2 j = j := if_pos hseen
      rw [hsame]
      rwa [hunseen] at h
    · have hunseen : unseenOf (a :: backs) j.rows = (a.1, a.2) :: unseenOf backs j.rows := by
        simp [unseenOf, hseen]
      have hrest : unseenOf backs (TrustTables.insert a.1 a.2 j).rows = unseenOf backs j.rows := by
        apply unseenOf_congr
        intro b hb
        rw [insert_seen]
        constructor
        · rintro (heq | hk)
          · exact absurd (heq ▸ List.mem_map_of_mem hb) hnodup.1
          · exact hk
        · exact Or.inr
      rw [hunseen] at h
      rw [hrest]
      exact h.catchUp rfl

theorem Trailing.same (h : Trailing recent [] t t') : SameAttempts t t' where
  seen key := by
    rw [h.seen]
    simp
  live subject := by
    obtain ⟨old, ys, xs, hbehind, hlive, hperm, -⟩ := h.live subject
    rw [attemptsOf_nil, List.append_nil] at hperm
    rw [hbehind, hlive]
    exact hperm.append_left old

end TrustTables

end EconomyLab
