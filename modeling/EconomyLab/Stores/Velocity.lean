import EconomyLab.Foundation.Recoil
import EconomyLab.Stores.World

/-!
# The velocity windows of the trust store

A window keeps its attempts with the oldest first; those before `head` have aged out of the
running sum. Measuring moves the head and is not journaled, so a rollback gives back what a
later reading sees, not the same rows.
-/

namespace EconomyLab

open Foundation Journaled

def VELOCITY_CURRENCY : Currency := .credit

def noAttempts : TrustWindow := ⟨[], 0, 0⟩

namespace TrustWindow

/-- The attempts the running sum covers. -/
def live (w : TrustWindow) : List Attempt := w.attempts.drop w.head

def sumOf (attempts : List Attempt) : Int := (attempts.map (·.amount.minor)).sum

/-- The loop of `measure` over the live attempts, oldest first. -/
def advance (cutoff : Int) : List Attempt → Nat → Int → Nat × Int
  | [], head, sumMinor => (head, sumMinor)
  | attempt :: live, head, sumMinor =>
    if attempt.at_ ≤ cutoff then advance cutoff live (head + 1) (sumMinor - attempt.amount.minor)
    else (head, sumMinor)

/-- The expired prefix is passed, and dropped once it is at least half of the window. -/
def measure (cutoff : Int) (w : TrustWindow) : TrustWindow :=
  let passed := advance cutoff w.live w.head w.sumMinor
  if 0 < passed.1 ∧ w.attempts.length ≤ passed.1 * 2 then ⟨w.attempts.drop passed.1, 0, passed.2⟩
  else ⟨w.attempts, passed.1, passed.2⟩

/-- `insert` on a window: the attempt is the newest. -/
def push (attempt : Attempt) (w : TrustWindow) : TrustWindow :=
  { w with attempts := w.attempts ++ [attempt], sumMinor := w.sumMinor + attempt.amount.minor }

/-- `remove` on a window: an attempt that had aged out moves the head back instead of the sum. -/
def without (attempt : Attempt) (w : TrustWindow) : TrustWindow :=
  match w.attempts.findIdx? (·.idempotencyKey = attempt.idempotencyKey) with
  | none => w
  | some i =>
    { attempts := w.attempts.eraseIdx i
      head := if w.head ≤ i then w.head else w.head - 1
      sumMinor := if w.head ≤ i then w.sumMinor - attempt.amount.minor else w.sumMinor }

def velocity (subject : String) (w : TrustWindow) : Except Fault Velocity := do
  let spent ← toAmount VELOCITY_CURRENCY w.sumMinor
  return { subject
           windowStart := (w.live.head?.map Attempt.at_).getD 0
           spent
           attempts := w.attempts.length - w.head }

end TrustWindow

namespace TrustTables

def window (t : TrustTables) (subject : String) : TrustWindow :=
  (t.bySubject.get subject).getD noAttempts

def remove (subject : String) (attempt : Attempt) (t : TrustTables) : TrustTables :=
  let seenAttempts := t.seenAttempts.filter (· ≠ attempt.idempotencyKey)
  match t.bySubject.get subject with
  | none => { t with seenAttempts }
  | some window => ⟨t.bySubject.set subject (window.without attempt), seenAttempts⟩

/-- A repeated attempt changes nothing and records nothing. -/
def insert (subject : String) (attempt : Attempt) (j : Journaled TrustTables) :
    Journaled TrustTables :=
  if attempt.idempotencyKey ∈ j.rows.seenAttempts then j
  else
    j.write
      ⟨j.rows.bySubject.set subject ((j.rows.window subject).push attempt),
        attempt.idempotencyKey :: j.rows.seenAttempts⟩
      (remove subject attempt)

theorem insert_closed {subject : String} {attempt : Attempt} {j : Journaled TrustTables}
    (hclosed : j.undos = none) : (insert subject attempt j).undos = none := by
  unfold insert
  split
  · exact hclosed
  · simp only [Journaled.write, Journaled.record, hclosed, Option.map_none]

/-- `measure` moves the head of the subject's window, if it has one. -/
def measure (windowMs now : Int) (subject : String) (t : TrustTables) : TrustTables :=
  match t.bySubject.get subject with
  | none => t
  | some window =>
    { t with bySubject := t.bySubject.set subject (window.measure (now - windowMs)) }

def read (windowMs now : Int) (subject : String) (t : TrustTables) : Except Fault Velocity :=
  ((t.window subject).measure (now - windowMs)).velocity subject

end TrustTables

namespace TrustWindow

theorem advance_eq (cutoff : Int) (live : List Attempt) (head : Nat) (sumMinor : Int) :
    advance cutoff live head sumMinor =
      (head + (live.takeWhile (·.at_ ≤ cutoff)).length,
        sumMinor - sumOf (live.takeWhile (·.at_ ≤ cutoff))) := by
  induction live generalizing head sumMinor with
  | nil => simp [advance, sumOf]
  | cons attempt live ih =>
    by_cases ha : attempt.at_ ≤ cutoff
    · simp only [advance, if_pos ha, ih, List.takeWhile_cons, decide_eq_true ha, if_true]
      simp only [sumOf, List.length_cons, List.map_cons, List.sum_cons, Prod.mk.injEq]
      constructor <;> omega
    · simp [advance, ha, sumOf]

/-- The head is inside the window, and the running sum covers what is live. -/
structure Counted (w : TrustWindow) : Prop where
  head : w.head ≤ w.attempts.length
  sumMinor : w.sumMinor = sumOf w.live

theorem sumOf_append (xs ys : List Attempt) : sumOf (xs ++ ys) = sumOf xs + sumOf ys := by
  simp [sumOf]

theorem drop_takeWhile_length (p : Attempt → Bool) (xs : List Attempt) :
    xs.drop (xs.takeWhile p).length = xs.dropWhile p := by
  induction xs with
  | nil => rfl
  | cons x xs ih =>
    by_cases hx : p x
    · simpa [List.takeWhile_cons, hx] using ih
    · simp [hx]

variable {w cur t : TrustWindow}

/-- Measuring drops the expired attempts from the live ones and from the sum. -/
theorem measure_spec (h : w.Counted) (cutoff : Int) :
    (w.measure cutoff).live = w.live.dropWhile (·.at_ ≤ cutoff) ∧ (w.measure cutoff).Counted ∧
      (w.measure cutoff).attempts <:+ w.attempts := by
  have hsplit : w.live.takeWhile (·.at_ ≤ cutoff) ++ w.live.dropWhile (·.at_ ≤ cutoff) = w.live :=
    List.takeWhile_append_dropWhile
  have hsum : w.sumMinor - sumOf (w.live.takeWhile (·.at_ ≤ cutoff)) =
      sumOf (w.live.dropWhile (·.at_ ≤ cutoff)) := by
    rw [h.sumMinor]
    conv_lhs => rw [← hsplit]
    rw [sumOf_append, hsplit]
    omega
  have hlen : w.head + (w.live.takeWhile (·.at_ ≤ cutoff)).length ≤ w.attempts.length := by
    have hle := (List.takeWhile_prefix (l := w.live) (·.at_ ≤ cutoff)).length_le
    have hlive : w.live.length = w.attempts.length - w.head := List.length_drop
    have hhead := h.head
    omega
  have hlive : w.attempts.drop (w.head + (w.live.takeWhile (·.at_ ≤ cutoff)).length) =
      w.live.dropWhile (·.at_ ≤ cutoff) := by
    rw [← List.drop_drop]
    exact drop_takeWhile_length _ w.live
  unfold measure
  simp only [advance_eq]
  split
  · exact ⟨hlive, ⟨Nat.zero_le _, hsum.trans (congrArg sumOf hlive.symm)⟩,
      List.drop_suffix _ _⟩
  · exact ⟨hlive, ⟨hlen, hsum.trans (congrArg sumOf hlive.symm)⟩, List.suffix_refl _⟩

theorem velocity_eq {w w' : TrustWindow} (h : w.Counted) (h' : w'.Counted) (hlive : w.live = w'.live)
    (subject : String) : w.velocity subject = w'.velocity subject := by
  have hcount : w.attempts.length - w.head = w'.attempts.length - w'.head := by
    have hlen := congrArg List.length hlive
    rwa [live, live, List.length_drop, List.length_drop] at hlen
  unfold velocity
  rw [h.sumMinor, h'.sumMinor, hlive, hcount]

/-- `t` may stand for `cur` in the eyes of a reader who comes when all up to `floor` has expired. -/
structure Stands (floor : Int) (cur t : TrustWindow) : Prop where
  counted : t.Counted
  attempts : t.attempts <:+ cur.attempts
  live : ∃ aged, cur.live = aged ++ t.live ∧ ∀ a ∈ aged, a.at_ ≤ floor

theorem Stands.self {floor : Int} (h : w.Counted) : Stands floor w w :=
  ⟨h, List.suffix_refl _, [], rfl, by simp⟩

/-- Measuring what is not younger than the floor does not change what may stand for it. -/
theorem Stands.of_measure {floor cutoff : Int} (hcur : cur.Counted)
    (hle : cutoff ≤ floor) (h : Stands floor (cur.measure cutoff) t) : Stands floor cur t := by
  obtain ⟨hlive, -, hsuffix⟩ := measure_spec hcur cutoff
  obtain ⟨aged, haged, hold⟩ := h.live
  refine ⟨h.counted, h.attempts.trans hsuffix,
    cur.live.takeWhile (·.at_ ≤ cutoff) ++ aged, ?_, fun a ha => ?_⟩
  · rw [List.append_assoc, ← haged, hlive]
    exact List.takeWhile_append_dropWhile.symm
  · cases List.mem_append.mp ha with
    | inl ha =>
      have hat := List.mem_takeWhile_imp ha
      exact Int.le_trans (of_decide_eq_true hat) hle
    | inr ha => exact hold a ha

/-- A later reading cannot tell them apart. -/
theorem Stands.velocity {floor cutoff : Int} (hcur : cur.Counted)
    (hle : floor ≤ cutoff) (h : Stands floor cur t) (subject : String) :
    (t.measure cutoff).velocity subject = (cur.measure cutoff).velocity subject := by
  obtain ⟨hlive, hcounted, -⟩ := measure_spec hcur cutoff
  obtain ⟨hlive', hcounted', -⟩ := measure_spec h.counted cutoff
  obtain ⟨aged, haged, hold⟩ := h.live
  apply velocity_eq hcounted' hcounted
  rw [hlive, hlive', haged]
  symm
  apply List.dropWhile_append_of_pos
  exact fun a ha => decide_eq_true (Int.le_trans (hold a ha) hle)

theorem live_push (h : w.Counted) (attempt : Attempt) : (w.push attempt).live = w.live ++ [attempt] :=
  List.drop_append_of_le_length h.head

theorem Counted.push (h : w.Counted) (attempt : Attempt) : (w.push attempt).Counted := by
  constructor
  · have hhead := h.head
    simp only [TrustWindow.push, List.length_append, List.length_singleton]
    omega
  · rw [live_push h, sumOf_append, ← h.sumMinor]
    simp [TrustWindow.push, sumOf]

theorem findIdx_push {attempts : List Attempt} {attempt : Attempt}
    (h : ∀ a ∈ attempts, a.idempotencyKey ≠ attempt.idempotencyKey) :
    (attempts ++ [attempt]).findIdx? (·.idempotencyKey = attempt.idempotencyKey) =
      some attempts.length := by
  have hnone : attempts.findIdx? (·.idempotencyKey = attempt.idempotencyKey) = none := by
    apply List.findIdx?_eq_none_iff.mpr
    intro a ha
    simpa using h a ha
  simp [List.findIdx?_append, hnone]

/-- Taking the newest attempt out of whatever stands for the window that has it leaves what
stands for the window before it came. -/
theorem Stands.without {floor : Int} {attempt : Attempt} (hcur : cur.Counted)
    (hkey : ∀ a ∈ cur.attempts, a.idempotencyKey ≠ attempt.idempotencyKey)
    (h : Stands floor (cur.push attempt) t) : Stands floor cur (t.without attempt) := by
  obtain ⟨aged, haged, hold⟩ := h.live
  rw [live_push hcur] at haged
  have hhead := h.counted.head
  have hsum := h.counted.sumMinor
  obtain ⟨dropped, hattempts⟩ := h.attempts
  rcases List.eq_nil_or_concat t.attempts with hnil | ⟨kept, last, hkept⟩
  · -- the attempt was compacted away, so all that was live before it had expired too
    have hwithout : t.without attempt = t := by simp [TrustWindow.without, hnil]
    have hlive : t.live = [] := by simp [TrustWindow.live, hnil]
    rw [hwithout]
    refine ⟨h.counted, hnil ▸ List.nil_suffix, cur.live, by rw [hlive, List.append_nil], fun a ha => ?_⟩
    rw [hlive, List.append_nil] at haged
    exact hold a (haged ▸ List.mem_append_left _ ha)
  · rw [List.concat_eq_append] at hkept
    have hattempts : dropped ++ kept ++ [last] = cur.attempts ++ [attempt] := by
      rw [List.append_assoc, ← hkept]
      exact hattempts
    obtain ⟨hdropped, hlast⟩ := List.append_inj' hattempts rfl
    cases hlast
    have hne : ∀ a ∈ kept, a.idempotencyKey ≠ attempt.idempotencyKey :=
      fun a ha => hkey a (hdropped ▸ List.mem_append_right _ ha)
    have hsuffix : kept <:+ cur.attempts := ⟨dropped, hdropped⟩
    have herase : (kept ++ [attempt]).eraseIdx kept.length = kept := by
      rw [List.eraseIdx_append_of_length_le (Nat.le_refl _)]
      simp
    rw [hkept, List.length_append, List.length_singleton] at hhead
    unfold TrustWindow.without
    simp only [hkept, findIdx_push hne, herase]
    by_cases hin : t.head ≤ kept.length
    · have hlive : t.live = kept.drop t.head ++ [attempt] := by
        rw [TrustWindow.live, hkept]
        exact List.drop_append_of_le_length hin
      rw [hlive, ← List.append_assoc] at haged
      have hbefore : cur.live = aged ++ kept.drop t.head := (List.append_inj' haged rfl).1
      simp only [if_pos hin]
      refine ⟨⟨hin, ?_⟩, hsuffix, aged, hbefore, hold⟩
      rw [hsum, hlive, sumOf_append]
      simp [sumOf, TrustWindow.live]
    · have hend : t.head = kept.length + 1 := by omega
      have hlive : t.live = [] := by simp [TrustWindow.live, hkept, hend]
      simp only [if_neg hin]
      simp only [hend, Nat.add_sub_cancel]
      refine ⟨⟨Nat.le_refl _, ?_⟩, hsuffix, cur.live, by simp [TrustWindow.live], fun a ha => ?_⟩
      · rw [hsum, hlive]
        simp [TrustWindow.live]
      · rw [hlive, List.append_nil] at haged
        exact hold a (haged ▸ List.mem_append_left _ ha)

end TrustWindow

namespace TrustTables

/-- Windows that stand for windows, with the same attempts seen. -/
structure Near (floor : Int) (cur t : TrustTables) : Prop where
  seen : t.seenAttempts = cur.seenAttempts
  windows : ∀ subject, (cur.window subject).Stands floor (t.window subject)

structure Counted (t : TrustTables) : Prop where
  windows : ∀ subject, (t.window subject).Counted
  seen : ∀ subject, ∀ a ∈ (t.window subject).attempts, a.idempotencyKey ∈ t.seenAttempts

theorem empty_counted : Counted ⟨Table.empty, []⟩ where
  windows := by
    intro subject
    exact ⟨le_rfl, rfl⟩
  seen := by
    intro subject a ha
    cases ha

theorem Counted.near {t : TrustTables} (h : t.Counted) (floor : Int) : Near floor t t :=
  ⟨rfl, fun subject => .self (h.windows subject)⟩

theorem Near.counted {floor : Int} {cur t : TrustTables} (hcur : cur.Counted) (h : Near floor cur t) :
    t.Counted where
  windows subject := (h.windows subject).counted
  seen subject a ha := h.seen ▸ hcur.seen subject a ((h.windows subject).attempts.mem ha)

/-- A reading at a time when all up to `floor` has expired answers the same. -/
theorem Near.read_eq {floor windowMs now : Int} {cur t : TrustTables} (hcur : cur.Counted)
    (h : Near floor cur t) (hle : floor ≤ now - windowMs) (subject : String) :
    t.read windowMs now subject = cur.read windowMs now subject :=
  (h.windows subject).velocity (hcur.windows subject) hle subject

theorem window_set (t : TrustTables) (subject subject' : String) (w : TrustWindow) (seen : List String) :
    window ⟨t.bySubject.set subject w, seen⟩ subject' =
      if subject' = subject then w else t.window subject' := by
  by_cases hs : subject' = subject
  · simp [window, hs]
  · simp [window, hs]

theorem window_remove (subject : String) (attempt : Attempt) (t : TrustTables) (subject' : String) :
    (t.remove subject attempt).window subject' =
      if subject' = subject then (t.window subject).without attempt else t.window subject' := by
  unfold remove
  cases hs : t.bySubject.get subject with
  | none =>
    by_cases heq : subject' = subject
    · simp [window, heq, hs, TrustWindow.without, noAttempts]
    · simp [window, heq]
  | some w =>
    rw [window_set]
    simp [window, hs]

theorem window_measure (windowMs now : Int) (subject : String) (t : TrustTables) (subject' : String) :
    (t.measure windowMs now subject).window subject' =
      if subject' = subject then (t.window subject).measure (now - windowMs)
      else t.window subject' := by
  unfold measure
  cases hs : t.bySubject.get subject with
  | none =>
    by_cases heq : subject' = subject
    · simp [window, heq, hs, TrustWindow.measure, TrustWindow.advance, TrustWindow.live, noAttempts]
    · simp [heq]
  | some w =>
    rw [window_set]
    simp [window, hs]

theorem measure_seen (windowMs now : Int) (subject : String) (t : TrustTables) :
    (t.measure windowMs now subject).seenAttempts = t.seenAttempts := by
  unfold measure
  cases t.bySubject.get subject <;> rfl

theorem Counted.measure {t : TrustTables} (h : t.Counted) (windowMs now : Int) (subject : String) :
    (t.measure windowMs now subject).Counted := by
  obtain ⟨-, hcounted, hsuffix⟩ := TrustWindow.measure_spec (h.windows subject) (now - windowMs)
  constructor
  · intro subject'
    rw [window_measure]
    split
    · exact hcounted
    · exact h.windows subject'
  · intro subject' a ha
    rw [window_measure] at ha
    rw [measure_seen]
    split at ha
    · exact h.seen subject a (hsuffix.mem ha)
    · exact h.seen subject' a ha

theorem Counted.push {t : TrustTables} (h : t.Counted) (subject : String) (attempt : Attempt) :
    Counted ⟨t.bySubject.set subject ((t.window subject).push attempt),
      attempt.idempotencyKey :: t.seenAttempts⟩ := by
  constructor
  · intro subject'
    rw [window_set]
    split
    · exact (h.windows subject).push attempt
    · exact h.windows subject'
  · intro subject' a ha
    rw [window_set] at ha
    split at ha
    · cases List.mem_append.mp ha with
      | inl ha => exact List.mem_cons_of_mem _ (h.seen subject a ha)
      | inr ha =>
        rw [List.mem_singleton.mp ha]
        exact List.mem_cons_self
    · exact List.mem_cons_of_mem _ (h.seen subject' a ha)

/-- What the journal of the trust store keeps, for a floor no reading of the unit goes beyond. -/
structure Kept (floor : Int) (j₀ j : Journaled TrustTables) : Prop where
  recoils : Recoils (Near floor) j₀ j
  counted : j.rows.Counted

variable {floor : Int} {j₀ j : Journaled TrustTables}

theorem Kept.insert (h : Kept floor j₀ j) (subject : String) (attempt : Attempt) :
    Kept floor j₀ (insert subject attempt j) := by
  unfold TrustTables.insert
  split
  · exact h
  · rename_i hnew
    refine ⟨h.recoils.write fun t ht => ⟨?_, fun subject' => ?_⟩, h.counted.push subject attempt⟩
    · have hseen : t.seenAttempts = attempt.idempotencyKey :: j.rows.seenAttempts := ht.seen
      have hrest : ∀ k ∈ j.rows.seenAttempts, k ≠ attempt.idempotencyKey :=
        fun k hk heq => hnew (heq ▸ hk)
      have hfilter : (t.seenAttempts.filter (· ≠ attempt.idempotencyKey)) = j.rows.seenAttempts := by
        rw [hseen]
        simpa using hrest
      unfold remove
      cases t.bySubject.get subject <;> exact hfilter
    · have hstands := ht.windows subject'
      rw [window_set] at hstands
      rw [window_remove]
      split at hstands
      · rename_i heq
        subst heq
        rw [if_pos rfl]
        apply hstands.without (h.counted.windows subject')
        exact fun a ha heq => hnew (heq ▸ h.counted.seen subject' a ha)
      · rename_i hne
        rw [if_neg hne]
        exact hstands

theorem Kept.measure (h : Kept floor j₀ j) {windowMs now : Int} (hle : now - windowMs ≤ floor)
    (subject : String) :
    Kept floor j₀ { j with rows := j.rows.measure windowMs now subject } := by
  refine ⟨h.recoils.silent fun t ht => ⟨?_, fun subject' => ?_⟩, h.counted.measure _ _ _⟩
  · rw [ht.seen, measure_seen]
  · have hstands := ht.windows subject'
    rw [window_measure] at hstands
    split at hstands
    · rename_i heq
      subst heq
      exact hstands.of_measure (h.counted.windows subject') hle
    · exact hstands

end TrustTables

inductive TrustWrite
  | read (subject : String)
  | bump (subject : String) (attempt : Attempt)
  | record (subject : String) (attempt : Attempt)

namespace TrustWrite

/-- `record` is `bump` and then `read`. -/
def run (windowMs now : Int) : TrustWrite → Journaled TrustTables → Journaled TrustTables
  | read subject, j => { j with rows := j.rows.measure windowMs now subject }
  | bump subject attempt, j => TrustTables.insert subject attempt j
  | record subject attempt, j =>
    let j' := TrustTables.insert subject attempt j
    { j' with rows := j'.rows.measure windowMs now subject }

theorem run_kept {floor windowMs now : Int} {j₀ j : Journaled TrustTables}
    (h : TrustTables.Kept floor j₀ j) (hle : now - windowMs ≤ floor) (w : TrustWrite) :
    TrustTables.Kept floor j₀ (w.run windowMs now j) := by
  cases w with
  | read subject => exact h.measure hle subject
  | bump subject attempt => exact h.insert subject attempt
  | record subject attempt => exact (h.insert subject attempt).measure hle subject

theorem run_counted {windowMs now : Int} {j : Journaled TrustTables} (h : j.rows.Counted)
    (w : TrustWrite) : (w.run windowMs now j).rows.Counted :=
  (run_kept ⟨.refl (TrustTables.Near (now - windowMs)) j, h⟩ (Int.le_refl _) w).counted

theorem run_recording (windowMs now : Int) (w : TrustWrite) (j : Journaled TrustTables) :
    (w.run windowMs now j).recording = j.recording := by
  have hinsert : ∀ subject attempt, (TrustTables.insert subject attempt j).recording = j.recording := by
    intro subject attempt
    unfold TrustTables.insert
    split
    · rfl
    · exact write_recording _ _ _
  cases w with
  | read subject => rfl
  | bump subject attempt => exact hinsert subject attempt
  | record subject attempt => exact hinsert subject attempt

end TrustWrite

end EconomyLab
