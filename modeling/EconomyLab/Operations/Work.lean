import EconomyLab.Foundation.Monitor
import EconomyLab.Stores.View

/-!
# A handler's work

What a handler does through its unit, with a record of the accounts it locks, the balances it
reads and the lines it posts. Every handler works on rows only, and stakes no key of its own
outside the reversal family.
-/

namespace EconomyLab

open Foundation Text

inductive Touch
  | lock (accounts : List AccountRef)
  | balance (account : AccountRef)
  | post (legs : List Leg)

def Touch.posted : Touch → List Leg
  | post legs => legs
  | _ => []

def postedLegs (trace : List Touch) : List Leg := trace.flatMap Touch.posted

@[simp] theorem postedLegs_nil : postedLegs [] = [] := rfl

@[simp] theorem postedLegs_append (trace later : List Touch) :
    postedLegs (trace ++ later) = postedLegs trace ++ postedLegs later := List.flatMap_append

/-- The keys that handlers stake themselves: `reversed:<id>`. -/
def isReversalKey (key : String) : Bool := startsWith key "reversed:"

/-- The ledger after the lines of some postings. -/
structure Booked (legs : List Leg) (t t' : LedgerTables) : Prop where
  log : ∃ rows, t'.log = t.log ++ rows ∧ rows.flatMap StoredPosting.legs = legs
  balance : ∀ a, t'.balanceOf a = t.balanceOf a + total (deltas legs) a

theorem Booked.refl (t : LedgerTables) : Booked [] t t :=
  ⟨⟨[], (List.append_nil _).symm, rfl⟩, fun _ => (Int.add_zero _).symm⟩

theorem Booked.trans {legs later : List Leg} {t t' t'' : LedgerTables} (h : Booked legs t t')
    (h' : Booked later t' t'') : Booked (legs ++ later) t t'' := by
  obtain ⟨rows, hlog, hlegs⟩ := h.log
  obtain ⟨rows', hlog', hlegs'⟩ := h'.log
  constructor
  · refine ⟨rows ++ rows', ?_, ?_⟩
    · rw [hlog', hlog, List.append_assoc]
    · rw [List.flatMap_append, hlegs, hlegs']
  · intro a
    rw [h'.balance, h.balance, deltas_append, total_append, Int.add_assoc]

theorem postEntry_booked {digest : Digest} {now : Int} {posting : Posting} {l l' : MemoryLedger}
    {transaction : Transaction} (h : postEntry digest now posting l = (.ok transaction, l')) :
    Booked (dropZeroLegs posting).legs l.tables l'.tables := by
  rcases postEntry_row digest now posting l with ⟨e, he, -⟩ | ⟨row, next, -, hrow, -, hnext, -, -, hrun⟩
  · rw [h] at he
    cases he
  · rw [hrun] at h
    cases h
    have hlegs : (dropZeroLegs posting).legs = row.legs := (congrArg Posting.legs hrow).symm
    rw [hlegs]
    constructor
    · exact ⟨[row], rfl, List.append_nil _⟩
    · intro a
      have hget := nextBalances_get hnext a
      have hafter : (applyPosting l.tables row next).balanceOf a = (next.get a).getD 0 := rfl
      have hbefore : l.tables.balanceOf a = (l.tables.balances.get a).getD 0 := rfl
      change (applyPosting l.tables row next).balanceOf a = l.tables.balanceOf a + _
      rw [hafter, hbefore, hget]
      split
      · rfl
      · rename_i hmem
        have hzero : total (deltas row.legs) a = 0 :=
          total_eq_zero (fun h => hmem (mem_deltas_account.mp h))
        rw [hzero, Int.add_zero]

/-! ## Work -/

structure Work (α : Type) where
  txn : Txn α
  trace : World → List Touch
  unaware : Txn.Unaware txn
  keys : ∀ w key, isReversalKey key = false →
    (txn.run w).2.idempotency.rows.committed.get key = w.idempotency.rows.committed.get key
  books : ∀ {w w' a}, txn.run w = (.ok a, w') → Booked (postedLegs (trace w)) w.ledger.tables
    w'.ledger.tables

namespace Work

variable {α β : Type}

/-- Work that leaves the ledger and the committed keys alone. -/
def quiet (x : Txn α) (hx : Txn.Unaware x) (hledger : ∀ w, (x.run w).2.ledger = w.ledger)
    (hkeys : ∀ w, (x.run w).2.idempotency = w.idempotency) : Work α where
  txn := x
  trace _ := []
  unaware := hx
  keys w _ _ := by rw [hkeys w]
  books := by
    intro w w' a h
    have hsame := hledger w
    rw [h] at hsame
    rw [hsame]
    exact .refl _

protected def pure (a : α) : Work α := quiet (Pure.pure a) (.pure a) (fun _ => rfl) fun _ => rfl

protected def bind (x : Work α) (f : α → Work β) : Work β where
  txn := x.txn >>= fun a => (f a).txn
  trace w := x.trace w ++
    match x.txn.run w with
    | (.ok a, w') => (f a).trace w'
    | (.error _, _) => []
  unaware := x.unaware.bind fun a => (f a).unaware
  keys := by
    intro w key hkey
    have hx := x.keys w key hkey
    rw [Txn.run_bind]
    rcases hr : x.txn.run w with ⟨res, w'⟩
    rw [hr] at hx
    cases res with
    | error e => exact hx
    | ok a => exact ((f a).keys w' key hkey).trans hx
  books := by
    intro w w' b h
    obtain ⟨a, w₁, hx, hf⟩ := Txn.bind_ok h
    simp only [hx, postedLegs_append]
    exact (x.books hx).trans ((f a).books hf)

instance : Monad Work where
  pure := Work.pure
  bind := Work.bind

def lift (r : Except Fault α) : Work α := quiet (.lift r) (.lift r) (fun _ => rfl) fun _ => rfl

def read (f : World → Except Fault α) (h : ∀ w, f w = f w.view) : Work α :=
  quiet (.read f) (.read h) (fun _ => rfl) fun _ => rfl

def now (env : Env) : Work Int := quiet (.now env) (.now env) (fun _ => rfl) fun _ => rfl

def mint (env : Env) (kind : String) : Work String :=
  quiet (.mint env kind) (.mint env kind) (fun _ => rfl) fun _ => rfl

/-- The in-memory ledger's locks are no-ops: one transaction runs at a time. -/
def lockAll (accounts : List AccountRef) : Work Unit :=
  { Work.pure () with
    trace := fun _ => [.lock accounts]
    books := by
      intro w w' a h
      cases h
      exact .refl _ }

def balance (account : AccountRef) : Work Amount where
  txn := .balance account
  trace _ := [.balance account]
  unaware := .balance account
  keys _ _ _ := rfl
  books := by
    intro w w' a h
    have hsame : w = w' := congrArg Prod.snd h
    exact hsame ▸ .refl _

/-- Several balances read one after the other, and what is made of them. -/
def reading (accounts : List AccountRef) (f : (AccountRef → Except Fault Amount) → Except Fault α) :
    Work α where
  txn := .read fun w => f w.ledger.tables.balance
  trace _ := accounts.map .balance
  unaware := .read fun _ => rfl
  keys _ _ _ := rfl
  books := by
    intro w w' a h
    have hsame : w = w' := congrArg Prod.snd h
    have hnone : postedLegs (accounts.map .balance) = [] := by
      simp [postedLegs, List.flatMap_map, Touch.posted]
    rw [hnone]
    exact hsame ▸ .refl _

def postEntry (env : Env) (posting : Posting) : Work Transaction where
  txn := .postEntry env posting
  trace _ := [.post (dropZeroLegs posting).legs]
  unaware := .postEntry env posting
  keys _ _ _ := rfl
  books := by
    intro w w' a h
    have hanswer : (EconomyLab.postEntry env.digest (env.clock w.ticks) posting w.ledger).1 = .ok a :=
      congrArg Prod.fst h
    have hledger : (EconomyLab.postEntry env.digest (env.clock w.ticks) posting w.ledger).2 = w'.ledger :=
      congrArg (fun r => r.2.ledger) h
    have hlegs : postedLegs [.post (dropZeroLegs posting).legs] = (dropZeroLegs posting).legs :=
      List.append_nil _
    rw [hlegs]
    exact postEntry_booked (Prod.ext hanswer hledger)

/-! ### Rows -/

def sale (write : SaleWrite) : Work Unit := quiet (.sale write) (.sale write) (fun _ => rfl) fun _ => rfl

def entitlement (write : EntitlementWrite) : Work Unit :=
  quiet (.entitlement write) (.entitlement write) (fun _ => rfl) fun _ => rfl

def subscription (write : SubscriptionWrite) : Work Unit :=
  quiet (.subscription write) (.subscription write) (fun _ => rfl) fun _ => rfl

def saga (write : SagaWrite) : Work Unit := quiet (.saga write) (.saga write) (fun _ => rfl) fun _ => rfl

def advanceSaga (id : String) (source target : SagaState) (patch : Saga → Saga) : Work Bool :=
  quiet (.advanceSaga id source target patch) (.advanceSaga id source target patch) (fun _ => rfl) fun _ =>
    rfl

def promo (write : PromoWrite) : Work Unit :=
  quiet (.promo write) (.promo write) (fun _ => rfl) fun _ => rfl

def putAccruals (batch : List AccrualRow) : Work Unit :=
  quiet (.putAccruals batch) (.putAccruals batch) (fun _ => rfl) fun _ => rfl

def markAccruals (keys : List (String × String × Nat)) (status : AccrualStatus) (settledTxnId : String) :
    Work Unit :=
  quiet (.markAccruals keys status settledTxnId) (.markAccruals keys status settledTxnId) (fun _ => rfl)
    fun _ => rfl

def emit (env : Env) (draft : Txn.EventDraft) : Work Unit :=
  quiet (.emit env draft) (.emit env draft) (fun _ => rfl) fun _ => rfl

def granted (env : Env) (key : String) (w : World) : World :=
  w.withIdempotency (claimKey (env.clock w.ticks) key w.idempotency)

def recorded (env : Env) (key : String) (transaction : Transaction) (w : World) : World :=
  w.withIdempotency (recordKey (env.clock w.ticks) key transaction w.idempotency)

variable (env : Env) (key : String) (hkey : isReversalKey key = true)

/-- Claim a reversal key, do the work, record its transaction under the key, and go on. A key that
is taken answers what was recorded under it. -/
def claiming (onDuplicate : Transaction → Work α) (body : Work (Transaction ⊕ α))
    (after : Transaction → Work α) : Work α where
  txn := Txn.claiming env key (fun transaction => (onDuplicate transaction).txn)
    (body.txn >>= fun out => Pure.pure (out.map (·, ()) id)) fun transaction (_ : Unit) =>
    (after transaction).txn
  trace w :=
    match w.idempotency.rows.committed.get key with
    | some transaction => (onDuplicate transaction).trace w
    | none =>
      body.trace (granted env key w) ++
        match body.txn.run (granted env key w) with
        | (.ok (.inl transaction), w') => (after transaction).trace (recorded env key transaction w')
        | _ => []
  unaware := by
    apply Txn.Unaware.claiming
    · exact fun transaction => (onDuplicate transaction).unaware
    · exact body.unaware.bind fun out => .pure _
    · exact fun transaction _ => (after transaction).unaware
  keys := by
    intro w k hk
    have hne : k ≠ key := by
      rintro rfl
      rw [hkey] at hk
      cases hk
    have hbody := body.keys (granted env key w) k hk
    simp only [Txn.claiming, Txn.run_bind]
    cases w.idempotency.rows.committed.get key with
    | some transaction => exact (onDuplicate transaction).keys w k hk
    | none =>
      simp only [← granted.eq_def]
      rcases hr : body.txn.run (granted env key w) with ⟨res, w'⟩
      rw [hr] at hbody
      cases res with
      | error e => exact hbody
      | ok out =>
        cases out with
        | inr a => exact hbody
        | inl transaction =>
          have hrecorded : (recorded env key transaction w').idempotency.rows.committed.get k =
              w'.idempotency.rows.committed.get k := Table.get_set_of_ne _ _ hne
          exact ((after transaction).keys (recorded env key transaction w') k hk).trans
            (hrecorded.trans hbody)
  books := by
    intro w w' a h
    simp only [Txn.claiming, Txn.run_bind] at h
    cases hget : w.idempotency.rows.committed.get key with
    | some transaction =>
      rw [hget] at h
      exact (onDuplicate transaction).books h
    | none =>
      rw [hget] at h
      simp only [← granted.eq_def] at h
      simp only
      rcases hr : body.txn.run (granted env key w) with ⟨res, w₁⟩
      rw [hr] at h
      cases res with
      | error e => cases h
      | ok out =>
        have hbody := body.books hr
        cases out with
        | inr b =>
          cases h
          simp only [List.append_nil]
          exact hbody
        | inl transaction =>
          simp only [postedLegs_append]
          exact hbody.trans ((after transaction).books h)

end Work

/-! ## Work under watch -/

/-- The accounts locked so far, and the lines posted. A lock that follows a read of a balance came
too late for it. -/
structure Watch where
  locked : List AccountRef
  reading : Bool
  posted : List Leg

def coverage : Monitor Watch Touch where
  step s
    | .lock accounts => if s.reading then s else { s with locked := s.locked ++ accounts }
    | .balance _ => { s with reading := true }
    | .post legs => { s with posted := s.posted ++ legs }
  allows s
    | .post legs => ∀ leg ∈ legs, leg.account ∈ s.locked
    | _ => True

instance (s : Watch) : (touch : Touch) → Decidable (coverage.allows s touch)
  | .post legs => inferInstanceAs (Decidable (∀ leg ∈ legs, leg.account ∈ s.locked))
  | .lock _ => .isTrue trivial
  | .balance _ => .isTrue trivial

def Watch.start (locked : List AccountRef) : Watch := ⟨locked, false, []⟩

theorem after_posted (s : Watch) (trace : List Touch) :
    (coverage.after s trace).posted = s.posted ++ postedLegs trace := by
  induction trace generalizing s with
  | nil => exact (List.append_nil _).symm
  | cons touch trace ih =>
    have hstep : (coverage.step s touch).posted = s.posted ++ touch.posted := by
      cases touch with
      | lock accounts =>
        simp only [coverage, Touch.posted, List.append_nil]
        split <;> rfl
      | balance account => exact (List.append_nil _).symm
      | post legs => rfl
    exact (ih _).trans (by simp only [hstep, postedLegs, List.flatMap_cons, List.append_assoc])

theorem accepts_posted {s : Watch} {trace : List Touch} (h : coverage.Accepts s trace)
    (hs : ∀ leg ∈ s.posted, leg.account ∈ s.locked) :
    ∀ leg ∈ (coverage.after s trace).posted, leg.account ∈ (coverage.after s trace).locked := by
  induction trace generalizing s with
  | nil => exact hs
  | cons touch trace ih =>
    obtain ⟨htouch, hrest⟩ := h
    apply ih hrest
    cases touch with
    | lock accounts =>
      intro leg hleg
      simp only [coverage] at hleg ⊢
      split at hleg
      · rename_i hreading
        simp only [hreading, if_true]
        exact hs leg hleg
      · rename_i hreading
        simp only [hreading, Bool.false_eq_true, if_false]
        exact List.mem_append_left _ (hs leg hleg)
    | balance account => exact hs
    | post legs =>
      intro leg hleg
      rcases List.mem_append.mp hleg with hleg | hleg
      · exact hs leg hleg
      · exact htouch leg hleg

namespace Work

variable {α β : Type} {s : Watch} {Q : α → Watch → Prop} {Q' : β → Watch → Prop}

/-- In the store `w` and from the watch `s` on, the work's trace is accepted, and what it answers is
as `Q` says. -/
def GuardedAt (w : World) (s : Watch) (x : Work α) (Q : α → Watch → Prop) : Prop :=
  coverage.Accepts s (x.trace w) ∧
    ∀ {a w'}, x.txn.run w = (.ok a, w') → Q a (coverage.after s (x.trace w))

def Guarded (s : Watch) (x : Work α) (Q : α → Watch → Prop) : Prop := ∀ w, GuardedAt w s x Q

theorem bind_trace (x : Work α) (f : α → Work β) (w : World) :
    (x >>= f).trace w = x.trace w ++
      match x.txn.run w with
      | (.ok a, w') => (f a).trace w'
      | (.error _, _) => [] := rfl

theorem bind_run (x : Work α) (f : α → Work β) (w : World) :
    (x >>= f).txn.run w = match x.txn.run w with
      | (.ok a, w') => (f a).txn.run w'
      | (.error e, w') => (.error e, w') := rfl

variable {x : Work α} {env : Env} {w : World} {f : α → Work β} {a : α} {key : String}
  {onDuplicate after : Transaction → Work α} {body : Work (Transaction ⊕ α)}
  {hkey : isReversalKey key = true}

theorem GuardedAt.bind (hx : GuardedAt w s x Q)
    (hf : ∀ a w' s', x.txn.run w = (.ok a, w') → Q a s' → GuardedAt w' s' (f a) Q') :
    GuardedAt w s (x >>= f) Q' := by
  obtain ⟨haccepts, hanswer⟩ := hx
  unfold GuardedAt
  rw [bind_trace, bind_run, Monitor.accepts_append, Monitor.after_append]
  rcases hr : x.txn.run w with ⟨res, w'⟩
  cases res with
  | error e =>
    refine ⟨⟨haccepts, trivial⟩, ?_⟩
    intro b w'' h
    cases h
  | ok a =>
    obtain ⟨hrest, hlast⟩ := hf a w' _ hr (hanswer hr)
    exact ⟨⟨haccepts, hrest⟩, hlast⟩

theorem GuardedAt.quiet (hx : x.trace w = [])
    (hf : ∀ a w', x.txn.run w = (.ok a, w') → GuardedAt w' s (f a) Q') : GuardedAt w s (x >>= f) Q' := by
  have hstep : GuardedAt w s x fun _ s' => s' = s := by
    unfold GuardedAt
    rw [hx]
    exact ⟨trivial, fun _ => rfl⟩
  apply hstep.bind
  rintro a w' s' hr rfl
  exact hf a w' hr

theorem GuardedAt.pure (h : Q a s) : GuardedAt w s (Pure.pure a) Q := by
  refine ⟨trivial, ?_⟩
  intro a' w' hrun
  cases hrun
  exact h

theorem GuardedAt.lift {r : Except Fault α}
    (hf : ∀ a, r = .ok a → GuardedAt w s (f a) Q') : GuardedAt w s (Work.lift r >>= f) Q' := by
  apply GuardedAt.quiet rfl
  intro a w' hr
  obtain rfl : w = w' := congrArg Prod.snd hr
  exact hf a (congrArg Prod.fst hr)

theorem GuardedAt.read {g : World → Except Fault α} {hg : ∀ w, g w = g w.view}
    (hf : ∀ a, g w = .ok a → GuardedAt w s (f a) Q') : GuardedAt w s (Work.read g hg >>= f) Q' := by
  apply GuardedAt.quiet rfl
  intro a w' hr
  obtain rfl : w = w' := congrArg Prod.snd hr
  exact hf a (congrArg Prod.fst hr)

theorem GuardedAt.balance {account : AccountRef} {f : Amount → Work β}
    (hf : ∀ a, w.ledger.tables.balance account = .ok a → GuardedAt w { s with reading := true } (f a) Q') :
    GuardedAt w s (Work.balance account >>= f) Q' := by
  have hstep : GuardedAt w s (Work.balance account) fun _ s' => s' = { s with reading := true } :=
    ⟨⟨trivial, trivial⟩, fun _ => rfl⟩
  apply hstep.bind
  rintro a w' s' hr rfl
  obtain rfl : w = w' := congrArg Prod.snd hr
  exact hf a (congrArg Prod.fst hr)

theorem watch_balances (s : Watch) (accounts : List AccountRef) :
    coverage.Accepts s (accounts.map .balance) ∧
      ∃ late, coverage.after s (accounts.map .balance) = { s with reading := late } := by
  induction accounts generalizing s with
  | nil => exact ⟨trivial, s.reading, rfl⟩
  | cons account accounts ih =>
    obtain ⟨haccepts, late, hafter⟩ := ih { s with reading := true }
    exact ⟨⟨trivial, haccepts⟩, late, hafter⟩

theorem GuardedAt.reading {accounts : List AccountRef}
    {g : (AccountRef → Except Fault Amount) → Except Fault α}
    (hf : ∀ a late, g w.ledger.tables.balance = .ok a →
      GuardedAt w { s with reading := late } (f a) Q') :
        GuardedAt w s (Work.reading accounts g >>= f) Q' := by
  obtain ⟨haccepts, late, hafter⟩ := watch_balances s accounts
  have hstep : GuardedAt w s (Work.reading accounts g) fun _ s' => s' = { s with reading := late } :=
    ⟨haccepts, fun _ => hafter⟩
  apply hstep.bind
  rintro a w' s' hr rfl
  obtain rfl : w = w' := congrArg Prod.snd hr
  exact hf a late (congrArg Prod.fst hr)

theorem GuardedAt.lockAll {locked accounts : List AccountRef} {posted : List Leg}
    {f : Unit → Work β} (hf : GuardedAt w ⟨locked ++ accounts, false, posted⟩ (f ()) Q') :
    GuardedAt w ⟨locked, false, posted⟩ (Work.lockAll accounts >>= f) Q' := by
  have hstep : GuardedAt w ⟨locked, false, posted⟩ (Work.lockAll accounts)
      fun _ s' => s' = ⟨locked ++ accounts, false, posted⟩ := ⟨⟨trivial, trivial⟩, fun _ => rfl⟩
  apply hstep.bind
  rintro a w' s' hr rfl
  obtain rfl : w = w' := congrArg Prod.snd hr
  exact hf

theorem GuardedAt.claiming (hd : ∀ transaction, Guarded s (onDuplicate transaction) Q)
    (hb : w.idempotency.rows.committed.get key = none → GuardedAt (granted env key w) s body fun out s' =>
      match out with
      | .inl transaction => Guarded s' (after transaction) Q
      | .inr a => Q a s') :
    GuardedAt w s (Work.claiming env key hkey onDuplicate body after) Q := by
  have htrace : (Work.claiming env key hkey onDuplicate body after).trace w =
      match w.idempotency.rows.committed.get key with
      | some transaction => (onDuplicate transaction).trace w
      | none =>
        body.trace (granted env key w) ++
          match body.txn.run (granted env key w) with
          | (.ok (.inl transaction), w') => (after transaction).trace (recorded env key transaction w')
          | _ => [] := rfl
  unfold GuardedAt
  rw [htrace]
  simp only [Work.claiming, Txn.claiming, Txn.run_bind]
  cases hkeyed : w.idempotency.rows.committed.get key with
  | some transaction => exact hd transaction w
  | none =>
    simp only [← granted.eq_def]
    obtain ⟨haccepts, hanswer⟩ := hb hkeyed
    rcases hr : body.txn.run (granted env key w) with ⟨res, w'⟩
    rw [Monitor.accepts_append, Monitor.after_append]
    cases res with
    | error e =>
      refine ⟨⟨haccepts, trivial⟩, ?_⟩
      intro b w'' h
      cases h
    | ok out =>
      have hout := hanswer hr
      cases out with
      | inr a =>
        refine ⟨⟨haccepts, trivial⟩, ?_⟩
        intro b w'' h
        cases h
        exact hout
      | inl transaction =>
        obtain ⟨hrest, hlast⟩ := hout (recorded env key transaction w')
        exact ⟨⟨haccepts, hrest⟩, hlast⟩

/-! ### What a trace begins with -/

/-- From `w` the work answers `a` and leaves `w'`, having touched what `touched` tells. -/
structure Answers (x : Work α) (w : World) (a : α) (w' : World) (touched : List Touch) : Prop where
  run : x.txn.run w = (.ok a, w')
  trace : x.trace w = touched

theorem Answers.pure (a : α) (w : World) : Answers (Pure.pure a) w a w [] := ⟨rfl, rfl⟩

theorem Answers.lift {r : Except Fault α} (h : r = .ok a) (w : World) :
    Answers (Work.lift r) w a w [] := ⟨Prod.ext h rfl, rfl⟩

theorem Answers.read {g : World → Except Fault α} {hg : ∀ w, g w = g w.view}
    (h : g w = .ok a) : Answers (Work.read g hg) w a w [] := ⟨Prod.ext h rfl, rfl⟩

theorem Answers.reading {accounts : List AccountRef}
    {g : (AccountRef → Except Fault Amount) → Except Fault α}
    (h : g w.ledger.tables.balance = .ok a) :
    Answers (Work.reading accounts g) w a w (accounts.map .balance) := ⟨Prod.ext h rfl, rfl⟩

theorem Answers.bind {w w₁ w₂ : World} {b : β}
    {first later : List Touch} (hx : Answers x w a w₁ first) (hf : Answers (f a) w₁ b w₂ later) :
    Answers (x >>= f) w b w₂ (first ++ later) := by
  constructor
  · rw [bind_run, hx.run]
    exact hf.run
  · rw [bind_trace, hx.run, hx.trace]
    exact congrArg (first ++ ·) hf.trace

theorem Answers.then {w w₁ w₂ : World} {b : β} {later : List Touch}
    (hx : Answers x w a w₁ []) (hf : Answers (f a) w₁ b w₂ later) : Answers (x >>= f) w b w₂ later :=
  hx.bind hf

theorem Answers.starts {w w' : World} {first touched : List Touch}
    (hx : Answers x w a w' first) (h : touched <+: (f a).trace w') :
    first ++ touched <+: (x >>= f).trace w := by
  rw [bind_trace, hx.run, hx.trace]
  exact (List.prefix_append_right_inj first).mpr h

theorem starts_bind {touched : List Touch} (h : touched <+: x.trace w)
    (f : α → Work β) : touched <+: (x >>= f).trace w := by
  rw [bind_trace]
  exact h.trans (List.prefix_append _ _)

theorem starts_claiming {touched : List Touch} (hfree : w.idempotency.rows.committed.get key = none)
    (h : touched <+: body.trace (granted env key w)) :
    touched <+: (Work.claiming env key hkey onDuplicate body after).trace w := by
  simp only [Work.claiming, hfree]
  exact h.trans (List.prefix_append _ _)

namespace Guarded

theorem pure (h : Q a s) : Guarded s (Pure.pure a) Q := by
  intro w
  refine ⟨trivial, ?_⟩
  intro a' w' hrun
  cases hrun
  exact h

theorem bind (hx : Guarded s x Q)
    (hf : ∀ a s', Q a s' → Guarded s' (f a) Q') : Guarded s (x >>= f) Q' :=
  fun w => (hx w).bind fun a w' s' _ hq => hf a s' hq w'

theorem quiet (hx : ∀ w, x.trace w = [])
    (hf : ∀ a, (∃ w, (x.txn.run w).1 = .ok a) → Guarded s (f a) Q') : Guarded s (x >>= f) Q' := by
  have hstep : Guarded s x fun a s' => (∃ w, (x.txn.run w).1 = .ok a) ∧ s' = s := by
    intro w
    unfold GuardedAt
    rw [hx w]
    refine ⟨trivial, ?_⟩
    intro a w' h
    exact ⟨⟨w, congrArg Prod.fst h⟩, rfl⟩
  apply hstep.bind
  rintro a s' ⟨ha, rfl⟩
  exact hf a ha

theorem step (hx : ∀ w, x.trace w = []) (hf : ∀ a, Guarded s (f a) Q') : Guarded s (x >>= f) Q' :=
  quiet hx fun a _ => hf a

theorem lift {r : Except Fault α} (hf : ∀ a, r = .ok a → Guarded s (f a) Q') :
    Guarded s (Work.lift r >>= f) Q' := by
  apply quiet fun _ => rfl
  rintro a ⟨w, ha⟩
  exact hf a ha

theorem balance {account : AccountRef} {f : Amount → Work β}
    (hf : ∀ a, Guarded { s with reading := true } (f a) Q') :
    Guarded s (Work.balance account >>= f) Q' := by
  have hstep : Guarded s (Work.balance account) fun _ s' => s' = { s with reading := true } :=
    fun w => ⟨⟨trivial, trivial⟩, fun _ => rfl⟩
  apply hstep.bind
  rintro a s' rfl
  exact hf a

theorem reading {accounts : List AccountRef} {g : (AccountRef → Except Fault Amount) → Except Fault α}
    (hf : ∀ a late, (∃ balance, g balance = .ok a) → Guarded { s with reading := late } (f a) Q') :
    Guarded s (Work.reading accounts g >>= f) Q' := by
  have hstep : Guarded s (Work.reading accounts g)
      fun a s' => (∃ balance, g balance = .ok a) ∧ ∃ late, s' = { s with reading := late } := by
    intro w
    obtain ⟨haccepts, late, hafter⟩ := watch_balances s accounts
    refine ⟨haccepts, ?_⟩
    intro a w' h
    exact ⟨⟨w.ledger.tables.balance, congrArg Prod.fst h⟩, late, hafter⟩
  apply hstep.bind
  rintro a s' ⟨ha, late, rfl⟩
  exact hf a late ha

theorem lockAll {locked accounts : List AccountRef} {posted : List Leg} {f : Unit → Work β}
    (hf : Guarded ⟨locked ++ accounts, false, posted⟩ (f ()) Q') :
    Guarded ⟨locked, false, posted⟩ (Work.lockAll accounts >>= f) Q' := by
  have hstep : Guarded ⟨locked, false, posted⟩ (Work.lockAll accounts)
      fun _ s' => s' = ⟨locked ++ accounts, false, posted⟩ :=
    fun w => ⟨⟨trivial, trivial⟩, fun _ => rfl⟩
  apply hstep.bind
  rintro a s' rfl
  exact hf

theorem postEntry {posting : Posting} {f : Transaction → Work β}
    (hlegs : ∀ leg ∈ (dropZeroLegs posting).legs, leg.account ∈ s.locked)
    (hf : ∀ transaction,
      Guarded { s with posted := s.posted ++ (dropZeroLegs posting).legs } (f transaction) Q') :
    Guarded s (Work.postEntry env posting >>= f) Q' := by
  have hstep : Guarded s (Work.postEntry env posting)
      fun _ s' => s' = { s with posted := s.posted ++ (dropZeroLegs posting).legs } :=
    fun w => ⟨⟨hlegs, trivial⟩, fun _ => rfl⟩
  apply hstep.bind
  rintro a s' rfl
  exact hf a

theorem claiming (hd : ∀ transaction, Guarded s (onDuplicate transaction) Q)
    (hb : Guarded s body fun out s' =>
      match out with
      | .inl transaction => Guarded s' (after transaction) Q
      | .inr a => Q a s') :
    Guarded s (Work.claiming env key hkey onDuplicate body after) Q :=
  fun w => .claiming hd fun _ => hb (granted env key w)

theorem of_pure (h : Guarded s (x >>= Pure.pure) Q) : Guarded s x Q := by
  intro w
  have hw := h w
  unfold GuardedAt at hw ⊢
  rw [bind_trace, bind_run] at hw
  rcases hr : x.txn.run w with ⟨res, w'⟩
  rw [hr] at hw
  cases res with
  | error e =>
    simp only [List.append_nil] at hw
    exact ⟨hw.1, fun h => by cases h⟩
  | ok a =>
    have hnone : (Pure.pure a : Work α).trace w' = [] := rfl
    simp only [hnone, List.append_nil] at hw
    refine ⟨hw.1, ?_⟩
    intro a' w'' h
    cases h
    exact hw.2 rfl

theorem mono {Q₁ : α → Watch → Prop} (h : Guarded s x Q) (hq : ∀ a s', Q a s' → Q₁ a s') :
    Guarded s x Q₁ := fun w => ⟨(h w).1, fun hr => hq _ _ ((h w).2 hr)⟩

end Guarded

/-- Whatever the store, an answer is as `P` says. -/
def Yields (x : Work α) (P : α → Prop) : Prop := ∀ w a w', x.txn.run w = (.ok a, w') → P a

namespace Yields

variable {P : α → Prop}

theorem pure (h : P a) : Yields (Pure.pure a) P := by
  intro w a' w' hr
  cases hr
  exact h

theorem bind {x : Work β} {f : β → Work α} (hf : ∀ b, Yields (f b) P) : Yields (x >>= f) P := by
  intro w a w' hr
  obtain ⟨b, w₁, -, hrest⟩ := Txn.bind_ok hr
  exact hf b _ _ _ hrest

theorem bind_of {P' : β → Prop} {x : Work β} {f : β → Work α} (hx : Yields x P')
    (hf : ∀ b, P' b → Yields (f b) P) : Yields (x >>= f) P := by
  intro w a w' hr
  obtain ⟨b, w₁, hfirst, hrest⟩ := Txn.bind_ok hr
  exact hf b (hx _ _ _ hfirst) _ _ _ hrest

theorem claiming (hd : ∀ transaction, Yields (onDuplicate transaction) P)
    (hb : Yields body fun out => ∀ a, out = .inr a → P a)
    (ha : ∀ transaction, Yields (after transaction) P) :
    Yields (Work.claiming env key hkey onDuplicate body after) P := by
  intro w a w' hr
  simp only [Work.claiming, Txn.claiming, Txn.run_bind] at hr
  cases hget : w.idempotency.rows.committed.get key with
  | some transaction =>
    rw [hget] at hr
    exact hd transaction _ _ _ hr
  | none =>
    rw [hget] at hr
    simp only [← granted.eq_def] at hr
    rcases hbody : body.txn.run (granted env key w) with ⟨res, w₁⟩
    rw [hbody] at hr
    cases res with
    | error e => cases hr
    | ok out =>
      cases out with
      | inr b =>
        cases hr
        exact hb _ _ _ hbody _ rfl
      | inl transaction => exact ha transaction _ _ _ hr

end Yields

theorem Guarded.yields {P : α → Prop} (h : Guarded s x fun a _ => P a) : Yields x P :=
  fun _ _ _ hr => (h _).2 hr

end Work

theorem postEntry_posted {env : Env} {posting : Posting} {w w' : World} {transaction : Transaction}
    (h : (Work.postEntry env posting).txn.run w = (.ok transaction, w')) :
    ∃ row : StoredPosting, row.posting = dropZeroLegs posting ∧ row.txnId = transaction.id ∧
      ZeroSum row.legs ∧
      w'.ledger.tables.log = w.ledger.tables.log ++ [row] ∧
      ∀ a, w'.ledger.tables.balanceOf a = w.ledger.tables.balanceOf a + total (deltas row.legs) a := by
  have hanswer : (postEntry env.digest (env.clock w.ticks) posting w.ledger).1 = .ok transaction :=
    congrArg Prod.fst h
  have hafter : (postEntry env.digest (env.clock w.ticks) posting w.ledger).2 = w'.ledger :=
    congrArg (fun r => r.2.ledger) h
  have hrun : postEntry env.digest (env.clock w.ticks) posting w.ledger = (.ok transaction, w'.ledger) :=
    Prod.ext hanswer hafter
  have hbooked := postEntry_booked hrun
  rcases postEntry_row env.digest (env.clock w.ticks) posting w.ledger with
    ⟨e, he, -⟩ | ⟨row, next, hchecked, hrow, -, -, -, -, hposted⟩
  · rw [hanswer] at he
    cases he
  · rw [hrun] at hposted
    have hledger := congrArg (fun r => r.2.tables.log) hposted
    have htransaction := Except.ok.inj (congrArg Prod.fst hposted)
    refine ⟨row, hrow, ?_, assertBalanced_zeroSum hchecked.balanced, ?_, ?_⟩
    · rw [htransaction]
    · exact hledger
    · have hlegs : (dropZeroLegs posting).legs = row.legs := (congrArg Posting.legs hrow).symm
      rw [← hlegs]
      exact hbooked.balance

end EconomyLab
