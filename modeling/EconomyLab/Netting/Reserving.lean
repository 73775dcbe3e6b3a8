import EconomyLab.Netting.Recording

/-!
# Reserving against a registry that fails

A call to the registry may throw, before or after it took effect. What a movement that was
not accepted leaves standing there is a function of its legs and of the fates of its calls.
-/

namespace EconomyLab

open Foundation

/-! ## Calls that fail -/

/-- The registry takes a call, it throws, or it takes it and the answer is lost. -/
inductive CallFate
  | taken
  | thrown
  | lost
deriving DecidableEq, Repr

def nextFate : List CallFate → CallFate × List CallFate
  | [] => (.taken, [])
  | fate :: fates => (fate, fates)

def registryFault : Fault := ⟨some .storeFailure, "The reservation registry is unreachable.", true⟩

/-- The registry's `add` under its fate, and whether it answered. -/
def World.addUnder (w : World) (fate : CallFate) (account : AccountRef) (delta : Int) : Bool × World :=
  match fate with
  | .taken => (true, w.addReservation account delta)
  | .thrown => (false, w)
  | .lost => (false, w.addReservation account delta)

def unwindUnder : List (AccountRef × Int) → List CallFate → World → Bool × List CallFate × World
  | [], fates, w => (true, fates, w)
  | (account, delta) :: rest, fates, w =>
    let (fate, fates) := nextFate fates
    match w.addUnder fate account (-delta) with
    | (true, w) => unwindUnder rest fates w
    | (false, w) => (false, fates, w)

/-- The `catch` block: the applied legs are backed out, and what that throws is dropped. -/
def backedOut (applied : List (AccountRef × Int)) (fates : List CallFate) (w : World) : World :=
  (unwindUnder applied.reverse fates w).2.2

/-- `reserveLegs` with the fates of its calls. A back-out that throws inside the `try` block is
followed by the one of the `catch` block. -/
def reserveLegsUnder : List Leg → List (AccountRef × Int) → InstanceSession → List CallFate → World →
    Except Fault (Option RejectionCode) × InstanceSession × World
  | [], _, s, _, w => (.ok none, s, w)
  | leg :: legs, applied, s, fates, w =>
    if !isWalletAccount leg.account then reserveLegsUnder legs applied s fates w
    else
      match balanceDelta leg with
      | .error e => (.error e, s, backedOut applied fates w)
      | .ok delta =>
        let (fate, fates) := nextFate fates
        match w.addUnder fate leg.account delta.minor with
        | (false, w) => (.error registryFault, s, backedOut applied fates w)
        | (true, w) =>
          let applied := applied ++ [(leg.account, delta.minor)]
          if 0 ≤ delta.minor then reserveLegsUnder legs applied s fates w
          else
            match openingBalance leg.account s w with
            | .error e => (.error e, s, backedOut applied fates w)
            | .ok (opening, s) =>
              if opening + w.pendingOf leg.account < 0 then
                match unwindUnder applied.reverse fates w with
                | (true, _, w) => (.ok (some .insufficientFunds), s, w)
                | (false, fates, w) => (.error registryFault, s, backedOut applied fates w)
              else reserveLegsUnder legs applied s fates w

def reserveUnder (fates : List CallFate) (legs : List Leg) (s : InstanceSession) (w : World) :
    Except Fault (Option RejectionCode) × InstanceSession × World :=
  match requireMovementLegs legs with
  | .error e => (.error e, s, w)
  | .ok () => reserveLegsUnder legs [] s fates w

/-- `record` with the fates of its registry calls. -/
def recordUnder (env : Env) (fates : List CallFate) (request : MovementRequest) (s : InstanceSession)
    (w : World) : Except Fault MovementOutcome × InstanceSession × World :=
  if s.settled then (.error sessionSettledFault, s, w)
  else
    match s.outcomes.get request.idempotencyKey with
    | some outcome => (.ok outcome, s, w)
    | none =>
      match reserveUnder fates request.legs s w with
      | (.error e, s, w) => (.error e, s, w)
      | (.ok (some code), s, w) =>
        let outcome := .rejected (.rejection code)
        (.ok outcome, s.remember request.idempotencyKey outcome, w)
      | (.ok none, s, w) =>
        let seq := s.seq
        let (s, w) := accept env request s w
        if s.maxBatch ≤ s.pending.length then
          match flush s w with
          | (.error e, s, w) => (.error e, s, w)
          | (.ok (), s, w) => (.ok (.accepted seq), s, w)
        else (.ok (.accepted seq), s, w)

theorem unwindUnder_taken (entries : List (AccountRef × Int)) (w : World) :
    unwindUnder entries [] w =
      (true, [], entries.foldl (fun w p => w.addReservation p.1 (-p.2)) w) := by
  induction entries generalizing w with
  | nil => rfl
  | cons p entries ih =>
    unfold unwindUnder
    exact ih _

theorem backedOut_taken (applied : List (AccountRef × Int)) (w : World) :
    backedOut applied [] w = unwindReservations applied w := by
  unfold backedOut unwindReservations
  rw [unwindUnder_taken]

theorem reserveLegsUnder_taken (legs : List Leg) (applied : List (AccountRef × Int))
    (s : InstanceSession) (w : World) :
    reserveLegsUnder legs applied s [] w = reserveLegs legs applied s w := by
  induction legs generalizing applied s w with
  | nil => rfl
  | cons leg legs ih =>
    unfold reserveLegsUnder reserveLegs
    simp only [nextFate, World.addUnder, ih, backedOut_taken, unwindUnder_taken]
    rfl

theorem recordUnder_taken (env : Env) (request : MovementRequest) (s : InstanceSession) (w : World) :
    recordUnder env [] request s w = record env request s w := by
  simp only [recordUnder, reserveUnder, reserveLegsUnder_taken]
  rfl

/-! ## What is left standing -/

/-- The calls of a back-out that take effect, newest leg first. -/
def backOut : List (AccountRef × Int) → List CallFate → Bool × List (AccountRef × Int) × List CallFate
  | [], fates => (true, [], fates)
  | (account, delta) :: rest, fates =>
    match nextFate fates with
    | (.taken, fates) =>
      let (done, calls, fates) := backOut rest fates
      (done, (account, -delta) :: calls, fates)
    | (.thrown, fates) => (false, [], fates)
    | (.lost, fates) => (false, [(account, -delta)], fates)

/-- The applied legs, less what one back-out takes back. -/
def standingAfter (applied : List (AccountRef × Int)) (fates : List CallFate) : List (AccountRef × Int) :=
  applied ++ (backOut applied.reverse fates).2.1

/-- The calls that stand of a movement that is not accepted; `none` for one that is. The figure
`view` of an account is its opening balance with what is pending before the call. -/
def leftStanding (view : AccountRef → Int) :
    List Leg → List (AccountRef × Int) → List CallFate → Option (List (AccountRef × Int))
  | [], _, _ => none
  | leg :: legs, applied, fates =>
    if !isWalletAccount leg.account then leftStanding view legs applied fates
    else
      match balanceDelta leg with
      | .error _ => some (standingAfter applied fates)
      | .ok delta =>
        match nextFate fates with
        | (.thrown, fates) => some (standingAfter applied fates)
        | (.lost, fates) => some ((leg.account, delta.minor) :: standingAfter applied fates)
        | (.taken, fates) =>
          let applied := applied ++ [(leg.account, delta.minor)]
          if 0 ≤ delta.minor then leftStanding view legs applied fates
          else if view leg.account + total applied leg.account < 0 then
            match backOut applied.reverse fates with
            | (true, calls, _) => some (applied ++ calls)
            | (false, calls, fates) => some (calls ++ standingAfter applied fates)
          else leftStanding view legs applied fates

theorem unwindUnder_spec (entries : List (AccountRef × Int)) (fates : List CallFate) (w : World) :
    (unwindUnder entries fates w).1 = (backOut entries fates).1 ∧
      (unwindUnder entries fates w).2.1 = (backOut entries fates).2.2 ∧
      w.Reserves (unwindUnder entries fates w).2.2 ∧
      ∀ a, (unwindUnder entries fates w).2.2.pendingOf a =
        w.pendingOf a + total (backOut entries fates).2.1 a := by
  induction entries generalizing fates w with
  | nil => exact ⟨rfl, rfl, World.Reserves.refl w, by simp [unwindUnder, backOut]⟩
  | cons p entries ih =>
    obtain ⟨account, delta⟩ := p
    have hadd := w.addReservation_reserves account (-delta)
    unfold unwindUnder backOut
    rcases nextFate fates with ⟨fate, fates⟩
    cases fate with
    | taken =>
      obtain ⟨hdone, hfates, hres, hpend⟩ := ih fates (w.addReservation account (-delta))
      refine ⟨hdone, hfates, hadd.trans hres, ?_⟩
      intro a
      simp only [World.addUnder, hpend, World.pendingOf_addReservation, total_cons]
      ring
    | thrown => exact ⟨rfl, rfl, World.Reserves.refl w, by simp [World.addUnder]⟩
    | lost =>
      refine ⟨rfl, rfl, hadd, ?_⟩
      intro a
      simp [World.addUnder, World.pendingOf_addReservation, total_cons]

theorem backedOut_spec (applied : List (AccountRef × Int)) (fates : List CallFate) (w : World) :
    w.Reserves (backedOut applied fates w) ∧
      ∀ a, (backedOut applied fates w).pendingOf a + total applied a =
        w.pendingOf a + total (standingAfter applied fates) a := by
  obtain ⟨-, -, hres, hpend⟩ := unwindUnder_spec applied.reverse fates w
  refine ⟨hres, ?_⟩
  intro a
  unfold backedOut standingAfter
  rw [hpend, total_append]
  ring

/-- A ready store's balances are in range, so the first touch reads one. -/
theorem openingBalance_ready {w : World} (hw : w.Ready) (account : AccountRef) (s : InstanceSession) :
    ∃ s', openingBalance account s w = .ok (openingOf s w account, s') := by
  unfold openingBalance openingOf
  cases s.opening.get account with
  | some known => exact ⟨s, rfl⟩
  | none =>
    have hread : w.ledger.tables.balance account =
        .ok ⟨currency account, w.balanceOf account, hw.inRange account⟩ := by
      unfold LedgerTables.balance
      rw [toAmount_eq_ok]
      exact ⟨rfl, rfl⟩
    refine ⟨{ s with opening := s.opening.set account (w.balanceOf account) }, ?_⟩
    rw [hread]
    rfl

def walletLegs (legs : List Leg) : List (AccountRef × Int) :=
  deltas (legs.filter fun leg => isWalletAccount leg.account)

def Reserved (pending : AccountRef → Int) (applied : List (AccountRef × Int)) (legs : List Leg)
    (left : Option (List (AccountRef × Int))) (result : Except Fault (Option RejectionCode))
    (w : World) : Prop :=
  match left with
  | none => result = .ok none ∧
    ∀ a, w.pendingOf a = pending a + total applied a + total (walletLegs legs) a
  | some left => result ≠ .ok none ∧ ∀ a, w.pendingOf a = pending a + total left a

section Reserving

variable {pending : AccountRef → Int} {applied : List (AccountRef × Int)} {leg : Leg} {legs : List Leg}
  {left : Option (List (AccountRef × Int))} {result : Except Fault (Option RejectionCode)} {w : World}

theorem Reserved.skip (hleg : isWalletAccount leg.account = false)
    (h : Reserved pending applied legs left result w) :
    Reserved pending applied (leg :: legs) left result w := by
  have hlegs : walletLegs (leg :: legs) = walletLegs legs := by
    simp [walletLegs, hleg]
  unfold Reserved at h ⊢
  rw [hlegs]
  exact h

theorem Reserved.cons (hleg : isWalletAccount leg.account = true)
    (h : Reserved pending (applied ++ [(leg.account, leg.delta)]) legs left result w) :
    Reserved pending applied (leg :: legs) left result w := by
  have hlegs : walletLegs (leg :: legs) = (leg.account, leg.delta) :: walletLegs legs := by
    simp [walletLegs, hleg]
  unfold Reserved at h ⊢
  cases left with
  | some left => exact h
  | none =>
    refine ⟨h.1, ?_⟩
    intro a
    rw [h.2 a, hlegs, total_append, total_cons, total_cons, total_nil]
    ring

/-- Whatever the `catch` block is entered with. -/
theorem backedOut_pending (hpend : ∀ a, w.pendingOf a = pending a + total applied a)
    (fates : List CallFate) (a : AccountRef) :
    (backedOut applied fates w).pendingOf a = pending a + total (standingAfter applied fates) a := by
  have hback := (backedOut_spec applied fates w).2 a
  rw [hpend] at hback
  omega

/-- The screen under failing calls leaves standing what its legs and fates tell. -/
theorem reserveLegsUnder_spec (legs : List Leg) (applied : List (AccountRef × Int))
    (s : InstanceSession) (fates : List CallFate) (hw : w.Ready)
    (hpend : ∀ a, w.pendingOf a = pending a + total applied a) :
    (reserveLegsUnder legs applied s fates w).2.1 =
        { s with opening := (reserveLegsUnder legs applied s fates w).2.1.opening } ∧
      w.Reserves (reserveLegsUnder legs applied s fates w).2.2 ∧
      Reserved pending applied legs
        (leftStanding (fun a => openingOf s w a + pending a) legs applied fates)
        (reserveLegsUnder legs applied s fates w).1 (reserveLegsUnder legs applied s fates w).2.2 := by
  induction legs generalizing applied s fates w with
  | nil =>
    refine ⟨rfl, World.Reserves.refl w, rfl, ?_⟩
    intro a
    simp only [reserveLegsUnder, hpend, walletLegs, List.filter_nil, deltas_nil, total_nil, add_zero]
  | cons leg legs ih =>
    unfold reserveLegsUnder leftStanding
    by_cases hwallet : isWalletAccount leg.account = true
    · simp only [hwallet, Bool.not_true, Bool.false_eq_true, if_false]
      cases hd : balanceDelta leg with
      | error e =>
        exact ⟨rfl, (backedOut_spec applied fates w).1, fun h => (by cases h),
          backedOut_pending hpend fates⟩
      | ok delta =>
        have hdm : delta.minor = leg.delta := (balanceDelta_minor hd).2
        simp only [hdm]
        rcases nextFate fates with ⟨fate, fates⟩
        have hadd := w.addReservation_reserves leg.account leg.delta
        have happlied : ∀ a, (w.addReservation leg.account leg.delta).pendingOf a =
            pending a + total (applied ++ [(leg.account, leg.delta)]) a := by
          intro a
          simp only [World.pendingOf_addReservation, hpend, total_append, total_cons, total_nil]
          ring
        cases fate with
        | thrown =>
          exact ⟨rfl, (backedOut_spec applied fates w).1, fun h => (by cases h),
            backedOut_pending hpend fates⟩
        | lost =>
          obtain ⟨hres, hback⟩ := backedOut_spec applied fates (w.addReservation leg.account leg.delta)
          refine ⟨rfl, hadd.trans hres, fun h => (by cases h), ?_⟩
          intro a
          have hb := hback a
          rw [World.pendingOf_addReservation, hpend] at hb
          simp only [World.addUnder, total_cons]
          omega
        | taken =>
          have hready : (w.addReservation leg.account leg.delta).Ready := hadd.ready hw
          simp only [World.addUnder]
          by_cases hpos : 0 ≤ leg.delta
          · simp only [hpos, if_true]
            obtain ⟨hs, hres, hafter⟩ := ih (applied ++ [(leg.account, leg.delta)]) s fates hready happlied
            exact ⟨hs, hadd.trans hres, hafter.cons hwallet⟩
          · simp only [hpos, if_false]
            obtain ⟨s₁, ho⟩ := openingBalance_ready hready leg.account s
            obtain ⟨hs₁, -, -, hsame⟩ := openingBalance_spec ho
            have hview : (fun a => openingOf s₁ (w.addReservation leg.account leg.delta) a + pending a) =
                fun a => openingOf s w a + pending a := by
              funext a
              rw [hsame]
              rfl
            have hshort : openingOf s (w.addReservation leg.account leg.delta) leg.account +
                (w.addReservation leg.account leg.delta).pendingOf leg.account =
                  openingOf s w leg.account + pending leg.account +
                    total (applied ++ [(leg.account, leg.delta)]) leg.account := by
              rw [happlied]
              change openingOf s w leg.account + _ = _
              ring
            rw [ho]
            simp only [hshort]
            split
            · -- refused: the back-out of the `try` block, and where it throws that of the `catch` block
              obtain ⟨hdone, hfates, hres, hback⟩ := unwindUnder_spec
                (applied ++ [(leg.account, leg.delta)]).reverse fates
                (w.addReservation leg.account leg.delta)
              rcases hu : unwindUnder (applied ++ [(leg.account, leg.delta)]).reverse fates
                (w.addReservation leg.account leg.delta) with ⟨done, fates₁, w₁⟩
              rcases hb : backOut (applied ++ [(leg.account, leg.delta)]).reverse fates with
                ⟨done', calls, fates₂⟩
              rw [hu] at hdone hfates hres hback
              rw [hb] at hdone hfates hback
              simp only at hdone hfates hres hback
              subst hdone hfates
              cases done with
              | true =>
                refine ⟨hs₁, hadd.trans hres, fun h => (by cases h), ?_⟩
                intro a
                simp only [hback, happlied, total_append]
                ring
              | false =>
                obtain ⟨hres₂, hback₂⟩ := backedOut_spec (applied ++ [(leg.account, leg.delta)]) fates₁ w₁
                refine ⟨hs₁, (hadd.trans hres).trans hres₂, fun h => (by cases h), ?_⟩
                intro a
                have h₂ := hback₂ a
                rw [hback, happlied] at h₂
                simp only [total_append calls]
                omega
            · obtain ⟨hs, hres, hafter⟩ := ih (applied ++ [(leg.account, leg.delta)]) s₁ fates
                hready happlied
              rw [hview] at hafter
              refine ⟨?_, hadd.trans hres, hafter.cons hwallet⟩
              rw [hs, hs₁]
    · have hwallet' : isWalletAccount leg.account = false := by simpa using hwallet
      simp only [hwallet', Bool.not_false, if_true]
      obtain ⟨hs, hres, hafter⟩ := ih applied s fates hw hpend
      exact ⟨hs, hres, hafter.skip hwallet'⟩

def recordLeaves (fates : List CallFate) (request : MovementRequest) (s : InstanceSession) (w : World) :
    List (AccountRef × Int) :=
  if s.settled || (s.outcomes.get request.idempotencyKey).isSome then []
  else
    match requireMovementLegs request.legs with
    | .error _ => []
    | .ok () =>
      (leftStanding (fun a => openingOf s w a + w.pendingOf a) request.legs [] fates).getD []

/-- A call accepts its movement and reserves its wallet deltas, or leaves standing what `recordLeaves`
tells. -/
structure RecordedUnder (fates : List CallFate) (request : MovementRequest) (s : InstanceSession)
    (w : World) (s' : InstanceSession) (w' : World) : Prop where
  ready : w'.Ready
  registry : (s'.accepted = s.accepted ∧
      ∀ a, w'.pendingOf a = w.pendingOf a + total (recordLeaves fates request s w) a) ∨
    (∃ m, s'.accepted = s.accepted ++ [m] ∧ recordLeaves fates request s w = [] ∧
      ∀ a, w'.pendingOf a = w.pendingOf a + total (walletDeltas [m]) a)

theorem RecordedUnder.quiet {fates : List CallFate} {request : MovementRequest} {s : InstanceSession}
    (hw : w.Ready) (hnone : recordLeaves fates request s w = []) :
    RecordedUnder fates request s w s w := by
  refine ⟨hw, Or.inl ⟨rfl, ?_⟩⟩
  intro a
  rw [hnone, total_nil, add_zero]

theorem recordUnder_spec (env : Env) (fates : List CallFate) (request : MovementRequest)
    (s : InstanceSession) (hw : w.Ready) :
    RecordedUnder fates request s w (recordUnder env fates request s w).2.1
      (recordUnder env fates request s w).2.2 := by
  unfold recordUnder
  cases hset : s.settled with
  | true => exact RecordedUnder.quiet hw (by simp [recordLeaves, hset])
  | false =>
    simp only [Bool.false_eq_true, if_false]
    cases hout : s.outcomes.get request.idempotencyKey with
    | some outcome => exact RecordedUnder.quiet hw (by simp [recordLeaves, hout])
    | none =>
      unfold reserveUnder
      cases hreq : requireMovementLegs request.legs with
      | error e => exact RecordedUnder.quiet hw (by simp [recordLeaves, hset, hout, hreq])
      | ok u =>
        have hnothing : ∀ a, w.pendingOf a = w.pendingOf a + total [] a := by simp
        obtain ⟨hs, hres, hafter⟩ := reserveLegsUnder_spec request.legs [] s fates hw hnothing
        have hleaves : recordLeaves fates request s w =
            (leftStanding (fun a => openingOf s w a + w.pendingOf a) request.legs [] fates).getD [] := by
          simp [recordLeaves, hset, hout, hreq]
        rcases hr : reserveLegsUnder request.legs [] s fates w with ⟨res, s₁, w₁⟩
        rw [hr] at hs hres hafter
        simp only at hs hres hafter ⊢
        have hready : w₁.Ready := hres.ready hw
        cases hleft : leftStanding (fun a => openingOf s w a + w.pendingOf a) request.legs [] fates with
        | some left =>
          rw [hleft] at hafter hleaves
          obtain ⟨hne, hpend⟩ := hafter
          have hkept : RecordedUnder fates request s w s₁ w₁ := by
            refine ⟨hready, Or.inl ⟨by rw [hs], ?_⟩⟩
            rw [hleaves]
            exact hpend
          rcases res with e | verdict
          · exact hkept
          · cases verdict with
            | none => exact absurd rfl hne
            | some code => exact ⟨hkept.ready, hkept.registry⟩
        | none =>
          rw [hleft] at hafter hleaves
          obtain ⟨hok, hpend⟩ := hafter
          rw [hok]
          simp only
          -- the movement enters the session; a flush leaves the registry alone
          have haccepted : ∀ {s₂ : InstanceSession} {w₂ : World},
              s₂.accepted = (accept env request s₁ w₁).1.accepted → w₂.Ready →
              w₂.reservations = w₁.reservations → RecordedUnder fates request s w s₂ w₂ := by
            intro s₂ w₂ hacc hready₂ hresv
            have hacc₁ : s₁.accepted = s.accepted := by rw [hs]
            refine ⟨hready₂, Or.inr ⟨nextMovement env request s₁ w₁, ?_, ?_, ?_⟩⟩
            · exact hacc.trans (congrArg (· ++ [nextMovement env request s₁ w₁]) hacc₁)
            · rw [hleaves]
              rfl
            · intro a
              have hsame : w₂.pendingOf a = w₁.pendingOf a := by
                unfold World.pendingOf
                rw [hresv]
              rw [hsame, hpend, total_nil, add_zero]
              simp [walletDeltas, walletLegs, nextMovement]
          have hready₁ : (accept env request s₁ w₁).2.Ready := by
            obtain ⟨c1, c2, c3, c4, c5, c6, c7, c8, c9, c10⟩ := hready.closed
            exact ⟨⟨c1, c2, c3, c4, c5, c6, c7, c8, c9, c10⟩, hready.honest⟩
          split
          · have hflush := flush_cases (accept env request s₁ w₁).1 (accept env request s₁ w₁).2
            have hfready := flush_ready (s := (accept env request s₁ w₁).1) hready₁
            rcases hf : flush (accept env request s₁ w₁).1 (accept env request s₁ w₁).2 with ⟨res, s₂, w₂⟩
            rw [hf] at hflush hfready
            obtain ⟨hs₂, hw₂⟩ := hflush
            simp only at hs₂ hw₂
            have hacc : s₂.accepted = (accept env request s₁ w₁).1.accepted := by rw [hs₂]
            have hresv : w₂.reservations = w₁.reservations := by
              rw [hw₂]
              rfl
            cases res with
            | error e => exact haccepted hacc hfready hresv
            | ok u => exact haccepted hacc hfready hresv
          · exact haccepted rfl hready₁ rfl

end Reserving

end EconomyLab
