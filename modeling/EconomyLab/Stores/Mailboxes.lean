import EconomyLab.Foundation.Recoil
import EconomyLab.Foundation.Shelf
import EconomyLab.Stores.Records

/-!
# The outbox and the inbox of the in-memory store

Both keep their rows as objects. Some methods change the object in place and journal the
field they changed; others put a changed copy in its place and journal the whole row.
-/

namespace EconomyLab

open Foundation Journaled

inductive InboxStatus
  | pending
  | applied
  | dead
deriving DecidableEq, Repr

/-- A verified inbound event with the operation it applies, which the store never looks into. -/
structure InboxMessage (Op : Type) where
  id : String
  key : String
  operation : Op
  status : InboxStatus
  attempts : Nat
  receivedAt : Int
  reason : Option String

/-- The rows, the order they came in, and a further index. -/
structure Mailbox (M X : Type) where
  rows : Shelf String M
  order : List String
  index : X

namespace Mailbox

variable {M X : Type}

def empty (index : X) : Mailbox M X := ⟨Shelf.empty, [], index⟩

def find (t : Mailbox M X) (id : String) : Option (Obj M) := t.rows.rows.get id

/-- The row is changed through its object, and the reverser changes it back the same way. -/
def editRow (j : Journaled (Mailbox M X)) (id : String) (obj : Obj M) (change undo : M → M) :
    Journaled (Mailbox M X) :=
  j.write { j.rows with rows := j.rows.rows.edit id obj.ref change }
    fun t => { t with rows := t.rows.edit id obj.ref undo }

/-- A copy is kept, another object takes the row's place, and the reverser puts the copy there. -/
def replaceRow (j : Journaled (Mailbox M X)) (id : String) (obj : Obj M) (next : M) :
    Journaled (Mailbox M X) :=
  j.write { j.rows with rows := j.rows.rows.allocate.put id next }
    fun t => { t with rows := t.rows.putCopy id ⟨j.rows.rows.nextRef, obj.value⟩ }

structure Steady (j j' : Journaled (Mailbox M X)) : Prop where
  allocated : j.rows.rows.Allocated → j'.rows.rows.Allocated
  recording : j'.recording = j.recording

variable (j : Journaled (Mailbox M X))

theorem Steady.refl : Steady j j := ⟨fun h => h, rfl⟩

theorem Steady.trans {j j' j'' : Journaled (Mailbox M X)} (h : Steady j j') (h' : Steady j' j'') :
    Steady j j'' :=
  ⟨fun ha => h'.allocated (h.allocated ha), h'.recording.trans h.recording⟩

theorem editRow_steady (id : String) (obj : Obj M)
    (change undo : M → M) : Steady j (editRow j id obj change undo) :=
  ⟨fun h => h.edit id obj.ref change, write_recording _ _ _⟩

theorem replaceRow_steady (id : String) (obj : Obj M) (next : M) :
    Steady j (replaceRow j id obj next) :=
  ⟨fun h => h.allocate.put id next, write_recording _ _ _⟩

theorem foldl_steady {α : Type} {step : Journaled (Mailbox M X) → α → Journaled (Mailbox M X)}
    (h : ∀ j a, Steady j (step j a)) (as : List α) (j : Journaled (Mailbox M X)) :
    Steady j (as.foldl step j) := by
  induction as generalizing j with
  | nil => exact .refl j
  | cons a as ih => exact (h j a).trans (ih _)

/-! ## What a rollback takes back -/

section Kept

variable (same : X → X → Prop) (edited : M → Prop)

structure Near (start cur t : Mailbox M X) : Prop where
  rows : Shelf.Near start.rows cur.rows t.rows
  order : t.order = cur.order
  index : same cur.index t.index

/-- The journal leads back from `j` to `j₀`; an object of `start` is as it was or was edited. -/
structure Kept (j₀ j : Journaled (Mailbox M X)) : Prop where
  recoils : Recoils (Near same j₀.rows) j₀ j
  now : Near same j₀.rows j.rows j.rows
  bound : ∀ k r, j₀.rows.find k = some r → r.ref < j.rows.rows.nextRef
  objects : ∀ k r₀ r, j₀.rows.find k = some r₀ → j.rows.find k = some r → r.ref = r₀.ref →
    r.value = r₀.value ∨ edited r.value

variable {same edited}

theorem Kept.refl {j : Journaled (Mailbox M X)} (h : j.rows.rows.Allocated)
    (hsame : ∀ x, same x x) : Kept same edited j j where
  recoils := Recoils.refl _ _
  now := ⟨h.near, rfl, hsame _⟩
  bound := h.fresh
  objects _ _ _ h₀ hr _ := .inl (congrArg Obj.value (Option.some.inj (hr.symm.trans h₀)))

variable {j₀ j : Journaled (Mailbox M X)} {id : String} {obj : Obj M}

theorem Kept.edit (h : Kept same edited j₀ j) {change undo : M → M} (hid : j.rows.find id = some obj)
    (hundo : undo (change obj.value) = obj.value) (hedited : edited (change obj.value)) :
    Kept same edited j₀ (editRow j id obj change undo) where
  recoils := h.recoils.write fun t ht => ⟨ht.rows.edit_undo hid hundo, ht.order, ht.index⟩
  now := ⟨h.now.rows.edit_now, rfl, h.now.index⟩
  bound k r hr := by
    simp only [editRow, Journaled.write, Journaled.record, Shelf.edit_nextRef]
    exact h.bound k r hr
  objects k r₀ r h₀ hr href := by
    simp only [editRow, Journaled.write, Journaled.record, find, Shelf.edit_get] at hr
    obtain ⟨o, ho, rfl⟩ := Option.map_eq_some_iff.mp hr
    by_cases hk : k = id ∧ o.ref = obj.ref
    · obtain ⟨rfl, -⟩ := hk
      have heq : o = obj := Option.some.inj (ho.symm.trans hid)
      simp only [heq, true_and, if_true]
      exact .inr hedited
    · rw [if_neg hk] at href ⊢
      exact h.objects k r₀ o h₀ ho href

theorem Kept.replace (h : Kept same edited j₀ j) (hid : j.rows.find id = some obj) (next : M)
    (hsame : ∀ r₀, j₀.rows.find id = some r₀ → obj.ref = r₀.ref → obj.value = r₀.value) :
    Kept same edited j₀ (replaceRow j id obj next) where
  recoils := h.recoils.write fun t ht =>
    ⟨ht.rows.replace_undo hid h.bound hsame, ht.order, ht.index⟩
  now := ⟨h.now.rows.allocate_now.put_now, rfl, h.now.index⟩
  bound k r hr := Nat.lt_succ_of_lt (Nat.lt_succ_of_lt (h.bound k r hr))
  objects k r₀ r h₀ hr href := by
    simp only [replaceRow, Journaled.write, Journaled.record, find, Shelf.put, Shelf.allocate,
      OrderedTable.get_set] at hr
    split at hr
    · rename_i hk
      subst hk
      cases hr
      have hlt := h.bound k r₀ h₀
      simp only at href
      omega
    · exact h.objects k r₀ r h₀ hr href

theorem Kept.enqueue (h : Kept same edited j₀ j) (m : M) (index : X) (undoIndex : X → X)
    (hid : j₀.rows.find id = none) (hnow : same index index)
    (hindex : ∀ x, same index x → same j.rows.index (undoIndex x)) :
    Kept same edited j₀ (j.write ⟨j.rows.rows.put id m, j.rows.order ++ [id], index⟩
      fun t => ⟨t.rows.delete id, t.order.dropLast, undoIndex t.index⟩) where
  recoils := by
    apply h.recoils.write
    intro t ht
    refine ⟨ht.rows.put_undo hid, ?_, hindex _ ht.index⟩
    rw [ht.order]
    exact List.dropLast_concat
  now := ⟨h.now.rows.put_now, rfl, hnow⟩
  bound k r hr := Nat.lt_succ_of_lt (h.bound k r hr)
  objects k r₀ r h₀ hr href := by
    simp only [Journaled.write, Journaled.record, find, Shelf.put, OrderedTable.get_set] at hr
    split at hr
    · rename_i hk
      subst hk
      rw [hid] at h₀
      cases h₀
    · exact h.objects k r₀ r h₀ hr href

end Kept

/-- The object under the id, if it is one that was there at the start, holds what it held then. -/
def Untouched (start cur : Mailbox M X) (id : String) : Prop :=
  ∀ r₀ obj, start.find id = some r₀ → cur.find id = some obj → obj.ref = r₀.ref →
    obj.value = r₀.value

def look (t : Mailbox M X) (id : String) : Option M := t.rows.look id

/-- The rows read the same, in the same order, and so does the index where it is read. -/
structure Reads (same : X → X → Prop) (t t' : Mailbox M X) : Prop where
  contents : t'.rows.contents = t.rows.contents
  order : t'.order = t.order
  index : same t.index t'.index

theorem Near.reads {same : X → X → Prop} {start t : Mailbox M X} (hstart : start.rows.Allocated)
    (h : Near same start start t) : Reads same start t :=
  ⟨h.rows.contents_eq hstart, h.order, h.index⟩

theorem look_of_find {t : Mailbox M X} {id : String} {obj : Obj M} (h : t.find id = some obj) :
    t.look id = some obj.value := by
  unfold find at h
  simp [look, Shelf.look, h]

theorem look_eq_lookup (t : Mailbox M X) (id : String) :
    t.look id = OrderedTable.lookup id t.rows.contents :=
  t.rows.look_eq_lookup id

theorem Reads.look {same : X → X → Prop} {t t' : Mailbox M X} (h : Reads same t t') (id : String) :
    t'.look id = t.look id := by
  rw [look_eq_lookup, look_eq_lookup, h.contents]

end Mailbox

open Mailbox

/-- The further index holds the enqueue times. -/
abbrev OutboxRows := Mailbox OutboxMessage (Table String Int)

namespace OutboxRows

def enqueue (now : Int) (message : OutboxMessage) (j : Journaled OutboxRows) : Journaled OutboxRows :=
  j.write ⟨j.rows.rows.put message.id message, j.rows.order ++ [message.id],
      j.rows.index.set message.id now⟩
    fun t => ⟨t.rows.delete message.id, t.order.dropLast, t.index.delete message.id⟩

/-- The row under the id while its message is pending; every other method passes it over. -/
def pending (t : OutboxRows) (id : String) : Option (Obj OutboxMessage) :=
  (t.find id).filter (·.value.status = .pending)

def markOne (j : Journaled OutboxRows) (id : String) : Journaled OutboxRows :=
  match pending j.rows id with
  | none => j
  | some obj =>
    editRow j id obj (fun m => { m with status := .relayed })
      (fun m => { m with status := obj.value.status })

def markRelayed (ids : List String) (j : Journaled OutboxRows) : Journaled OutboxRows :=
  ids.foldl markOne j

def recordFailure (id : String) (j : Journaled OutboxRows) : Journaled OutboxRows :=
  match pending j.rows id with
  | none => j
  | some obj =>
    editRow j id obj (fun m => { m with attempts := m.attempts + 1 })
      (fun m => { m with attempts := obj.value.attempts })

def deadLetter (id reason : String) (j : Journaled OutboxRows) : Journaled OutboxRows :=
  match pending j.rows id with
  | none => j
  | some obj =>
    replaceRow j id obj { obj.value with status := .dead, reason := some reason }

/-! ### Reads -/

def size (t : OutboxRows) : Nat := t.rows.contents.length

def claimBatch (limit : Nat) (t : OutboxRows) : List OutboxMessage :=
  (t.order.filterMap fun id => (t.look id).filter (·.status = .pending)).take limit

/-- The pending messages with their enqueue times, in the order of the map. -/
def pendingTimes (t : OutboxRows) : List (Option Int) :=
  (t.rows.contents.filter (·.2.status = .pending)).map fun row => t.index.get row.1

def stats (now : Int) (t : OutboxRows) : Nat × Option Int :=
  (t.pendingTimes.length, (t.pendingTimes.reduceOption.min?).map (now - ·))

def SameTimes (start : OutboxRows) (x y : Table String Int) : Prop :=
  ∀ id, (start.find id).isSome → y.get id = x.get id

theorem pendingTimes_eq {start t : OutboxRows} (h : Reads (SameTimes start) start t)
    (hstart : start.rows.Allocated) : pendingTimes t = pendingTimes start := by
  unfold pendingTimes
  rw [h.contents]
  apply List.map_congr_left
  intro row hrow
  apply h.index
  obtain ⟨⟨id, obj⟩, hmem, rfl⟩ := List.mem_map.mp (List.mem_of_mem_filter hrow)
  have hfind : start.find id = some obj := (OrderedTable.get_eq_some hstart.nodup).mpr hmem
  simp [hfind]

theorem reads_eq {start t : OutboxRows} (h : Reads (SameTimes start) start t)
    (hstart : start.rows.Allocated) :
    size t = size start ∧ (∀ limit, claimBatch limit t = claimBatch limit start) ∧
      ∀ now, stats now t = stats now start := by
  refine ⟨by rw [size, size, h.contents], fun limit => ?_, fun now => ?_⟩
  · simp only [claimBatch, h.order, h.look]
  · simp only [stats, pendingTimes_eq h hstart]

end OutboxRows

inductive OutboxWrite
  | enqueue (message : OutboxMessage)
  | markRelayed (ids : List String)
  | recordFailure (id : String)
  | deadLetter (id reason : String)

namespace OutboxWrite

def run (now : Int) : OutboxWrite → Journaled OutboxRows → Journaled OutboxRows
  | enqueue message => OutboxRows.enqueue now message
  | markRelayed ids => OutboxRows.markRelayed ids
  | recordFailure id => OutboxRows.recordFailure id
  | deadLetter id reason => OutboxRows.deadLetter id reason

/-- An id is enqueued once, and a message is not given up in the unit that counted a failed
attempt on it: its reverser would put a copy back that the attempt's reverser cannot reach. -/
def Reversible (start cur : OutboxRows) : OutboxWrite → Prop
  | enqueue message => start.find message.id = none
  | deadLetter id _ => (OutboxRows.pending cur id).isSome → Untouched start cur id
  | _ => True

/-- What a change in place leaves: the message was pending and is not dead. -/
def Alive (m : OutboxMessage) : Prop := m.status ≠ .dead

abbrev Kept (j₀ j : Journaled OutboxRows) : Prop :=
  Mailbox.Kept (OutboxRows.SameTimes j₀.rows) Alive j₀ j

variable {j₀ j : Journaled OutboxRows}

theorem pending_eq {t : OutboxRows} {id : String} {obj : Obj OutboxMessage}
    (h : OutboxRows.pending t id = some obj) : t.find id = some obj ∧ obj.value.status = .pending := by
  simpa [OutboxRows.pending, Option.filter_eq_some_iff] using h

theorem markOne_kept (h : Kept j₀ j) (id : String) : Kept j₀ (OutboxRows.markOne j id) := by
  unfold OutboxRows.markOne
  cases hp : OutboxRows.pending j.rows id with
  | none => exact h
  | some obj => exact h.edit (pending_eq hp).1 rfl (by simp [Alive])

theorem markRelayed_kept (h : Kept j₀ j) (ids : List String) :
    Kept j₀ (OutboxRows.markRelayed ids j) := by
  unfold OutboxRows.markRelayed
  induction ids generalizing j with
  | nil => exact h
  | cons id ids ih => exact ih (markOne_kept h id)

theorem recordFailure_kept (h : Kept j₀ j) (id : String) :
    Kept j₀ (OutboxRows.recordFailure id j) := by
  unfold OutboxRows.recordFailure
  cases hp : OutboxRows.pending j.rows id with
  | none => exact h
  | some obj =>
    obtain ⟨hfind, hstatus⟩ := pending_eq hp
    exact h.edit hfind rfl (by simp [Alive, hstatus])

theorem deadLetter_kept (h : Kept j₀ j) (id reason : String)
    (hsame : (OutboxRows.pending j.rows id).isSome → Untouched j₀.rows j.rows id) :
    Kept j₀ (OutboxRows.deadLetter id reason j) := by
  unfold OutboxRows.deadLetter
  cases hp : OutboxRows.pending j.rows id with
  | none => exact h
  | some obj =>
    have hfind := (pending_eq hp).1
    exact h.replace hfind _ fun r₀ h₀ href => hsame (by simp [hp]) r₀ obj h₀ hfind href

theorem enqueue_kept (h : Kept j₀ j) (now : Int) (message : OutboxMessage)
    (hid : j₀.rows.find message.id = none) : Kept j₀ (OutboxRows.enqueue now message j) := by
  apply h.enqueue message _ (fun times => times.delete message.id) hid (fun _ _ => rfl)
  intro x hx id hsome
  have hne : id ≠ message.id := by
    intro heq
    rw [heq, hid] at hsome
    cases hsome
  have hget := hx id hsome
  rw [Table.get_set_of_ne _ _ hne] at hget
  rw [Table.get_delete_of_ne _ hne, hget]

theorem run_kept (h : Kept j₀ j) (now : Int) (w : OutboxWrite)
    (hw : w.Reversible j₀.rows j.rows) : Kept j₀ (w.run now j) := by
  cases w with
  | enqueue message => exact enqueue_kept h now message hw
  | markRelayed ids => exact markRelayed_kept h ids
  | recordFailure id => exact recordFailure_kept h id
  | deadLetter id reason => exact deadLetter_kept h id reason hw

theorem run_steady (now : Int) (w : OutboxWrite) (j : Journaled OutboxRows) :
    Steady j (w.run now j) := by
  cases w with
  | enqueue message => exact ⟨fun h => h.put _ _, write_recording _ _ _⟩
  | markRelayed ids =>
    refine foldl_steady (fun j id => ?_) ids j
    unfold OutboxRows.markOne
    split
    · exact .refl _
    · exact editRow_steady _ _ _ _ _
  | recordFailure id =>
    simp only [run, OutboxRows.recordFailure]
    split
    · exact .refl _
    · exact editRow_steady _ _ _ _ _
  | deadLetter id reason =>
    simp only [run, OutboxRows.deadLetter]
    split
    · exact .refl _
    · exact replaceRow_steady _ _ _ _

end OutboxWrite

/-- The further index holds the id each provider key came in under. -/
abbrev InboxRows (Op : Type) := Mailbox (InboxMessage Op) (Table String String)

namespace InboxRows

variable {Op : Type}

/-- A key that came in before answers the row it has; nothing is written. -/
def enqueueInbound (entry : InboxMessage Op) (j : Journaled (InboxRows Op)) :
    Journaled (InboxRows Op) :=
  match j.rows.index.get entry.key with
  | some _ => j
  | none =>
    j.write ⟨j.rows.rows.put entry.id entry, j.rows.order ++ [entry.id],
        j.rows.index.set entry.key entry.id⟩
      fun t => ⟨t.rows.delete entry.id, t.order.dropLast, t.index.delete entry.key⟩

def pending (t : InboxRows Op) (id : String) : Option (Obj (InboxMessage Op)) :=
  (t.find id).filter (·.value.status = .pending)

def markApplied (id : String) (j : Journaled (InboxRows Op)) : Journaled (InboxRows Op) :=
  match pending j.rows id with
  | none => j
  | some obj =>
    editRow j id obj (fun m => { m with status := .applied })
      (fun m => { m with status := obj.value.status })

def bumpAttempt (id : String) (j : Journaled (InboxRows Op)) : Journaled (InboxRows Op) :=
  match pending j.rows id with
  | none => j
  | some obj =>
    editRow j id obj (fun m => { m with attempts := m.attempts + 1 })
      (fun m => { m with attempts := obj.value.attempts })

def deadLetter (id reason : String) (j : Journaled (InboxRows Op)) : Journaled (InboxRows Op) :=
  match pending j.rows id with
  | none => j
  | some obj =>
    replaceRow j id obj { obj.value with status := .dead, reason := some reason }

/-- The dead rows, oldest `receivedAt` first. -/
def deadRows (t : InboxRows Op) : List (String × InboxMessage Op) :=
  (t.rows.contents.filter (·.2.status = .dead)).insertionSort fun a b =>
    a.2.receivedAt ≤ b.2.receivedAt

/-- One row of `reviveDeadRows`, as it was when the dead rows were collected. -/
def reviveOne (j : Journaled (InboxRows Op)) (row : String × InboxMessage Op) :
    Journaled (InboxRows Op) :=
  match j.rows.find row.1 with
  | none => j
  | some obj =>
    replaceRow j row.1 obj { row.2 with status := .pending, attempts := 0, reason := none }

def reviveDead (limit : Nat) (j : Journaled (InboxRows Op)) : Journaled (InboxRows Op) :=
  ((deadRows j.rows).take limit).foldl reviveOne j

/-! ### Reads -/

/-- Oldest `receivedAt` first across the whole table, then the limit. -/
def claimInbound (limit : Nat) (t : InboxRows Op) : List (InboxMessage Op) :=
  ((t.order.filterMap fun id => (t.look id).filter (·.status = .pending)).insertionSort
    fun a b => a.receivedAt ≤ b.receivedAt).take limit

/-- What `enqueueInbound` answers for a key. -/
def received (key : String) (t : InboxRows Op) : Option (InboxMessage Op) :=
  (t.index.get key).bind t.look

theorem reads_eq {start t : InboxRows Op} (h : Reads Eq start t) :
    (∀ limit, claimInbound limit t = claimInbound limit start) ∧
      (∀ key, received key t = received key start) ∧ deadRows t = deadRows start := by
  have hlook : t.look = start.look := funext h.look
  refine ⟨fun limit => ?_, fun key => ?_, ?_⟩
  · simp only [claimInbound, h.order, hlook]
  · simp only [received, ← h.index, hlook]
  · simp only [deadRows, h.contents]

end InboxRows

inductive InboxWrite (Op : Type)
  | enqueueInbound (entry : InboxMessage Op)
  | markApplied (id : String)
  | bumpAttempt (id : String)
  | deadLetter (id reason : String)
  | reviveDead (limit : Nat)

namespace InboxWrite

variable {Op : Type}

def run : InboxWrite Op → Journaled (InboxRows Op) → Journaled (InboxRows Op)
  | enqueueInbound entry => InboxRows.enqueueInbound entry
  | markApplied id => InboxRows.markApplied id
  | bumpAttempt id => InboxRows.bumpAttempt id
  | deadLetter id reason => InboxRows.deadLetter id reason
  | reviveDead limit => InboxRows.reviveDead limit

/-- A new key comes in under a new id, and a message is not given up in the unit that counted a
failed attempt on it. -/
def Reversible (start cur : InboxRows Op) : InboxWrite Op → Prop
  | enqueueInbound entry => cur.index.get entry.key = none → start.find entry.id = none
  | deadLetter id _ => (InboxRows.pending cur id).isSome → Untouched start cur id
  | _ => True

def Alive (m : InboxMessage Op) : Prop := m.status ≠ .dead

abbrev Kept (j₀ j : Journaled (InboxRows Op)) : Prop := Mailbox.Kept Eq Alive j₀ j

variable {j₀ j : Journaled (InboxRows Op)}

theorem pending_eq {t : InboxRows Op} {id : String} {obj : Obj (InboxMessage Op)}
    (h : InboxRows.pending t id = some obj) : t.find id = some obj ∧ obj.value.status = .pending := by
  simpa [InboxRows.pending, Option.filter_eq_some_iff] using h

theorem enqueueInbound_kept (h : Kept j₀ j) (entry : InboxMessage Op)
    (hid : j.rows.index.get entry.key = none → j₀.rows.find entry.id = none) :
    Kept j₀ (InboxRows.enqueueInbound entry j) := by
  unfold InboxRows.enqueueInbound
  cases hkey : j.rows.index.get entry.key with
  | some id => exact h
  | none =>
    apply h.enqueue entry _ (fun keys => keys.delete entry.key) (hid hkey) rfl
    intro x hx
    subst hx
    ext1 k
    by_cases hk : k = entry.key
    · simp [hk, hkey]
    · simp [hk]

theorem markApplied_kept (h : Kept j₀ j) (id : String) : Kept j₀ (InboxRows.markApplied id j) := by
  unfold InboxRows.markApplied
  cases hp : InboxRows.pending j.rows id with
  | none => exact h
  | some obj => exact h.edit (pending_eq hp).1 rfl (by simp [Alive])

theorem bumpAttempt_kept (h : Kept j₀ j) (id : String) : Kept j₀ (InboxRows.bumpAttempt id j) := by
  unfold InboxRows.bumpAttempt
  cases hp : InboxRows.pending j.rows id with
  | none => exact h
  | some obj =>
    obtain ⟨hfind, hstatus⟩ := pending_eq hp
    exact h.edit hfind rfl (by simp [Alive, hstatus])

theorem deadLetter_kept (h : Kept j₀ j) (id reason : String)
    (hsame : (InboxRows.pending j.rows id).isSome → Untouched j₀.rows j.rows id) :
    Kept j₀ (InboxRows.deadLetter id reason j) := by
  unfold InboxRows.deadLetter
  cases hp : InboxRows.pending j.rows id with
  | none => exact h
  | some obj =>
    have hfind := (pending_eq hp).1
    exact h.replace hfind _ fun r₀ h₀ href => hsame (by simp [hp]) r₀ obj h₀ hfind href

/-- A dead row was replaced when it died, so nothing was changed in place on its object. -/
theorem reviveOne_kept (h : Kept j₀ j) {row : String × InboxMessage Op}
    (hrow : j.rows.look row.1 = some row.2) (hdead : row.2.status = .dead) :
    Kept j₀ (InboxRows.reviveOne j row) := by
  unfold InboxRows.reviveOne
  cases hfind : j.rows.find row.1 with
  | none => exact h
  | some obj =>
    have hvalue : obj.value = row.2 :=
      Option.some.inj ((look_of_find hfind).symm.trans hrow)
    refine h.replace hfind _ fun r₀ h₀ href => ?_
    cases h.objects row.1 r₀ obj h₀ hfind href with
    | inl hsame => exact hsame
    | inr halive => exact absurd (hvalue ▸ hdead) halive

theorem look_reviveOne (j : Journaled (InboxRows Op)) {row : String × InboxMessage Op} {k : String}
    (hk : k ≠ row.1) : (InboxRows.reviveOne j row).rows.look k = j.rows.look k := by
  unfold InboxRows.reviveOne
  cases j.rows.find row.1 with
  | none => rfl
  | some obj =>
    simp [replaceRow, Journaled.write, Journaled.record, Mailbox.look, Shelf.look, Shelf.put,
      Shelf.allocate, hk]

theorem reviveAll_kept {rows : List (String × InboxMessage Op)} (h : Kept j₀ j)
    (hnodup : (rows.map Prod.fst).Nodup)
    (hrows : ∀ row ∈ rows, j.rows.look row.1 = some row.2 ∧ row.2.status = .dead) :
    Kept j₀ (rows.foldl InboxRows.reviveOne j) := by
  induction rows generalizing j with
  | nil => exact h
  | cons row rows ih =>
    obtain ⟨hnotin, hrest⟩ := List.nodup_cons.mp hnodup
    obtain ⟨hlook, hdead⟩ := hrows row (by simp)
    apply ih (reviveOne_kept h hlook hdead) hrest
    intro row' hmem
    have hne : row'.1 ≠ row.1 := by
      intro heq
      exact hnotin (heq ▸ List.mem_map_of_mem hmem)
    rw [look_reviveOne j hne]
    exact hrows row' (by simp [hmem])

theorem deadRows_found (limit : Nat) {t : InboxRows Op} (hnodup : t.rows.rows.keys.Nodup) :
    (((InboxRows.deadRows t).take limit).map Prod.fst).Nodup ∧
      ∀ row ∈ (InboxRows.deadRows t).take limit, t.look row.1 = some row.2 ∧ row.2.status = .dead := by
  have hperm : (InboxRows.deadRows t).Perm _ := List.perm_insertionSort _ _
  have hkeys : (t.rows.contents.map Prod.fst).Nodup := by
    simpa [Shelf.contents, OrderedTable.keys, Function.comp_def] using hnodup
  constructor
  · have hdead : ((InboxRows.deadRows t).map Prod.fst).Nodup := by
      apply (hperm.map Prod.fst).nodup_iff.mpr
      exact hkeys.sublist (List.filter_sublist.map Prod.fst)
    exact hdead.sublist ((List.take_sublist _ _).map Prod.fst)
  · intro row hrow
    have hmem := hperm.mem_iff.mp (List.mem_of_mem_take hrow)
    obtain ⟨hcontents, hstatus⟩ := List.mem_filter.mp hmem
    obtain ⟨⟨id, obj⟩, hentry, rfl⟩ := List.mem_map.mp hcontents
    refine ⟨?_, by simpa using hstatus⟩
    exact look_of_find ((OrderedTable.get_eq_some hnodup).mpr hentry)

theorem reviveDead_kept (h : Kept j₀ j) (limit : Nat) : Kept j₀ (InboxRows.reviveDead limit j) := by
  obtain ⟨hnodup, hrows⟩ := deadRows_found limit h.now.rows.nodup
  exact reviveAll_kept h hnodup hrows

theorem run_kept (h : Kept j₀ j) (w : InboxWrite Op) (hw : w.Reversible j₀.rows j.rows) :
    Kept j₀ (w.run j) := by
  cases w with
  | enqueueInbound entry => exact enqueueInbound_kept h entry hw
  | markApplied id => exact markApplied_kept h id
  | bumpAttempt id => exact bumpAttempt_kept h id
  | deadLetter id reason => exact deadLetter_kept h id reason hw
  | reviveDead limit => exact reviveDead_kept h limit

theorem run_steady (w : InboxWrite Op) (j : Journaled (InboxRows Op)) : Steady j (w.run j) := by
  cases w with
  | enqueueInbound entry =>
    simp only [run, InboxRows.enqueueInbound]
    split
    · exact .refl _
    · exact ⟨fun h => h.put _ _, write_recording _ _ _⟩
  | markApplied id =>
    simp only [run, InboxRows.markApplied]
    split
    · exact .refl _
    · exact editRow_steady _ _ _ _ _
  | bumpAttempt id =>
    simp only [run, InboxRows.bumpAttempt]
    split
    · exact .refl _
    · exact editRow_steady _ _ _ _ _
  | deadLetter id reason =>
    simp only [run, InboxRows.deadLetter]
    split
    · exact .refl _
    · exact replaceRow_steady _ _ _ _
  | reviveDead limit =>
    refine foldl_steady (fun j row => ?_) _ j
    unfold InboxRows.reviveOne
    split
    · exact .refl _
    · exact replaceRow_steady _ _ _ _

end InboxWrite

end EconomyLab
