import EconomyLab.Chain.Stamping

/-!
# The rolling re-proof

A tick re-derives one page of stored links and advances a stored cursor; a tick whose page is the
last one wraps around and stamps the watermark. Ticks, appends and prunes may interleave at every
read and write. A rotation starts at the tick that reads no cursor and is handed on with the cursor.
-/

namespace EconomyLab

open Foundation

structure LinkPage where
  links : List (AccountRef × StoredLink)
  cursor : Option Nat

/-- Whole postings a page, cut off the log as the archive cuts them. -/
def linksPage (log : List StoredPosting) (cursor : Option Nat) (limit : Nat) : Except Fault LinkPage :=
  (archivePage log cursor limit).map fun page => ⟨pageLinks page.postings, page.cursor⟩

structure Reproof where
  cursor : Option Nat
  rotatedAt : Option Int

def Reproof.initial : Reproof := ⟨none, none⟩

structure ReproofInput where
  now : Int
  limit : Nat

structure ReproofSummary where
  checked : Nat
  cursor : Option Nat
  rotatedAt : Option Int
  skipped : Bool

def editedInPlace : Fault :=
  fault .chainBroken ("A stored chain link failed to re-derive from its own content; stored history " ++
    "was edited in place.")

def hashPage (digest : Digest) (page : LinkPage) : Except Fault Unit := do
  match ← reproveLinks digest page.links with
  | none => return ()
  | some _ => .error editedInPlace

def Reproof.next (state : Reproof) (page : LinkPage) (now : Int) : Reproof :=
  ⟨page.cursor, if page.cursor = none then some now else state.rotatedAt⟩

/-- A tick with nothing in between; one that throws stores nothing. -/
def reproveStoredChains (digest : Digest) (input : ReproofInput) (log : List StoredPosting)
    (stored : Option Reproof) : Except Fault (ReproofSummary × Reproof) := do
  let state := stored.getD Reproof.initial
  let page ← linksPage log state.cursor input.limit
  hashPage digest page
  let next := state.next page input.now
  return (⟨page.links.length, next.cursor, next.rotatedAt, false⟩, next)

/-! ## Ticks among appends and prunes -/

/-- What else happens to the ledger. A prune of the archive is a transaction of its own, and one
that finds a transaction open waits for its turn. -/
inductive LedgerEvent
  | begin
  | commit
  | rollback
  | rollbackTo (mark : Nat)
  | entry (now : Int) (posting : Posting)
  | archive (txnIds : List String)

def LedgerEvent.run (digest : Digest) (l : MemoryLedger) : LedgerEvent → MemoryLedger
  | .begin => { l with book := l.book.begin.getD l.book }
  | .commit => { l with book := l.book.commit }
  | .rollback => { l with book := l.book.rollback }
  | .rollbackTo mark => { l with book := l.book.rollbackTo mark }
  | .entry now posting => (postEntry digest now posting l).2
  | .archive txnIds =>
    match l.book.begin with
    | none => l
    | some book =>
      let pruned := pruneFromLog txnIds { l with book }
      { pruned with book := pruned.book.commit }

/-- Stored rows edited in place. A page read before shares its legs and metadata with the rows, so
a tick under way may see the edit as well. -/
structure RowEdit where
  change : StoredPosting → StoredPosting
  seen : AccountRef × StoredLink → AccountRef × StoredLink

def RowEdit.row (edit : RowEdit) (row : StoredPosting) : StoredPosting :=
  { edit.change row with seq := row.seq }

def RowEdit.run (edit : RowEdit) (l : MemoryLedger) : MemoryLedger :=
  let log := l.tables.log.map edit.row
  { l with book := { l.book with rows := { l.tables with log, deltaColumns := columnsOfLog log } } }

/-- A walk over the log: when its first page was read, the rows stored then, and the links
re-derived since. -/
structure Rotation where
  began : Nat
  stored : List StoredPosting
  checked : List (AccountRef × StoredLink)

inductive TickPhase
  | reading (rotation : Option Rotation)
  | hashing (page : LinkPage) (rotation : Rotation)
  | storing (page : LinkPage) (rotation : Rotation)

structure ReproofTick where
  input : ReproofInput
  state : Reproof
  phase : TickPhase

structure Completion where
  rotation : Rotation
  ledger : MemoryLedger
  rotatedAt : Int

/-- The store with the ticks under way; `rotation` is the walk the stored cursor stands in and
`elapsed` counts the events. -/
structure Reproving where
  ledger : MemoryLedger
  reproof : Option Reproof
  rotation : Option Rotation
  ticks : List ReproofTick
  completed : List Completion
  elapsed : Nat

inductive ReproofEvent
  | ledger (event : LedgerEvent)
  | edit (edit : RowEdit)
  | read (input : ReproofInput)
  | page (tick : Nat)
  | hash (tick : Nat)
  | put (tick : Nat)
  | stop (tick : Nat)

def RowEdit.tick (edit : RowEdit) (tick : ReproofTick) : ReproofTick :=
  match tick.phase with
  | .hashing page rotation =>
    { tick with phase := .hashing { page with links := page.links.map edit.seen } rotation }
  | _ => tick

namespace Reproving

def start : Reproving := ⟨createLedgerStore, none, none, [], [], 0⟩

def log (s : Reproving) : List StoredPosting := s.ledger.tables.log

def state (s : Reproving) : Reproof := s.reproof.getD Reproof.initial

def drop (s : Reproving) (tick : Nat) : Reproving := { s with ticks := s.ticks.eraseIdx tick }

/-- The walk a tick is part of: one that read no cursor starts over. -/
def walkOf (s : Reproving) (state : Reproof) (rotation : Option Rotation) : Rotation :=
  match state.cursor, rotation with
  | some _, some rotation => rotation
  | _, _ => ⟨s.elapsed, s.log, []⟩

def act (digest : Digest) (s : Reproving) : ReproofEvent → Reproving
  | .ledger event => { s with ledger := event.run digest s.ledger }
  | .edit edit => { s with ledger := edit.run s.ledger, ticks := s.ticks.map edit.tick }
  | .read input => { s with ticks := s.ticks ++ [⟨input, s.state, .reading s.rotation⟩] }
  | .page tick =>
    match s.ticks[tick]? with
    | some ⟨input, state, .reading rotation⟩ =>
      match linksPage s.log state.cursor input.limit with
      | .error _ => s.drop tick
      | .ok page =>
        { s with ticks := s.ticks.set tick ⟨input, state, .hashing page (s.walkOf state rotation)⟩ }
    | _ => s
  | .hash tick =>
    match s.ticks[tick]? with
    | some ⟨input, state, .hashing page rotation⟩ =>
      match hashPage digest page with
      | .error _ => s.drop tick
      | .ok () =>
        let rotation := { rotation with checked := rotation.checked ++ page.links }
        { s with ticks := s.ticks.set tick ⟨input, state, .storing page rotation⟩ }
    | _ => s
  | .put tick =>
    match s.ticks[tick]? with
    | some ⟨input, state, .storing page rotation⟩ =>
      let stored := { s.drop tick with reproof := some (state.next page input.now) }
      match page.cursor with
      | some _ => { stored with rotation := some rotation }
      | none =>
        { stored with
          rotation := none
          completed := s.completed ++ [⟨rotation, s.ledger, input.now⟩] }
    | _ => s
  | .stop tick => s.drop tick

def step (digest : Digest) (s : Reproving) (event : ReproofEvent) : Reproving :=
  { s.act digest event with elapsed := s.elapsed + 1 }

def run (digest : Digest) (events : List ReproofEvent) : Reproving := events.foldl (step digest) start

end Reproving

namespace Reproving

variable {digest : Digest} {s : Reproving}

theorem run_reproveStoredChains (digest : Digest) (input : ReproofInput) (hidle : s.ticks = []) :
    ([.read input, .page 0, .hash 0, .put 0].foldl (step digest) s).reproof =
      (reproveStoredChains digest input s.log s.reproof).toOption.elim s.reproof
      (fun done => some done.2) := by
  have hwhole : reproveStoredChains digest input s.log s.reproof =
      (linksPage s.log s.state.cursor input.limit).bind fun page => (hashPage digest page).bind fun _ =>
        .ok (⟨page.links.length, (s.state.next page input.now).cursor,
          (s.state.next page input.now).rotatedAt,
          false⟩, s.state.next page input.now) := rfl
  rw [hwhole]
  cases hpage : linksPage s.log s.state.cursor input.limit with
  | error e =>
    simp only [log, state] at hpage
    simp [step, act, hidle, drop, log, state, hpage, Except.bind, Except.toOption]
  | ok page =>
    simp only [log, state] at hpage
    cases hhash : hashPage digest page with
    | error e => simp [step, act, hidle, drop, log, state, hpage, hhash, Except.bind, Except.toOption]
    | ok u =>
      cases hcursor : page.cursor <;>
        simp [step, act, hidle, drop, log, state, hpage, hhash, hcursor, Except.bind, Except.toOption]

end Reproving

variable {limit : Nat} {edit : RowEdit} {page : LinkPage}

theorem archivePage_cursor {log : List StoredPosting} {cursor : Option Nat}
    {page : ArchivePage} (h : archivePage log cursor limit = .ok page) :
    (page.cursor = none ∧ page.postings = pastCursor cursor log) ∨
      ∃ last, page.postings.getLast? = some last ∧ page.cursor = some last.seq := by
  have hpostings := archivePage_postings h
  unfold archivePage at h
  simp only at h
  split at h
  · right
    split at h
    · cases h
    · rename_i last hlast
      cases h
      exact ⟨last, hlast, rfl⟩
  · rename_i hall
    left
    cases h
    refine ⟨rfl, ?_⟩
    apply (List.take_sublist _ _).eq_of_length_le
    exact Nat.le_of_not_lt hall

theorem mem_pageLinks {rows : List StoredPosting} {row : StoredPosting} (hrow : row ∈ rows)
    {link : AccountRef × StoredLink} (h : link ∈ pageLinks [row]) : link ∈ pageLinks rows := by
  unfold pageLinks at h ⊢
  rw [List.flatMap_singleton] at h
  exact List.mem_flatMap.mpr ⟨row, hrow, h⟩

/-- A row past the old cursor that the new one has passed is on the page. -/
theorem linksPage_holds {log : List StoredPosting} {cursor : Option Nat}
    (hsorted : log.Pairwise fun row later => row.seq < later.seq)
    (h : linksPage log cursor limit = .ok page) {row : StoredPosting} (hrow : row ∈ log)
    (hpast : cursor.all fun seq => seq < row.seq) (hpassed : page.cursor.all fun seq => row.seq ≤ seq)
    {link : AccountRef × StoredLink} (hlink : link ∈ pageLinks [row]) : link ∈ page.links := by
  unfold linksPage at h
  cases hcut : archivePage log cursor limit with
  | error e =>
    rw [hcut] at h
    cases h
  | ok rows =>
    rw [hcut] at h
    cases h
    apply mem_pageLinks _ hlink
    have heligible : row ∈ pastCursor cursor log := List.mem_filter.mpr ⟨hrow, hpast⟩
    rcases archivePage_cursor hcut with ⟨-, hall⟩ | ⟨last, hlast, hcursor⟩
    · rw [hall]
      exact heligible
    · have hpostings := archivePage_postings hcut
      rw [← List.take_append_drop limit (pastCursor cursor log), List.mem_append] at heligible
      rcases heligible with hin | hbehind
      · rw [hpostings]
        exact hin
      · exfalso
        -- Rows behind the page are younger than its last one.
        have hapart : (pastCursor cursor log).Pairwise fun row later => row.seq < later.seq :=
          hsorted.filter _
        rw [← List.take_append_drop limit (pastCursor cursor log)] at hapart
        have hlt := (List.pairwise_append.mp hapart).2.2 last
          (hpostings ▸ List.mem_of_getLast? hlast) row hbehind
        have hle : row.seq ≤ last.seq := by
          simp only [hcursor, Option.all_some] at hpassed
          exact of_decide_eq_true hpassed
        exact absurd hle (not_le.mpr hlt)

theorem reproveLinks_none {digest : Digest} {links : List (AccountRef × StoredLink)}
    (h : reproveLinks digest links = .ok none) :
    ∀ link ∈ links, recomputeLink digest link.1 link.2 = .ok link.2.hash := by
  induction links with
  | nil => exact fun link hlink => nomatch hlink
  | cons first links ih =>
    unfold reproveLinks at h
    obtain ⟨recomputed, hrecomputed, h⟩ := except_bind_ok.mp h
    split at h
    · cases h
    · rename_i hfits
      rw [not_not] at hfits
      intro link hlink
      rcases List.mem_cons.mp hlink with rfl | hlink
      · exact hfits ▸ hrecomputed
      · exact ih h link hlink

theorem hashPage_ok {digest : Digest} (h : hashPage digest page = .ok ()) :
    ∀ link ∈ page.links, recomputeLink digest link.1 link.2 = .ok link.2.hash := by
  unfold hashPage at h
  obtain ⟨broken, hbroken, h⟩ := except_bind_ok.mp h
  cases broken with
  | some broken => cases h
  | none => exact reproveLinks_none hbroken

/-- The rows stand in the order of their sequence values, and a rollback only cuts off the end. -/
structure Sequenced (l : MemoryLedger) : Prop where
  sorted : l.tables.log.Pairwise fun row later => row.seq < later.seq
  bounded : ∀ row ∈ l.tables.log, row.seq ≤ l.seq
  undos : ∀ undos, l.book.undos = some undos → ∀ undo ∈ undos, ∀ t, (undo t).log = t.log.dropLast

/-- A row of the later log was there before or is younger than every row that was. -/
structure Ages (row : StoredPosting) (l l' : MemoryLedger) : Prop where
  seq : l.seq ≤ l'.seq
  rows : row ∈ l'.tables.log → row ∈ l.tables.log ∨ l.seq < row.seq

theorem unwind_log {undos : List (LedgerTables → LedgerTables)}
    (h : ∀ undo ∈ undos, ∀ t, (undo t).log = t.log.dropLast) (t : LedgerTables) :
    (Journaled.unwind undos t).log <+: t.log := by
  induction undos generalizing t with
  | nil => exact List.prefix_rfl
  | cons undo undos ih =>
    have hrest := ih (fun u hu => h u (List.mem_cons_of_mem _ hu)) (undo t)
    rw [h undo List.mem_cons_self t] at hrest
    exact hrest.trans (List.dropLast_prefix _)

theorem popTo_log (mark : Nat) {undos : List (LedgerTables → LedgerTables)}
    (h : ∀ undo ∈ undos, ∀ t, (undo t).log = t.log.dropLast) (t : LedgerTables) :
    (Journaled.popTo mark t undos).1.log <+: t.log ∧ (Journaled.popTo mark t undos).2 <:+ undos := by
  induction undos generalizing t with
  | nil => exact ⟨List.prefix_rfl, List.suffix_rfl⟩
  | cons undo undos ih =>
    unfold Journaled.popTo
    split
    · obtain ⟨hlog, hleft⟩ := ih (fun u hu => h u (List.mem_cons_of_mem _ hu)) (undo t)
      rw [h undo List.mem_cons_self t] at hlog
      exact ⟨hlog.trans (List.dropLast_prefix _), hleft.trans (List.suffix_cons _ _)⟩
    · exact ⟨List.prefix_rfl, List.suffix_rfl⟩

theorem Sequenced.sublist {l l' : MemoryLedger} (h : Sequenced l) (hseq : l'.seq = l.seq)
    (hlog : l'.tables.log.Sublist l.tables.log)
    (hundos : ∀ undos, l'.book.undos = some undos → ∀ undo ∈ undos, ∀ t, (undo t).log = t.log.dropLast)
    (row : StoredPosting) : Sequenced l' ∧ Ages row l l' := by
  refine ⟨⟨h.sorted.sublist hlog, ?_, hundos⟩, ⟨hseq.ge, fun hrow => Or.inl (hlog.subset hrow)⟩⟩
  intro kept hkept
  rw [hseq]
  exact h.bounded kept (hlog.subset hkept)

theorem pruneFromLog_log (txnIds : List String) (l : MemoryLedger) :
    (pruneFromLog txnIds l).tables.log.Sublist l.tables.log ∧ (pruneFromLog txnIds l).seq = l.seq := by
  unfold pruneFromLog
  simp only
  split
  · exact ⟨List.Sublist.refl _, rfl⟩
  · exact ⟨List.filter_sublist, rfl⟩

theorem LedgerEvent.run_sequenced (digest : Digest) {l : MemoryLedger} (h : Sequenced l)
    (event : LedgerEvent) (row : StoredPosting) :
    Sequenced (event.run digest l) ∧ Ages row l (event.run digest l) := by
  cases event with
  | begin =>
    cases hbook : l.book.undos with
    | some undos =>
      have hsame : LedgerEvent.begin.run digest l = l := by simp [LedgerEvent.run, Journaled.begin, hbook]
      rw [hsame]
      exact ⟨h, ⟨le_rfl, Or.inl⟩⟩
    | none =>
      have hrun : LedgerEvent.begin.run digest l = { l with book := ⟨l.book.rows, some []⟩ } := by
        simp [LedgerEvent.run, Journaled.begin, hbook]
      rw [hrun]
      apply h.sublist
      · rfl
      · exact List.Sublist.refl _
      · intro undos hundos
        cases hundos
        exact fun undo hundo => nomatch hundo
  | commit =>
    apply h.sublist
    · rfl
    · exact List.Sublist.refl _
    · exact fun undos hundos => nomatch hundos
  | rollback =>
    cases hbook : l.book.undos with
    | none =>
      have hsame : LedgerEvent.rollback.run digest l = l := by
        simp [LedgerEvent.run, Journaled.rollback, hbook]
      rw [hsame]
      exact ⟨h, ⟨le_rfl, Or.inl⟩⟩
    | some undos =>
      have hrun : LedgerEvent.rollback.run digest l =
          { l with book := ⟨Journaled.unwind undos l.book.rows, none⟩ } := by
        simp [LedgerEvent.run, Journaled.rollback, hbook]
      rw [hrun]
      apply h.sublist
      · rfl
      · exact (unwind_log (h.undos undos hbook) _).sublist
      · exact fun undos hundos => nomatch hundos
  | rollbackTo mark =>
    cases hbook : l.book.undos with
    | none =>
      have hsame : (LedgerEvent.rollbackTo mark).run digest l = l := by
        simp [LedgerEvent.run, Journaled.rollbackTo, hbook]
      rw [hsame]
      exact ⟨h, ⟨le_rfl, Or.inl⟩⟩
    | some undos =>
      have hrun : (LedgerEvent.rollbackTo mark).run digest l =
          { l with
            book := ⟨(Journaled.popTo mark l.book.rows undos).1,
              some (Journaled.popTo mark l.book.rows undos).2⟩ } := by
        simp [LedgerEvent.run, Journaled.rollbackTo, hbook]
      rw [hrun]
      obtain ⟨hlog, hleft⟩ := popTo_log mark (h.undos undos hbook) l.book.rows
      apply h.sublist
      · rfl
      · exact hlog.sublist
      · intro left hl undo hundo
        cases hl
        exact h.undos undos hbook undo (hleft.subset hundo)
  | entry now posting =>
    have hseq := postEntry_seq_le digest now posting l
    rcases postEntry_row digest now posting l with ⟨e, -, hbook⟩ |
        ⟨fresh, next, -, -, -, -, -, hfresh, hok⟩
    · show Sequenced (postEntry digest now posting l).2 ∧ Ages row l (postEntry digest now posting l).2
      have htables : (postEntry digest now posting l).2.tables = l.tables := congrArg Journaled.rows hbook
      refine ⟨⟨htables ▸ h.sorted, ?_, ?_⟩, ⟨hseq, fun hrow => Or.inl (htables ▸ hrow)⟩⟩
      · intro r hr
        exact (h.bounded r (htables ▸ hr)).trans hseq
      · rw [hbook]
        exact h.undos
    · show Sequenced (postEntry digest now posting l).2 ∧ Ages row l (postEntry digest now posting l).2
      rw [hok]
      refine ⟨⟨?_, ?_, ?_⟩, ⟨Nat.le_succ _, ?_⟩⟩
      · show (l.tables.log ++ [fresh]).Pairwise _
        rw [List.pairwise_append]
        refine ⟨h.sorted, List.pairwise_singleton _ _, ?_⟩
        intro old hold new hnew
        rw [List.mem_singleton.mp hnew, hfresh]
        exact Nat.lt_succ_of_le (h.bounded old hold)
      · intro r hr
        rcases List.mem_append.mp hr with hr | hr
        · exact (h.bounded r hr).trans (Nat.le_succ _)
        · rw [List.mem_singleton.mp hr, hfresh]
      · intro undos hundos undo hundo t
        obtain ⟨prior, hprior, rfl⟩ := Option.map_eq_some_iff.mp hundos
        rcases List.mem_cons.mp hundo with rfl | hundo
        · rfl
        · exact h.undos prior hprior undo hundo t
      · intro hrow
        rcases List.mem_append.mp hrow with hrow | hrow
        · exact Or.inl hrow
        · right
          rw [List.mem_singleton.mp hrow, hfresh]
          exact Nat.lt_succ_self _
  | archive txnIds =>
    cases hbook : l.book.begin with
    | none =>
      have hsame : (LedgerEvent.archive txnIds).run digest l = l := by simp [LedgerEvent.run, hbook]
      rw [hsame]
      exact ⟨h, ⟨le_rfl, Or.inl⟩⟩
    | some book =>
      have hrows : book.rows = l.book.rows := by
        unfold Journaled.begin at hbook
        split at hbook
        · cases hbook
        · cases hbook
          rfl
      obtain ⟨hlog, hseq⟩ := pruneFromLog_log txnIds { l with book }
      have hrun : (LedgerEvent.archive txnIds).run digest l =
          { pruneFromLog txnIds { l with book } with book :=
            (pruneFromLog txnIds { l with book }).book.commit } := by
        simp [LedgerEvent.run, hbook]
      rw [hrun]
      apply h.sublist
      · exact hseq
      · have hold : ({ l with book } : MemoryLedger).tables.log = l.tables.log :=
          congrArg LedgerTables.log hrows
        exact hold ▸ hlog
      · exact fun undos hundos => nomatch hundos

structure RowEdit.Spares (edit : RowEdit) (row : StoredPosting) : Prop where
  rows : ∀ other, other.seq = row.seq → edit.row other = other
  links : ∀ link ∈ pageLinks [row], edit.seen link = link

theorem RowEdit.run_sequenced (edit : RowEdit) {l : MemoryLedger} (h : Sequenced l) :
    Sequenced (edit.run l) := by
  refine ⟨?_, ?_, h.undos⟩
  · show (l.tables.log.map edit.row).Pairwise _
    rw [List.pairwise_map]
    exact h.sorted
  · intro row hrow
    obtain ⟨old, hold, rfl⟩ := List.mem_map.mp hrow
    exact h.bounded old hold

theorem RowEdit.Spares.ages {row : StoredPosting} (h : edit.Spares row) (l : MemoryLedger) :
    Ages row l (edit.run l) := by
  refine ⟨le_rfl, fun hrow => Or.inl ?_⟩
  obtain ⟨old, hold, hedited⟩ := List.mem_map.mp hrow
  have hseq : old.seq = row.seq := by
    rw [← hedited]
    rfl
  have hsame := h.rows old hseq
  rw [← hedited, hsame]
  exact hold

/-! ## What a tick hands on -/

abbrev WalkFact := Rotation → Option Nat → List (AccountRef × StoredLink) → Prop

/-- The fact holds of a walk, where its cursor stands and what is still to be hashed; a tick
without a cursor has no walk yet. -/
def TickPhase.Meets (P : WalkFact) (state : Reproof) : TickPhase → Prop
  | .reading none => state.cursor = none
  | .reading (some rotation) => P rotation state.cursor []
  | .hashing page rotation => P rotation page.cursor page.links
  | .storing page rotation => P rotation page.cursor []

structure Standing (P : WalkFact) (s : Reproving) : Prop where
  held : (TickPhase.reading s.rotation).Meets P s.state
  ticks : ∀ tick ∈ s.ticks, tick.phase.Meets P tick.state

/-- How an event takes one fact to another. -/
structure CarriesWalk (digest : Digest) (s : Reproving) (event : ReproofEvent) (P P' : WalkFact) :
    Prop where
  frame : ∀ r cursor links, P r cursor links → P' r cursor links
  seen : ∀ edit, event = .edit edit → ∀ r cursor links, P r cursor links →
    P' r cursor (links.map edit.seen)
  opens : ∀ limit page, linksPage s.log none limit = .ok page →
    P' ⟨s.elapsed, s.log, []⟩ page.cursor page.links
  pages : ∀ r seq limit page, P r (some seq) [] → linksPage s.log (some seq) limit = .ok page →
    P' r page.cursor page.links
  hashes : ∀ r page, P r page.cursor page.links → hashPage digest page = .ok () →
    P' { r with checked := r.checked ++ page.links } page.cursor []

theorem TickPhase.Meets.imp {P P' : WalkFact}
    (himp : ∀ r cursor links, P r cursor links → P' r cursor links) {state : Reproof} {phase : TickPhase}
    (h : phase.Meets P state) : phase.Meets P' state := by
  cases phase with
  | reading rotation =>
    cases rotation with
    | none => exact h
    | some rotation => exact himp _ _ _ h
  | hashing page rotation => exact himp _ _ _ h
  | storing page rotation => exact himp _ _ _ h

theorem Standing.imp {P P' : WalkFact} (himp : ∀ r cursor links, P r cursor links → P' r cursor links)
    {s : Reproving} (h : Standing P s) : Standing P' s :=
  ⟨h.held.imp himp, fun tick htick => (h.ticks tick htick).imp himp⟩

section Steps

variable {digest : Digest} {s : Reproving} {event : ReproofEvent} {P P' : WalkFact}

theorem RowEdit.tick_meets
    (hseen : ∀ r cursor links, P r cursor links → P' r cursor (links.map edit.seen))
    (hframe : ∀ r cursor links, P r cursor links → P' r cursor links) {tick : ReproofTick}
    (h : tick.phase.Meets P tick.state) : (edit.tick tick).phase.Meets P' (edit.tick tick).state := by
  obtain ⟨input, state, phase⟩ := tick
  cases phase with
  | reading rotation => exact h.imp hframe
  | hashing page rotation => exact hseen _ _ _ h
  | storing page rotation => exact hframe _ _ _ h

theorem Standing.drop (h : Standing P s) (tick : Nat) : Standing P (s.drop tick) :=
  ⟨h.held, fun t ht => h.ticks t (List.mem_of_mem_eraseIdx ht)⟩

theorem Standing.set (h : Standing P s) (tick : Nat) {next : ReproofTick}
    (hnext : next.phase.Meets P next.state) :
    Standing P { s with ticks := s.ticks.set tick next } := by
  refine ⟨h.held, fun t ht => ?_⟩
  rcases List.mem_or_eq_of_mem_set ht with ht | rfl
  · exact h.ticks t ht
  · exact hnext

theorem Standing.step (h : Standing P s) (hc : CarriesWalk digest s event P P') :
    Standing P' (s.step digest event) := by
  have hsame : Standing P' s := h.imp hc.frame
  suffices hact : Standing P' (s.act digest event) from ⟨hact.held, hact.ticks⟩
  cases event with
  | ledger event => exact ⟨hsame.held, hsame.ticks⟩
  | edit edit =>
    refine ⟨hsame.held, fun t ht => ?_⟩
    obtain ⟨old, hold, rfl⟩ := List.mem_map.mp ht
    exact RowEdit.tick_meets (hc.seen edit rfl) hc.frame (h.ticks old hold)
  | read input =>
    refine ⟨hsame.held, fun t ht => ?_⟩
    rcases List.mem_append.mp ht with ht | ht
    · exact hsame.ticks t ht
    · rw [List.mem_singleton.mp ht]
      exact hsame.held
  | page tick =>
    simp only [Reproving.act]
    split
    · rename_i input state rotation hget
      have htick := h.ticks _ (List.mem_of_getElem? hget)
      split
      · exact hsame.drop tick
      · rename_i page hpage
        apply hsame.set
        show P' (s.walkOf state rotation) page.cursor page.links
        unfold Reproving.walkOf
        cases hcursor : state.cursor with
        | none => exact hc.opens _ _ (hcursor ▸ hpage)
        | some seq =>
          cases rotation with
          | none =>
            have hnone : state.cursor = none := htick
            rw [hnone] at hcursor
            cases hcursor
          | some rotation =>
            have hwalk : P rotation state.cursor [] := htick
            exact hc.pages _ _ _ _ (hcursor ▸ hwalk) (hcursor ▸ hpage)
    · exact hsame
  | hash tick =>
    simp only [Reproving.act]
    split
    · rename_i input state page rotation hget
      have htick : P rotation page.cursor page.links := h.ticks _ (List.mem_of_getElem? hget)
      split
      · exact hsame.drop tick
      · rename_i hhash
        apply hsame.set
        exact hc.hashes rotation page htick hhash
    · exact hsame
  | put tick =>
    simp only [Reproving.act]
    split
    · rename_i input state page rotation hget
      have htick : P' rotation page.cursor [] := hsame.ticks _ (List.mem_of_getElem? hget)
      split
      · exact ⟨htick, (hsame.drop tick).ticks⟩
      · rename_i hcursor
        exact ⟨hcursor, (hsame.drop tick).ticks⟩
    · exact hsame
  | stop tick => exact hsame.drop tick

theorem Standing.completed (h : Standing P s) {c : Completion} (hc : c ∈ (s.step digest event).completed) :
    c ∈ s.completed ∨ P c.rotation none [] ∧ c.ledger = s.ledger := by
  have hact : c ∈ (s.act digest event).completed := hc
  cases event with
  | ledger event => exact Or.inl hact
  | edit edit => exact Or.inl hact
  | read input => exact Or.inl hact
  | page tick =>
    simp only [Reproving.act] at hact
    split at hact
    · split at hact <;> exact Or.inl hact
    · exact Or.inl hact
  | hash tick =>
    simp only [Reproving.act] at hact
    split at hact
    · split at hact <;> exact Or.inl hact
    · exact Or.inl hact
  | put tick =>
    simp only [Reproving.act] at hact
    split at hact
    · rename_i input state page rotation hget
      have htick : P rotation page.cursor [] := h.ticks _ (List.mem_of_getElem? hget)
      split at hact
      · exact Or.inl hact
      · rename_i hcursor
        rcases List.mem_append.mp hact with hold | hnew
        · exact Or.inl hold
        · right
          rw [List.mem_singleton.mp hnew]
          exact ⟨hcursor ▸ htick, rfl⟩
    · exact Or.inl hact
  | stop tick => exact Or.inl hact

end Steps

/-- What a rotation knows of one row: whether it found it, and that the row is hashed once the
cursor has passed it. `base` is a sequence value of a time before the rotation. -/
structure Walks (digest : Digest) (base : Nat) (row : StoredPosting) (l : MemoryLedger) (r : Rotation)
    (cursor : Option Nat) (links : List (AccountRef × StoredLink)) : Prop where
  found : row.seq ≤ base → row ∈ l.tables.log → row ∈ r.stored
  old : row ∈ r.stored → row.seq ≤ l.seq
  covers : row ∈ l.tables.log → row ∈ r.stored → (cursor.all fun seq => row.seq ≤ seq) →
    ∀ link ∈ pageLinks [row], link ∈ r.checked ∨ link ∈ links
  rederives : ∀ link ∈ r.checked, recomputeLink digest link.1 link.2 = .ok link.2.hash

namespace Walks

variable {digest : Digest} {base : Nat} {row : StoredPosting} {l l' : MemoryLedger} {r : Rotation}
  {cursor : Option Nat} {links : List (AccountRef × StoredLink)}

theorem frame (h : Walks digest base row l r cursor links) (hbase : base ≤ l.seq) (hages : Ages row l l') :
    Walks digest base row l' r cursor links where
  found := by
    intro hseq hrow
    rcases hages.rows hrow with hold | hfresh
    · exact h.found hseq hold
    · omega
  old := fun hstored => (h.old hstored).trans hages.seq
  covers := by
    intro hrow hstored
    rcases hages.rows hrow with hold | hfresh
    · exact h.covers hold hstored
    · exact absurd (h.old hstored) (not_le.mpr hfresh)
  rederives := h.rederives

theorem seen (h : Walks digest base row l r cursor links) (hspares : edit.Spares row) :
    Walks digest base row l r cursor (links.map edit.seen) :=
  { h with
    covers := by
      intro hrow hstored hpassed link hlink
      rcases h.covers hrow hstored hpassed link hlink with hchecked | hpending
      · exact Or.inl hchecked
      · right
        rw [← hspares.links link hlink]
        exact List.mem_map_of_mem hpending }

theorem opens (hl : Sequenced l) {began limit : Nat}
    (hpage : linksPage l.tables.log none limit = .ok page) :
    Walks digest base row l ⟨began, l.tables.log, []⟩ page.cursor page.links where
  found := fun _ hrow => hrow
  old := hl.bounded row
  covers := fun hrow _ hpassed _ hlink => Or.inr (linksPage_holds hl.sorted hpage hrow rfl hpassed hlink)
  rederives := fun _ hlink => nomatch hlink

theorem pages {seq : Nat} (h : Walks digest base row l r (some seq) []) (hl : Sequenced l)
    (hpage : linksPage l.tables.log (some seq) limit = .ok page) :
    Walks digest base row l r page.cursor page.links :=
  { h with
    covers := by
      intro hrow hstored hpassed link hlink
      by_cases hseq : row.seq ≤ seq
      · left
        exact (h.covers hrow hstored (by simpa using hseq) link hlink).resolve_right List.not_mem_nil
      · right
        exact linksPage_holds hl.sorted hpage hrow (by simpa using hseq) hpassed hlink }

theorem hashes (h : Walks digest base row l r page.cursor page.links)
    (hhash : hashPage digest page = .ok ()) :
    Walks digest base row l { r with checked := r.checked ++ page.links } page.cursor [] where
  found := h.found
  old := h.old
  covers := fun hrow hstored hpassed link hlink =>
    Or.inl (List.mem_append.mpr (h.covers hrow hstored hpassed link hlink))
  rederives := by
    intro link hlink
    rcases List.mem_append.mp hlink with hold | hnew
    · exact h.rederives link hold
    · exact hashPage_ok hhash link hnew

end Walks

/-! ## Runs -/

def ReproofEvent.Spares (row : StoredPosting) : ReproofEvent → Prop
  | .edit change => change.Spares row
  | _ => True

namespace Reproving

variable {digest : Digest} {s : Reproving}

theorem step_ledger (digest : Digest) (s : Reproving) (event : ReproofEvent) :
    (s.step digest event).ledger = match event with
      | .ledger event => event.run digest s.ledger
      | .edit edit => edit.run s.ledger
      | _ => s.ledger := by
  cases event with
  | ledger event => rfl
  | edit edit => rfl
  | read input => rfl
  | page tick =>
    simp only [step, act]
    split
    · split <;> rfl
    · rfl
  | hash tick =>
    simp only [step, act]
    split
    · split <;> rfl
    · rfl
  | put tick =>
    simp only [step, act]
    split
    · split <;> rfl
    · rfl
  | stop tick => rfl

theorem step_sequenced (h : Sequenced s.ledger) (event : ReproofEvent) :
    Sequenced (s.step digest event).ledger := by
  rw [step_ledger]
  cases event with
  | ledger event => exact (event.run_sequenced digest h ⟨"", [], [], 0, 0, []⟩).1
  | edit edit => exact edit.run_sequenced h
  | _ => exact h

theorem step_ages (h : Sequenced s.ledger) {row : StoredPosting} {event : ReproofEvent}
    (hspares : event.Spares row) :
    Ages row s.ledger (s.step digest event).ledger := by
  rw [step_ledger]
  cases event with
  | ledger event => exact (event.run_sequenced digest h row).2
  | edit edit =>
    have hedit : edit.Spares row := hspares
    exact hedit.ages s.ledger
  | _ => exact ⟨le_rfl, Or.inl⟩

structure Dated (s : Reproving) : Prop where
  ledger : Sequenced s.ledger
  standing : Standing (fun r _ _ => r.began < s.elapsed) s
  completed : ∀ c ∈ s.completed, c.rotation.began < s.elapsed

theorem Dated.step (h : Dated s) (event : ReproofEvent) : Dated (s.step digest event) where
  ledger := step_sequenced h.ledger event
  standing := by
    apply h.standing.step
    exact {
      frame := fun _ _ _ hr => Nat.lt_succ_of_lt hr
      seen := fun _ _ _ _ _ hr => Nat.lt_succ_of_lt hr
      opens := fun _ _ _ => Nat.lt_succ_self _
      pages := fun _ _ _ _ hr _ => Nat.lt_succ_of_lt hr
      hashes := fun _ _ hr _ => Nat.lt_succ_of_lt hr }
  completed := by
    intro c hc
    rcases h.standing.completed hc with hold | ⟨hbegan, -⟩
    · exact Nat.lt_succ_of_lt (h.completed c hold)
    · exact Nat.lt_succ_of_lt hbegan

theorem Dated.start : Dated start where
  ledger := ⟨List.Pairwise.nil, (fun _ hrow => nomatch hrow), (fun _ hundos => nomatch hundos)⟩
  standing := ⟨rfl, fun _ htick => nomatch htick⟩
  completed := fun _ hc => nomatch hc

theorem Dated.run (h : Dated s) (events : List ReproofEvent) :
    Dated (events.foldl (Reproving.step digest) s) := by
  induction events generalizing s with
  | nil => exact h
  | cons event events ih => exact ih (h.step event)

theorem foldl_elapsed (digest : Digest) (s : Reproving) (events : List ReproofEvent) :
    (events.foldl (step digest) s).elapsed = s.elapsed + events.length := by
  induction events generalizing s with
  | nil => rfl
  | cons event events ih =>
    rw [List.foldl_cons, ih, List.length_cons]
    show s.elapsed + 1 + events.length = _
    omega

/-- The walks begun from the `since`-th event on know of the row, as long as no edit touches it. -/
structure Tracked (digest : Digest) (since base : Nat) (row : StoredPosting) (s : Reproving) : Prop where
  ledger : Sequenced s.ledger
  reached : base ≤ s.ledger.seq
  standing : Standing (fun r cursor links => since ≤ r.began →
    Walks digest base row s.ledger r cursor links) s
  completed : ∀ c ∈ s.completed, since ≤ c.rotation.began →
    Walks digest base row c.ledger c.rotation none []

theorem Tracked.step {since base : Nat} {row : StoredPosting} (h : Tracked digest since base row s)
    {event : ReproofEvent} (hspares : event.Spares row) :
    Tracked digest since base row (s.step digest event) := by
  have hages : Ages row s.ledger (s.step digest event).ledger := step_ages h.ledger hspares
  refine ⟨step_sequenced h.ledger event, h.reached.trans hages.seq, ?_, ?_⟩
  · apply h.standing.step
    exact {
      frame := fun _ _ _ hr hbegan => (hr hbegan).frame h.reached hages
      seen := by
        rintro edit rfl r cursor links hr hbegan
        exact ((hr hbegan).seen hspares).frame h.reached hages
      opens := fun _ _ hpage _ => (Walks.opens h.ledger hpage).frame h.reached hages
      pages := fun _ _ _ _ hr hpage hbegan => ((hr hbegan).pages h.ledger hpage).frame h.reached hages
      hashes := fun _ _ hr hhash hbegan => ((hr hbegan).hashes hhash).frame h.reached hages }
  · intro c hc hbegan
    rcases h.standing.completed hc with hold | ⟨hwalk, hledger⟩
    · exact h.completed c hold hbegan
    · rw [hledger]
      exact hwalk hbegan

theorem Tracked.run {since base : Nat} {row : StoredPosting} (h : Tracked digest since base row s)
    {events : List ReproofEvent} (hspares : ∀ event ∈ events, event.Spares row) :
    Tracked digest since base row (events.foldl (Reproving.step digest) s) := by
  induction events generalizing s with
  | nil => exact h
  | cons event events ih =>
    apply ih (h.step (hspares event List.mem_cons_self))
    exact fun e he => hspares e (List.mem_cons_of_mem _ he)

/-- Of a row that is edited no more every rotation that begins from now on knows. -/
theorem run_tracked (digest : Digest) (before after : List ReproofEvent) {row : StoredPosting}
    (hspares : ∀ event ∈ after, event.Spares row) :
    Tracked digest before.length (run digest before).ledger.seq row (run digest (before ++ after)) := by
  have hdated : Dated (run digest before) := @Dated.run digest _ Dated.start before
  have hlength : (run digest before).elapsed = before.length :=
    (foldl_elapsed digest start before).trans (Nat.zero_add _)
  have hstart : Tracked digest before.length (run digest before).ledger.seq row (run digest before) := by
    refine ⟨hdated.ledger, le_rfl, ?_, ?_⟩
    · apply hdated.standing.imp
      intro r cursor links hbegan hsince
      omega
    · intro c hc hsince
      have hbegan := hdated.completed c hc
      omega
  have hsplit : run digest (before ++ after) = after.foldl (step digest) (run digest before) :=
    List.foldl_append
  rw [hsplit]
  exact hstart.run hspares

def Ended (s : Reproving) (state : Reproof) : Prop :=
  ∀ t, state.rotatedAt = some t → ∃ c ∈ s.completed, c.rotatedAt = t

structure Marked (s : Reproving) : Prop where
  held : s.Ended s.state
  ticks : ∀ tick ∈ s.ticks, s.Ended tick.state

theorem Marked.grow {s' : Reproving} (h : Marked s) (hcompleted : ∀ c ∈ s.completed, c ∈ s'.completed)
    (hheld : s'.Ended s'.state)
    (hticks : ∀ tick ∈ s'.ticks, (∃ old ∈ s.ticks, tick.state = old.state) ∨ tick.state = s.state) :
    Marked s' := by
  have hgrow : ∀ state, s.Ended state → s'.Ended state := by
    intro state hended t ht
    obtain ⟨c, hc, hat⟩ := hended t ht
    exact ⟨c, hcompleted c hc, hat⟩
  refine ⟨hheld, fun tick htick => ?_⟩
  rcases hticks tick htick with ⟨old, hold, hstate⟩ | hstate
  · rw [hstate]
    exact hgrow _ (h.ticks old hold)
  · rw [hstate]
    exact hgrow _ h.held

theorem Marked.step (h : Marked s) (event : ReproofEvent) : Marked (s.step digest event) := by
  have hdrop : ∀ tick, ∀ t ∈ (s.drop tick).ticks, (∃ old ∈ s.ticks, t.state = old.state) ∨
    t.state = s.state :=
    fun tick t ht => Or.inl ⟨t, List.mem_of_mem_eraseIdx ht, rfl⟩
  have hset : ∀ tick old, s.ticks[tick]? = some old → ∀ next : ReproofTick, next.state = old.state →
      ∀ t ∈ s.ticks.set tick next, (∃ old ∈ s.ticks, t.state = old.state) ∨ t.state = s.state := by
    intro tick old hold next hnext t ht
    rcases List.mem_or_eq_of_mem_set ht with ht | rfl
    · exact Or.inl ⟨t, ht, rfl⟩
    · exact Or.inl ⟨old, List.mem_of_getElem? hold, hnext⟩
  have hsame : ∀ t ∈ s.ticks, (∃ old ∈ s.ticks, t.state = old.state) ∨ t.state = s.state :=
    fun t ht => Or.inl ⟨t, ht, rfl⟩
  suffices hact : Marked (s.act digest event) from ⟨hact.held, hact.ticks⟩
  cases event with
  | ledger event => exact h.grow (fun c hc => hc) h.held hsame
  | edit edit =>
    refine h.grow (fun c hc => hc) h.held fun t ht => ?_
    obtain ⟨old, hold, rfl⟩ := List.mem_map.mp ht
    refine Or.inl ⟨old, hold, ?_⟩
    unfold RowEdit.tick
    split <;> rfl
  | read input =>
    refine h.grow (fun c hc => hc) h.held fun t ht => ?_
    rcases List.mem_append.mp ht with ht | ht
    · exact hsame t ht
    · exact Or.inr (congrArg ReproofTick.state (List.mem_singleton.mp ht))
  | page tick =>
    simp only [act]
    split
    · rename_i input state rotation hget
      split
      · exact h.grow (fun c hc => hc) h.held (hdrop tick)
      · exact h.grow (fun c hc => hc) h.held (hset tick _ hget _ rfl)
    · exact h
  | hash tick =>
    simp only [act]
    split
    · rename_i input state page rotation hget
      split
      · exact h.grow (fun c hc => hc) h.held (hdrop tick)
      · exact h.grow (fun c hc => hc) h.held (hset tick _ hget _ rfl)
    · exact h
  | put tick =>
    simp only [act]
    split
    · rename_i input state page rotation hget
      have hstate : s.Ended state := h.ticks _ (List.mem_of_getElem? hget)
      split
      · rename_i seq hcursor
        refine h.grow (fun c hc => hc) ?_ (hdrop tick)
        intro t ht
        apply hstate t
        simpa [Reproving.state, Reproof.next, hcursor] using ht
      · rename_i hcursor
        refine h.grow (fun c hc => List.mem_append_left _ hc) ?_ (hdrop tick)
        intro t ht
        refine ⟨_, List.mem_append_right _ (List.mem_singleton.mpr rfl), ?_⟩
        simpa [Reproving.state, Reproof.next, hcursor] using ht
    · exact h
  | stop tick => exact h.grow (fun c hc => hc) h.held (hdrop tick)

theorem run_marked (digest : Digest) (events : List ReproofEvent) : Marked (run digest events) := by
  have hstart : Marked start := ⟨(fun _ ht => nomatch ht), (fun _ htick => nomatch htick)⟩
  unfold run
  generalize start = s at hstart
  induction events generalizing s with
  | nil => exact hstart
  | cons event events ih => exact ih _ (hstart.step event)

/-- What holds of the rotations that begin after the events `before`, whatever `after` interleaves.
`rotated` and `broken` are about the rows that `after` does not edit; a row is found when it is
stored as the rotation reads its first page, or at any time before that and still at its end. -/
structure CoversEverything (digest : Digest) (before after : List ReproofEvent) : Prop where
  watermark : ∀ t, (run digest (before ++ after)).state.rotatedAt = some t →
    ∃ c ∈ (run digest (before ++ after)).completed, c.rotatedAt = t
  rotated : ∀ c ∈ (run digest (before ++ after)).completed, before.length ≤ c.rotation.began →
    ∀ row, (∀ event ∈ after, event.Spares row) → row ∈ c.ledger.tables.log →
      row ∈ c.rotation.stored ∨ row ∈ (run digest before).log →
        ∀ link ∈ pageLinks [row],
          link ∈ c.rotation.checked ∧ recomputeLink digest link.1 link.2 = .ok link.2.hash
  broken : ∀ row ∈ (run digest before).log, (∀ event ∈ after, event.Spares row) →
    (∃ link ∈ pageLinks [row], recomputeLink digest link.1 link.2 ≠ .ok link.2.hash) →
      ∀ c ∈ (run digest (before ++ after)).completed, before.length ≤ c.rotation.began →
        row ∉ c.ledger.tables.log

/-- A rotation that ends has re-derived every link it found and that is still stored, so none ends
over a broken one. -/
theorem reproof_covers_everything (digest : Digest) (before after : List ReproofEvent) :
    CoversEverything digest before after := by
  have hcovered : ∀ c ∈ (run digest (before ++ after)).completed, before.length ≤ c.rotation.began →
      ∀ row, (∀ event ∈ after, event.Spares row) → row ∈ c.ledger.tables.log →
        row ∈ c.rotation.stored ∨ row ∈ (run digest before).log →
          ∀ link ∈ pageLinks [row],
            link ∈ c.rotation.checked ∧ recomputeLink digest link.1 link.2 = .ok link.2.hash := by
    intro c hc hbegan row hspares hrow hfound link hlink
    have hwalk := (run_tracked digest before after hspares).completed c hc hbegan
    have hstored : row ∈ c.rotation.stored := by
      rcases hfound with hstored | hbefore
      · exact hstored
      · exact hwalk.found ((@Dated.run digest _ Dated.start before).ledger.bounded row hbefore) hrow
    have hchecked := (hwalk.covers hrow hstored rfl link hlink).resolve_right List.not_mem_nil
    exact ⟨hchecked, hwalk.rederives link hchecked⟩
  refine ⟨(run_marked digest (before ++ after)).held, hcovered, ?_⟩
  rintro row hbefore hspares ⟨link, hlink, hbroken⟩ c hc hbegan hrow
  exact hbroken (hcovered c hc hbegan row hspares hrow (Or.inr hbefore) link hlink).2

example (digest : Digest) :
    ((run digest [.read ⟨5, 1⟩, .page 0, .hash 0, .put 0]).completed.map Completion.rotatedAt) = [5] := rfl

end Reproving

end EconomyLab
