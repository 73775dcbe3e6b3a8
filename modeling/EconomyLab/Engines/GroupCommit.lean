import Mathlib.Data.List.Infix
import EconomyLab.Errors

/-!
# The Postgres engine: one transaction under retry, and the group commit of a batch

What a pooled client answers to each `begin`, each unit of work and each `commit` is a
parameter. The database is the list of the transactions committed in it.
-/

namespace EconomyLab.Engines

/-- The fields of a thrown value that `isTransientConflict` reads. -/
structure PgError where
  code : Option String
  constraint : Option String
  message : Option String
deriving DecidableEq, Repr

def chainForkIndex : String := "chain_links_account_prev_uq"

def chainContinuityMarker : String := "chain continuity"

def isTransientConflict (e : PgError) : Bool :=
  e.code == some "40P01" ||
  e.code == some "40001" ||
  (e.code == some "23505" && e.constraint == some chainForkIndex) ||
  (e.code == some "P0001" &&
    decide (chainContinuityMarker.toList <:+: (e.message.getD "").toList))

inductive BatchSlot (T : Type) where
  | ok (value : T)
  | failed (error : PgError)
deriving DecidableEq, Repr

def BatchSlot.value {T : Type} : BatchSlot T → Option T
  | .ok value => some value
  | .failed _ => none

@[simp] theorem BatchSlot.value_ok {T : Type} (value : T) :
    (BatchSlot.ok value).value = some value := rfl

@[simp] theorem BatchSlot.value_failed {T : Type} (error : PgError) :
    (BatchSlot.failed error : BatchSlot T).value = none := rfl

/-- What one attempt of a transaction meets: taking a client and opening the transaction, the
run of each work in it, and the commit. -/
structure Weather (ι T : Type) where
  opens : Option PgError
  runs : ι → Except PgError T
  commits : Option PgError

variable {ι T : Type}

abbrev Committed (ι T : Type) := List (ι × T)

abbrev Database (ι T : Type) := List (Committed ι T)

/-- The loop of `withTransientRetry` from try number `tries`, with `left` more tries after it. -/
def retryFrom {α D : Type} (attempt : Nat → D → Except PgError α × D) :
    Nat → Nat → D → Except PgError α × D
  | 0, tries, db => attempt tries db
  | left + 1, tries, db =>
    match attempt tries db with
    | (.ok value, db') => (.ok value, db')
    | (.error error, db') =>
      if isTransientConflict error then retryFrom attempt left (tries + 1) db'
      else (.error error, db')

/-- `withTransientRetry`: `maxAttempts` tries at most, the first always made. -/
def withTransientRetry {α D : Type} (attempt : Nat → D → Except PgError α × D)
    (maxAttempts : Nat) (db : D) : Except PgError α × D :=
  retryFrom attempt (maxAttempts - 1) 1 db

/-- The budget `withTransientRetry` has when its caller names none. -/
def maxAttempts : Nat := 10

/-- The works of a transaction in order; the first error ends the run. -/
def runWorks (runs : ι → Except PgError T) : List ι → Except PgError (List T)
  | [] => .ok []
  | work :: works => do
    let value ← runs work
    let values ← runWorks runs works
    return value :: values

/-- Begin, the works in order, commit. An error anywhere rolls the transaction back. -/
def groupAttempt (weather : Weather ι T) (works : List ι) (db : Database ι T) :
    Except PgError (List T) × Database ι T :=
  match weather.opens with
  | some error => (.error error, db)
  | none =>
    match runWorks weather.runs works with
    | .error error => (.error error, db)
    | .ok values =>
      match weather.commits with
      | some error => (.error error, db)
      | none => (.ok values, db ++ [works.zip values])

abbrev Pattern (ι T : Type) := List ι → Nat → Weather ι T

def commitGroup (pattern : Pattern ι T) (works : List ι) (db : Database ι T) :
    Except PgError (List T) × Database ι T :=
  withTransientRetry (fun tries => groupAttempt (pattern works tries) works) maxAttempts db

/-- `Math.ceil(length / 2)`. -/
def midOf (works : List ι) : Nat := (works.length + 1) / 2

variable {pattern : Pattern ι T} {works : List ι} {gs : List (List ι)} {values : List T}

theorem take_midOf_lt (h0 : ¬ works.length = 0) (h1 : ¬ works.length = 1) :
    (works.take (midOf works)).length < works.length := by
  rw [List.length_take, midOf]
  omega

theorem drop_midOf_lt (h0 : ¬ works.length = 0) : (works.drop (midOf works)).length < works.length := by
  rw [List.length_drop, midOf]
  omega

/-- `runBatchTransaction`: optimistic group commit with bisection. -/
def runBatchTransaction (pattern : Pattern ι T) (works : List ι) (db : Database ι T) :
    Except PgError (List (BatchSlot T)) × Database ι T :=
  if _h0 : works.length = 0 then (.ok [], db)
  else
    match commitGroup pattern works db with
    | (.ok values, db') => (.ok (values.map .ok), db')
    | (.error error, db') =>
      -- Retries exhausted: the whole batch is meant to fail as one, as a lone transaction does.
      if isTransientConflict error then (.error error, db')
      else if _h1 : works.length = 1 then (.ok [.failed error], db')
      else
        match runBatchTransaction pattern (works.take (midOf works)) db' with
        | (.error error, db'') => (.error error, db'')
        | (.ok left, db'') =>
          match runBatchTransaction pattern (works.drop (midOf works)) db'' with
          | (.error error, db''') => (.error error, db''')
          | (.ok right, db''') => (.ok (left ++ right), db''')
termination_by works.length
decreasing_by
  · exact take_midOf_lt _h0 _h1
  · exact drop_midOf_lt _h0

/-- The transactions a group's result adds to the database. -/
def written (works : List ι) : Except PgError (List T) → Database ι T
  | .ok values => [works.zip values]
  | .error _ => []

theorem groupAttempt_eq (weather : Weather ι T) (works : List ι) (db : Database ι T) :
    groupAttempt weather works db =
      ((groupAttempt weather works []).1, db ++ written works (groupAttempt weather works []).1) := by
  unfold groupAttempt
  cases weather.opens with
  | some error => simp [written]
  | none =>
    cases runWorks weather.runs works with
    | error error => simp [written]
    | ok values =>
      cases weather.commits with
      | some error => simp [written]
      | none => simp [written]

theorem retryFrom_eq (pattern : Nat → Weather ι T) (works : List ι) (left tries : Nat)
    (db : Database ι T) :
    retryFrom (fun tries => groupAttempt (pattern tries) works) left tries db =
      ((retryFrom (fun tries => groupAttempt (pattern tries) works) left tries []).1,
        db ++ written works
          (retryFrom (fun tries => groupAttempt (pattern tries) works) left tries []).1) := by
  induction left generalizing tries db with
  | zero => exact groupAttempt_eq _ works db
  | succ left ih =>
    simp only [retryFrom]
    rw [groupAttempt_eq _ works db, groupAttempt_eq _ works []]
    cases (groupAttempt (pattern tries) works []).1 with
    | ok values => rfl
    | error error =>
      by_cases hc : isTransientConflict error = true
      · simpa only [written, List.append_nil, if_pos hc] using ih (tries + 1) db
      · simp only [written, List.append_nil, if_neg hc]

/-- The result of a group's transaction under retry; it does not depend on the database. -/
def groupOutcome (pattern : Pattern ι T) (works : List ι) : Except PgError (List T) :=
  (commitGroup pattern works []).1

theorem commitGroup_eq (pattern : Pattern ι T) (works : List ι) (db : Database ι T) :
    commitGroup pattern works db =
      (groupOutcome pattern works, db ++ written works (groupOutcome pattern works)) :=
  retryFrom_eq (pattern works) works _ _ db

theorem runWorks_length {runs : ι → Except PgError T}
    (h : runWorks runs works = .ok values) : values.length = works.length := by
  induction works generalizing values with
  | nil =>
    cases h
    simp
  | cons work works ih =>
    simp only [runWorks, except_bind_ok, except_pure_ok] at h
    obtain ⟨value, -, rest, hrest, rfl⟩ := h
    simp [ih hrest]

theorem groupAttempt_length {weather : Weather ι T} {db : Database ι T}
    (h : (groupAttempt weather works db).1 = .ok values) :
    values.length = works.length := by
  unfold groupAttempt at h
  cases ho : weather.opens with
  | some error => simp [ho] at h
  | none =>
    cases hr : runWorks weather.runs works with
    | error error => simp [ho, hr] at h
    | ok found =>
      cases hc : weather.commits with
      | some error => simp [ho, hr, hc] at h
      | none =>
        simp only [ho, hr, hc, Except.ok.injEq] at h
        subst h
        exact runWorks_length hr

theorem retryFrom_length {pattern : Nat → Weather ι T} {left tries : Nat} {db : Database ι T}
    (h : (retryFrom (fun tries => groupAttempt (pattern tries) works) left tries db).1 = .ok values) :
    values.length = works.length := by
  induction left generalizing tries db with
  | zero => exact groupAttempt_length h
  | succ left ih =>
    simp only [retryFrom] at h
    cases ha : groupAttempt (pattern tries) works db with
    | mk result db' =>
      cases result with
      | ok found =>
        simp only [ha, Except.ok.injEq] at h
        subst h
        exact groupAttempt_length (congrArg Prod.fst ha)
      | error error =>
        by_cases hc : isTransientConflict error = true
        · simp only [ha, if_pos hc] at h
          exact ih h
        · simp [ha, hc] at h

theorem groupOutcome_length
    (h : groupOutcome pattern works = .ok values) : values.length = works.length :=
  retryFrom_length h

/-! ## The groups a batch comes down to -/

/-- The group's transaction commits within its tries. -/
def commits (pattern : Pattern ι T) (works : List ι) : Bool :=
  match groupOutcome pattern works with
  | .ok _ => true
  | .error _ => false

/-- The group meets a transient conflict on every one of its tries. -/
def exhausts (pattern : Pattern ι T) (works : List ι) : Bool :=
  match groupOutcome pattern works with
  | .ok _ => false
  | .error error => isTransientConflict error

/-- The groups at which the bisection ends, in order: a group that fails for another reason
than a conflict is halved down to single works. -/
def parts (pattern : Pattern ι T) (works : List ι) : List (List ι) :=
  if _h0 : works.length = 0 then []
  else if _h1 : works.length = 1 then [works]
  else if commits pattern works || exhausts pattern works then [works]
  else
    parts pattern (works.take (midOf works)) ++ parts pattern (works.drop (midOf works))
termination_by works.length
decreasing_by
  · exact take_midOf_lt _h0 _h1
  · exact drop_midOf_lt _h0

theorem flatten_parts (pattern : Pattern ι T) (works : List ι) :
    (parts pattern works).flatten = works := by
  fun_induction parts pattern works with
  | case1 works h0 => simpa using h0
  | case2 works h0 h1 => simp
  | case3 works h0 h1 ended => simp
  | case4 works h0 h1 halved ihleft ihright =>
    rw [List.flatten_append, ihleft, ihright, List.take_append_drop]

/-- A group the bisection ends at has works, and is a single one when it fails otherwise than
by a conflict. -/
theorem parts_ended {works g : List ι} (h : g ∈ parts pattern works) :
    g ≠ [] ∧ (commits pattern g = false → exhausts pattern g = false → g.length = 1) := by
  fun_induction parts pattern works with
  | case1 works h0 => cases h
  | case2 works h0 h1 =>
    cases List.mem_singleton.mp h
    exact ⟨fun hnil => h0 (by simp [hnil]), fun _ _ => h1⟩
  | case3 works h0 h1 ended =>
    cases List.mem_singleton.mp h
    refine ⟨fun hnil => h0 (by simp [hnil]), fun hcommits hexhausts => ?_⟩
    simp [hcommits, hexhausts] at ended
  | case4 works h0 h1 halved ihleft ihright =>
    cases List.mem_append.mp h with
    | inl h => exact ihleft h
    | inr h => exact ihright h

def slotsOf (pattern : Pattern ι T) (works : List ι) : List (BatchSlot T) :=
  match groupOutcome pattern works with
  | .ok values => values.map .ok
  | .error error => [.failed error]

/-- The groups of the bisection one after the other; the first exhausted one ends the call. -/
def play (pattern : Pattern ι T) : List (List ι) → Except PgError (List (BatchSlot T)) × Database ι T
  | [] => (.ok [], [])
  | g :: gs =>
    match groupOutcome pattern g with
    | .ok values =>
      ((play pattern gs).1.map (values.map .ok ++ ·), g.zip values :: (play pattern gs).2)
    | .error error =>
      if isTransientConflict error then (.error error, [])
      else ((play pattern gs).1.map (.failed error :: ·), (play pattern gs).2)

theorem play_append (pattern : Pattern ι T) (left right : List (List ι)) :
    play pattern (left ++ right) =
      match play pattern left with
      | (.error error, new) => (.error error, new)
      | (.ok slots, new) =>
        ((play pattern right).1.map (slots ++ ·), new ++ (play pattern right).2) := by
  induction left with
  | nil =>
    cases hr : (play pattern right).1 with
    | error error => simp [play, Except.map, ← hr]
    | ok slots => simp [play, Except.map, ← hr]
  | cons g left ih =>
    simp only [List.cons_append, play, ih]
    cases groupOutcome pattern g with
    | ok values =>
      cases play pattern left with
      | mk result new =>
        cases result with
        | error error => rfl
        | ok slots =>
          cases (play pattern right).1 with
          | error error => simp [Except.map]
          | ok more => simp [Except.map]
    | error error =>
      by_cases hc : isTransientConflict error = true
      · simp [hc]
      · cases play pattern left with
        | mk result new =>
          cases result with
          | error error => simp [hc, Except.map]
          | ok slots =>
            cases (play pattern right).1 with
            | error error => simp [hc, Except.map]
            | ok more => simp [hc, Except.map]

theorem parts_ends (h0 : ¬ works.length = 0)
    (h : works.length = 1 ∨ commits pattern works = true ∨ exhausts pattern works = true) :
    parts pattern works = [works] := by
  unfold parts
  rw [dif_neg h0]
  split
  · rfl
  · rename_i h1
    apply if_pos
    simpa [h1] using h

theorem parts_halves {error : PgError} (h0 : ¬ works.length = 0) (h1 : ¬ works.length = 1)
    (hfails : groupOutcome pattern works = .error error) (hc : ¬ isTransientConflict error = true) :
    parts pattern works =
      parts pattern (works.take (midOf works)) ++ parts pattern (works.drop (midOf works)) := by
  rw [parts, dif_neg h0, dif_neg h1]
  apply if_neg
  simp [commits, exhausts, hfails, hc]

theorem commitGroup_inv {db db' : Database ι T}
    {result : Except PgError (List T)} (h : commitGroup pattern works db = (result, db')) :
    groupOutcome pattern works = result ∧ db' = db ++ written works result := by
  rw [commitGroup_eq] at h
  cases h
  exact ⟨rfl, rfl⟩

/-- The recursion does no more than go through the groups at which the bisection ends. -/
theorem runBatchTransaction_eq (pattern : Pattern ι T) (works : List ι) (db : Database ι T) :
    runBatchTransaction pattern works db =
      ((play pattern (parts pattern works)).1, db ++ (play pattern (parts pattern works)).2) := by
  fun_induction runBatchTransaction pattern works db with
  | case1 works db h0 => simp [parts, h0, play]
  | case2 works db h0 values db' hgroup =>
    have hgroup := commitGroup_inv hgroup
    have hparts : parts pattern works = [works] :=
      parts_ends h0 (.inr (.inl (by simp [commits, hgroup])))
    simp [hparts, play, hgroup, written, Except.map]
  | case3 works db h0 error db' hgroup hc =>
    have hgroup := commitGroup_inv hgroup
    have hparts : parts pattern works = [works] :=
      parts_ends h0 (.inr (.inr (by simp [exhausts, hgroup, hc])))
    simp [hparts, play, hgroup, hc, written]
  | case4 works db h0 error db' hgroup hc h1 =>
    have hgroup := commitGroup_inv hgroup
    simp [parts_ends h0 (.inl h1), play, hgroup, hc, written, Except.map]
  | case5 works db h0 error db' hgroup hc h1 error' db'' hleft ihleft =>
    have hgroup := commitGroup_inv hgroup
    have hplay := hleft.symm.trans ihleft
    rw [parts_halves h0 h1 hgroup.1 hc, play_append]
    cases hp : play pattern (parts pattern (works.take (midOf works))) with
    | mk result new =>
      rw [hp] at hplay
      cases hplay
      simp [hgroup, written]
  | case6 works db h0 error db' hgroup hc h1 left db'' hleft error' db''' hright ihleft ihright =>
    have hgroup := commitGroup_inv hgroup
    have hplay := hleft.symm.trans ihleft
    have hthen := hright.symm.trans ihright
    rw [parts_halves h0 h1 hgroup.1 hc, play_append]
    cases hp : play pattern (parts pattern (works.take (midOf works))) with
    | mk result new =>
      cases hq : play pattern (parts pattern (works.drop (midOf works))) with
      | mk result' new' =>
        rw [hp] at hplay
        rw [hq] at hthen
        cases hplay
        cases hthen
        simp [hgroup, written, Except.map]
  | case7 works db h0 error db' hgroup hc h1 left db'' hleft right db''' hright ihleft ihright =>
    have hgroup := commitGroup_inv hgroup
    have hplay := hleft.symm.trans ihleft
    have hthen := hright.symm.trans ihright
    rw [parts_halves h0 h1 hgroup.1 hc, play_append]
    cases hp : play pattern (parts pattern (works.take (midOf works))) with
    | mk result new =>
      cases hq : play pattern (parts pattern (works.drop (midOf works))) with
      | mk result' new' =>
        rw [hp] at hplay
        rw [hq] at hthen
        cases hplay
        cases hthen
        simp [hgroup, written, Except.map]

/-! ## What the call owes its caller -/

def valuesOf [DecidableEq ι] (entries : Committed ι T) (work : ι) : List T :=
  entries.filterMap fun entry => if entry.1 = work then some entry.2 else none

def effectsOf [DecidableEq ι] (db : Database ι T) (work : ι) : List T :=
  valuesOf db.flatten work

/-- A call that throws added nothing; one that returns has a slot for every work, and the slot is
`ok` with a value exactly when that work's effects were added, once, with that value. -/
def Truthful (count : Nat) (db : Database Nat T) :
    Except PgError (List (BatchSlot T)) × Database Nat T → Prop
  | (.error _, db') => ∀ place < count, effectsOf db' place = effectsOf db place
  | (.ok slots, db') =>
    slots.length = count ∧
      ∀ place slot, slots[place]? = some slot →
        effectsOf db' place = effectsOf db place ++ slot.value.toList

/-- A group commits before the first one that runs out of tries: some half of the batch is in
the database when another half gives up. -/
def Torn (pattern : Pattern ι T) (works : List ι) : Prop :=
  ∃ before given after, parts pattern works = before ++ given :: after ∧
    (∀ g ∈ before, exhausts pattern g = false) ∧ exhausts pattern given = true ∧
    ∃ g ∈ before, commits pattern g = true

/-- The transactions the groups of a list add. -/
def writtenBy (pattern : Pattern ι T) (gs : List (List ι)) : Database ι T :=
  gs.flatMap fun g => written g (groupOutcome pattern g)

theorem play_calm (h : ∀ g ∈ gs, exhausts pattern g = false) :
    play pattern gs = (.ok (gs.flatMap (slotsOf pattern)), writtenBy pattern gs) := by
  induction gs with
  | nil => simp [play, writtenBy]
  | cons g gs ih =>
    have hg : exhausts pattern g = false := h g (by simp)
    have hgs := ih fun g' hmem => h g' (by simp [hmem])
    cases ho : groupOutcome pattern g with
    | ok values => simp [play, ho, hgs, slotsOf, writtenBy, written, Except.map]
    | error error =>
      have hc : isTransientConflict error = false := by simpa [exhausts, ho] using hg
      simp [play, ho, hc, hgs, slotsOf, writtenBy, written, Except.map]

theorem play_torn {before : List (List ι)} {given : List ι}
    (after : List (List ι)) (h : ∀ g ∈ before, exhausts pattern g = false)
    (hgiven : exhausts pattern given = true) :
    ∃ error, play pattern (before ++ given :: after) = (.error error, writtenBy pattern before) := by
  rw [play_append, play_calm h]
  cases ho : groupOutcome pattern given with
  | ok values => simp [exhausts, ho] at hgiven
  | error error =>
    have hc : isTransientConflict error = true := by simpa [exhausts, ho] using hgiven
    exact ⟨error, by simp [play, ho, hc, Except.map]⟩

def okays (works : List ι) (slots : List (BatchSlot T)) : Committed ι T :=
  (works.zip slots).filterMap fun entry => entry.2.value.map (entry.1, ·)

theorem okays_map_ok (works : List ι) (values : List T) :
    okays works (values.map .ok) = works.zip values := by
  unfold okays
  induction works generalizing values with
  | nil => rfl
  | cons work works ih =>
    cases values with
    | nil => rfl
    | cons value values => simp [ih]

theorem okays_append {works works' : List ι} {slots slots' : List (BatchSlot T)}
    (h : slots.length = works.length) :
    okays (works ++ works') (slots ++ slots') = okays works slots ++ okays works' slots' := by
  unfold okays
  rw [List.zip_append h.symm, List.filterMap_append]

theorem slotsOf_spec {g : List ι}
    (hg : commits pattern g = false → exhausts pattern g = false → g.length = 1)
    (h : exhausts pattern g = false) :
    (slotsOf pattern g).length = g.length ∧
      (written g (groupOutcome pattern g)).flatten = okays g (slotsOf pattern g) := by
  cases ho : groupOutcome pattern g with
  | ok values =>
    have hlen := groupOutcome_length ho
    simp [slotsOf, ho, written, hlen, okays_map_ok]
  | error error =>
    have hone := hg (by simp [commits, ho]) h
    obtain ⟨work, rfl⟩ := List.length_eq_one_iff.mp hone
    simp [slotsOf, ho, written, okays]

theorem slots_spec
    (hended : ∀ g ∈ gs, commits pattern g = false → exhausts pattern g = false → g.length = 1)
    (h : ∀ g ∈ gs, exhausts pattern g = false) :
    (gs.flatMap (slotsOf pattern)).length = gs.flatten.length ∧
      (writtenBy pattern gs).flatten = okays gs.flatten (gs.flatMap (slotsOf pattern)) := by
  induction gs with
  | nil => simp [writtenBy, okays]
  | cons g gs ih =>
    have hg := slotsOf_spec (hended g (by simp)) (h g (by simp))
    have hgs := ih (fun g' hmem => hended g' (by simp [hmem])) fun g' hmem => h g' (by simp [hmem])
    constructor
    · simp [hg.1, hgs.1]
    · have hflat : (writtenBy pattern (g :: gs)).flatten =
          (written g (groupOutcome pattern g)).flatten ++ (writtenBy pattern gs).flatten := by
        simp [writtenBy]
      simp only [List.flatten_cons, List.flatMap_cons]
      rw [hflat, hg.2, hgs.2, okays_append hg.1]

theorem okays_cons (work : ι) (works : List ι) (slot : BatchSlot T) (slots : List (BatchSlot T)) :
    okays (work :: works) (slot :: slots) =
      (slot.value.map (work, ·)).toList ++ okays works slots := by
  cases slot with
  | ok value => simp [okays]
  | failed error => simp [okays, List.filterMap_cons]

theorem fst_mem_of_mem_okays {slots : List (BatchSlot T)} {entry : ι × T}
    (h : entry ∈ okays works slots) : entry.1 ∈ works := by
  obtain ⟨⟨work, slot⟩, hmem, hentry⟩ := List.mem_filterMap.mp h
  obtain ⟨value, -, rfl⟩ := Option.map_eq_some_iff.mp hentry
  exact (List.of_mem_zip hmem).1

section Places

variable [DecidableEq ι]

theorem valuesOf_append (entries entries' : Committed ι T) (work : ι) :
    valuesOf (entries ++ entries') work = valuesOf entries work ++ valuesOf entries' work :=
  List.filterMap_append

theorem effectsOf_append (db new : Database ι T) (work : ι) :
    effectsOf (db ++ new) work = effectsOf db work ++ effectsOf new work := by
  rw [effectsOf, List.flatten_append, valuesOf_append, effectsOf, effectsOf]

theorem valuesOf_eq_nil {entries : Committed ι T} {work : ι}
    (h : ∀ entry ∈ entries, entry.1 ≠ work) : valuesOf entries work = [] := by
  apply List.filterMap_eq_nil_iff.mpr
  intro entry hmem
  exact if_neg (h entry hmem)

theorem valuesOf_ne_nil {entries : Committed ι T} {entry : ι × T} (h : entry ∈ entries) :
    valuesOf entries entry.1 ≠ [] := by
  apply List.ne_nil_of_mem
  exact List.mem_filterMap.mpr ⟨entry, h, if_pos rfl⟩

/-- Among works named once each, the effects of one are what its own slot says. -/
theorem valuesOf_okays {slots : List (BatchSlot T)} (hnodup : works.Nodup)
    {i : Nat} {work : ι} {slot : BatchSlot T} (hwork : works[i]? = some work)
    (hslot : slots[i]? = some slot) :
    valuesOf (okays works slots) work = slot.value.toList := by
  induction works generalizing slots i with
  | nil => simp at hwork
  | cons head works ih =>
    cases slots with
    | nil => simp at hslot
    | cons first slots =>
      obtain ⟨hnotin, hrest⟩ := List.nodup_cons.mp hnodup
      rw [okays_cons, valuesOf_append]
      cases i with
      | zero =>
        simp only [List.getElem?_cons_zero, Option.some.injEq] at hwork hslot
        subst hwork hslot
        have hlater : valuesOf (okays works slots) head = [] :=
          valuesOf_eq_nil fun entry hmem heq => hnotin (heq ▸ fst_mem_of_mem_okays hmem)
        rw [hlater, List.append_nil]
        cases first with
        | ok value => simp [valuesOf]
        | failed error => simp [valuesOf]
      | succ i =>
        simp only [List.getElem?_cons_succ] at hwork hslot
        have hne : head ≠ work := fun heq => hnotin (heq ▸ List.mem_of_getElem? hwork)
        have hfirst : valuesOf (first.value.map (head, ·)).toList work = [] := by
          cases first with
          | ok value => simp [valuesOf, hne]
          | failed error => simp [valuesOf]
        rw [hfirst, List.nil_append, ih hrest hwork hslot]

end Places

theorem exists_effect_of_commits [DecidableEq ι]
    {g : List ι} (hmem : g ∈ gs) (hne : g ≠ []) (h : commits pattern g = true) :
    ∃ work ∈ g, effectsOf (writtenBy pattern gs) work ≠ [] := by
  cases ho : groupOutcome pattern g with
  | error error => simp [commits, ho] at h
  | ok values =>
    have hlen := groupOutcome_length ho
    cases g with
    | nil => exact absurd rfl hne
    | cons work g =>
      cases values with
      | nil => simp at hlen
      | cons value values =>
        have hentry : (work, value) ∈ (writtenBy pattern gs).flatten := by
          apply List.mem_flatten.mpr
          refine ⟨(work, value) :: g.zip values, ?_, by simp⟩
          exact List.mem_flatMap.mpr ⟨_, hmem, by simp [ho, written]⟩
        exact ⟨work, by simp, valuesOf_ne_nil hentry⟩

theorem writtenBy_eq_nil (h : ∀ g ∈ gs, commits pattern g = false) : writtenBy pattern gs = [] := by
  apply List.flatMap_eq_nil_iff.mpr
  intro g hmem
  have hg := h g hmem
  cases ho : groupOutcome pattern g with
  | ok values => simp [commits, ho] at hg
  | error error => simp [written]

/-- A batch call leaves its caller with the truth exactly when no part of it was committed
before another part ran out of tries. -/
theorem runBatchTransaction_truthful_iff (pattern : Pattern Nat T) (count : Nat)
    (db : Database Nat T) :
    Truthful count db (runBatchTransaction pattern (List.range count) db) ↔
      ¬ Torn pattern (List.range count) := by
  have hflat := flatten_parts pattern (List.range count)
  have hended : ∀ g ∈ parts pattern (List.range count), _ := fun g hmem => parts_ended hmem
  rw [runBatchTransaction_eq]
  constructor
  · intro htrue htorn
    obtain ⟨before, given, after, hparts, hbefore, hgiven, g, hmem, hcommits⟩ := htorn
    obtain ⟨error, hplay⟩ := play_torn after hbefore hgiven
    have hpart : g ∈ parts pattern (List.range count) := by
      rw [hparts]
      exact List.mem_append_left _ hmem
    obtain ⟨work, hwork, heffect⟩ := exists_effect_of_commits hmem (hended g hpart).1 hcommits
    have hplace : work < count := by
      apply List.mem_range.mp
      rw [← hflat]
      exact List.mem_flatten_of_mem hpart hwork
    rw [hparts, hplay] at htrue
    have hnone := htrue work hplace
    rw [effectsOf_append] at hnone
    exact heffect (List.append_right_eq_self.mp hnone)
  · intro hwhole
    cases hfind : (parts pattern (List.range count)).find? (exhausts pattern) with
    | none =>
      have hcalm : ∀ g ∈ parts pattern (List.range count), exhausts pattern g = false := by
        intro g hmem
        exact Bool.eq_false_iff.mpr (List.find?_eq_none.mp hfind g hmem)
      obtain ⟨hlen, hslots⟩ := slots_spec (fun g hmem => (hended g hmem).2) hcalm
      rw [hflat] at hlen hslots
      rw [play_calm hcalm]
      refine ⟨by rw [hlen, List.length_range], fun place slot hslot => ?_⟩
      have hlt : place < count := by
        have := (List.getElem?_eq_some_iff.mp hslot).1
        rwa [hlen, List.length_range] at this
      rw [effectsOf_append]
      apply congrArg (effectsOf db place ++ ·)
      rw [effectsOf, hslots]
      exact valuesOf_okays List.nodup_range (by simp [hlt]) hslot
    | some given =>
      obtain ⟨hgiven, before, after, hparts, hbefore⟩ := List.find?_eq_some_iff_append.mp hfind
      have hbefore : ∀ g ∈ before, exhausts pattern g = false := by
        intro g hmem
        simpa using hbefore g hmem
      obtain ⟨error, hplay⟩ := play_torn after hbefore hgiven
      have hnone : ∀ g ∈ before, commits pattern g = false := by
        intro g hmem
        apply Bool.eq_false_iff.mpr
        exact fun hcommits => hwhole ⟨before, given, after, hparts, hbefore, hgiven, g, hmem, hcommits⟩
      rw [hparts, hplay, writtenBy_eq_nil hnone, List.append_nil]
      exact fun place _ => rfl

/-- The second of three works is refused wherever it runs, and the third alone keeps losing a
serialization race. -/
def contended : Pattern Nat Unit := fun works _ => {
  opens := none
  runs := fun work => if work = 1 then .error ⟨some "LEDGER.OVERDRAFT", none, none⟩ else .ok ()
  commits := if works = [2] then some ⟨some "40001", none, none⟩ else none }

/-- The call throws, and the first work's effects stay in the database. -/
theorem runBatchTransaction_contended :
    runBatchTransaction contended (List.range 3) [] =
      (.error ⟨some "40001", none, none⟩, [[(0, ())]]) := by
  have hrefused : isTransientConflict ⟨some "LEDGER.OVERDRAFT", none, none⟩ = false := by decide
  have hconflict : isTransientConflict ⟨some "40001", none, none⟩ = true := by decide
  have hbatch : groupOutcome contended [0, 1, 2] = .error ⟨some "LEDGER.OVERDRAFT", none, none⟩ := by
    decide
  have hpair : groupOutcome contended [0, 1] = .error ⟨some "LEDGER.OVERDRAFT", none, none⟩ := by
    decide
  have hfirst : groupOutcome contended [0] = .ok [()] := by decide
  have hsecond : groupOutcome contended [1] = .error ⟨some "LEDGER.OVERDRAFT", none, none⟩ := by
    decide
  have hthird : groupOutcome contended [2] = .error ⟨some "40001", none, none⟩ := by decide
  have hsingle : ∀ place, parts contended [place] = [[place]] := fun place =>
    parts_ends (by simp) (.inl (by simp))
  have hhalf : parts contended [0, 1] = [[0], [1]] := calc
    parts contended [0, 1] = parts contended [0] ++ parts contended [1] :=
      parts_halves (by decide) (by decide) hpair (by simp [hrefused])
    _ = [[0], [1]] := by rw [hsingle, hsingle, List.singleton_append]
  have hparts : parts contended (List.range 3) = [[0], [1], [2]] := calc
    parts contended (List.range 3) = parts contended [0, 1] ++ parts contended [2] :=
      parts_halves (by decide) (by decide) hbatch (by simp [hrefused])
    _ = [[0], [1], [2]] := by simp [hhalf, hsingle]
  rw [runBatchTransaction_eq, hparts]
  simp [play, hfirst, hsecond, hthird, hrefused, hconflict, Except.map]

theorem not_truthful_contended :
    ¬ Truthful 3 [] (runBatchTransaction contended (List.range 3) []) := by
  rw [runBatchTransaction_contended]
  intro htrue
  exact absurd (htrue 0 (by decide)) (by decide)

end EconomyLab.Engines
