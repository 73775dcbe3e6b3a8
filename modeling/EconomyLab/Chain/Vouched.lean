import EconomyLab.Chain.Sealing

/-!
# What a signature vouches for

The stored state is arbitrary here: somebody without the signing key may have edited any
posting, link, head or snapshot row. A full seal replays what is stored without looking at the
heads it signs, an incremental one reads nothing before the heads of the snapshot.
-/

namespace EconomyLab

open Foundation Text

/-- The stored links set out at genesis, or at the archived head unless they meet it later. -/
def SetsOut (boundary : Option ArchiveBoundary) (account : AccountRef) (links : List StoredLink) : Prop :=
  ∀ first ∈ links.head?, match boundary.bind fun b => b.anchors.get account with
    | none => first.prevHash = GENESIS_HEX
    | some anchor => first.prevHash = anchor ∨ ∃ link ∈ links, link.hash = anchor

/-- Wherever the links set out, each re-derives on the one before. -/
def Relinks (digest : Digest) (account : AccountRef) (links : List StoredLink) : Prop :=
  ∀ first ∈ links.head?, Rederives digest account first.prevHash links

variable {digest : Digest} {boundary : Option ArchiveBoundary} {s : Books} {account : AccountRef}
  {leaf : SealHead}

variable {links : List StoredLink} {signer : Signer} {leaves signed : List SealHead}

theorem acceptedLineage_iff : AcceptedLineage digest boundary account links ↔
      SetsOut boundary account links ∧ Relinks digest account links := by
  unfold AcceptedLineage SetsOut Relinks
  cases links with
  | nil => cases boundary.bind fun b => b.anchors.get account <;> simp [Rederives]
  | cons first rest =>
    simp only [List.head?_cons, Option.mem_some_iff, forall_eq']
    cases boundary.bind fun b => b.anchors.get account with
    | none =>
      constructor
      · intro h
        have hprev : first.prevHash = GENESIS_HEX := h.1
        exact ⟨hprev, hprev ▸ h⟩
      · rintro ⟨hprev, h⟩
        exact hprev ▸ h
    | some anchor =>
      constructor
      · intro h
        obtain ⟨hd, hmet⟩ := h first rest rfl
        exact ⟨hmet, hd⟩
      · rintro ⟨hmet, hd⟩ link rest' he
        obtain ⟨rfl, rfl⟩ := List.cons.inj he
        exact ⟨hd, hmet⟩

theorem Rederives.relinks {prev : String} (h : Rederives digest account prev links) :
    Relinks digest account links := by
  cases links with
  | nil => simp [Relinks]
  | cons first rest =>
    rintro _ ⟨rfl⟩
    have hprev : first.prevHash = prev := h.1
    exact hprev ▸ h

theorem Relinks.prefix {links more : List StoredLink}
    (h : Relinks digest account (links ++ more)) : Relinks digest account links := by
  cases links with
  | nil => simp [Relinks]
  | cons first rest =>
    rintro _ ⟨rfl⟩
    exact (rederives_append.mp (h first rfl)).1

/-- Links up to some link and links that re-derive from its hash make one chain. -/
theorem Relinks.append {before tail : List StoredLink}
    {link : StoredLink} (h : Relinks digest account (before ++ [link]))
    (ht : Rederives digest account link.hash tail) :
    Relinks digest account (before ++ link :: tail) := by
  have hsplit : before ++ link :: tail = (before ++ [link]) ++ tail := by simp
  intro first hfirst
  have hhead : first ∈ (before ++ [link]).head? := by
    cases before with
    | nil => exact hfirst
    | cons _ _ => exact hfirst
  rw [hsplit, rederives_append, lastHash_append]
  exact ⟨h first hhead, ht⟩

/-- Where an account's stored links should set out. -/
def startOf (boundary : Option ArchiveBoundary) (account : AccountRef) : String :=
  (boundary.bind fun b => b.anchors.get account).getD GENESIS_HEX

/-- A head on the account's lineage: the hash of a stored link, or where the links set out. -/
def OnLineage (boundary : Option ArchiveBoundary) (s : Books) (account : AccountRef) (head : String) :
    Prop :=
  head = startOf boundary account ∨ ∃ link ∈ lineageOf s.log account none, link.hash = head

/-- The stored links of a leaf's account end at its head. -/
def EndsAt (boundary : Option ArchiveBoundary) (s : Books) (leaf : SealHead) : Prop :=
  lastHash (startOf boundary leaf.account) (lineageOf s.log leaf.account none) = leaf.head

/-- Every leaf's lineage re-derives and ends at the head signed, and every head that was signed
before lies on its account's lineage. -/
structure SealSound (digest : Digest) (boundary : Option ArchiveBoundary) (s : Books)
    (leaves signed : List SealHead) : Prop where
  rederives : ∀ leaf ∈ leaves,
    AcceptedLineage digest boundary leaf.account (lineageOf s.log leaf.account none)
  ends : ∀ leaf ∈ leaves, EndsAt boundary s leaf
  kept : ∀ old ∈ signed, OnLineage boundary s old.account old.head

theorem lastHash_mem (prev : String) (links : List StoredLink) :
    lastHash prev links = prev ∨ ∃ link ∈ links, link.hash = lastHash prev links := by
  induction links generalizing prev with
  | nil => exact Or.inl rfl
  | cons link links ih =>
    right
    rw [lastHash_cons]
    rcases ih link.hash with he | ⟨l, hl, he⟩
    · exact ⟨link, List.mem_cons_self, he.symm⟩
    · exact ⟨l, List.mem_cons_of_mem _ hl, he⟩

theorem EndsAt.onLineage
    (h : EndsAt boundary s leaf) : OnLineage boundary s leaf.account leaf.head := by
  unfold EndsAt at h
  rcases lastHash_mem (startOf boundary leaf.account) (lineageOf s.log leaf.account none) with he | hm
  · exact Or.inl (h.symm.trans he)
  · rw [h] at hm
    exact Or.inr hm

/-- The latest checkpoint vouches for the snapshot, so the seal takes the incremental path. -/
def SnapshotVouched (digest : Digest) (signer : Signer) (store : CheckpointStore) : Prop :=
  ∃ latest, Snapshotted store latest ∧ authenticates digest signer store.sealHeads latest = .ok true

/-- The stored links that an incremental seal leaves out: all of an account whose head is that
of the snapshot, those up to the head of the snapshot where it moved, none of a new account. -/
def Books.unread (s : Books) (leaf : SealHead) : List StoredLink :=
  let links := lineageOf s.log leaf.account none
  match (s.checkpoints.heads.get leaf.account).map HeadSum.head with
  | none => []
  | some hash => if hash = leaf.head then links else links.take
    (links.length - (linksSince hash links).length)

/-- A full replay compares no head with the links below it, walks no account without a head row
and looks at no head that was signed before. -/
structure ReplayBlind (digest : Digest) (boundary : Option ArchiveBoundary) (s : Books)
    (leaves signed : List SealHead) : Prop where
  tips : ∀ leaf ∈ leaves, EndsAt boundary s leaf
  rowless : ∀ leaf ∈ leaves, leaf.account ∉ s.heads.map Prod.fst →
    AcceptedLineage digest boundary leaf.account (lineageOf s.log leaf.account none)
  kept : ∀ old ∈ signed, OnLineage boundary s old.account old.head

/-- An incremental seal reads no link up to the snapshot's heads, lets links follow the head it
signs, and takes a snapshot row for a signed one wherever its colons stand. -/
structure TailBlind (digest : Digest) (boundary : Option ArchiveBoundary) (s : Books)
    (leaves signed : List SealHead) : Prop where
  tips : ∀ leaf ∈ leaves, EndsAt boundary s leaf
  starts : ∀ leaf ∈ leaves, SetsOut boundary leaf.account (lineageOf s.log leaf.account none)
  unread : ∀ leaf ∈ leaves, Relinks digest leaf.account (s.unread leaf)
  respelled : ∀ old ∈ signed, ∀ row ∈ s.checkpoints.sealHeads, row ≠ old →
    row.spelling = old.spelling → OnLineage boundary s old.account old.head

/-- What the path taken does not look at is in order. -/
def BlindInOrder (digest : Digest) (signer : Signer) (boundary : Option ArchiveBoundary) (s : Books)
    (leaves signed : List SealHead) : Prop :=
  (SnapshotVouched digest signer s.checkpoints → TailBlind digest boundary s leaves signed) ∧
    (¬ SnapshotVouched digest signer s.checkpoints → ReplayBlind digest boundary s leaves signed)

/-! ## The two paths -/

theorem planSeal_path {store : CheckpointStore} {plan : SealPlan}
    (h : planSeal digest signer store leaves = .ok plan) :
    SnapshotVouched digest signer store ↔ plan ≠ .full := by
  cases plan with
  | full =>
    refine iff_of_false ?_ (fun hne => hne rfl)
    rintro ⟨latest, hs, hok⟩
    rw [planSeal_full.mp h latest hs] at hok
    cases hok
  | incremental dirty since =>
    obtain ⟨latest, hs, hok, -⟩ := planSeal_incremental.mp h
    exact iff_of_true ⟨latest, hs, hok⟩ (fun he => by cases he)

theorem replay_sound_iff (hproved : Intact digest boundary s.view) :
    SealSound digest boundary s leaves signed ↔ ReplayBlind digest boundary s leaves signed := by
  constructor
  · intro h
    exact ⟨h.ends, fun leaf hl _ => h.rederives leaf hl, h.kept⟩
  · intro h
    refine ⟨?_, h.tips, h.kept⟩
    intro leaf hl
    by_cases hrow : leaf.account ∈ s.heads.map Prod.fst
    · obtain ⟨p, hp, he⟩ := List.mem_map.mp hrow
      exact he ▸ intact_iff.mp hproved p hp
    · exact h.rowless leaf hl hrow

theorem linksSince_found {hash : String} (h : linksSince hash links ≠ []) :
    ∃ link ∈ links, link.hash = hash := by
  by_contra hnone
  push Not at hnone
  exact h (linksSince_of_not_mem hnone)

/-- A tail proved past a head of the snapshot follows a stored link with that hash. -/
theorem TailProved.split {since : OrderedTable AccountRef String} {hash : String}
    (h : TailProved digest s.view since leaf) (hs : since.get leaf.account = some hash) :
    ∃ before link, lineageOf s.log leaf.account none =
        before ++ link :: linksSince hash (lineageOf s.log leaf.account none) ∧ link.hash = hash ∧
      Rederives digest leaf.account hash (linksSince hash (lineageOf s.log leaf.account none)) := by
  have hd := h.rederives
  obtain ⟨reached, hl, -⟩ := h.reached
  have htail : s.view.lineage leaf.account (some hash) =
      linksSince hash (lineageOf s.log leaf.account none) := lineageOf_some _ _ _
  rw [hs, htail] at hd hl
  obtain ⟨before, link, hsplit, hh⟩ := linksSince_split (linksSince_found (List.ne_nil_of_mem hl))
  exact ⟨before, link, hsplit, hh, hd⟩

/-- An incremental seal stands on an authenticated snapshot: no account of it is gone, and a
leaf either still has its head of the snapshot or is reached from it. -/
structure ExtendsSnapshot (digest : Digest) (signer : Signer) (s : Books) (leaves : List SealHead)
    (latest : Checkpoint) : Prop where
  last : s.checkpoints.latest = some latest
  authentic : authenticates digest signer s.checkpoints.sealHeads latest = .ok true
  kept : ∀ row ∈ s.checkpoints.sealHeads, ∃ leaf ∈ leaves, leaf.account = row.account
  extended : ∀ leaf ∈ leaves,
    (s.checkpoints.heads.get leaf.account).map HeadSum.head = some leaf.head ∨
      TailProved digest s.view (sinceHeads s.checkpoints.sealHeads) leaf

section Incremental

variable {digest : Digest} {signer : Signer} {s : Books} {leaves : List SealHead} {latest : Checkpoint}

theorem planSeal_extends {dirty : List SealHead}
    {since : OrderedTable AccountRef String} (hkeys : s.checkpoints.heads.keys.Nodup)
    (hplan : planSeal digest signer s.checkpoints leaves = .ok (.incremental dirty since))
    (hproved : (SealPlan.incremental dirty since).Proved digest boundary s.view) :
    ∃ latest, ExtendsSnapshot digest signer s leaves latest := by
  obtain ⟨latest, hsnapshot, hauth, rfl, rfl, hlive⟩ := planSeal_incremental.mp hplan
  have hget := fun account => sinceHeads_get hkeys account
  refine ⟨latest, hsnapshot.last, hauth, ?_, ?_⟩
  · intro row hr
    have hrow := (mem_leavesOf hkeys).mp hr
    have hkey : row.account ∈ (sinceHeads s.checkpoints.sealHeads).keys := by
      rw [← OrderedTable.get_isSome, hget, hrow]
      rfl
    exact List.mem_map.mp (hlive row.account hkey)
  · intro leaf hl
    rw [← hget]
    by_cases hclean : (sinceHeads s.checkpoints.sealHeads).get leaf.account = some leaf.head
    · exact Or.inl hclean
    · exact Or.inr (hproved leaf (mem_dirtyLeaves.mpr ⟨hl, hclean⟩))

theorem unread_prefix (s : Books) (leaf : SealHead) :
    ∃ more, lineageOf s.log leaf.account none = s.unread leaf ++ more := by
  unfold Books.unread
  cases (s.checkpoints.heads.get leaf.account).map HeadSum.head with
  | none => exact ⟨_, rfl⟩
  | some hash =>
    by_cases hclean : hash = leaf.head
    · exact ⟨[], by simp [hclean]⟩
    · simp only [if_neg hclean]
      exact ⟨_, (List.take_append_drop _ _).symm⟩

theorem take_before {α : Type} {links before tail : List α} {link : α}
    (h : links = before ++ link :: tail) :
    links.take (links.length - tail.length) = before ++ [link] := by
  have hsplit : links = (before ++ [link]) ++ tail := by simp [h]
  rw [hsplit]
  apply List.take_left'
  simp only [List.length_append, List.length_cons, List.length_nil]
  omega

/-- With the links it left out in order an incremental seal knows every link in order. -/
theorem ExtendsSnapshot.relinks (h : ExtendsSnapshot digest signer s leaves latest)
    (hkeys : s.checkpoints.heads.keys.Nodup) (hl : leaf ∈ leaves)
    (hunread : Relinks digest leaf.account (s.unread leaf)) :
    Relinks digest leaf.account (lineageOf s.log leaf.account none) := by
  have hsince := sinceHeads_get hkeys leaf.account
  cases hrow : (s.checkpoints.heads.get leaf.account).map HeadSum.head with
  | none =>
    have hproved := (h.extended leaf hl).resolve_left (by simp [hrow])
    have hd := hproved.rederives
    rw [hsince, hrow] at hd
    exact hd.relinks
  | some hash =>
    by_cases hclean : hash = leaf.head
    · have hall : s.unread leaf = lineageOf s.log leaf.account none := by
        simp only [Books.unread, hrow, if_pos hclean]
      exact hall ▸ hunread
    · have hproved := (h.extended leaf hl).resolve_left (by simp [hrow, hclean])
      obtain ⟨before, link, hsplit, rfl, hd⟩ := hproved.split (hsince.trans hrow)
      have hsealed : s.unread leaf = before ++ [link] := by
        simp only [Books.unread, hrow, if_neg hclean]
        exact take_before hsplit
      rw [hsplit]
      exact Relinks.append (hsealed ▸ hunread) hd

/-- A row of the snapshot lies on its account's lineage, if the account's links end at its head. -/
theorem ExtendsSnapshot.onLineage (h : ExtendsSnapshot digest signer s leaves latest)
    (hkeys : s.checkpoints.heads.keys.Nodup)
    (htips : ∀ leaf ∈ leaves, EndsAt boundary s leaf) {row : SealHead}
    (hr : row ∈ s.checkpoints.sealHeads) : OnLineage boundary s row.account row.head := by
  obtain ⟨leaf, hl, ha⟩ := h.kept row hr
  have hrow : (s.checkpoints.heads.get leaf.account).map HeadSum.head = some row.head := by
    rw [ha, (mem_leavesOf hkeys).mp hr]
    rfl
  rcases h.extended leaf hl with hclean | hproved
  · have hsame : row.head = leaf.head := Option.some.inj (hrow.symm.trans hclean)
    have hon := (htips leaf hl).onLineage
    rw [ha, ← hsame] at hon
    exact hon
  · obtain ⟨before, link, hsplit, hh, -⟩ := hproved.split ((sinceHeads_get hkeys _).trans hrow)
    rw [ha] at hsplit
    right
    refine ⟨link, ?_, hh⟩
    rw [hsplit]
    simp

theorem tail_sound_iff (h : ExtendsSnapshot digest signer s leaves latest)
    (hkeys : s.checkpoints.heads.keys.Nodup)
    (hspelled : ∀ old ∈ signed, ∃ row ∈ s.checkpoints.sealHeads, row.spelling = old.spelling) :
    SealSound digest boundary s leaves signed ↔ TailBlind digest boundary s leaves signed := by
  constructor
  · intro hsound
    refine ⟨hsound.ends, ?_, ?_, fun old hold _ _ _ _ => hsound.kept old hold⟩
    · intro leaf hl
      exact (acceptedLineage_iff.mp (hsound.rederives leaf hl)).1
    · intro leaf hl
      obtain ⟨more, hmore⟩ := unread_prefix s leaf
      have hall := (acceptedLineage_iff.mp (hsound.rederives leaf hl)).2
      rw [hmore] at hall
      exact hall.prefix
  · intro hblind
    refine ⟨?_, hblind.tips, ?_⟩
    · intro leaf hl
      exact acceptedLineage_iff.mpr ⟨hblind.starts leaf hl, h.relinks hkeys hl (hblind.unread leaf hl)⟩
    · intro old hold
      obtain ⟨row, hr, hspell⟩ := hspelled old hold
      by_cases hsame : row = old
      · exact hsame ▸ h.onLineage hkeys hblind.tips hr
      · exact hblind.respelled old hold row hr hsame hspell

end Incremental

theorem authenticates_ok {snapshot : List SealHead}
    {latest : Checkpoint} (h : authenticates digest signer snapshot latest = .ok true) :
    ∃ root, merkleSumRoot digest snapshot = .ok root ∧ toHex root.hash = latest.root ∧
      some root.sum = latest.sum := by
  unfold authenticates at h
  obtain ⟨root, hroot, h⟩ := except_bind_ok.mp h
  by_cases hsame : toHex root.hash ≠ latest.root ∨ some root.sum ≠ latest.sum
  · rw [if_pos hsame] at h
    cases h
  · push Not at hsame
    exact ⟨root, hroot, hsame.1, hsame.2⟩

/-- The leaves of the latest checkpoint; none before the first. -/
def LastSigned (digest : Digest) (store : CheckpointStore) (signed : List SealHead) : Prop :=
  match store.latest with
  | none => signed = []
  | some latest => SignedOver digest signed latest

/-- A snapshot that authenticates spells what was signed. -/
theorem snapshot_spells (hwidth : FixedWidth digest) (hgen : AvoidsGenesis digest)
    {snapshot signed : List SealHead} {latest : Checkpoint}
    (h : authenticates digest signer snapshot latest = .ok true)
    (hsigned : SignedOver digest signed latest)
    (hfree : CollisionFree digest (rootTexts digest snapshot ∪ rootTexts digest signed)) :
    ∀ old ∈ signed, ∃ row ∈ snapshot, row.spelling = old.spelling := by
  obtain ⟨root, hroot, hhash, -⟩ := authenticates_ok h
  obtain ⟨root', hroot', hhash', -⟩ := hsigned.root
  have heq : root.hash = root'.hash := toHex_inj (hhash.trans hhash')
  have hperm := merkleSumRoot_spells hwidth hgen hroot hroot' hfree (fun _ hx => Or.inl hx)
    (fun _ hx => Or.inr hx) heq
  intro old hold
  exact List.mem_map.mp (hperm.mem_iff.mpr (List.mem_map_of_mem hold))

/-- Whatever is stored, a signature is given over the stored heads merged with the verified
boundary, and it means what it should exactly where what its path did not look at is in order. -/
theorem seal_vouches {digest : Digest} (hwidth : FixedWidth digest) (hgen : AvoidsGenesis digest)
    (signer : Signer) (s : Books) (hkeys : s.checkpoints.heads.keys.Nodup) (signed : List SealHead)
    (hsigned : LastSigned digest s.checkpoints signed)
    (hfree : CollisionFree digest (rootTexts digest s.checkpoints.sealHeads ∪ rootTexts digest signed))
    (now : Int) (id : String) (checkpoint : Checkpoint) (plan : SealPlan) (leaves : List SealHead)
    (hsign : signCheckpoint digest signer s.view s.checkpoints now id = .ok (checkpoint, plan, leaves)) :
    ∃ boundary, loadArchiveBoundary digest signer s.checkpoints = .ok boundary ∧
      leaves = mergeArchiveSums s.headSums boundary ∧ SignedOver digest leaves checkpoint ∧
      checkpoint.sum = some 0 ∧
      (SealSound digest boundary s leaves signed ↔
        BlindInOrder digest signer boundary s leaves signed) := by
  obtain ⟨boundary, root, hboundary, hleaves, hplan, hproved, hroot, hzero, rfl⟩ :=
    signCheckpoint_ok.mp hsign
  refine ⟨boundary, hboundary, hleaves, signedOver_sealed hroot now id, congrArg some hzero, ?_⟩
  have hpath := planSeal_path hplan
  cases plan with
  | full =>
    have hnot : ¬ SnapshotVouched digest signer s.checkpoints := fun hv => hpath.mp hv rfl
    rw [replay_sound_iff hproved]
    exact ⟨fun h => ⟨fun hv => absurd hv hnot, fun _ => h⟩, fun h => h.2 hnot⟩
  | incremental dirty since =>
    have hvouched : SnapshotVouched digest signer s.checkpoints := hpath.mpr (fun he => by cases he)
    obtain ⟨latest, hext⟩ := planSeal_extends hkeys hplan hproved
    have hover : SignedOver digest signed latest := by
      unfold LastSigned at hsigned
      rw [hext.last] at hsigned
      exact hsigned
    rw [tail_sound_iff hext hkeys (snapshot_spells hwidth hgen hext.authentic hover hfree)]
    exact ⟨fun h => ⟨fun _ => h, fun hnot => absurd hvouched hnot⟩, fun h => h.1 hvouched⟩

theorem Faithful.inOrder {appended : List StoredPosting}
    (h : Faithful digest s appended) (hlog : s.log = appended) (hl : leaf ∈ s.headSums) :
    AcceptedLineage digest none leaf.account (lineageOf s.log leaf.account none) ∧ EndsAt none s leaf := by
  have hhead : leaf.head = chainHead appended leaf.account :=
    congrArg SealHead.head (h.mem_headSums.mp hl).2
  obtain ⟨hd, hlast⟩ := h.chained.lineage leaf.account
  rw [← hlog] at hd
  refine ⟨hd, ?_⟩
  unfold EndsAt
  rw [hlog, hhead]
  exact hlast

def sampleReseal : List ChainStep :=
  [.post 0 (sampleTopUp "txn_1" "usr_a"), .checkpoint 1 "chk_1" false,
    .post 2 (sampleTopUp "txn_002" "usr_b")]

def sampleChronicle : Chronicle := runBooks lengthDigest echoSigner sampleReseal

def SealPlan.isIncremental : SealPlan → Bool
  | incremental _ _ => true
  | full => false

theorem sampleReseal_posts :
    sampleReseal.filter ChainStep.posts = sampleSeals.filter ChainStep.posts := rfl

theorem sampleChronicle_sealing : Sealing lengthDigest sampleChronicle := by
  have hposts := runBooks_history lengthDigest echoSigner sampleReseal fun _ hc => hc
  have hsame := runBooks_history lengthDigest echoSigner sampleSeals fun _ hc => hc
  have hframed : AllFramed (runBooks lengthDigest echoSigner sampleReseal).appended := by
    rw [hposts.appended, sampleReseal_posts, ← hsame.appended]
    exact sampleSeals_framed
  have honly : ∀ c ∈ sampleReseal, c.archives = false := by
    simp [sampleReseal, ChainStep.archives]
  have hdigest : ChainDigest lengthDigest (runBooks lengthDigest echoSigner sampleReseal).appended :=
    sampleSeals_digest sampleReseal_posts
  unfold sampleChronicle
  unfold runBooks at hdigest hframed ⊢
  exact foldl_sealing honly (Sealing.start lengthDigest) (Faithful.start lengthDigest) hdigest hframed

theorem sampleChronicle_faithful :
    Faithful lengthDigest sampleChronicle.books sampleChronicle.appended :=
  runBooks_faithful lengthDigest echoSigner sampleReseal

attribute [irreducible] sampleChronicle

/-- The leaves signed and the snapshot's rows, with the texts under their roots. -/
def snapshotTexts (s : Books) (signed : List SealHead) : List (List UInt8) :=
  hashedTexts lengthDigest s.checkpoints.sealHeads ++ hashedTexts lengthDigest signed

theorem snapshotTexts_free
    (h : ∀ x ∈ snapshotTexts s signed, ∀ y ∈ snapshotTexts s signed,
      lengthDigest x = lengthDigest y → x = y) :
    CollisionFree lengthDigest
      (rootTexts lengthDigest s.checkpoints.sealHeads ∪ rootTexts lengthDigest signed) := by
  have hmem : ∀ x ∈ rootTexts lengthDigest s.checkpoints.sealHeads ∪ rootTexts lengthDigest signed,
      x ∈ snapshotTexts s signed := by
    rintro x (hx | hx)
    · exact List.mem_append_left _ (rootTexts_hashed hx)
    · exact List.mem_append_right _ (rootTexts_hashed hx)
  intro x hx y hy he
  exact h x (hmem x hx) y (hmem y hy) he

/-- A posting after a checkpoint, then an incremental seal of what was really stored. -/
theorem seal_vouches_resealed : ∃ leaves, leaves = sampleChronicle.books.headSums ∧
    SealSound lengthDigest none sampleChronicle.books leaves sampleChronicle.signed := by
  have hrun : (signCheckpoint lengthDigest echoSigner sampleChronicle.books.view
      sampleChronicle.books.checkpoints 3 "chk_2").toOption.map (fun signed => signed.2.1.isIncremental) =
        some true := by
    decide +kernel
  have hlatest : sampleChronicle.books.checkpoints.latest.isSome = true := by
    decide +kernel
  have hfree : ∀ x ∈ snapshotTexts sampleChronicle.books sampleChronicle.signed,
      ∀ y ∈ snapshotTexts sampleChronicle.books sampleChronicle.signed,
        lengthDigest x = lengthDigest y → x = y := by
    decide +kernel
  have hspelled : ∀ old ∈ sampleChronicle.signed, ∀ row ∈ sampleChronicle.books.checkpoints.sealHeads,
      row ≠ old → row.spelling ≠ old.spelling := by
    decide +kernel
  have hseal := sampleChronicle_sealing
  have hsigned : LastSigned lengthDigest sampleChronicle.books.checkpoints sampleChronicle.signed := by
    obtain ⟨latest, hlast⟩ := Option.isSome_iff_exists.mp hlatest
    unfold LastSigned
    rw [hlast]
    exact hseal.latest latest hlast
  obtain ⟨⟨checkpoint, plan, leaves⟩, hsome, hplan⟩ := Option.map_eq_some_iff.mp hrun
  obtain ⟨boundary, hboundary, hleaves, -, -, hsound⟩ :=
    seal_vouches (fun _ => rfl) lengthDigest_genesis echoSigner sampleChronicle.books hseal.keys
      sampleChronicle.signed hsigned (snapshotTexts_free hfree) 3 "chk_2" checkpoint plan leaves
      (except_toOption.mp hsome)
  have hnone : boundary = none := by
    simp only [loadArchiveBoundary, hseal.archive, Except.ok.injEq] at hboundary
    exact hboundary.symm
  subst hnone
  have hlive : leaves = sampleChronicle.books.headSums := hleaves
  have horder : ∀ leaf ∈ leaves, AcceptedLineage lengthDigest none leaf.account
      (lineageOf sampleChronicle.books.log leaf.account none) ∧ EndsAt none sampleChronicle.books leaf :=
    fun leaf hl => sampleChronicle_faithful.inOrder hseal.log (hlive ▸ hl)
  refine ⟨leaves, hlive, hsound.mpr ⟨fun _ => ?_, fun hnot => ?_⟩⟩
  · refine ⟨fun leaf hl => (horder leaf hl).2, ?_, ?_, ?_⟩
    · intro leaf hl
      exact (acceptedLineage_iff.mp (horder leaf hl).1).1
    · intro leaf hl
      obtain ⟨more, hmore⟩ := unread_prefix sampleChronicle.books leaf
      have hall := (acceptedLineage_iff.mp (horder leaf hl).1).2
      rw [hmore] at hall
      exact hall.prefix
    · intro old hold row hr hne hspell
      exact absurd hspell (hspelled old hold row hr hne)
  · obtain ⟨boundary, root, -, -, hplanned, -⟩ := signCheckpoint_ok.mp (except_toOption.mp hsome)
    refine absurd ((planSeal_path hplanned).mpr ?_) hnot
    rintro rfl
    cases hplan

/-! ## Signed forgeries -/

/-- A seal signed over books that it does not mean what it should of. -/
def SignedUnsound (s : Books) (signed : List SealHead) (incremental : Bool) : Prop :=
  LastSigned lengthDigest s.checkpoints signed ∧
    CollisionFree lengthDigest
      (rootTexts lengthDigest s.checkpoints.sealHeads ∪ rootTexts lengthDigest signed) ∧
    ∃ checkpoint plan leaves,
      signCheckpoint lengthDigest echoSigner s.view s.checkpoints 3 "chk_2" =
        .ok (checkpoint, plan, leaves) ∧
      plan.isIncremental = incremental ∧ ¬ SealSound lengthDigest none s leaves signed

/-- A head signed that no link ends at, or a head signed before that no link has. -/
def lostHead (s : Books) (leaves signed : List SealHead) : Bool :=
  leaves.any (fun leaf =>
    lastHash GENESIS_HEX (lineageOf s.log leaf.account none) ≠ leaf.head) ||
  signed.any fun old => old.head ≠ GENESIS_HEX ∧
    ∀ link ∈ lineageOf s.log old.account none, link.hash ≠ old.head

theorem not_sealSound
    (h : lostHead s leaves signed = true) : ¬ SealSound digest none s leaves signed := by
  intro hsound
  rcases Bool.or_eq_true_iff.mp h with h | h
  · obtain ⟨leaf, hl, hne⟩ := List.any_eq_true.mp h
    exact of_decide_eq_true hne (hsound.ends leaf hl)
  · obtain ⟨old, hold, hlost⟩ := List.any_eq_true.mp h
    obtain ⟨hne, hlinks⟩ := of_decide_eq_true hlost
    rcases hsound.kept old hold with he | ⟨link, hl, he⟩
    · exact hne he
    · exact hlinks link hl he

/-- What a forgery comes down to, as a check that runs. -/
def unsoundSeal (s : Books) (signed : List SealHead) (incremental : Bool) : Bool :=
  (match s.checkpoints.latest with
    | none => signed = []
    | some latest => latest.count = signed.length ∧
      (merkleSumRoot lengthDigest signed).toOption.any fun root =>
        latest.root = toHex root.hash ∧ latest.sum = some root.sum) &&
  ((snapshotTexts s signed).all fun x => (snapshotTexts s signed).all fun y =>
    lengthDigest x = lengthDigest y → x = y) &&
  (signCheckpoint lengthDigest echoSigner s.view s.checkpoints 3 "chk_2").toOption.any fun sign =>
    sign.2.1.isIncremental = incremental ∧ lostHead s sign.2.2 signed

theorem signedUnsound {incremental : Bool}
    (h : unsoundSeal s signed incremental = true) : SignedUnsound s signed incremental := by
  simp only [unsoundSeal, Bool.and_eq_true] at h
  obtain ⟨⟨hlast, hfree⟩, hsign⟩ := h
  refine ⟨?_, snapshotTexts_free ?_, ?_⟩
  · unfold LastSigned
    cases hl : s.checkpoints.latest with
    | none =>
      rw [hl] at hlast
      exact of_decide_eq_true hlast
    | some latest =>
      rw [hl] at hlast
      obtain ⟨hcount, hroot⟩ := of_decide_eq_true hlast
      obtain ⟨root, hr, hsame⟩ := (Option.any_eq_true _ _).mp hroot
      obtain ⟨hhash, hsum⟩ := of_decide_eq_true hsame
      exact ⟨⟨root, except_toOption.mp hr, hhash, hsum⟩, hcount⟩
  · intro x hx y hy
    exact of_decide_eq_true (List.all_eq_true.mp (List.all_eq_true.mp hfree x hx) y hy)
  · obtain ⟨⟨checkpoint, plan, leaves⟩, hs, hbad⟩ := (Option.any_eq_true _ _).mp hsign
    obtain ⟨hplan, hlost⟩ := of_decide_eq_true hbad
    exact ⟨checkpoint, plan, leaves, except_toOption.mp hs, hplan, not_sealSound hlost⟩

def Books.edited (f : List StoredPosting → List StoredPosting) (s : Books) : Books :=
  { s with ledger := { s.ledger with
      book := { s.ledger.book with rows := { s.ledger.tables with log := f s.log } } } }

/-- Two postings, never sealed, and the row of the second deleted. -/
def sampleTruncated : Books :=
  (runBooks lengthDigest echoSigner
    [.post 0 (sampleTopUp "txn_1" "usr_a"), .post 2 (sampleTopUp "txn_002" "usr_b")]).books.edited
      List.dropLast

def sampleSealed : Chronicle :=
  runBooks lengthDigest echoSigner [.post 0 (sampleTopUp "txn_1" "usr_a"), .checkpoint 1 "chk_1" false]

def wiped (row : StoredPosting) : StoredPosting :=
  { row with links := row.links.map fun link => { link with hash := "" } }

/-- `usr_a:spendable` under its head `h` as an account `usr_a` under the head `spendable:h`. -/
def respelledAccount (account : AccountRef) : AccountRef :=
  if account = "usr_a:spendable" then "usr_a" else account

def respelledHead (account : AccountRef) (head : String) : String :=
  if account = "usr_a:spendable" then "spendable:" ++ head else head

def respelledRow (row : StoredPosting) : StoredPosting :=
  { row with
    legs := row.legs.map fun leg => { leg with account := respelledAccount leg.account }
    links := row.links.map fun link => { link with account := respelledAccount link.account } }

def Books.respelled (s : Books) : Books :=
  let edited := s.edited (List.map respelledRow)
  let heads := s.accounts.foldl (fun heads account => heads.set (respelledAccount account)
    (respelledHead account ((s.ledger.tables.heads.get account).getD ""))) Table.empty
  { edited with
    ledger := { edited.ledger with
      book := { edited.ledger.book with rows := { edited.ledger.tables with heads } } }
    accounts := s.accounts.map respelledAccount
    checkpoints := { s.checkpoints with heads := ⟨s.checkpoints.heads.entries.map fun p =>
      (respelledAccount p.1, ⟨respelledHead p.1 p.2.head, p.2.sum⟩)⟩ } }

/-- A full seal signs heads whose links are gone. An incremental one signs over links it does
not read, and over a snapshot whose rows were respelled so that a sealed account is gone. -/
theorem unsound_seals_signed : SignedUnsound sampleTruncated [] false ∧
    SignedUnsound (sampleSealed.books.edited (List.map wiped)) sampleSealed.signed true ∧
    SignedUnsound sampleSealed.books.respelled sampleSealed.signed true := by
  refine ⟨signedUnsound ?_, signedUnsound ?_, signedUnsound ?_⟩
  · decide +kernel
  · decide +kernel
  · decide +kernel

end EconomyLab
