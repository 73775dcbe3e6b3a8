import EconomyLab.Chain.Offline

/-!
# Both Merkle roots

The hash-only root of the first version and the sum-carrying one of the second: neither depends on
the order in which the leaves come, each fixes its leaves, and none of the one kind is one of the
other.
-/

namespace EconomyLab

open Foundation HashTree Text

/-! ## The hash-only root as a tree -/

abbrev ChainHead := AccountRef × String

def leafPreimage (p : ChainHead) : Except Fault (List UInt8) := .ok (0 :: utf8 (p.1 ++ ":" ++ p.2))

def nodePreimage (left right : RootNode) : Except Fault (List UInt8) :=
  .ok (1 :: (left.hash ++ right.hash))

abbrev HeadRoot (digest : Digest) : HashTree ChainHead → RootNode → Prop :=
  Root digest leafPreimage (fun _ => 0) nodePreimage

theorem exists_headRoot (digest : Digest) (t : HashTree ChainHead) : ∃ b, HeadRoot digest t b := by
  have hall : ∀ t : HashTree ChainHead, t.SumsIn (fun _ => True) fun _ => 0 := by
    intro t
    induction t with
    | leaf a => trivial
    | node left right ihl ihr => exact ⟨ihl, ihr, trivial⟩
  apply (exists_hashed_root (fun p => ?_) fun u v => ?_).mpr (hall t)
  · exact ⟨fun _ => trivial, fun _ => ⟨_, rfl⟩⟩
  · exact ⟨fun _ => trivial, fun _ => ⟨_, rfl⟩⟩

variable {digest : Digest} {heads : List ChainHead} {text : List UInt8}

/-- The rounds over the sorted heads come to the root of their tree. -/
theorem merkleRoot_ok {t : HashTree ChainHead}
    (ht : ofList (sortHeads heads) = some t) {b : RootNode} (hb : HeadRoot digest t b) :
    merkleRoot digest heads = .ok b.hash := by
  have hlevel : List.Forall₂ (fun a b => (Except.ok (digest (0 :: utf8 (a.1 ++ ":" ++ a.2))) :
      Except Fault (List UInt8)) = .ok b) (sortHeads heads)
      ((sortHeads heads).map fun p => digest (0 :: utf8 (p.1 ++ ":" ++ p.2))) := by
    rw [List.forall₂_map_right_iff]
    exact List.forall₂_same.mpr fun _ _ => rfl
  have hfolds : Folds (fun a : ChainHead => (Except.ok (digest (0 :: utf8 (a.1 ++ ":" ++ a.2))) :
      Except Fault (List UInt8))) (fun left right => .ok (digest (1 :: (left ++ right)))) t b.hash := by
    apply Folds.map SumNode.hash ?_ ?_ hb
    · intro a b h
      obtain ⟨text, htext, rfl⟩ := leafNode_ok.mp h
      cases htext
      rfl
    · intro x y b h
      obtain ⟨text, htext, rfl⟩ := joinNodes_ok.mp h
      cases htext
      rfl
  have hrounds := (joinRounds_ofList ht hlevel).mpr hfolds
  have hne : sortHeads heads ≠ [] := by
    intro h
    rw [ofList_eq_none.mpr h] at ht
    cases ht
  unfold merkleRoot
  cases hs : (sortHeads heads).map fun p => digest (0 :: utf8 (p.1 ++ ":" ++ p.2)) with
  | nil => exact absurd (List.map_eq_nil_iff.mp hs) hne
  | cons first rest =>
    rw [hs] at hrounds
    simp only [hrounds]
    rfl

theorem sortHeads_perm_self (heads : List ChainHead) : (sortHeads heads).Perm heads :=
  List.perm_insertionSort _ _

theorem merkleRoot_cases {root : List UInt8} (h : merkleRoot digest heads = .ok root) :
    (heads = [] ∧ root = GENESIS) ∨
      ∃ t b, ofList (sortHeads heads) = some t ∧ HeadRoot digest t b ∧ b.hash = root := by
  cases ht : ofList (sortHeads heads) with
  | none =>
    left
    have hnil : heads = [] := by
      have hlen := (sortHeads_perm_self heads).length_eq
      rw [ofList_eq_none.mp ht] at hlen
      exact List.eq_nil_of_length_eq_zero hlen.symm
    subst hnil
    exact ⟨rfl, (Except.ok.inj h).symm⟩
  | some t =>
    right
    obtain ⟨b, hb⟩ := exists_headRoot digest t
    refine ⟨t, b, rfl, hb, ?_⟩
    have hroot := merkleRoot_ok ht hb
    rw [h] at hroot
    exact (Except.ok.inj hroot).symm

theorem sortHeads_perm {heads heads' : List ChainHead} (hd : (heads.map Prod.fst).Nodup)
    (h : heads.Perm heads') : sortHeads heads = sortHeads heads' := by
  apply sortByKey_perm Prod.fst h
  intro a ha b hb hab
  exact List.inj_on_of_nodup_map hd ha hb hab

/-- The order in which the heads come does not reach the hash-only root. -/
theorem merkleRoot_perm (digest : Digest) {heads heads' : List ChainHead}
    (hd : (heads.map Prod.fst).Nodup) (h : heads.Perm heads') :
    merkleRoot digest heads = merkleRoot digest heads' := by
  unfold merkleRoot
  rw [sortHeads_perm hd h]

theorem leafPreimage_inj {p q : ChainHead} (hp : ':' ∉ p.2.toList)
    (hq : ':' ∉ q.2.toList) (h : leafPreimage p = .ok text) (h' : leafPreimage q = .ok text) : p = q := by
  have hbytes := (List.cons.inj (Except.ok.inj (h.trans h'.symm))).2
  have hids := utf8_inj hbytes
  have hcut : cutLast ':' (p.1 ++ ":" ++ p.2) = some (p.1, p.2) := cutLast_append ':' p.1 p.2 hp
  have hcut' : cutLast ':' (q.1 ++ ":" ++ q.2) = some (q.1, q.2) := cutLast_append ':' q.1 q.2 hq
  rw [hids, hcut', Option.some.injEq] at hcut
  exact hcut.symm

theorem preimages_separated (hwidth : FixedWidth digest) :
    Separated digest leafPreimage nodePreimage fun p : ChainHead => ':' ∉ p.2.toList where
  leaf := leafPreimage_inj
  node := by
    rintro u v u' v' text ⟨x, hx⟩ ⟨x', hx'⟩ h h'
    have hbytes := (List.cons.inj (Except.ok.inj (h.trans h'.symm))).2
    have hlen : u.hash.length = u'.hash.length := by
      rw [← hx, ← hx', hwidth, hwidth]
    exact List.append_inj hbytes hlen
  apart := by
    intro a u v text h h'
    exact absurd (List.cons.inj (Except.ok.inj (h.trans h'.symm))).1 (by decide)

def headTexts (digest : Digest) (heads : List ChainHead) : Set (List UInt8) :=
  {text | ∃ t, ofList (sortHeads heads) = some t ∧
    Hashed digest leafPreimage (fun _ => 0) nodePreimage t text}

/-- The texts that the root of these heads hashes. -/
def hashedHeadTexts (digest : Digest) (heads : List ChainHead) : List (List UInt8) :=
  match ofList (sortHeads heads) with
  | none => []
  | some t => (t.texts digest leafPreimage (fun _ => 0) nodePreimage).1

theorem headTexts_hashed (h : text ∈ headTexts digest heads) : text ∈ hashedHeadTexts digest heads := by
  obtain ⟨t, ht, hashed⟩ := h
  rw [hashedHeadTexts, ht]
  exact hashed.mem_texts

theorem merkleRoot_binds (hwidth : FixedWidth digest) (hgen : AvoidsGenesis digest)
    {heads heads' : List ChainHead} {root : List UInt8}
    (h : merkleRoot digest heads = .ok root) (h' : merkleRoot digest heads' = .ok root)
    {hashed : Set (List UInt8)} (hfree : Set.InjOn digest hashed)
    (hS : headTexts digest heads ⊆ hashed) (hS' : headTexts digest heads' ⊆ hashed)
    (hpure : ∀ p ∈ heads, ':' ∉ p.2.toList) (hpure' : ∀ p ∈ heads', ':' ∉ p.2.toList) :
    heads.Perm heads' := by
  rcases merkleRoot_cases h with ⟨rfl, rfl⟩ | ⟨t, b, ht, hb, rfl⟩
  · rcases merkleRoot_cases h' with ⟨rfl, -⟩ | ⟨t', b', ht', hb', heq⟩
    · exact List.Perm.refl _
    · obtain ⟨text, -, hhash⟩ := Root.hashed hb'
      exact absurd (hhash.symm.trans heq) (hgen text)
  · rcases merkleRoot_cases h' with ⟨rfl, heq⟩ | ⟨t', b', ht', hb', heq⟩
    · obtain ⟨text, -, hhash⟩ := Root.hashed hb
      exact absurd (hhash.symm.trans heq) (hgen text)
    · have hpt : ∀ p ∈ t.leaves, ':' ∉ p.2.toList := by
        rw [ofList_leaves ht]
        exact fun p hp => hpure p ((sortHeads_perm_self heads).mem_iff.mp hp)
      have hpt' : ∀ p ∈ t'.leaves, ':' ∉ p.2.toList := by
        rw [ofList_leaves ht']
        exact fun p hp => hpure' p ((sortHeads_perm_self heads').mem_iff.mp hp)
      have htree : t = t' := Root.binds (preimages_separated hwidth) hfree hb hb'
        (fun x hx => hS ⟨t, ht, hx⟩) (fun x hx => hS' ⟨t', ht', hx⟩) hpt hpt' heq.symm
      have hsorted : sortHeads heads = sortHeads heads' := by
        rw [← ofList_leaves ht, ← ofList_leaves ht', htree]
      have hperm := (sortHeads_perm_self heads).symm
      rw [hsorted] at hperm
      exact hperm.trans (sortHeads_perm_self heads')

theorem headTexts_tag
    (h : text ∈ headTexts digest heads) : text.head? = some 0 ∨ text.head? = some 1 := by
  obtain ⟨t, -, hashed⟩ := h
  rcases hashed.text with ⟨p, hp⟩ | ⟨u, v, hnode⟩
  · cases hp
    exact Or.inl rfl
  · cases hnode
    exact Or.inr rfl

theorem rootTexts_tag {leaves : List SealHead}
    (h : text ∈ rootTexts digest leaves) : text.head? = some 2 ∨ text.head? = some 3 := by
  obtain ⟨t, -, hashed⟩ := h
  rcases hashed.text with ⟨a, ha⟩ | ⟨u, v, hnode⟩
  · obtain ⟨-, rfl⟩ := sumLeafPreimage_ok.mp ha
    exact Or.inl rfl
  · obtain ⟨-, rfl⟩ := sumNodePreimage_ok.mp hnode
    exact Or.inr rfl

/-- The tags keep the texts of the two versions apart, and so their roots. -/
theorem merkleRoot_ne_sumRoot (hgen : AvoidsGenesis digest)
    {leaves : List SealHead} {root : List UInt8} {sumRoot : RootNode} (hne : heads ≠ [])
    (h : merkleRoot digest heads = .ok root) (h' : merkleSumRoot digest leaves = .ok sumRoot)
    {hashed : Set (List UInt8)} (hfree : Set.InjOn digest hashed)
    (hS : headTexts digest heads ⊆ hashed) (hS' : rootTexts digest leaves ⊆ hashed) :
    root ≠ sumRoot.hash := by
  intro heq
  rcases merkleRoot_cases h with ⟨hnil, -⟩ | ⟨t, b, ht, hb, rfl⟩
  · exact hne hnil
  · obtain ⟨text, htext, hhash⟩ := Root.hashed hb
    rcases merkleSumRoot_cases h' with ⟨-, rfl⟩ | ⟨t', ht', hroot'⟩
    · exact hgen text (hhash.symm.trans heq)
    · obtain ⟨text', htext', hhash'⟩ := Root.hashed hroot'
      have hsame : text = text' :=
        hfree (hS ⟨t, ht, htext⟩) (hS' ⟨t', ht', htext'⟩) (hhash.symm.trans (heq.trans hhash'))
      subst hsame
      have htag := headTexts_tag ⟨t, ht, htext⟩
      have htag' := rootTexts_tag ⟨t', ht', htext'⟩
      rcases htag with htag | htag <;> rcases htag' with htag' | htag' <;>
        · rw [htag] at htag'
          exact absurd htag' (by decide)

/-- Both roots are the same for every order of the leaves and fix them, the second carries their
sum, and a root of the first version over some heads is never one of the second. -/
theorem merkle_roots_canonical_binding {digest : Digest} (hwidth : FixedWidth digest)
    (hgen : AvoidsGenesis digest) {hashed : Set (List UInt8)} (hfree : Set.InjOn digest hashed) :
    (∀ leaves leaves', DistinctAccounts leaves → leaves.Perm leaves' →
      merkleSumRoot digest leaves = merkleSumRoot digest leaves') ∧
    (∀ heads heads' : List ChainHead, (heads.map Prod.fst).Nodup → heads.Perm heads' →
      merkleRoot digest heads = merkleRoot digest heads') ∧
    (∀ leaves, RootFits leaves → ∃ root, merkleSumRoot digest leaves = .ok root ∧
      root.sum = (leaves.map SealHead.sum).sum) ∧
    (∀ leaves leaves' root root', merkleSumRoot digest leaves = .ok root →
      merkleSumRoot digest leaves' = .ok root' →
      rootTexts digest leaves ⊆ hashed → rootTexts digest leaves' ⊆ hashed →
      (∀ leaf ∈ leaves, PureHead leaf) → (∀ leaf ∈ leaves', PureHead leaf) →
      root.hash = root'.hash → leaves.Perm leaves') ∧
    (∀ heads heads' root, merkleRoot digest heads = .ok root → merkleRoot digest heads' = .ok root →
      headTexts digest heads ⊆ hashed → headTexts digest heads' ⊆ hashed →
      (∀ p ∈ heads, ':' ∉ p.2.toList) → (∀ p ∈ heads', ':' ∉ p.2.toList) → heads.Perm heads') ∧
    (∀ heads leaves root root', heads ≠ [] → merkleRoot digest heads = .ok root →
      merkleSumRoot digest leaves = .ok root' →
      headTexts digest heads ⊆ hashed → rootTexts digest leaves ⊆ hashed → root ≠ root'.hash) := by
  refine ⟨fun leaves leaves' => merkleSumRoot_perm digest, fun heads heads' => merkleRoot_perm digest,
    fun leaves hfits => ?_, ?_, ?_, ?_⟩
  · obtain ⟨root, hroot⟩ := exists_merkleSumRoot.mpr hfits
    exact ⟨root, hroot, merkleSumRoot_sum hroot⟩
  · intro leaves leaves' root root' h h' hS hS' hpure hpure'
    exact merkleSumRoot_binds hwidth hgen h h' hfree hS hS' hpure hpure'
  · intro heads heads' root h h' hS hS' hpure hpure'
    exact merkleRoot_binds hwidth hgen h h' hfree hS hS' hpure hpure'
  · intro heads leaves root root' hne h h' hS hS'
    exact merkleRoot_ne_sumRoot hgen hne h h' hfree hS hS'

def sampleHeads : List ChainHead :=
  [("usr_a:spendable", "0a"), ("platform:revenue", "0b"), ("usr_b:earned", "0c")]

def sampleSealHeads : List SealHead :=
  [⟨"usr_a:spendable", "0a", 5⟩, ⟨"platform:revenue", "0b", -8⟩, ⟨"usr_b:earned", "0c", 3⟩]

def sampleTexts : List (List UInt8) :=
  hashedHeadTexts weighDigest sampleHeads ++ hashedTexts weighDigest sampleSealHeads

/-- Three accounts with their heads, sealed under the first version and under the second. -/
theorem merkle_roots_apart : ∃ root root', merkleRoot weighDigest sampleHeads = .ok root ∧
    merkleSumRoot weighDigest sampleSealHeads = .ok root' ∧ root ≠ root'.hash ∧
    merkleSumRoot weighDigest sampleSealHeads.reverse = .ok root' ∧ root'.sum = 0 := by
  have hfree : ∀ x ∈ sampleTexts, ∀ y ∈ sampleTexts, weighDigest x = weighDigest y → x = y := by
    decide +kernel
  obtain ⟨hperm, -, -, -, -, hapart⟩ :=
    @merkle_roots_canonical_binding weighDigest (fun _ => rfl) (fun _ he => by cases he)
      {text | text ∈ sampleTexts} fun x hx y hy => hfree x hx y hy
  have hroots : (merkleRoot weighDigest sampleHeads).toOption.isSome ∧
      (merkleSumRoot weighDigest sampleSealHeads).toOption.map SumNode.sum = some 0 := by
    decide +kernel
  obtain ⟨root, hroot⟩ := Option.isSome_iff_exists.mp hroots.1
  obtain ⟨root', hroot', hsum⟩ := Option.map_eq_some_iff.mp hroots.2
  have hok := except_toOption.mp hroot
  have hok' := except_toOption.mp hroot'
  have hdistinct : (sampleSealHeads.reverse.map SealHead.account).Nodup := by
    decide +kernel
  refine ⟨root, root', hok, hok', ?_, ?_, hsum⟩
  · apply hapart sampleHeads sampleSealHeads root root' (by simp [sampleHeads]) hok hok'
    · exact fun text ht => List.mem_append_left _ (headTexts_hashed ht)
    · exact fun text ht => List.mem_append_right _ (rootTexts_hashed ht)
  · exact (hperm _ _ hdistinct (List.reverse_perm _)).trans hok'

end EconomyLab
