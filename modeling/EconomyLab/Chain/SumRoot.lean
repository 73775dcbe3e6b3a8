import EconomyLab.Foundation.HashTree
import EconomyLab.Chain.Preimage

/-!
# The sum-carrying Merkle root

One hash over every account's head and raw leg sum. With a collision-free digest of fixed
width it fixes the leaves.
-/

namespace EconomyLab

open Foundation HashTree Text

/-- Eight bytes, two's complement, big-endian. -/
def int64Bytes (value : Int) : List UInt8 :=
  let bits := (value % 2 ^ 64).toNat
  [UInt8.ofNat (bits / 2 ^ 56), UInt8.ofNat (bits / 2 ^ 48), UInt8.ofNat (bits / 2 ^ 40),
    UInt8.ofNat (bits / 2 ^ 32), UInt8.ofNat (bits / 2 ^ 24), UInt8.ofNat (bits / 2 ^ 16),
    UInt8.ofNat (bits / 2 ^ 8), UInt8.ofNat bits]

def toInt64BE (value : Int) : Except Fault (List UInt8) :=
  if I64 value then .ok (int64Bytes value)
  else .error (fault .amountOverflow "Value does not fit in a signed 64-bit integer.")

@[ext] structure SealHead where
  account : AccountRef
  head : String
  sum : Int
deriving DecidableEq

def sumLeafPreimage (leaf : SealHead) : Except Fault (List UInt8) := do
  return 2 :: (utf8 (leaf.account ++ ":" ++ leaf.head ++ ":") ++ (← toInt64BE leaf.sum))

abbrev RootNode := SumNode (List UInt8)

def sumNodePreimage (left right : RootNode) : Except Fault (List UInt8) := do
  return 3 :: (left.hash ++ right.hash ++ (← toInt64BE (left.sum + right.sum)))

def sortLeaves (leaves : List SealHead) : List SealHead :=
  leaves.insertionSort fun a b => codeUnitLe a.account b.account

def merkleSumRoot (digest : Digest) (leaves : List SealHead) : Except Fault RootNode := do
  let level ← (sortLeaves leaves).mapM (leafNode digest sumLeafPreimage SealHead.sum)
  match level with
  | [] => return ⟨GENESIS, 0⟩
  | first :: _ =>
    let top ← joinRounds (joinNodes digest sumNodePreimage) level.length level
    return top.headD first

abbrev LeafRoot (digest : Digest) : HashTree SealHead → RootNode → Prop :=
  Root digest sumLeafPreimage SealHead.sum sumNodePreimage

theorem merkleSumRoot_nil (digest : Digest) : merkleSumRoot digest [] = .ok ⟨GENESIS, 0⟩ := rfl

theorem mapM_ok {ε α β : Type} {f : α → Except ε β} {xs : List α} {ys : List β} :
    xs.mapM f = .ok ys ↔ List.Forall₂ (fun a b => f a = .ok b) xs ys := by
  induction xs generalizing ys with
  | nil => simp [pure, Except.pure, eq_comm]
  | cons x xs ih =>
    rw [List.mapM_cons, except_bind_ok]
    constructor
    · rintro ⟨y, hy, h⟩
      obtain ⟨rest, hrest, h⟩ := except_bind_ok.mp h
      rw [except_pure_ok] at h
      subst h
      exact List.Forall₂.cons hy (ih.mp hrest)
    · intro h
      rcases h with _ | ⟨hy, h⟩
      refine ⟨_, hy, ?_⟩
      rw [ih.mpr h]
      rfl

variable {digest : Digest} {text : List UInt8} {leaves leaves' : List SealHead} {root : RootNode}

theorem merkleSumRoot_ok {t : HashTree SealHead} (ht : ofList (sortLeaves leaves) = some t) :
    merkleSumRoot digest leaves = .ok root ↔ LeafRoot digest t root := by
  have hne : sortLeaves leaves ≠ [] := by
    intro h
    rw [ofList_eq_none.mpr h] at ht
    cases ht
  unfold merkleSumRoot
  rw [except_bind_ok]
  constructor
  · rintro ⟨level, hlevel, h⟩
    have hf := mapM_ok.mp hlevel
    cases level with
    | nil => exact absurd (List.forall₂_nil_right_iff.mp hf) hne
    | cons first rest =>
      obtain ⟨top, htop, h⟩ := except_bind_ok.mp h
      rw [except_pure_ok] at h
      obtain ⟨x, hx⟩ := joinRounds_singleton ht hf htop
      subst hx
      obtain rfl : x = root := h
      exact (joinRounds_ofList ht hf).mp htop
  · intro hroot
    obtain ⟨level, hlevel⟩ := level_of_folds ht hroot
    refine ⟨level, mapM_ok.mpr hlevel, ?_⟩
    have hrounds := (joinRounds_ofList ht hlevel).mpr hroot
    cases level with
    | nil => exact absurd (List.forall₂_nil_right_iff.mp hlevel) hne
    | cons first rest =>
      change (joinRounds _ _ _ >>= _) = _
      rw [hrounds]
      rfl

/-! ## The leaves as a set of accounts -/

def DistinctAccounts (leaves : List SealHead) : Prop := (leaves.map SealHead.account).Nodup

theorem DistinctAccounts.eq_of_account (h : DistinctAccounts leaves)
    {a b : SealHead} (ha : a ∈ leaves) (hb : b ∈ leaves) (hab : a.account = b.account) : a = b :=
  List.inj_on_of_nodup_map h ha hb hab

theorem sortLeaves_perm (hd : DistinctAccounts leaves)
    (h : leaves.Perm leaves') : sortLeaves leaves = sortLeaves leaves' := by
  apply sortByKey_perm SealHead.account h
  intro a ha b hb hab
  exact hd.eq_of_account ha hb hab

/-- The order in which a store lists its leaves does not reach the root. -/
theorem merkleSumRoot_perm (digest : Digest) (hd : DistinctAccounts leaves) (h : leaves.Perm leaves') :
    merkleSumRoot digest leaves = merkleSumRoot digest leaves' := by
  unfold merkleSumRoot
  rw [sortLeaves_perm hd h]

theorem sortLeaves_perm_self (leaves : List SealHead) : (sortLeaves leaves).Perm leaves :=
  List.perm_insertionSort _ _

theorem merkleSumRoot_cases (h : merkleSumRoot digest leaves = .ok root) :
    (leaves = [] ∧ root = ⟨GENESIS, 0⟩) ∨
    ∃ t, ofList (sortLeaves leaves) = some t ∧ LeafRoot digest t root := by
  cases ht : ofList (sortLeaves leaves) with
  | none =>
    left
    have hnil : leaves = [] := by
      have := (sortLeaves_perm_self leaves).length_eq
      rw [ofList_eq_none.mp ht] at this
      exact List.eq_nil_of_length_eq_zero this.symm
    subst hnil
    rw [merkleSumRoot_nil] at h
    exact ⟨rfl, (Except.ok.inj h).symm⟩
  | some t =>
    right
    exact ⟨t, rfl, (merkleSumRoot_ok ht).mp h⟩

theorem merkleSumRoot_sum
    (h : merkleSumRoot digest leaves = .ok root) : root.sum = (leaves.map SealHead.sum).sum := by
  rcases merkleSumRoot_cases h with ⟨rfl, rfl⟩ | ⟨t, ht, hroot⟩
  · rfl
  · have hsum := Root.sum_eq hroot
    rw [ofList_leaves ht] at hsum
    exact hsum.trans ((sortLeaves_perm_self leaves).map SealHead.sum).sum_eq

theorem int64Bytes_inj {m n : Int} (hm : I64 m) (hn : I64 n) (h : int64Bytes m = int64Bytes n) :
    m = n := by
  obtain ⟨hm1, hm2⟩ := hm
  obtain ⟨hn1, hn2⟩ := hn
  simp only [int64Bytes, List.cons.injEq, and_true] at h
  obtain ⟨h7, h6, h5, h4, h3, h2, h1, h0⟩ := h
  have hx : (m % 2 ^ 64).toNat < 2 ^ 64 := by omega
  have hy : (n % 2 ^ 64).toNat < 2 ^ 64 := by omega
  have hbits : (m % 2 ^ 64).toNat = (n % 2 ^ 64).toNat := by
    generalize (m % 2 ^ 64).toNat = x at *
    generalize (n % 2 ^ 64).toNat = y at *
    -- four bytes at a time
    have hhigh : x / 2 ^ 32 = y / 2 ^ 32 := by
      have hdiv : ∀ z k : Nat, z / 2 ^ 32 / 2 ^ k = z / 2 ^ (32 + k) := fun z k => by
        rw [Nat.div_div_eq_div_mul, ← Nat.pow_add]
      apply frameLength_inj (by omega) (by omega)
      simp only [frameLength, hdiv, List.cons.injEq]
      exact ⟨h7, h6, h5, h4, trivial⟩
    have hlow : x % 2 ^ 32 = y % 2 ^ 32 := by
      have e3 := congrArg UInt8.toNat h3
      have e2 := congrArg UInt8.toNat h2
      have e1 := congrArg UInt8.toNat h1
      have e0 := congrArg UInt8.toNat h0
      simp only [UInt8.toNat_ofNat'] at e3 e2 e1 e0
      omega
    omega
  omega

theorem sumLeafPreimage_ok {leaf : SealHead} : sumLeafPreimage leaf = .ok text ↔ I64 leaf.sum ∧
      text = 2 :: (utf8 (leaf.account ++ ":" ++ leaf.head ++ ":") ++ int64Bytes leaf.sum) := by
  unfold sumLeafPreimage toInt64BE
  split <;> rename_i h <;> simp [h, bind, Except.bind, pure, Except.pure, eq_comm]

theorem sumNodePreimage_ok {left right : RootNode} :
    sumNodePreimage left right = .ok text ↔ I64 (left.sum + right.sum) ∧
      text = 3 :: (left.hash ++ right.hash ++ int64Bytes (left.sum + right.sum)) := by
  unfold sumNodePreimage toInt64BE
  split <;> rename_i h <;> simp [h, bind, Except.bind, pure, Except.pure, eq_comm]

def RootFits (leaves : List SealHead) : Prop :=
  ∀ t, ofList (sortLeaves leaves) = some t → t.SumsIn I64 SealHead.sum

theorem exists_merkleSumRoot {digest : Digest} {leaves : List SealHead} :
    (∃ root, merkleSumRoot digest leaves = .ok root) ↔ RootFits leaves := by
  unfold RootFits
  cases ht : ofList (sortLeaves leaves) with
  | none =>
    have hnil : leaves = [] := by
      have hlen := (sortLeaves_perm_self leaves).length_eq
      rw [ofList_eq_none.mp ht] at hlen
      exact List.eq_nil_of_length_eq_zero hlen.symm
    subst hnil
    simp [merkleSumRoot_nil]
  | some t =>
    simp only [merkleSumRoot_ok ht, Option.some.injEq, forall_eq']
    apply exists_hashed_root
    · intro leaf
      simp [sumLeafPreimage_ok]
    · intro u v
      simp [sumNodePreimage_ok]

theorem RootFits.perm (hd : DistinctAccounts leaves)
    (h : leaves.Perm leaves') : RootFits leaves ↔ RootFits leaves' := by
  unfold RootFits
  rw [sortLeaves_perm hd h]

/-! ## What the root fixes -/

/-- What is hashed of a leaf: its account and head in one text, and its sum. -/
abbrev Spelling := String × Int

def SealHead.spelling (leaf : SealHead) : Spelling := (leaf.account ++ ":" ++ leaf.head, leaf.sum)

def spellingPreimage (p : Spelling) : Except Fault (List UInt8) := do
  return 2 :: (utf8 (p.1 ++ ":") ++ (← toInt64BE p.2))

theorem spellingPreimage_ok {p : Spelling} :
    spellingPreimage p = .ok text ↔ I64 p.2 ∧ text = 2 :: (utf8 (p.1 ++ ":") ++ int64Bytes p.2) := by
  unfold spellingPreimage toInt64BE
  split <;> rename_i h <;> simp [h, bind, Except.bind, pure, Except.pure, eq_comm]

theorem spellingPreimage_inj {p q : Spelling} (h : spellingPreimage p = .ok text)
    (h' : spellingPreimage q = .ok text) : p = q := by
  obtain ⟨hrp, hp⟩ := spellingPreimage_ok.mp h
  obtain ⟨hrq, hq⟩ := spellingPreimage_ok.mp h'
  have hbytes := (List.cons.inj (hp.symm.trans hq)).2
  obtain ⟨hbody, hsum⟩ := List.append_inj' hbytes rfl
  have hchars := congrArg String.toList (utf8_inj hbody)
  rw [String.toList_append, String.toList_append] at hchars
  have htext : p.1 = q.1 := String.toList_inj.mp (List.append_cancel_right hchars)
  exact Prod.ext htext (int64Bytes_inj hrp hrq hsum)

/-- A head is hex, so the last colon of a leaf ends its account. -/
def PureHead (leaf : SealHead) : Prop := ':' ∉ leaf.head.toList

/-- The leaf spelled so, if its head holds no colon. -/
def Spelling.leaf (p : Spelling) : SealHead :=
  let cut := (cutLast ':' p.1).getD ("", "")
  ⟨cut.1, cut.2, p.2⟩

theorem PureHead.leaf_spelling {leaf : SealHead} (h : PureHead leaf) : leaf.spelling.leaf = leaf := by
  have hcut : cutLast ':' (leaf.account ++ ":" ++ leaf.head) = some (leaf.account, leaf.head) :=
    cutLast_append ':' leaf.account leaf.head h
  simp [SealHead.spelling, Spelling.leaf, hcut]

def FixedWidth (digest : Digest) : Prop := ∀ text, (digest text).length = 32

theorem sumPreimages_separated (hwidth : FixedWidth digest) :
    Separated digest spellingPreimage sumNodePreimage fun _ => True where
  leaf := fun _ _ => spellingPreimage_inj
  node := by
    rintro u v u' v' text ⟨x, hx⟩ ⟨x', hx'⟩ h h'
    obtain ⟨-, ht⟩ := sumNodePreimage_ok.mp h
    obtain ⟨-, ht'⟩ := sumNodePreimage_ok.mp h'
    have hbytes := (List.cons.inj (ht.symm.trans ht')).2
    obtain ⟨hhashes, -⟩ := List.append_inj' hbytes rfl
    have hlen : u.hash.length = u'.hash.length := by
      rw [← hx, ← hx', hwidth, hwidth]
    exact List.append_inj hhashes hlen
  apart := by
    intro p u v text h h'
    obtain ⟨-, ht⟩ := spellingPreimage_ok.mp h
    obtain ⟨-, ht'⟩ := sumNodePreimage_ok.mp h'
    exact absurd (List.cons.inj (ht.symm.trans ht')).1 (by decide)

def rootTexts (digest : Digest) (leaves : List SealHead) : Set (List UInt8) :=
  {text | ∃ t, ofList (sortLeaves leaves) = some t ∧
    Hashed digest sumLeafPreimage SealHead.sum sumNodePreimage t text}

/-- The texts that the root of these leaves hashes, in the order in which it does. -/
def hashedTexts (digest : Digest) (leaves : List SealHead) : List (List UInt8) :=
  match ofList (sortLeaves leaves) with
  | none => []
  | some t => (t.texts digest sumLeafPreimage SealHead.sum sumNodePreimage).1

theorem rootTexts_hashed (h : text ∈ rootTexts digest leaves) : text ∈ hashedTexts digest leaves := by
  obtain ⟨t, ht, hashed⟩ := h
  rw [hashedTexts, ht]
  exact hashed.mem_texts

def AvoidsGenesis (digest : Digest) : Prop := ∀ text, digest text ≠ GENESIS

theorem LeafRoot.ne_genesis (hgen : AvoidsGenesis digest) {t : HashTree SealHead}
    (h : LeafRoot digest t root) : root.hash ≠ GENESIS := by
  obtain ⟨text, ht⟩ := Root.hash_mem h
  rw [← ht]
  exact hgen text

/-- One root hash, one list of spellings: which colon of a leaf ends its account is not fixed. -/
theorem merkleSumRoot_spells (hwidth : FixedWidth digest)
    (hgen : AvoidsGenesis digest) {root root' : RootNode}
    (h : merkleSumRoot digest leaves = .ok root) (h' : merkleSumRoot digest leaves' = .ok root')
    {hashed : Set (List UInt8)} (hfree : Set.InjOn digest hashed)
    (hS : rootTexts digest leaves ⊆ hashed) (hS' : rootTexts digest leaves' ⊆ hashed)
    (heq : root.hash = root'.hash) :
    (leaves.map SealHead.spelling).Perm (leaves'.map SealHead.spelling) := by
  rcases merkleSumRoot_cases h with ⟨rfl, rfl⟩ | ⟨t, ht, hroot⟩
  · rcases merkleSumRoot_cases h' with ⟨rfl, rfl⟩ | ⟨t', ht', hroot'⟩
    · exact List.Perm.refl _
    · exact absurd heq.symm (LeafRoot.ne_genesis hgen hroot')
  · rcases merkleSumRoot_cases h' with ⟨rfl, rfl⟩ | ⟨t', ht', hroot'⟩
    · exact absurd heq (LeafRoot.ne_genesis hgen hroot)
    · have hspelled : ∀ {t : HashTree SealHead} {root : RootNode}, LeafRoot digest t root →
          Root digest spellingPreimage Prod.snd sumNodePreimage (t.map SealHead.spelling) root :=
        fun h => folds_map.mpr h
      have htree : t.map SealHead.spelling = t'.map SealHead.spelling :=
        Root.binds (sumPreimages_separated hwidth) hfree (hspelled hroot) (hspelled hroot')
          (fun x hx => hS ⟨t, ht, hashed_map (f := SealHead.spelling) hx⟩)
          (fun x hx => hS' ⟨t', ht', hashed_map (f := SealHead.spelling) hx⟩)
          (fun _ _ => trivial) (fun _ _ => trivial) heq
      have hsorted : (sortLeaves leaves).map SealHead.spelling =
          (sortLeaves leaves').map SealHead.spelling := by
        rw [← ofList_leaves ht, ← ofList_leaves ht', ← leaves_map, ← leaves_map, htree]
      have hperm := ((sortLeaves_perm_self leaves).map SealHead.spelling).symm
      rw [hsorted] at hperm
      exact hperm.trans ((sortLeaves_perm_self leaves').map SealHead.spelling)

theorem merkleSumRoot_binds (hwidth : FixedWidth digest)
    (hgen : AvoidsGenesis digest) {root root' : RootNode}
    (h : merkleSumRoot digest leaves = .ok root) (h' : merkleSumRoot digest leaves' = .ok root')
    {hashed : Set (List UInt8)} (hfree : Set.InjOn digest hashed)
    (hS : rootTexts digest leaves ⊆ hashed) (hS' : rootTexts digest leaves' ⊆ hashed)
    (hpure : ∀ a ∈ leaves, PureHead a) (hpure' : ∀ a ∈ leaves', PureHead a)
    (heq : root.hash = root'.hash) : leaves.Perm leaves' := by
  have hread : ∀ {leaves : List SealHead}, (∀ a ∈ leaves, PureHead a) →
      (leaves.map SealHead.spelling).map Spelling.leaf = leaves := by
    intro leaves hpure
    rw [List.map_map]
    exact (List.map_congr_left fun a ha => (hpure a ha).leaf_spelling).trans (List.map_id _)
  have hperm := (merkleSumRoot_spells hwidth hgen h h' hfree hS hS' heq).map Spelling.leaf
  rw [hread hpure, hread hpure'] at hperm
  exact hperm

end EconomyLab
