import EconomyLab.Chain.Export
import EconomyLab.Chain.Verified

/-!
# Offline verification is sound

Two files that re-derive and recompute one root carry one history. The root fixes the
accounts and their heads, and a head fixes the chain below it.
-/

namespace EconomyLab

open Foundation HashTree Text

def linkTexts (account : AccountRef) (links : List StoredLink) : Set (List UInt8) :=
  {bytes | ∃ link ∈ links, ∃ prev, fromHex link.prevHash = .ok prev ∧
    chainPreimage prev account link.posting = .ok bytes}

variable {digest : Digest} {account : AccountRef} {links : List StoredLink}

theorem recomputeLink_ok {link : StoredLink} {hash : String} :
    recomputeLink digest account link = .ok hash ↔
      ∃ prev bytes, fromHex link.prevHash = .ok prev ∧
        chainPreimage prev account link.posting = .ok bytes ∧ toHex (digest bytes) = hash := by
  unfold recomputeLink
  rw [except_bind_ok]
  constructor
  · rintro ⟨prev, hprev, h⟩
    obtain ⟨bytes, hbytes, hh⟩ := chainHash_ok.mp h
    exact ⟨prev, bytes, hprev, hbytes, hh⟩
  · rintro ⟨prev, bytes, hprev, hbytes, hh⟩
    exact ⟨prev, hprev, chainHash_ok.mpr ⟨bytes, hbytes, hh⟩⟩

/-- Every head of a chain from genesis is 32 bytes in hex, and genesis only where nothing is. -/
theorem lastHash_bytes (hwidth : FixedWidth digest) (hgen : AvoidsGenesis digest)
    (h : Rederives digest account GENESIS_HEX links) :
    ∃ bytes, bytes.length = 32 ∧ lastHash GENESIS_HEX links = toHex bytes ∧
      (links ≠ [] → bytes ≠ GENESIS) := by
  rcases List.eq_nil_or_concat links with rfl | ⟨init, last, rfl⟩
  · exact ⟨GENESIS, rfl, toHex_GENESIS.symm, fun hne => absurd rfl hne⟩
  · rw [List.concat_eq_append] at h ⊢
    obtain ⟨-, hlast⟩ := rederives_append.mp h
    obtain ⟨prev, bytes, -, -, hh⟩ := recomputeLink_ok.mp hlast.2.1
    refine ⟨digest bytes, hwidth bytes, ?_, fun _ => hgen bytes⟩
    rw [lastHash_append]
    exact hh.symm

/-- One entry of two histories: same transaction, own amounts and metadata. -/
structure SameEntry (account : AccountRef) (link link' : StoredLink) : Prop where
  txnId : link.txnId = link'.txnId
  amounts : (amountsOf account link.legs).Perm (amountsOf account link'.legs)
  fields : Meta.sorted link.fields = Meta.sorted link'.fields

/-- Two links with one hash are one entry on top of one head. -/
theorem sameEntry_of_hash {hashed : Set (List UInt8)}
    (hfree : CollisionFree digest hashed) {link link' : StoredLink}
    {prev prev' : List UInt8} (hlen : prev.length = prev'.length)
    (hprev : fromHex link.prevHash = .ok prev) (hprev' : fromHex link'.prevHash = .ok prev')
    (hf : link.posting.Framed) (hf' : link'.posting.Framed)
    (hr : recomputeLink digest account link = .ok link.hash)
    (hr' : recomputeLink digest account link' = .ok link'.hash)
    (hS : linkTexts account [link] ⊆ hashed) (hS' : linkTexts account [link'] ⊆ hashed)
    (heq : link.hash = link'.hash) : prev = prev' ∧ SameEntry account link link' := by
  obtain ⟨p, bytes, hp, hbytes, hh⟩ := recomputeLink_ok.mp hr
  obtain ⟨p', bytes', hp', hbytes', hh'⟩ := recomputeLink_ok.mp hr'
  obtain rfl : prev = p := Except.ok.inj (hprev.symm.trans hp)
  obtain rfl : prev' = p' := Except.ok.inj (hprev'.symm.trans hp')
  have hdigest : digest bytes = digest bytes' := toHex_inj (by rw [hh, hh', heq])
  have hm : bytes ∈ hashed := hS ⟨link, by simp, prev, hp, hbytes⟩
  have hm' : bytes' ∈ hashed := hS' ⟨link', by simp, prev', hp', hbytes'⟩
  obtain rfl := hfree hm hm' hdigest
  obtain ⟨hsame, htxn, hamounts, hmeta⟩ := chainPreimage_inj hlen hf hf' hbytes hbytes'
  obtain ⟨text, htext, -⟩ := chainPreimage_ok.mp hbytes
  exact ⟨hsame, htxn, hamounts, canonicalMeta_inj htext (hmeta ▸ htext)⟩

theorem linkTexts_mono {links links' : List StoredLink}
    (h : ∀ link ∈ links, link ∈ links') : linkTexts account links ⊆ linkTexts account links' := by
  rintro bytes ⟨link, hm, rest⟩
  exact ⟨link, h link hm, rest⟩

/-- Two chains from genesis with one head hold the same entries. -/
theorem rederives_same (hwidth : FixedWidth digest) (hgen : AvoidsGenesis digest)
    {hashed : Set (List UInt8)} (hfree : CollisionFree digest hashed)
    {links links' : List StoredLink} (h : Rederives digest account GENESIS_HEX links)
    (h' : Rederives digest account GENESIS_HEX links')
    (hf : ∀ link ∈ links, link.posting.Framed) (hf' : ∀ link ∈ links', link.posting.Framed)
    (hS : linkTexts account links ⊆ hashed) (hS' : linkTexts account links' ⊆ hashed)
    (heq : lastHash GENESIS_HEX links = lastHash GENESIS_HEX links') :
    List.Forall₂ (SameEntry account) links links' := by
  -- the induction takes the last link off both chains
  induction links using List.reverseRecOn generalizing links' with
  | nil =>
    obtain ⟨bytes, -, hlast, hne⟩ := lastHash_bytes hwidth hgen h'
    by_cases hnil : links' = []
    · rw [hnil]
      exact List.Forall₂.nil
    · rw [lastHash_nil, hlast, ← toHex_GENESIS] at heq
      exact absurd (toHex_inj heq).symm (hne hnil)
  | append_singleton init last ih =>
    rcases List.eq_nil_or_concat links' with rfl | ⟨init', last', rfl⟩
    · obtain ⟨bytes, -, hlast, hne⟩ := lastHash_bytes hwidth hgen h
      rw [lastHash_nil, hlast, ← toHex_GENESIS] at heq
      exact absurd (toHex_inj heq) (hne (by simp))
    · rw [List.concat_eq_append] at *
      obtain ⟨hinit, hprev, hr, -⟩ := rederives_append.mp h
      obtain ⟨hinit', hprev', hr', -⟩ := rederives_append.mp h'
      obtain ⟨bytes, hlen, hbytes, -⟩ := lastHash_bytes hwidth hgen hinit
      obtain ⟨bytes', hlen', hbytes', -⟩ := lastHash_bytes hwidth hgen hinit'
      have hp : fromHex last.prevHash = .ok bytes := by rw [hprev, hbytes, fromHex_toHex]
      have hp' : fromHex last'.prevHash = .ok bytes' := by rw [hprev', hbytes', fromHex_toHex]
      have hhash : last.hash = last'.hash := by
        rw [lastHash_append, lastHash_append] at heq
        exact heq
      obtain ⟨hsame, hentry⟩ := sameEntry_of_hash hfree (hlen.trans hlen'.symm) hp hp'
        (hf last (by simp)) (hf' last' (by simp)) hr hr'
        ((linkTexts_mono (by simp)).trans hS) ((linkTexts_mono (by simp)).trans hS') hhash
      have hheads : lastHash GENESIS_HEX init = lastHash GENESIS_HEX init' := by
        rw [hbytes, hbytes', hsame]
      have hrest := ih hinit hinit' (fun l hl => hf l (List.mem_append_left _ hl))
        (fun l hl => hf' l (List.mem_append_left _ hl))
        ((linkTexts_mono fun l hl => List.mem_append_left _ hl).trans hS)
        ((linkTexts_mono fun l hl => List.mem_append_left _ hl).trans hS') hheads
      exact List.rel_append hrest (List.Forall₂.cons hentry List.Forall₂.nil)

theorem lastHash_congr (hne : links ≠ []) (prev prev' : String) :
    lastHash prev links = lastHash prev' links := by
  obtain ⟨link, rest, rfl⟩ := List.exists_cons_of_ne_nil hne
  rw [lastHash_cons, lastHash_cons]

theorem hexChar_ne_colon : ∀ n < 16, hexChar n ≠ ':' := by
  decide

theorem not_colon_toHex (bytes : List UInt8) : ':' ∉ (toHex bytes).toList := by
  intro hm
  obtain ⟨n, hn, hc⟩ := mem_toHex hm
  exact hexChar_ne_colon n hn hc.symm

def ParsedExport.texts (digest : Digest) (file : ParsedExport) : Set (List UInt8) :=
  rootTexts digest (fileLedger file).headSums ∪
    {bytes | ∃ p ∈ file.lineage.entries, bytes ∈ linkTexts p.1 p.2}

def ParsedExport.Framed (file : ParsedExport) : Prop :=
  ∀ p ∈ file.lineage.entries, ∀ link ∈ p.2, link.posting.Framed

structure SameHistory (file file' : ParsedExport) : Prop where
  accounts : ∀ account, account ∈ file.lineage.keys ↔ account ∈ file'.lineage.keys
  entries : ∀ account links links', file.lineage.get account = some links →
    file'.lineage.get account = some links' → List.Forall₂ (SameEntry account) links links'

section File

variable {digest : Digest} {file : ParsedExport}

theorem ParsedExport.WellFormed.rederives (hw : file.WellFormed)
    (h : Intact digest none (fileLedger file))
    (hm : (account, links) ∈ file.lineage.entries) : Rederives digest account GENESIS_HEX links := by
  have hhead : (account, lastHash "" links) ∈ (fileLedger file).heads :=
    List.mem_map.mpr ⟨_, hm, rfl⟩
  have hl : (fileLedger file).lineage account none = links := by
    simp [fileLedger, (OrderedTable.get_eq_some hw.keys).mpr hm]
  have hacc := intact_iff.mp h _ hhead
  rw [hl] at hacc
  exact hacc

theorem ParsedExport.WellFormed.pureHeads (hw : file.WellFormed)
    (h : Intact digest none (fileLedger file)) : ∀ a ∈ (fileLedger file).headSums, PureHead a := by
  intro a ha
  obtain ⟨⟨account, links⟩, hm, rfl⟩ := List.mem_map.mp ha
  obtain ⟨init, last, hlinks⟩ := (List.eq_nil_or_concat links).resolve_left (hw.links _ hm)
  have hr := hw.rederives h hm
  rw [hlinks, List.concat_eq_append] at hr
  obtain ⟨prev, bytes, -, -, hh⟩ := recomputeLink_ok.mp (rederives_append.mp hr).2.2.1
  have hhead : lastHash "" links = toHex (digest bytes) := by
    rw [hlinks, List.concat_eq_append, lastHash_append, hh]
    rfl
  simp only [PureHead, hhead]
  exact not_colon_toHex _

theorem ParsedExport.WellFormed.mem_headSums (hw : file.WellFormed) {leaf : SealHead}
    (hm : leaf ∈ (fileLedger file).headSums) : ∃ links, file.lineage.get leaf.account = some links ∧
      leaf.head = lastHash GENESIS_HEX links := by
  obtain ⟨⟨account, links⟩, hp, rfl⟩ := List.mem_map.mp hm
  exact ⟨links, (OrderedTable.get_eq_some hw.keys).mpr hp, lastHash_congr (hw.links _ hp) _ _⟩

theorem ParsedExport.WellFormed.leaf_of_get (hw : file.WellFormed)
    (h : file.lineage.get account = some links) :
    ⟨account, lastHash GENESIS_HEX links, ownSum account links⟩ ∈ (fileLedger file).headSums := by
  have hm := (OrderedTable.get_eq_some hw.keys).mp h
  refine List.mem_map.mpr ⟨_, hm, ?_⟩
  rw [lastHash_congr (hw.links _ hm) GENESIS_HEX ""]

end File

/-- Two export files that re-derive and recompute one root carry the same history. -/
theorem exports_same_history (digest : Digest) (hwidth : FixedWidth digest)
    (hgen : AvoidsGenesis digest) (lines lines' : List ExportLine) (file file' : ParsedExport)
    (hparse : parseExport lines = .ok file) (hparse' : parseExport lines' = .ok file')
    (hintact : Intact digest none (fileLedger file))
    (hintact' : Intact digest none (fileLedger file')) (root root' : RootNode)
    (hroot : merkleSumRoot digest (fileLedger file).headSums = .ok root)
    (hroot' : merkleSumRoot digest (fileLedger file').headSums = .ok root')
    (hsame : root.hash = root'.hash) (hframed : file.Framed) (hframed' : file'.Framed)
    (hfree : CollisionFree digest (file.texts digest ∪ file'.texts digest)) :
    SameHistory file file' := by
  have hw := parseExport_wellFormed hparse
  have hw' := parseExport_wellFormed hparse'
  have hleaves : (fileLedger file).headSums.Perm (fileLedger file').headSums :=
    merkleSumRoot_binds hwidth hgen hroot hroot' hfree
      (fun x hx => Or.inl (Or.inl hx)) (fun x hx => Or.inr (Or.inl hx)) (hw.pureHeads hintact)
      (hw'.pureHeads hintact') hsame
  constructor
  · intro account
    have hkeys : ∀ f : ParsedExport, f.lineage.keys = (fileLedger f).headSums.map SealHead.account := by
      intro f
      simp [OrderedTable.keys, fileLedger]
    rw [hkeys, hkeys]
    exact (hleaves.map SealHead.account).mem_iff
  · intro account links links' hget hget'
    have hm := (OrderedTable.get_eq_some hw.keys).mp hget
    have hm' := (OrderedTable.get_eq_some hw'.keys).mp hget'
    have hheads : lastHash GENESIS_HEX links = lastHash GENESIS_HEX links' := by
      obtain ⟨found, hfound, hhead⟩ := hw'.mem_headSums (hleaves.mem_iff.mp (hw.leaf_of_get hget))
      obtain rfl := Option.some.inj (hget'.symm.trans hfound)
      exact hhead
    exact rederives_same hwidth hgen hfree (hw.rederives hintact hm) (hw'.rederives hintact' hm')
      (hframed _ hm) (hframed' _ hm') (fun x hx => Or.inl (Or.inr ⟨_, hm, hx⟩))
      (fun x hx => Or.inr (Or.inr ⟨_, hm', hx⟩)) hheads

/-! ## One link, its metadata written in two orders -/

/-- A digest of the length alone, for files with one text of each length. -/
def lengthDigest : Digest := fun text => 1 :: (List.replicate 30 0 ++ [UInt8.ofNat text.length])

/-- A digest that weighs the bytes, so that leaves with different sums differ. -/
def weighDigest : Digest := fun text =>
  1 :: (List.replicate 30 0 ++ [text.foldl (fun weight byte => weight * 31 + byte) 7])

def sampleLegs : List Leg := [⟨spendable "usr_a", ⟨.credit, -5, .neg_five⟩⟩]

def sampleText : String := "\x7b\"a\":1,\"b\":null\x7d"

def sampleBytes : List UInt8 :=
  lengthPrefixed [GENESIS, utf8 "txn_1", utf8 "CREDIT:-0.05", utf8 sampleText]

def sampleLink (fields : Meta) : StoredLink :=
  ⟨"txn_1", sampleLegs, fields, GENESIS_HEX, toHex (lengthDigest sampleBytes)⟩

def sampleLines (fields : Meta) : List ExportLine :=
  [.header EXPORT_FORMAT, .link (spendable "usr_a") (sampleLink fields)]

def sampleFile (fields : Meta) : ParsedExport := ⟨⟨[(spendable "usr_a", [sampleLink fields])]⟩, none⟩

def sampleLeaf : SealHead := ⟨spendable "usr_a", toHex (lengthDigest sampleBytes), -5⟩

def sampleLeafText : List UInt8 :=
  2 :: (utf8 (sampleLeaf.account ++ ":" ++ sampleLeaf.head ++ ":") ++ int64Bytes sampleLeaf.sum)

theorem sample_fromHex (fields : Meta) : fromHex (sampleLink fields).prevHash = .ok GENESIS := by
  change fromHex GENESIS_HEX = .ok GENESIS
  rw [← toHex_GENESIS, fromHex_toHex]

theorem sample_root (fields : Meta) :
    merkleSumRoot lengthDigest (fileLedger (sampleFile fields)).headSums =
      .ok ⟨lengthDigest sampleLeafText, -5⟩ := rfl

section Sample

variable {fields : Meta} (h : canonicalMeta (.object fields) = .ok sampleText)
include h

theorem sample_preimage :
    chainPreimage GENESIS (spendable "usr_a") (sampleLink fields).posting = .ok sampleBytes := by
  have hown : ownAmounts (spendable "usr_a") (sampleLink fields).posting.legs = ["CREDIT:-0.05"] := by
    change ownAmounts (spendable "usr_a") sampleLegs = _
    decide +kernel
  refine chainPreimage_ok.mpr ⟨sampleText, h, ?_⟩
  rw [postingFrames, hown]
  rfl

theorem sample_intact : Intact lengthDigest none (fileLedger (sampleFile fields)) := by
  apply intact_iff.mpr
  intro p hp
  obtain rfl : p = (spendable "usr_a", (sampleLink fields).hash) := List.mem_singleton.mp hp
  have hlink : recomputeLink lengthDigest (spendable "usr_a") (sampleLink fields) =
      .ok (sampleLink fields).hash :=
    recomputeLink_ok.mpr ⟨GENESIS, sampleBytes, sample_fromHex _, sample_preimage h, rfl⟩
  exact ⟨rfl, hlink, trivial⟩

theorem sample_framed : (sampleFile fields).Framed := by
  intro p hp link hlink
  obtain rfl := List.mem_singleton.mp hp
  obtain rfl := List.mem_singleton.mp hlink
  have htxn : EconomyLab.Framed (utf8 "txn_1") := by decide +kernel
  refine Posting.framed_of htxn ?_ ?_
  · change ∀ account ∈ sampleLegs.map Leg.account,
      Framed (utf8 ("\u0000".intercalate (ownAmounts account sampleLegs)))
    decide +kernel
  · change Framed (utf8 (Json.object fields).text)
    rw [Json.text_of_ok h]
    decide +kernel

theorem sample_texts : (sampleFile fields).texts lengthDigest ⊆ {sampleLeafText, sampleBytes} := by
  rintro text (⟨t, ht, hhashed⟩ | ⟨p, hp, link, hlink, prev, hprev, hbytes⟩)
  · obtain rfl : HashTree.leaf sampleLeaf = t := Option.some.inj ht
    cases hhashed with
    | leaf htext => exact Or.inl (sumLeafPreimage_ok.mp htext).2
  · obtain rfl := List.mem_singleton.mp hp
    obtain rfl := List.mem_singleton.mp hlink
    obtain rfl : GENESIS = prev := Except.ok.inj ((sample_fromHex _).symm.trans hprev)
    exact Or.inr (Except.ok.inj (hbytes.symm.trans (sample_preimage h)))

end Sample

theorem exports_same_history_reordered :
    SameHistory (sampleFile [("a", .number 1), ("b", .null)])
      (sampleFile [("b", .null), ("a", .number 1)]) := by
  have h : canonicalMeta (.object [("a", .number 1), ("b", .null)]) = .ok sampleText := by
    decide +kernel
  have h' : canonicalMeta (.object [("b", .null), ("a", .number 1)]) = .ok sampleText := by
    decide +kernel
  refine exports_same_history lengthDigest (fun _ => rfl) (fun _ he => ?_) (sampleLines _)
    (sampleLines _) _ _ rfl rfl (sample_intact h) (sample_intact h') _ _ (sample_root _)
    (sample_root _) rfl (sample_framed h) (sample_framed h') ?_
  · cases he
  · have hne : lengthDigest sampleLeafText ≠ lengthDigest sampleBytes := by
      decide +kernel
    have hfree : Set.InjOn lengthDigest {sampleLeafText, sampleBytes} := by
      rintro x (rfl | rfl) y (rfl | rfl) hxy
      · rfl
      · exact absurd hxy hne
      · exact absurd hxy.symm hne
      · rfl
    exact hfree.mono (Set.union_subset (sample_texts h) (sample_texts h'))

end EconomyLab
