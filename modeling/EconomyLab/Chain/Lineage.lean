import EconomyLab.Chain.Books

/-!
# Lineages of chained rows

A lineage of chained rows re-derives from genesis and ends at the account's head. Cutting
the rows cuts every lineage at the head of the part before.
-/

namespace EconomyLab

open Foundation

/-! ## Reading a lineage -/

theorem lineageOf_none (rows : List StoredPosting) (account : AccountRef) :
    lineageOf rows account none = rows.filterMap fun row => row.linkOf account := by
  induction rows with
  | nil => rfl
  | cons row rows ih =>
    cases hl : row.linkOf account <;> simp [lineageOf, hl, ih]

@[simp] theorem lineageOf_append (rows more : List StoredPosting) (account : AccountRef) :
    lineageOf (rows ++ more) account none = lineageOf rows account none ++ lineageOf more
      account none := by
  simp [lineageOf_none]

/-- Links after the first one that carries the hash; none when no link does. -/
def linksSince (hash : String) : List StoredLink → List StoredLink
  | [] => []
  | link :: links => if link.hash = hash then links else linksSince hash links

theorem lineageOf_some (rows : List StoredPosting) (account : AccountRef) (hash : String) :
    lineageOf rows account (some hash) = linksSince hash (lineageOf rows account none) := by
  induction rows with
  | nil => rfl
  | cons row rows ih =>
    cases hl : row.linkOf account with
    | none => simp [lineageOf, hl, ih]
    | some link => by_cases hh : link.hash = hash <;> simp [lineageOf, hl, linksSince, hh, ih]

theorem linksSince_of_not_mem {hash : String} {links : List StoredLink}
    (h : ∀ link ∈ links, link.hash ≠ hash) : linksSince hash links = [] := by
  induction links with
  | nil => rfl
  | cons link links ih =>
    rw [linksSince, if_neg (h link List.mem_cons_self)]
    exact ih fun l hl => h l (List.mem_cons_of_mem _ hl)

theorem linksSince_split {hash : String} {links : List StoredLink} (h : ∃ link ∈ links, link.hash = hash) :
    ∃ before link, links = before ++ link :: linksSince hash links ∧ link.hash = hash := by
  induction links with
  | nil => simp at h
  | cons link links ih =>
    by_cases hh : link.hash = hash
    · exact ⟨[], link, by simp [linksSince, hh], hh⟩
    · have hrest : ∃ l ∈ links, l.hash = hash := by
        obtain ⟨l, hl, he⟩ := h
        rcases List.mem_cons.mp hl with rfl | hl
        · exact absurd he hh
        · exact ⟨l, hl, he⟩
      obtain ⟨before, found, hsplit, hfound⟩ := ih hrest
      refine ⟨link :: before, found, ?_, hfound⟩
      rw [linksSince, if_neg hh, List.cons_append, ← hsplit]

variable {digest : Digest} {rows before : List StoredPosting} {row : StoredPosting}

/-- Past a link with the hash a re-deriving chain re-derives from the hash. -/
theorem Rederives.since {account : AccountRef} {prev hash : String}
    {links : List StoredLink} (h : Rederives digest account prev links)
    (hm : ∃ link ∈ links, link.hash = hash) :
    Rederives digest account hash (linksSince hash links) ∧
      lastHash hash (linksSince hash links) = lastHash prev links := by
  obtain ⟨before, link, hsplit, hh⟩ := linksSince_split hm
  rw [hsplit] at h
  have hrest := (rederives_append.mp h).2.2.2
  rw [hh] at hrest
  refine ⟨hrest, ?_⟩
  nth_rewrite 2 [hsplit]
  rw [lastHash_append, lastHash_cons, hh]

theorem filter_getLast?_eq_find? {links : List Link} (h : (links.map Link.account).Nodup)
    (account : AccountRef) :
    (links.filter (·.account = account)).getLast? = links.find? (·.account = account) := by
  induction links with
  | nil => rfl
  | cons link links ih =>
    rw [List.map_cons, List.nodup_cons] at h
    by_cases ha : link.account = account
    · have hnone : links.filter (·.account = account) = [] := by
        rw [List.filter_eq_nil_iff]
        intro l hl hla
        refine h.1 (List.mem_map.mpr ⟨l, hl, ?_⟩)
        rw [ha]
        exact of_decide_eq_true hla
      simp [ha, hnone]
    · simp [ha, ih h.2]

theorem RowLinked.nodup (h : RowLinked digest before row) : (row.links.map Link.account).Nodup := by
  rw [h.accounts]
  exact distinctAccounts_nodup _

theorem StoredPosting.linkOf_eq_some {account : AccountRef} {stored : StoredLink} :
    row.linkOf account = some stored ↔ ∃ link, row.links.find? (·.account = account) = some link ∧
      stored = ⟨row.txnId, row.legs, row.fields, link.prevHash, link.hash⟩ := by
  unfold StoredPosting.linkOf
  rw [Option.map_eq_some_iff]
  simp only [eq_comm]

theorem RowLinked.touches (h : RowLinked digest before row) (account : AccountRef) :
    (row.linkOf account).isSome ↔ account ∈ row.legs.map Leg.account := by
  rw [← mem_distinctAccounts, ← h.accounts, StoredPosting.linkOf, Option.isSome_map]
  simp [List.find?_isSome]

theorem lastHash_linkOf (h : RowLinked digest before row) (account : AccountRef) :
    chainHead (before ++ [row]) account =
      lastHash (chainHead before account) ((row.linkOf account).toList) := by
  unfold chainHead
  rw [lastLink_append, filter_getLast?_eq_find? h.nodup, StoredPosting.linkOf]
  cases row.links.find? (·.account = account) <;> simp

theorem RowLinked.rederives (h : RowLinked digest before row) (account : AccountRef) :
    Rederives digest account (chainHead before account) (row.linkOf account).toList := by
  cases hl : row.linkOf account with
  | none => trivial
  | some stored =>
    obtain ⟨link, hfind, rfl⟩ := StoredPosting.linkOf_eq_some.mp hl
    have hacc : link.account = account := by simpa using List.find?_some hfind
    have hext := h.links link (List.mem_of_find?_eq_some hfind)
    rw [← hacc]
    obtain ⟨bytes, hbytes, hhash⟩ := hext.hash
    refine ⟨hext.prev, ?_, trivial⟩
    unfold recomputeLink
    rw [hbytes]
    exact hhash

theorem Chained.last {digest : Digest} {rows : List StoredPosting} {row : StoredPosting}
    (h : Chained digest (rows ++ [row])) : RowLinked digest rows row :=
  h rows row [] rfl

theorem Chained.lineage (h : Chained digest rows)
    (account : AccountRef) : Rederives digest account GENESIS_HEX (lineageOf rows account none) ∧
      lastHash GENESIS_HEX (lineageOf rows account none) = chainHead rows account := by
  induction rows using List.reverseRecOn with
  | nil => exact ⟨trivial, rfl⟩
  | append_singleton rows row ih =>
    obtain ⟨hd, hlast⟩ := ih h.prefix
    have hrow : lineageOf [row] account none = (row.linkOf account).toList := by
      rw [lineageOf_none]
      cases hl : row.linkOf account <;> simp [hl]
    rw [lineageOf_append, rederives_append, lastHash_append, hlast, hrow, lastHash_linkOf h.last]
    exact ⟨⟨hd, h.last.rederives account⟩, rfl⟩

/-- The lineage of the rows past a cut re-derives from the head at the cut. -/
theorem Chained.tail {rows more : List StoredPosting}
    (h : Chained digest (rows ++ more)) (account : AccountRef) :
    Rederives digest account (chainHead rows account) (lineageOf more account none) ∧
      lastHash (chainHead rows account) (lineageOf more account none) =
        chainHead (rows ++ more) account := by
  obtain ⟨hd, hlast⟩ := h.lineage account
  obtain ⟨-, hcut⟩ := h.prefix.lineage account
  rw [lineageOf_append, rederives_append, hcut] at hd
  rw [lineageOf_append, lastHash_append, hcut] at hlast
  exact ⟨hd.2, hlast⟩

theorem Chained.lineage_nil (h : Chained digest rows) {account : AccountRef} :
    lineageOf rows account none = [] ↔ account ∉ (legsOf rows).map Leg.account := by
  induction rows using List.reverseRecOn with
  | nil => simp [lineageOf, legsOf]
  | append_singleton rows row ih =>
    have htouch := h.last.touches account
    rw [lineageOf_append, List.append_eq_nil_iff, ih h.prefix, legsOf_append, List.map_append,
      List.mem_append, not_or, legsOf_singleton, ← htouch, lineageOf_none]
    cases hl : row.linkOf account <;> simp [hl]

theorem Chained.head_of_untouched (h : Chained digest rows)
    {account : AccountRef} (hn : account ∉ (legsOf rows).map Leg.account) :
    chainHead rows account = GENESIS_HEX := by
  rw [← (h.lineage account).2, h.lineage_nil.mpr hn]
  rfl

theorem lastLink_isSome (h : Chained digest rows) {account : AccountRef} :
    (lastLink rows account).isSome ↔ account ∈ (legsOf rows).map Leg.account := by
  induction rows using List.reverseRecOn with
  | nil => simp [lastLink, legsOf]
  | append_singleton rows row ih =>
    have htouch := h.last.touches account
    rw [lastLink_append, Option.isSome_or, Bool.or_eq_true, ih h.prefix, legsOf_append, List.map_append,
      List.mem_append, legsOf_singleton, ← htouch, filter_getLast?_eq_find? h.last.nodup,
      StoredPosting.linkOf, Option.isSome_map, or_comm]

/-- Every row is linked to some rows before it, as the rows a prune leaves still are. -/
def EachLinked (digest : Digest) (rows : List StoredPosting) : Prop :=
  ∀ row ∈ rows, ∃ before, RowLinked digest before row

theorem Chained.eachLinked {rows kept : List StoredPosting} (h : Chained digest rows)
    (hk : kept.Sublist rows) : EachLinked digest kept :=
  fun _ hm => h.of_mem (hk.subset hm)

theorem ownSum_linkOf (h : RowLinked digest before row) (account : AccountRef) :
    ownSum account (row.linkOf account).toList = rawSum [row] account := by
  have htouch := h.touches account
  cases hl : row.linkOf account with
  | none =>
    rw [hl] at htouch
    have hn : account ∉ (legsOf [row]).map Leg.account := by
      rw [legsOf_singleton]
      exact fun hm => by simpa using htouch.mpr hm
    rw [rawSum_eq_zero hn]
    rfl
  | some stored =>
    obtain ⟨link, -, rfl⟩ := StoredPosting.linkOf_eq_some.mp hl
    have hsum : ∀ legs : List Leg, ((amountsOf account legs).map Amount.minor).sum =
        total (rawAmounts legs) account := by
      intro legs
      induction legs with
      | nil => rfl
      | cons leg legs ih =>
        have hleg : rawAmounts (leg :: legs) = (leg.account, leg.amount.minor) :: rawAmounts legs := rfl
        rw [hleg, total_cons, ← ih]
        by_cases ha : leg.account = account <;> simp [amountsOf, ha]
    simp [ownSum, rawSum, hsum]

theorem ownSum_append (account : AccountRef) (links more : List StoredLink) :
    ownSum account (links ++ more) = ownSum account links + ownSum account more := by
  simp [ownSum]

theorem EachLinked.ownSum (h : EachLinked digest rows)
    (account : AccountRef) : ownSum account (lineageOf rows account none) = rawSum rows account := by
  induction rows using List.reverseRecOn with
  | nil => rfl
  | append_singleton rows row ih =>
    obtain ⟨before, hrow⟩ := h row (by simp)
    have hinit : EachLinked digest rows := fun r hr => h r (List.mem_append_left _ hr)
    have hlast : lineageOf [row] account none = (row.linkOf account).toList := by
      rw [lineageOf_none]
      cases hl : row.linkOf account <;> simp [hl]
    rw [lineageOf_append, ownSum_append, ih hinit, hlast, ownSum_linkOf hrow, rawSum_append]

end EconomyLab
