import Mathlib.Data.List.Sort

/-!
# Text

The string operations the program uses, on characters where the source cuts ids and
on UTF-16 code units where it hashes or orders them.
-/

namespace EconomyLab.Text

def startsWith (s pre : String) : Bool := pre.toList.isPrefixOf s.toList

def includes (s : String) (c : Char) : Bool := s.toList.contains c

/-- `s.slice(0, s.indexOf(c))`, the whole of `s` when `c` does not occur. -/
def beforeFirst (c : Char) (s : String) : String := String.ofList (s.toList.takeWhile (· ≠ c))

def splitLast (c : Char) : List Char → Option (List Char × List Char)
  | [] => none
  | x :: xs =>
    match splitLast c xs with
    | some (before, after) => some (x :: before, after)
    | none => if x = c then some ([], xs) else none

/-- The text before and after the last `c`. -/
def cutLast (c : Char) (s : String) : Option (String × String) :=
  (splitLast c s.toList).map fun p => (String.ofList p.1, String.ofList p.2)

/-- The text before and after the first `c`. -/
def cutFirst (c : Char) (s : String) : Option (String × String) :=
  match s.toList.dropWhile (· ≠ c) with
  | [] => none
  | _ :: after => some (beforeFirst c s, String.ofList after)

def unitsOf (c : Char) : List Nat :=
  if c.toNat < 0x10000 then [c.toNat]
  else [0xd800 + (c.toNat - 0x10000) / 0x400, 0xdc00 + (c.toNat - 0x10000) % 0x400]

/-- The UTF-16 code units, what `charCodeAt` and `<` on strings read. -/
def codeUnits (s : String) : List Nat := s.toList.flatMap unitsOf

def unitsLe : List Nat → List Nat → Bool
  | [], _ => true
  | _ :: _, [] => false
  | a :: as, b :: bs => a < b || (a == b && unitsLe as bs)

def codeUnitLe (a b : String) : Bool := unitsLe (codeUnits a) (codeUnits b)

def sortStrings (xs : List String) : List String := xs.insertionSort (codeUnitLe · ·)

def utf8 (s : String) : List UInt8 := s.toUTF8.data.toList

variable {c : Char} {s t : String}

theorem splitLast_append {ys before after : List Char}
    (h : splitLast c ys = some (before, after)) (xs : List Char) :
    splitLast c (xs ++ ys) = some (xs ++ before, after) := by
  induction xs with
  | nil => simpa using h
  | cons x xs ih => simp [splitLast, ih]

theorem splitLast_of_not_mem {xs : List Char} (h : c ∉ xs) : splitLast c xs = none := by
  induction xs with
  | nil => rfl
  | cons x xs ih =>
    rw [List.mem_cons, not_or] at h
    simp [splitLast, ih h.2, Ne.symm h.1]

theorem cutLast_append (c : Char) (s t : String) (ht : c ∉ t.toList) :
    cutLast c (s ++ String.ofList [c] ++ t) = some (s, t) := by
  have hsplit : splitLast c ([c] ++ t.toList) = some ([], t.toList) := by
    simp [splitLast, splitLast_of_not_mem ht]
  simp only [cutLast, String.toList_append, String.toList_ofList, List.append_assoc]
  rw [splitLast_append hsplit]
  simp

/-! ## Decimal numbers -/

theorem toString_nat_inj {m n : Nat} (h : toString m = toString n) : m = n := by
  have hl := congrArg String.toList h
  simp only [Nat.toString_eq_repr, Nat.toList_repr] at hl
  simpa using congrArg (Nat.ofDigitChars 10 · 0) hl

theorem isDigit_of_mem_toString {n : Nat} (h : c ∈ (toString n).toList) : c.isDigit := by
  rw [Nat.toString_eq_repr, Nat.toList_repr] at h
  exact Nat.isDigit_of_mem_toDigits (by omega) (by omega) h

theorem toString_int (n : Int) :
    (toString n).toList = if n < 0 then '-' :: (toString n.natAbs).toList
      else (toString n.natAbs).toList := by
  cases n with
  | ofNat m => simp [Int.toString_eq_repr, Int.repr, Nat.toString_eq_repr]
  | negSucc m => simp [Int.toString_eq_repr, Int.repr, Nat.toString_eq_repr]

theorem ne_minus_of_isDigit (h : c.isDigit) : c ≠ '-' := by
  rintro rfl
  exact absurd h (by decide)

theorem toString_int_inj {m n : Int} (h : toString m = toString n) : m = n := by
  have hl := congrArg String.toList h
  have minus_ne : ∀ (k : Nat) (t : List Char), '-' :: t ≠ (toString k).toList := by
    intro k t he
    have hd := isDigit_of_mem_toString (n := k) (he ▸ List.mem_cons_self)
    exact ne_minus_of_isDigit hd rfl
  rw [toString_int, toString_int] at hl
  have habs : ∀ j k : Nat, (toString j).toList = (toString k).toList → j = k := fun j k he =>
    toString_nat_inj (String.toList_inj.mp he)
  split at hl <;> split at hl
  · have := habs _ _ (List.cons.inj hl).2
    omega
  · exact absurd hl (minus_ne _ _)
  · exact absurd hl.symm (minus_ne _ _)
  · have := habs _ _ hl
    omega

theorem mem_toString_int {n : Int} (h : c ∈ (toString n).toList) : c.isDigit ∨ c = '-' := by
  rw [toString_int] at h
  split at h
  · rcases List.mem_cons.mp h with rfl | h
    · exact Or.inr rfl
    · exact Or.inl (isDigit_of_mem_toString h)
  · exact Or.inl (isDigit_of_mem_toString h)

theorem toString_int_ne_nil (n : Int) : (toString n).toList ≠ [] := by
  have hnat : ∀ k : Nat, (toString k).toList ≠ [] := by
    intro k
    rw [Nat.toString_eq_repr, Nat.toList_repr]
    exact Nat.toDigits_ne_nil
  rw [toString_int]
  split
  · simp
  · exact hnat _

theorem utf8_inj (h : utf8 s = utf8 t) : s = t := by
  unfold utf8 at h
  rw [String.toUTF8_eq_toByteArray, String.toUTF8_eq_toByteArray] at h
  exact String.toByteArray_inj.mp (ByteArray.ext (Array.toList_inj.mp h))

theorem unitsOf_inj {c d : Char} {r r' : List Nat} (h : unitsOf c ++ r = unitsOf d ++ r') :
    c = d ∧ r = r' := by
  have valid : ∀ c : Char, c.toNat < 0xd800 ∨ 0xdfff < c.toNat ∧ c.toNat < 0x110000 :=
    fun c => c.valid
  have hc := valid c
  have hd := valid d
  have eq_of_toNat : c.toNat = d.toNat → c = d := Char.toNat_inj.mp
  by_cases hc1 : c.toNat < 0x10000 <;> by_cases hd1 : d.toNat < 0x10000 <;>
    simp only [unitsOf, hc1, hd1, if_true, if_false, List.cons_append, List.nil_append,
      List.cons.injEq] at h
  · exact ⟨eq_of_toNat h.1, h.2⟩
  · omega
  · omega
  · exact ⟨eq_of_toNat (by omega), h.2.2⟩

theorem codeUnits_inj (h : codeUnits s = codeUnits t) : s = t := by
  have unitsOf_ne_nil : ∀ c, unitsOf c ≠ [] := by
    intro c
    unfold unitsOf
    split <;> simp
  have key : ∀ xs ys : List Char, xs.flatMap unitsOf = ys.flatMap unitsOf → xs = ys := by
    intro xs
    induction xs with
    | nil =>
      intro ys hy
      cases ys with
      | nil => rfl
      | cons y ys => exact absurd (List.append_eq_nil_iff.mp hy.symm).1 (unitsOf_ne_nil y)
    | cons x xs ih =>
      intro ys hy
      cases ys with
      | nil => exact absurd (List.append_eq_nil_iff.mp hy).1 (unitsOf_ne_nil x)
      | cons y ys =>
        obtain ⟨rfl, hrest⟩ := unitsOf_inj hy
        rw [ih ys hrest]
  exact String.toList_inj.mp (key _ _ h)

theorem unitsLe_total (xs ys : List Nat) : unitsLe xs ys ∨ unitsLe ys xs := by
  induction xs generalizing ys with
  | nil => exact Or.inl rfl
  | cons x xs ih =>
    cases ys with
    | nil => exact Or.inr rfl
    | cons y ys =>
      have := ih ys
      simp only [unitsLe, Bool.or_eq_true, Bool.and_eq_true, beq_iff_eq, decide_eq_true_eq]
      by_cases hxy : x = y
      · subst hxy
        tauto
      · omega

theorem unitsLe_trans {xs ys zs : List Nat} (h : unitsLe xs ys) (h' : unitsLe ys zs) :
    unitsLe xs zs := by
  induction xs generalizing ys zs with
  | nil => rfl
  | cons x xs ih =>
    cases ys with
    | nil => cases h
    | cons y ys =>
      cases zs with
      | nil => cases h'
      | cons z zs =>
        simp only [unitsLe, Bool.or_eq_true, Bool.and_eq_true, beq_iff_eq, decide_eq_true_eq] at h h' ⊢
        rcases h with h | ⟨rfl, h⟩
        · left
          rcases h' with h' | ⟨rfl, -⟩ <;> omega
        · rcases h' with h' | ⟨rfl, h'⟩
          · exact Or.inl h'
          · exact Or.inr ⟨rfl, ih h h'⟩

theorem unitsLe_antisymm {xs ys : List Nat} (h : unitsLe xs ys) (h' : unitsLe ys xs) : xs = ys := by
  induction xs generalizing ys with
  | nil =>
    cases ys with
    | nil => rfl
    | cons y ys => cases h'
  | cons x xs ih =>
    cases ys with
    | nil => cases h
    | cons y ys =>
      simp only [unitsLe, Bool.or_eq_true, Bool.and_eq_true, beq_iff_eq, decide_eq_true_eq] at h h'
      rcases h with h | ⟨rfl, h⟩
      · rcases h' with h' | ⟨rfl, -⟩ <;> omega
      · rcases h' with h' | ⟨-, h'⟩
        · omega
        · rw [ih h h']

theorem codeUnitLe_antisymm (h : codeUnitLe s t) (h' : codeUnitLe t s) : s = t :=
  codeUnits_inj (unitsLe_antisymm h h')

theorem sortByKey_perm {α : Type} (key : α → String) {xs ys : List α} (h : xs.Perm ys)
    (hkey : ∀ a ∈ xs, ∀ b ∈ xs, key a = key b → a = b) :
    xs.insertionSort (fun a b => codeUnitLe (key a) (key b)) =
      ys.insertionSort (fun a b => codeUnitLe (key a) (key b)) := by
  let r : α → α → Prop := fun a b => codeUnitLe (key a) (key b)
  have total : Std.Total r := ⟨fun a b => unitsLe_total _ _⟩
  have trans : IsTrans α r := ⟨fun a b c => unitsLe_trans⟩
  have hperm : (xs.insertionSort r).Perm (ys.insertionSort r) :=
    (List.perm_insertionSort r xs).trans (h.trans (List.perm_insertionSort r ys).symm)
  refine hperm.eq_of_pairwise ?_ (List.pairwise_insertionSort r xs) (List.pairwise_insertionSort r ys)
  intro a b ha hb hab hba
  rw [List.mem_insertionSort] at ha hb
  exact hkey a ha b (h.mem_iff.mpr hb) (codeUnitLe_antisymm hab hba)

theorem sortStrings_perm {xs ys : List String} (h : xs.Perm ys) : sortStrings xs = sortStrings ys :=
  sortByKey_perm id h fun _ _ _ _ he => he

end EconomyLab.Text
