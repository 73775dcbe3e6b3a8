import Mathlib.Data.List.Basic

/-!
# Codes that can be read back

A code is read off the front of a text: two codes that agree with whatever follows them
were written for the same value. What follows may have to start with a stop.
-/

namespace EconomyLab.Foundation

universe u v w

variable {α : Type u} {γ : Type v} {κ : Type w}

/-- The text is empty or starts with a stop. -/
def Ends (stop : γ → Prop) (text : List γ) : Prop := ∀ c ∈ text.head?, stop c

theorem Ends.nil (stop : γ → Prop) : Ends stop ([] : List γ) := by
  simp [Ends]

theorem Ends.cons {stop : γ → Prop} {c : γ} (h : stop c) (text : List γ) : Ends stop (c :: text) := by
  simpa [Ends] using h

/-- Read off the front of a text, the codes of `a` and `b` tell their keys apart. -/
def ToldApart (stop : γ → Prop) (enc : α → List γ) (key : α → κ) (a b : α) : Prop :=
  ∀ r r', Ends stop r → Ends stop r' → enc a ++ r = enc b ++ r' → key a = key b ∧ r = r'

theorem append_stop_inj {stop : γ → Prop} {s s' r r' : List γ} (hs : ∀ c ∈ s, ¬ stop c)
    (hs' : ∀ c ∈ s', ¬ stop c) (hr : Ends stop r) (hr' : Ends stop r') (h : s ++ r = s' ++ r') :
    s = s' ∧ r = r' := by
  induction s generalizing s' with
  | nil =>
    cases s' with
    | nil => exact ⟨rfl, h⟩
    | cons c s' =>
      rw [List.nil_append] at h
      subst h
      exact absurd (hr c rfl) (hs' c List.mem_cons_self)
  | cons c s ih =>
    cases s' with
    | nil =>
      rw [List.nil_append] at h
      subst h
      exact absurd (hr' c rfl) (hs c List.mem_cons_self)
    | cons c' s' =>
      rw [List.cons_append, List.cons_append, List.cons.injEq] at h
      obtain ⟨rfl, h⟩ := h
      have ht := ih (fun x hx => hs x (List.mem_cons_of_mem _ hx))
        (fun x hx => hs' x (List.mem_cons_of_mem _ hx)) h
      exact ⟨congrArg _ ht.1, ht.2⟩

/-- Items between separators, up to a closing symbol, are read back one by one. -/
theorem joined_inj {stop : γ → Prop} {enc : α → List γ} {key : α → κ} {sep close : γ}
    {xs ys : List α} {r r' : List γ} (hsep : stop sep) (hclose : stop close) (hne : sep ≠ close)
    (hstart : ∀ a ∈ xs ++ ys, enc a ≠ [] ∧ ∀ c ∈ (enc a).head?, c ≠ close)
    (hread : ∀ a ∈ xs, ∀ b ∈ ys, ToldApart stop enc key a b)
    (h : [sep].intercalate (xs.map enc) ++ close :: r =
      [sep].intercalate (ys.map enc) ++ close :: r') :
    xs.map key = ys.map key ∧ r = r' := by
  -- a nonempty list of items does not start with the closing symbol
  have open_ne : ∀ (a : α) (as : List α) (t t' : List γ), a ∈ xs ++ ys →
      [sep].intercalate ((a :: as).map enc) ++ t ≠ close :: t' := by
    intro a as t t' ha he
    obtain ⟨hne', hhead⟩ := hstart a ha
    obtain ⟨c, cs, hc⟩ := List.exists_cons_of_ne_nil hne'
    have hcc : c = close := by
      cases as with
      | nil => simpa [hc] using congrArg List.head? he
      | cons b as => simpa [hc] using congrArg List.head? he
    exact hhead c (by simp [hc]) hcc
  induction xs generalizing ys with
  | nil =>
    cases ys with
    | nil => simpa using h
    | cons y ys => exact absurd h.symm (open_ne y ys _ _ (by simp))
  | cons x xs ih =>
    cases ys with
    | nil => exact absurd h (open_ne x xs _ _ (by simp))
    | cons y ys =>
      have hxy := hread x List.mem_cons_self y List.mem_cons_self
      cases xs with
      | nil =>
        cases ys with
        | nil =>
          simp only [List.map_cons, List.map_nil, List.intercalate_singleton] at h
          obtain ⟨hk, ht⟩ := hxy _ _ (Ends.cons hclose _) (Ends.cons hclose _) h
          exact ⟨by simp [hk], (List.cons.inj ht).2⟩
        | cons y' ys =>
          simp only [List.map_cons, List.map_nil, List.intercalate_singleton,
            List.intercalate_cons_cons, List.append_assoc] at h
          obtain ⟨-, ht⟩ := hxy _ _ (Ends.cons hclose _) (Ends.cons hsep _) h
          exact absurd (List.cons.inj ht).1.symm hne
      | cons x' xs =>
        cases ys with
        | nil =>
          simp only [List.map_cons, List.map_nil, List.intercalate_singleton,
            List.intercalate_cons_cons, List.append_assoc] at h
          obtain ⟨-, ht⟩ := hxy _ _ (Ends.cons hsep _) (Ends.cons hclose _) h
          exact absurd (List.cons.inj ht).1 hne
        | cons y' ys =>
          simp only [List.map_cons, List.intercalate_cons_cons, List.append_assoc] at h
          obtain ⟨hk, ht⟩ := hxy _ _ (Ends.cons hsep _) (Ends.cons hsep _) h
          have htail : [sep].intercalate ((x' :: xs).map enc) ++ close :: r =
              [sep].intercalate ((y' :: ys).map enc) ++ close :: r' := by
            simpa using (List.cons.inj ht).2
          obtain ⟨hks, hr⟩ := ih (fun a ha => hstart a (by simp at ha ⊢; tauto))
            (fun a ha b hb => hread a (List.mem_cons_of_mem _ ha) b (List.mem_cons_of_mem _ hb))
            htail (fun a as t t' ha => open_ne a as t t' (by simp at ha ⊢; tauto))
          exact ⟨congrArg₂ List.cons hk hks, hr⟩

theorem map_eq_of_map_eq {α β γ δ : Type*} {f : α → β} {f' : γ → β} {g : α → δ} {g' : γ → δ} {xs : List α}
    {ys : List γ} (h : xs.map f = ys.map f')
    (hsame : ∀ x ∈ xs, ∀ y ∈ ys, f x = f' y → g x = g' y) : xs.map g = ys.map g' := by
  induction xs generalizing ys with
  | nil =>
    cases ys with
    | nil => rfl
    | cons y ys => cases h
  | cons x xs ih =>
    cases ys with
    | nil => cases h
    | cons y ys =>
      obtain ⟨hhead, htail⟩ := List.cons.inj h
      have hfirst := hsame x List.mem_cons_self y List.mem_cons_self hhead
      have hrest := ih htail fun a ha b hb =>
        hsame a (List.mem_cons_of_mem _ ha) b (List.mem_cons_of_mem _ hb)
      rw [List.map_cons, List.map_cons, hfirst, hrest]

theorem splitOn_joined {γ : Type*} [DecidableEq γ] (sep : γ) {xs : List (List γ)} (h : xs ≠ []) :
    ([sep].intercalate xs).splitOn sep = xs.flatMap (List.splitOn sep) := by
  induction xs with
  | nil => exact absurd rfl h
  | cons x xs ih =>
    cases xs with
    | nil => simp only [List.intercalate_singleton, List.flatMap_cons, List.flatMap_nil, List.append_nil]
    | cons y ys =>
      have hcut := List.splitOn_append_cons_of_beq x ([sep].intercalate (y :: ys)) (beq_self_eq_true sep)
      simp only [List.intercalate_cons_cons, List.append_assoc, List.singleton_append]
      exact hcut.trans (congrArg (List.splitOn sep x ++ ·) (ih (List.cons_ne_nil y ys)))

end EconomyLab.Foundation
