import Mathlib.Data.List.Basic

/-!
# Programs that may stop

A program changes its state as it goes. It returns a value or stops with an error, and where it
stops the state stays as it was left. A triple says what holds at either end.
-/

namespace EconomyLab.Foundation.Programs

variable {ε σ α β : Type}

/-- From a state with `P` the program returns in `Q` or stops in `F`. -/
def Triple (P : σ → Prop) (m : EStateM ε σ α) (Q : α → σ → Prop) (F : σ → Prop) : Prop :=
  ∀ s, P s → match m.run s with
    | .ok a s' => Q a s'
    | .error _ s' => F s'

/-- The program keeps `I`, whether it returns or stops. -/
def Stays (I : σ → Prop) (m : EStateM ε σ α) : Prop := Triple I m (fun _ => I) I

def answer (reply : Except ε α) : EStateM ε σ α :=
  match reply with
  | .ok a => pure a
  | .error e => throw e

/-- A program for each item in order, told the item's place. -/
def each (f : Nat → α → EStateM ε σ Unit) : Nat → List α → EStateM ε σ Unit
  | _, [] => pure ()
  | k, a :: rest => do
    f k a
    each f (k + 1) rest

/-- The items for which the program said `true`. -/
def sift (f : Nat → α → EStateM ε σ Bool) : Nat → List α → EStateM ε σ (List α)
  | _, [] => pure []
  | k, a :: rest => do
    let kept ← f k a
    let others ← sift f (k + 1) rest
    pure (if kept then a :: others else others)

namespace Triple

variable {P : σ → Prop} {Q : α → σ → Prop} {R : β → σ → Prop} {F : σ → Prop} {m : EStateM ε σ α}
  {f : α → EStateM ε σ β}

theorem pure {a : α} (h : ∀ s, P s → Q a s) : Triple P (Pure.pure a : EStateM ε σ α) Q F :=
  fun s hs => h s hs

theorem throw {e : ε} (h : ∀ s, P s → F s) : Triple P (MonadExcept.throw e : EStateM ε σ α) Q F :=
  fun s hs => h s hs

theorem modify {g : σ → σ} {Q : Unit → σ → Prop} (h : ∀ s, P s → Q () (g s)) :
    Triple P (modify g : EStateM ε σ Unit) Q F :=
  fun s hs => h s hs

theorem bind (hm : Triple P m Q F) (hf : ∀ a, Triple (Q a) (f a) R F) : Triple P (m >>= f) R F := by
  intro s hs
  have hfirst := hm s hs
  change match EStateM.bind m f s with
    | .ok b s' => R b s'
    | .error _ s' => F s'
  unfold EStateM.bind
  unfold EStateM.run at hfirst
  cases hrun : m s with
  | ok a s' =>
    rw [hrun] at hfirst
    exact hf a s' hfirst
  | error e s' =>
    rw [hrun] at hfirst
    exact hfirst

theorem get_bind {f : σ → EStateM ε σ β} (hf : ∀ s, P s → Triple (fun s' => s' = s) (f s) R F) :
    Triple P (get >>= f) R F :=
  fun s hs => hf s hs s rfl

theorem answer {reply : Except ε α} (hok : ∀ a, reply = .ok a → ∀ s, P s → Q a s)
    (herror : ∀ e, reply = .error e → ∀ s, P s → F s) : Triple P (Programs.answer reply) Q F := by
  cases reply with
  | ok a => exact pure (hok a rfl)
  | error e => exact throw (herror e rfl)

theorem mono {P' : σ → Prop} {Q' : α → σ → Prop} {F' : σ → Prop} (h : Triple P m Q F)
    (hP : ∀ s, P' s → P s) (hQ : ∀ a s, Q a s → Q' a s) (hF : ∀ s, F s → F' s) : Triple P' m Q' F' := by
  intro s hs
  have hrun := h s (hP s hs)
  cases hend : m.run s with
  | ok a s' =>
    rw [hend] at hrun
    exact hQ a s' hrun
  | error e s' =>
    rw [hend] at hrun
    exact hF s' hrun

theorem of_fact {fact : Prop} (h : fact → Triple P m Q F) : Triple (fun s => fact ∧ P s) m Q F :=
  fun s hs => h hs.1 s hs.2

theorem each {I : List α → σ → Prop} {f : Nat → α → EStateM ε σ Unit} {items : List α}
    (h : ∀ done a rest, items = done ++ a :: rest →
      Triple (I done) (f done.length a) (fun _ => I (done ++ [a])) F) :
    Triple (I []) (each f 0 items) (fun _ => I items) F := by
  have hfrom : ∀ rest done, items = done ++ rest →
      Triple (I done) (Programs.each f done.length rest) (fun _ => I items) F := by
    intro rest
    induction rest with
    | nil =>
      intro done hsplit
      rw [hsplit, List.append_nil]
      exact pure fun _ hs => hs
    | cons a rest ih =>
      intro done hsplit
      have hrest := ih (done ++ [a]) (by rw [hsplit, List.append_assoc, List.singleton_append])
      rw [List.length_append] at hrest
      exact bind (h done a rest hsplit) fun _ => hrest
  exact hfrom items [] rfl

theorem sift {I : List α → σ → Prop} {keep : α → Bool} {f : Nat → α → EStateM ε σ Bool} {items : List α}
    (h : ∀ done a rest, items = done ++ a :: rest →
      Triple (I done) (f done.length a) (fun kept s => kept = keep a ∧ I (done ++ [a]) s) F) :
    Triple (I []) (sift f 0 items) (fun kept s => kept = items.filter keep ∧ I items s) F := by
  have hfrom : ∀ rest done, items = done ++ rest → Triple (I done) (Programs.sift f done.length rest)
      (fun kept s => kept = rest.filter keep ∧ I items s) F := by
    intro rest
    induction rest with
    | nil =>
      intro done hsplit
      rw [hsplit, List.append_nil]
      exact pure fun _ hs => ⟨rfl, hs⟩
    | cons a rest ih =>
      intro done hsplit
      have hrest := ih (done ++ [a]) (by rw [hsplit, List.append_assoc, List.singleton_append])
      rw [List.length_append] at hrest
      refine bind (h done a rest hsplit) fun kept => ?_
      intro s hs
      obtain ⟨hkept, hs⟩ := hs
      refine (bind hrest fun others => pure fun s' hs' => ?_) s hs
      obtain ⟨hothers, hs'⟩ := hs'
      refine ⟨?_, hs'⟩
      rw [List.filter_cons, hkept, hothers]
  exact hfrom items [] rfl

end Triple

namespace Stays

variable {I : σ → Prop} {m : EStateM ε σ α} {f : α → EStateM ε σ β}

theorem pure (a : α) : Stays I (Pure.pure a : EStateM ε σ α) := Triple.pure fun _ hs => hs

theorem bind (hm : Stays I m) (hf : ∀ a, Stays I (f a)) : Stays I (m >>= f) := Triple.bind hm hf

theorem get_bind {f : σ → EStateM ε σ β} (hf : ∀ s, I s → Stays I (f s)) : Stays I (get >>= f) :=
  fun s hs => hf s hs s hs

theorem modify {g : σ → σ} (h : ∀ s, I s → I (g s)) : Stays I (modify g : EStateM ε σ Unit) :=
  Triple.modify h

theorem answer (reply : Except ε α) : Stays I (Programs.answer reply) :=
  Triple.answer (fun _ _ _ hs => hs) fun _ _ _ hs => hs

theorem ite {p : Prop} [Decidable p] {m' : EStateM ε σ α} (h : Stays I m) (h' : Stays I m') :
    Stays I (if p then m else m') := by
  split
  · exact h
  · exact h'

theorem each {f : Nat → α → EStateM ε σ Unit} {items : List α} (h : ∀ k a, Stays I (f k a)) :
    Stays I (each f 0 items) :=
  @Triple.each ε σ α I (fun _ => I) f items fun done a _ _ => h done.length a

end Stays

end EconomyLab.Foundation.Programs
