import EconomyLab.Operations.Subscribe

/-!
# Entitlements

Ownership granted and taken back by hand. No money moves.
-/

namespace EconomyLab

open Foundation

def assertIdentified (userId sku : String) : Except Fault Unit :=
  if isBlank userId then
    .error (fault .malformedOperation "entitlement operation names a blank userId.")
  else if isBlank sku then .error (fault .malformedOperation "entitlement operation names a blank sku.")
  else .ok ()

def assertAttrs (attrs : Option EntitlementAttributes) : Except Fault Unit :=
  if (attrs.bind EntitlementAttributes.quantity) = some 0 then
    .error (fault .malformedOperation "entitlement attrs.quantity must be a positive integer.")
  else .ok ()

def EMPTY_ATTRS : EntitlementAttributes := ⟨none, none, none, none⟩

def grantEntitlement (env : Env) (operation : GrantEntitlementOperation) : Work Outcome := do
  Work.lift (assertIdentified operation.userId operation.sku)
  Work.lift (assertAttrs operation.attrs)
  Work.entitlement (.grant operation.userId operation.sku (operation.attrs.getD EMPTY_ATTRS))
  let transaction ← lifecycleMarker env
  return .committed transaction

/-- A row that expires is owned up to and at that time; the clock is read for such rows only. -/
def owns (env : Env) (userId sku : String) : Work Bool := do
  let row ← Work.read (fun w => .ok (w.entitlements.rows.get (entitlementKey userId sku))) fun _ => rfl
  match row with
  | none => return false
  | some row =>
    if row.revoked then return false
    else
      match row.attrs.expiresAt with
      | none => return true
      | some expiresAt => do
        let now ← Work.now env
        return now ≤ expiresAt

def revokeEntitlement (env : Env) (operation : RevokeEntitlementOperation) : Work Outcome := do
  Work.lift (assertIdentified operation.userId operation.sku)
  let owned ← owns env operation.userId operation.sku
  if !owned then return .rejected (.notEntitled operation.userId operation.sku)
  else do
    Work.entitlement (.revoke operation.userId operation.sku)
    let transaction ← lifecycleMarker env
    return .committed transaction

theorem lifecycleMarker_guarded (env : Env) (s : Watch) :
    Work.Guarded s (lifecycleMarker env) fun _ s' => s' = s := by
  apply Work.Guarded.step fun _ => rfl
  intro txnId
  apply Work.Guarded.step fun _ => rfl
  exact fun postedAt => .pure rfl

theorem owns_guarded (env : Env) (userId sku : String) (s : Watch) :
    Work.Guarded s (owns env userId sku) fun _ s' => s' = s := by
  apply Work.Guarded.step fun _ => rfl
  intro row
  cases row with
  | none => exact .pure rfl
  | some row =>
    simp only
    split
    · exact .pure rfl
    · split
      · exact .pure rfl
      · apply Work.Guarded.step fun _ => rfl
        exact fun now => .pure rfl

theorem grantEntitlement_staysOn (env : Env) (operation : GrantEntitlementOperation) :
    StaysOn [] (grantEntitlement env operation) := by
  apply Work.Guarded.step fun _ => rfl
  intro _
  apply Work.Guarded.step fun _ => rfl
  intro _
  apply Work.Guarded.step fun _ => rfl
  intro _
  apply (lifecycleMarker_guarded env _).bind
  rintro transaction s rfl
  exact .pure ⟨calm_committed transaction, rfl⟩

theorem revokeEntitlement_staysOn (env : Env) (operation : RevokeEntitlementOperation) :
    StaysOn [] (revokeEntitlement env operation) := by
  apply Work.Guarded.step fun _ => rfl
  intro _
  apply (owns_guarded env _ _ _).bind
  rintro owned s rfl
  split
  · exact .pure ⟨nofun, rfl⟩
  · apply Work.Guarded.step fun _ => rfl
    intro _
    apply (lifecycleMarker_guarded env _).bind
    rintro transaction s rfl
    exact .pure ⟨calm_committed transaction, rfl⟩

end EconomyLab
