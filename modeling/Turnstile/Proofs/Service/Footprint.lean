import Turnstile.Proofs.Service.Tokens
import Turnstile.Proofs.Store.Memory
import Turnstile.Service.Accounts

/-! Services that only look at the store: whatever checks a token or a permission writes nothing. -/

namespace Turnstile

open Program

/-- A call that looks, or drops an entry past its deadline when it looks. -/
def Call.Looks (d : Call) : Prop :=
  MemoryStore.Reads d ∨ d.method = .isRevoked

theorem Call.Looks.method_ne_revoke {d : Call} (h : d.Looks) : d.method ≠ .revoke := by
  rcases h with hreads | hmethod
  · cases d with
    | revoke => exact hreads.elim
    | _ => nofun
  · rw [hmethod]
    nofun

namespace Codec

variable {c : Codec}

theorem looks_loadPrincipal (userId email : String) :
    (loadPrincipal userId email).CallsOnly Call.Looks :=
  .bind ⟨.inl trivial, fun _ => trivial⟩ fun _ => trivial

theorem looks_checkRefresh (token : String) : (c.checkRefresh token).CallsOnly Call.Looks := by
  refine (callsOnly_checkRefresh token).mono fun d hd => .inl ?_
  cases d with
  | findByUser => trivial
  | _ => cases hd

theorem looks_tokenData (token : String) : (c.tokenData token).CallsOnly Call.Looks :=
  CallsOnly.bind (p := now) (fun _ => trivial) fun _ => trivial

theorem looks_checkAccess (token : String) : (c.checkAccess token).CallsOnly Call.Looks := by
  refine (looks_tokenData token).bind fun claims => .bind ⟨.inr rfl, fun _ => trivial⟩ fun b => ?_
  cases b <;> trivial

private theorem looks_someRoleGrants (resource method : String) (names : List String) :
    (someRoleGrants resource method names).CallsOnly Call.Looks := by
  induction names with
  | nil => trivial
  | cons name names ih =>
    refine .bind ⟨.inl trivial, fun _ => trivial⟩ fun found => ?_
    split
    · exact ih
    · split_ifs
      · trivial
      · exact ih

theorem looks_requirePermission (token resource method : String) :
    (c.requirePermission token resource method).CallsOnly Call.Looks := by
  refine (looks_checkAccess token).bind fun claims => .bind ?_ fun b => ?_
  · unfold claimsPermit
    split_ifs
    · trivial
    · exact looks_someRoleGrants resource method _
  · cases b <;> trivial

theorem looks_checkPermission (token resource method : String) :
    (c.checkPermission token resource method).CallsOnly Call.Looks := by
  refine (looks_requirePermission token resource method).attempt.bind fun r => ?_
  split <;> trivial

theorem looks_confirmPermission (token resource method : String) :
    (c.confirmPermission token resource method).CallsOnly Call.Looks :=
  (looks_requirePermission token resource method).bind fun _ => trivial

theorem looks_describeCaller (claims : AccessClaims) :
    (describeCaller claims).CallsOnly Call.Looks := by
  have hkeys : (effectivePermissions claims.roles).CallsOnly Call.Looks :=
    .bind ⟨.inl trivial, fun _ => trivial⟩ fun _ => trivial
  exact hkeys.bind fun _ => trivial

end Codec

end Turnstile
