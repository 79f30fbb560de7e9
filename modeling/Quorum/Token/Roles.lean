import Quorum.Foundation.Handover
import Quorum.Token.Conservation

/-!
# Who administers the token

The admin of the token changes only when the nominee of the admin in force accepts. Each call makes
one of the moves of a hand-over, or none.
-/

namespace Quorum.Token

open Foundation Contract

variable {s s' : Storage} {env : Env}

/-- The move of an accepted call in the hand-over of the admin's role. -/
def Call.adminMove : Call → Move Address
  | .transferAdmin newAdmin => .offered newAdmin
  | .cancelAdminTransfer => .withdrawn
  | .acceptAdmin => .taken
  | _ => .idle

/-- The move of an invocation; a refused one makes none. -/
def adminMove (i : Invocation) (s : Storage) : Move Address :=
  if accepted i s then i.call.adminMove else .idle

/-- What leaves the entries beside the balances moves no admin. -/
theorem Aside.makes {authorizes : Address → Prop} (h : Aside s s') :
    Move.Makes authorizes s.admin s.pendingAdmin .idle s'.admin s'.pendingAdmin :=
  Move.makes_idle h.pendingAdmin fun _ ha => h.admin.trans ha

/-- An accepted call makes the move of the admin that belongs to it. -/
theorem Outcome.makes {c : Call} (h : Outcome env s c s') :
    Move.Makes (fun a => env.auth a = true) s.admin s.pendingAdmin c.adminMove s'.admin
      s'.pendingAdmin := by
  cases h with
  | initialized hnone _ _ _ hcredit =>
    refine Move.makes_idle hcredit.aside.pendingAdmin fun a ha => ?_
    rw [hnone] at ha
    contradiction
  | transferred _ _ h => exact h.aside.makes
  | transferredFrom _ _ _ _ h => exact h.aside.makes
  | burned _ _ h => exact h.aside.makes
  | burnedFrom _ _ _ _ h => exact h.aside.makes
  | minted _ _ _ _ _ hcredit => exact hcredit.aside.makes
  | nominated hadmin hauth => exact .offered hadmin hauth
  | accepted hpending hauth => exact .taken hpending hauth
  | withdrawn hadmin hauth => exact .withdrawn hadmin hauth
  | _ => exact .idle fun _ ha => ha

/-- The admin's role is handed over in two moves. -/
theorem handover : Handover machine adminMove (fun i a => i.env.auth a = true) Storage.admin
    Storage.pendingAdmin := by
  intro i s
  unfold adminMove
  obtain ⟨hacc, u, hret⟩ | ⟨hacc, hsame⟩ := accepted_cases i s
  · rw [if_pos hacc]
    exact (invoke_outcome hret).makes
  · rw [hsame, if_neg (by simp [hacc])]
    exact .idle fun _ ha => ha

/-- A call takes the admin's role exactly when it is an accepted `accept_admin`. -/
theorem adminMove_eq_taken {i : Invocation} :
    adminMove i s = .taken ↔ accepted i s = true ∧ i.call = .acceptAdmin := by
  unfold adminMove Call.adminMove
  by_cases hacc : accepted i s = true
  · rw [if_pos hacc]
    split <;> simp_all
  · rw [if_neg hacc]
    simp [hacc]

end Quorum.Token
