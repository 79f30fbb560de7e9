import Quorum.Token.Coherence

/-!
# The stake boost

A stake adds `amount * remaining / maxLockLedgers` to its owner's voting power, where
`remaining` counts the ledgers up to the unlock ledger. The contract splits the division so that
no intermediate product leaves the range of its type; the split computation never traps and
gives the same quotient.
-/

namespace Quorum.Token

open Foundation Contract

variable {s : Storage} {now ledger : ℕ}

/-- The lock, provided it holds an amount. -/
def held (lock : Option Lock) : Option Lock := lock.filter fun lock => decide (0 < lock.amount.val)

/-- The boost that a stake state gives at a ledger. -/
def boostOf (stake : Option Lock) (ledger : ℕ) : ℤ :=
  match stake with
  | none => 0
  | some lock =>
    if lock.unlockLedger ≤ ledger then 0
    else lock.amount.val * (lock.unlockLedger - ledger) / maxLockLedgers

/-- The current lock is the last one, if it is held. -/
theorem currentLock_eq (locks : List Lock) : currentLock locks = held locks.getLast? := by
  unfold currentLock held
  split <;> rename_i h
  · rw [List.length_eq_zero_iff.mp h]
    rfl
  · rw [List.getLast?_eq_getElem?]

/-- The split quotient is the quotient of the product, and no step of it traps. -/
theorem splitBoost_eq (amount remaining : I128) (hamount : 0 ≤ amount.val)
    (hremaining : 0 ≤ remaining.val) (hle : remaining.val ≤ maxLockLedgers) :
    ∃ boost, splitBoost amount remaining = some boost ∧
      boost.val = amount.val * remaining.val / maxLockLedgers := by
  have hscale : boostScale.val = 6307200 := rfl
  have hmin := I128.minI128_nonpos
  have hmax : (6307200 : ℤ) * 6307200 ≤ maxI128 := by decide
  have hamountle := amount.upper
  have hle : remaining.val ≤ 6307200 := hle
  have hsplit := Int.mul_ediv_add_emod amount.val 6307200
  have hwhole : 0 ≤ amount.val / 6307200 := Int.ediv_nonneg hamount (by norm_num)
  have hpart : 0 ≤ amount.val % 6307200 := Int.emod_nonneg _ (by norm_num)
  have hpartlt : amount.val % 6307200 < 6307200 := Int.emod_lt_of_pos _ (by norm_num)
  have hwholemul : amount.val / 6307200 * remaining.val ≤ amount.val / 6307200 * 6307200 :=
    Int.mul_le_mul_of_nonneg_left hle hwhole
  have hpartmul : amount.val % 6307200 * remaining.val ≤ amount.val % 6307200 * 6307200 :=
    Int.mul_le_mul_of_nonneg_left hle hpart
  have hwholenonneg := Int.mul_nonneg hwhole hremaining
  have hpartnonneg := Int.mul_nonneg hpart hremaining
  have hquotient : amount.val % 6307200 * remaining.val / 6307200 ≤ amount.val % 6307200 :=
    Int.ediv_le_of_le_mul (by norm_num) hpartmul
  have hquotientnonneg : 0 ≤ amount.val % 6307200 * remaining.val / 6307200 :=
    Int.ediv_nonneg hpartnonneg (by norm_num)
  have heq : amount.val * remaining.val / 6307200 =
      amount.val / 6307200 * remaining.val + amount.val % 6307200 * remaining.val / 6307200 := by
    conv_lhs => rw [← hsplit]
    rw [show (6307200 * (amount.val / 6307200) + amount.val % 6307200) * remaining.val =
        amount.val % 6307200 * remaining.val + 6307200 * (amount.val / 6307200 * remaining.val) by
      ring, Int.add_mul_ediv_left _ _ (by norm_num), add_comm]
  obtain ⟨q, hq, hqval⟩ := I128.exists_ofInt? (x := amount.val / 6307200) (by omega) (by omega)
  obtain ⟨w, hw, hwval⟩ := I128.exists_ofInt? (x := q.val * remaining.val)
    (by rw [hqval]; omega) (by rw [hqval]; omega)
  obtain ⟨m, hm, hmval⟩ := I128.exists_ofInt? (x := amount.val % 6307200) (by omega) (by omega)
  obtain ⟨p, hp, hpval⟩ := I128.exists_ofInt? (x := m.val * remaining.val)
    (by rw [hmval]; omega) (by rw [hmval]; omega)
  obtain ⟨r, hr, hrval⟩ := I128.exists_ofInt? (x := p.val / 6307200)
    (by rw [hpval, hmval]; omega) (by rw [hpval, hmval]; omega)
  obtain ⟨b, hb, hbval⟩ := I128.exists_ofInt? (x := w.val + r.val)
    (by rw [hwval, hrval, hpval, hmval, hqval]; omega)
    (by rw [hwval, hrval, hpval, hmval, hqval]; omega)
  refine ⟨b, ?_, ?_⟩
  · have hdiv : amount.checkedDiv boostScale = some q := by
      rw [I128.checkedDiv, hscale, if_neg (by norm_num), Int.tdiv_eq_ediv_of_nonneg hamount, hq]
    have hrem : amount.checkedRem boostScale = some m := by
      rw [I128.checkedRem, hscale, if_neg (by norm_num), Int.tmod_eq_emod_of_nonneg hamount, hm]
    have hpartdiv : p.checkedDiv boostScale = some r := by
      rw [I128.checkedDiv, hscale, if_neg (by norm_num), Int.tdiv_eq_ediv_of_nonneg
        (by rw [hpval, hmval]; exact hpartnonneg), hr]
    have hmul : q.checkedMul remaining = some w := hw
    have hpartmul : m.checkedMul remaining = some p := hp
    have hsum : w.checkedAdd r = some b := hb
    simp only [splitBoost, hdiv, hrem, hmul, hpartmul, hpartdiv, hsum, Option.bind_eq_bind,
      Option.bind_some]
  · rw [hbval, hwval, hrval, hpval, hmval, hqval, ← heq]
    rfl

/-- The boost that `lockBoost` computes for a lock which still runs. -/
def runningBoost (lock : Lock) (ledger : ℕ) : Option I128 :=
  (I128.ofInt? (lock.unlockLedger - ledger)).bind (splitBoost lock.amount)

/-- For a lock that still runs, and has not been taken for longer than the scale, no step of the
computation leaves its range and the result is the floored quotient. -/
theorem runningBoost_eq {lock : Lock} (hnonneg : 0 ≤ lock.amount.val)
    (hlive : ledger < lock.unlockLedger) (hbounded : lock.unlockLedger ≤ ledger + maxLockLedgers) :
    ∃ remaining boost : I128, I128.ofInt? (lock.unlockLedger - ledger) = some remaining ∧
      remaining.val = lock.unlockLedger - ledger ∧ splitBoost lock.amount remaining = some boost ∧
      boost.val = boostOf (some lock) ledger := by
  have hmax : (maxLockLedgers : ℤ) ≤ maxI128 := by decide
  have hmin := I128.minI128_nonpos
  obtain ⟨remaining, hremaining, hval⟩ := I128.exists_ofInt?
    (x := (lock.unlockLedger : ℤ) - ledger) (by omega) (by omega)
  obtain ⟨boost, hboost, hboostval⟩ := splitBoost_eq lock.amount remaining hnonneg
    (by omega) (by omega)
  refine ⟨remaining, boost, hremaining, hval, hboost, ?_⟩
  rw [hboostval, hval, boostOf, if_neg (by omega)]

/-- The boost of a coherent token never traps, and is that of the newest lock before the
ledger. -/
theorem lockBoost_returns (hc : Coherent now s) (owner : Address) (ledger : ℕ) :
    ∃ boost, (lockBoost owner ledger).Returns s boost s ∧
      boost.val = boostOf (held (newestBefore Lock.ledger ledger (locks s owner))) ledger := by
  have hfind : lockBefore (locks s owner) ledger =
      newestBefore Lock.ledger ledger (locks s owner) := (hc.locks owner).newestWhere_eq
  simp only [lockBoost, returns_read_bind_iff, hfind]
  cases hlock : newestBefore Lock.ledger ledger (locks s owner) with
  | none => exact ⟨0, rfl, rfl⟩
  | some lock =>
    obtain ⟨hmem, hledger⟩ := newestBefore_some hlock
    obtain ⟨hbounded, hnonneg⟩ := hc.locks_bounded owner lock hmem
    by_cases hpos : 0 < lock.amount.val
    · have hheld : held (some lock) = some lock := by simp [held, hpos]
      rw [hheld]
      by_cases hexpired : lock.unlockLedger ≤ ledger
      · refine ⟨0, ?_, ?_⟩
        · simp [hexpired]
        · simp [boostOf, hexpired]
      · obtain ⟨remaining, boost, hremaining, -, hboost, hval⟩ :=
          runningBoost_eq hnonneg (not_le.mp hexpired) (by omega)
        refine ⟨boost, ?_, hval⟩
        simp only [show ¬ (lock.amount.val ≤ 0 ∨ lock.unlockLedger ≤ ledger) by omega, if_false,
          hremaining, hboost, returns_unwrap_bind_iff, Option.some.injEq, exists_eq_left']
        rfl
    · have hheld : held (some lock) = none := by
        rw [held, Option.filter_some, if_neg (by simpa using hpos)]
      rw [hheld]
      refine ⟨0, ?_, rfl⟩
      simp [Int.not_lt.mp hpos]

/-- A boost is never negative. -/
theorem boostOf_nonneg {stake : Option Lock} (h : ∀ lock ∈ stake, 0 ≤ lock.amount.val)
    (ledger : ℕ) : 0 ≤ boostOf stake ledger := by
  unfold boostOf
  split
  · exact le_rfl
  · rename_i lock
    split <;> rename_i hexpired
    · exact le_rfl
    · exact Int.ediv_nonneg (Int.mul_nonneg (h lock rfl) (by omega)) (by decide)

/-- A boost fades as the ledgers go by. -/
theorem boostOf_antitone {lock : Lock} (hnonneg : 0 ≤ lock.amount.val) {L L' : ℕ} (hle : L ≤ L') :
    boostOf (some lock) L' ≤ boostOf (some lock) L := by
  have hsome : ∀ held ∈ some lock, 0 ≤ held.amount.val := by simpa using hnonneg
  by_cases hexpired : lock.unlockLedger ≤ L'
  · have hzero : boostOf (some lock) L' = 0 := if_pos hexpired
    rw [hzero]
    exact boostOf_nonneg hsome L
  · rw [boostOf, boostOf, if_neg hexpired, if_neg (by omega)]
    apply Int.ediv_le_ediv (by decide)
    exact Int.mul_le_mul_of_nonneg_left (by omega) hnonneg

end Quorum.Token
