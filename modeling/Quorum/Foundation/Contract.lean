import Mathlib.Data.Prod.Basic
import Mathlib.Order.Basic

/-!
# Contract invocations

A contract function runs against the storage of the contracts it can reach. It returns a
value, refuses with one of its own error codes, or traps in the host. The writes made before
a failure are kept in the outcome, so that whether a refusal wrote anything is a statement
about the function itself; `commit` is the host's rule that a failed invocation is rolled
back.

`Returns` describes the successful outcomes of a program built from the combinators below,
`Succeeds` says that there is one, `Refuses` describes the failing ones, and `Fails` says that the
outcome is a failure of some kind. Each combinator has one rule for each.
-/

namespace Foundation

/-- Host failures that are not error codes of the contract. -/
inductive Trap where
  /-- A required authorization is missing. -/
  | auth
  /-- An unchecked machine operation left its range. -/
  | arithmetic
  /-- A storage entry that must exist was unwrapped and is absent. -/
  | missing
  /-- A call into another contract failed. -/
  | call
deriving DecidableEq

/-- A failed invocation: an error code of the contract, or a trap. -/
inductive Failure (E : Type) where
  | error (e : E)
  | trap (t : Trap)
deriving DecidableEq

/-- The failure is one of the given error codes. -/
def Failure.IsOneOf {E : Type} (codes : List E) : Failure E → Prop
  | .error e => e ∈ codes
  | .trap _ => False

/-- An error is one of the codes exactly when it is listed. -/
@[simp] theorem Failure.isOneOf_error {E : Type} {codes : List E} {e : E} :
    (Failure.error e).IsOneOf codes ↔ e ∈ codes := Iff.rfl

/-- A trap is none of the codes. -/
@[simp] theorem Failure.isOneOf_trap {E : Type} {codes : List E} {t : Trap} :
    (Failure.trap t : Failure E).IsOneOf codes ↔ False := Iff.rfl

/-- A contract function over the storage `S`, with error codes `E`. -/
def Contract (E S A : Type) := S → Except (Failure E) A × S

namespace Contract

variable {E E' S S' A B : Type}

/-- The outcome of an invocation, with the storage as the function left it. -/
def run (m : Contract E S A) (s : S) : Except (Failure E) A × S := m s

/-- Sequencing stops at the first failure. -/
instance : Monad (Contract E S) where
  pure a := fun s => (.ok a, s)
  bind m f := fun s =>
    match m s with
    | (.ok a, s') => f a s'
    | (.error e, s') => (.error e, s')

/-- The current storage. -/
def read : Contract E S S := fun s => (.ok s, s)

/-- Replace the storage by a function of it. -/
def write (f : S → S) : Contract E S Unit := fun s => (.ok (), f s)

/-- Stop with a failure. -/
def stop (f : Failure E) : Contract E S A := fun s => (.error f, s)

/-- Return the given error code when the condition holds. -/
def rejectIf (c : Prop) [Decidable c] (e : E) : Contract E S Unit :=
  if c then stop (.error e) else pure ()

/-- Trap unless the condition holds. -/
def demand (c : Prop) [Decidable c] (t : Trap) : Contract E S Unit :=
  if c then pure () else stop (.trap t)

/-- The value of an option, or the given failure. -/
def orElse (o : Option A) (f : Failure E) : Contract E S A :=
  match o with
  | some a => pure a
  | none => stop f

/-- The value of an option, or the given error code. -/
def okOr (o : Option A) (e : E) : Contract E S A := orElse o (.error e)

/-- The value of an option, or a trap. -/
def unwrap (o : Option A) (t : Trap) : Contract E S A := orElse o (.trap t)

/-- A call into another contract, whose storage is the part of the caller's that `get` and `set`
describe. The host undoes the writes of a failed call and reports the failure. -/
def tryCall (get : S → S') (set : S' → S → S) (m : Contract E' S' A) :
    Contract E S (Except (Failure E') A) := fun s =>
  match m.run (get s) with
  | (.ok a, s') => (.ok (.ok a), set s' s)
  | (.error f, _) => (.ok (.error f), s)

/-- A call into another contract whose failure is a trap of the caller. -/
def call (get : S → S') (set : S' → S → S) (m : Contract E' S' A) : Contract E S A := fun s =>
  match m.run (get s) with
  | (.ok a, s') => (.ok a, set s' s)
  | (.error _, _) => (.error (.trap .call), s)

/-- A part of an invocation that works on a part of the storage, which `get` and `set` describe. -/
def zoom (get : S → S') (set : S' → S → S) (m : Contract E S' A) : Contract E S A := fun s =>
  ((m.run (get s)).1, set (m.run (get s)).2 s)

/-- The host keeps the writes of a successful invocation and undoes those of a failed one. -/
def commit (m : Contract E S A) (s : S) : S :=
  match m.run s with
  | (.ok _, s') => s'
  | (.error _, _) => s

/-- The invocation succeeds with value `a` and leaves the storage `s'`. -/
def Returns (m : Contract E S A) (s : S) (a : A) (s' : S) : Prop := m.run s = (.ok a, s')

/-- The invocation succeeds. -/
def Succeeds (m : Contract E S A) (s : S) : Prop := ∃ a s', m.Returns s a s'

/-- Whenever the invocation fails, the failure satisfies `P` and nothing has been written. -/
def Refuses (P : Failure E → Prop) (m : Contract E S A) (s : S) : Prop :=
  ∀ f s', m.run s = (.error f, s') → P f ∧ s' = s

/-- The invocation fails, and the failure satisfies `P`. -/
def Fails (P : Failure E → Prop) (m : Contract E S A) (s : S) : Prop :=
  ∃ f, (m.run s).1 = .error f ∧ P f

/-! ## Running the combinators -/

/-- Running `pure` returns its value and leaves the state. -/
@[simp] theorem run_pure (a : A) (s : S) : (pure a : Contract E S A).run s = (.ok a, s) := rfl

/-- Running a sequence runs the first part and, if that returned, the second on what it left. -/
theorem run_bind (m : Contract E S A) (f : A → Contract E S B) (s : S) :
    (m >>= f).run s =
      match m.run s with
      | (.ok a, s') => (f a).run s'
      | (.error e, s') => (.error e, s') := rfl

/-- After a successful first part the second part decides the outcome. -/
theorem Returns.run_bind {m : Contract E S A} {s s' : S} {a : A} (h : m.Returns s a s')
    (f : A → Contract E S B) : (m >>= f).run s = (f a).run s' := by
  rw [Contract.run_bind, h]

/-- A read hands the whole state to what follows. -/
@[simp] theorem run_read_bind (f : S → Contract E S A) (s : S) :
    (read >>= f).run s = (f s).run s := rfl

/-- A write replaces the state and returns. -/
@[simp] theorem run_write (f : S → S) (s : S) :
    (write f : Contract E S Unit).run s = (.ok (), f s) := rfl

/-- A stop fails and leaves the state. -/
@[simp] theorem run_stop (f : Failure E) (s : S) :
    (stop f : Contract E S A).run s = (.error f, s) := rfl

/-- Nothing runs after a stop. -/
@[simp] theorem run_stop_bind (e : Failure E) (f : A → Contract E S B) (s : S) :
    (stop e >>= f).run s = (.error e, s) := rfl

/-- A check either stops with its error or lets the rest run. -/
@[simp] theorem run_rejectIf_bind (c : Prop) [Decidable c] (e : E)
    (f : Unit → Contract E S A) (s : S) :
    (rejectIf c e >>= f).run s = if c then (.error (.error e), s) else (f ()).run s := by
  by_cases h : c <;> simp only [rejectIf, h, if_true, if_false] <;> rfl

/-- A demand either lets the rest run or traps. -/
@[simp] theorem run_demand_bind (c : Prop) [Decidable c] (t : Trap)
    (f : Unit → Contract E S A) (s : S) :
    (demand c t >>= f).run s = if c then (f ()).run s else (.error (.trap t), s) := by
  by_cases h : c <;> simp only [demand, h, if_true, if_false] <;> rfl

/-- Binding a value runs what follows on it. -/
theorem pure_bind_eq (a : A) (f : A → Contract E S B) :
    (pure a : Contract E S A) >>= f = f a := rfl

/-- A stop followed by anything is the stop. -/
theorem stop_bind_eq (e : Failure E) (f : A → Contract E S B) :
    (stop e : Contract E S A) >>= f = stop e := rfl

/-- Demands of equivalent conditions are the same. -/
theorem demand_congr {c c' : Prop} [Decidable c] [Decidable c'] (h : c ↔ c') (t : Trap) :
    (demand c t : Contract E S Unit) = demand c' t := by
  unfold demand
  by_cases hc : c
  · rw [if_pos hc, if_pos (h.mp hc)]
  · rw [if_neg hc, if_neg fun hc' => hc (h.mpr hc')]

/-- Unwrapping a present value hands it on. -/
@[simp] theorem run_unwrap_some_bind (a : A) (t : Trap) (f : A → Contract E S B) (s : S) :
    (unwrap (some a) t >>= f).run s = (f a).run s := rfl

/-! ## Successful outcomes -/

section Returns

variable {s s' : S} {a : A} {b : B}

/-- `pure` returns its value in the state it found. -/
@[simp] theorem returns_pure_iff {a' : A} :
    (pure a : Contract E S A).Returns s a' s' ↔ a = a' ∧ s = s' := by
  simp [Returns]

/-- A sequence succeeds exactly when both parts do, one after the other. -/
theorem returns_bind_iff {m : Contract E S A} {f : A → Contract E S B} :
    (m >>= f).Returns s b s' ↔ ∃ a s₁, m.Returns s a s₁ ∧ (f a).Returns s₁ b s' := by
  simp only [Returns, run_bind]
  rcases h : m.run s with ⟨e | a, s₁⟩
  · simp
  · constructor
    · exact fun hf => ⟨a, s₁, rfl, hf⟩
    · rintro ⟨a', s₂, heq, hf⟩
      obtain ⟨rfl, rfl⟩ : a = a' ∧ s₁ = s₂ := by simpa using heq
      exact hf

/-- Two returning parts in sequence return. -/
theorem Returns.bind {m : Contract E S A} {f : A → Contract E S B} {s₁ : S}
    (hm : m.Returns s a s₁) (hf : (f a).Returns s₁ b s') : (m >>= f).Returns s b s' :=
  returns_bind_iff.mpr ⟨a, s₁, hm, hf⟩

/-- A read and its continuation return when the continuation does on the state. -/
@[simp] theorem returns_read_bind_iff {f : S → Contract E S B} :
    (read >>= f).Returns s b s' ↔ (f s).Returns s b s' := Iff.rfl

/-- A write returns with the state it makes. -/
@[simp] theorem returns_write_iff {f : S → S} {u : Unit} :
    (write f : Contract E S Unit).Returns s u s' ↔ f s = s' := by
  simp [Returns]

/-- After a write the rest returns from the state it made. -/
@[simp] theorem returns_write_bind_iff {g : S → S} {f : Unit → Contract E S B} :
    (write g >>= f).Returns s b s' ↔ (f ()).Returns (g s) b s' := Iff.rfl

/-- A stop never returns. -/
@[simp] theorem returns_stop_iff {f : Failure E} :
    (stop f : Contract E S A).Returns s a s' ↔ False := by
  simp [Returns]

/-- A check returns exactly when its condition is false and the rest returns. -/
@[simp] theorem returns_rejectIf_bind_iff {c : Prop} [Decidable c] {e : E}
    {f : Unit → Contract E S B} :
    (rejectIf c e >>= f).Returns s b s' ↔ ¬ c ∧ (f ()).Returns s b s' := by
  by_cases h : c <;> simp [Returns, h]

/-- A check alone returns exactly when its condition is false, and leaves the state. -/
@[simp] theorem returns_rejectIf_iff {c : Prop} [Decidable c] {e : E} {u : Unit} :
    (rejectIf c e : Contract E S Unit).Returns s u s' ↔ ¬ c ∧ s = s' := by
  by_cases h : c <;> simp [Returns, rejectIf, h]

/-- A demand returns exactly when its condition is true and the rest returns. -/
@[simp] theorem returns_demand_bind_iff {c : Prop} [Decidable c] {t : Trap}
    {f : Unit → Contract E S B} :
    (demand c t >>= f).Returns s b s' ↔ c ∧ (f ()).Returns s b s' := by
  by_cases h : c <;> simp [Returns, h]

/-- An optional value or a failure returns exactly when the value is there and the rest returns on
it. -/
theorem returns_orElse_bind_iff {o : Option A} {e : Failure E} {f : A → Contract E S B} :
    (orElse o e >>= f).Returns s b s' ↔ ∃ a, o = some a ∧ (f a).Returns s b s' := by
  cases o with
  | none => simp [orElse, Returns]
  | some a =>
    simp only [Option.some.injEq, exists_eq_left']
    exact Iff.rfl

/-- An optional value or an error returns exactly when the value is there and the rest returns on
it. -/
@[simp] theorem returns_okOr_bind_iff {o : Option A} {e : E} {f : A → Contract E S B} :
    (okOr o e >>= f).Returns s b s' ↔ ∃ a, o = some a ∧ (f a).Returns s b s' :=
  returns_orElse_bind_iff

/-- An unwrapped value returns exactly when it is there and the rest returns on it. -/
@[simp] theorem returns_unwrap_bind_iff {o : Option A} {t : Trap} {f : A → Contract E S B} :
    (unwrap o t >>= f).Returns s b s' ↔ ∃ a, o = some a ∧ (f a).Returns s b s' :=
  returns_orElse_bind_iff

/-- An optional value or an error alone returns the value that is there, and leaves the state. -/
@[simp] theorem returns_okOr_iff {o : Option A} {e : E} :
    (okOr o e : Contract E S A).Returns s a s' ↔ o = some a ∧ s = s' := by
  cases o <;> simp [okOr, orElse]

/-- Unwrapping alone returns the value that is there, and leaves the state. -/
@[simp] theorem returns_unwrap_iff {o : Option A} {t : Trap} :
    (unwrap o t : Contract E S A).Returns s a s' ↔ o = some a ∧ s = s' := by
  cases o <;> simp [unwrap, orElse]

/-- A call returns exactly when the called contract does, which then has made its writes. -/
theorem returns_call_iff {get : S → S'} {set : S' → S → S} {m : Contract E' S' A} :
    (call get set m : Contract E S A).Returns s a s' ↔
      ∃ t, m.Returns (get s) a t ∧ set t s = s' := by
  unfold Returns Contract.run call Contract.run
  rcases m (get s) with ⟨f | b, t⟩
  · simp
  · simp only [Prod.mk.injEq, Except.ok.injEq]
    constructor
    · rintro ⟨rfl, rfl⟩
      exact ⟨t, ⟨rfl, rfl⟩, rfl⟩
    · rintro ⟨t', ⟨rfl, rfl⟩, rfl⟩
      exact ⟨rfl, rfl⟩

/-- A call of another contract returns exactly when that contract's operation does, and the rest
runs beside the storage it left. -/
theorem returns_call_bind_iff {get : S → S'} {set : S' → S → S} {m : Contract E' S' A}
    {f : A → Contract E S B} :
    (call get set m >>= f).Returns s b s' ↔
      ∃ a t, m.Returns (get s) a t ∧ (f a).Returns (set t s) b s' := by
  rw [returns_bind_iff]
  constructor
  · rintro ⟨a, s₁, hcall, hf⟩
    obtain ⟨t, ht, rfl⟩ := returns_call_iff.mp hcall
    exact ⟨a, t, ht, hf⟩
  · rintro ⟨a, t, ht, hf⟩
    exact ⟨a, _, returns_call_iff.mpr ⟨t, ht, rfl⟩, hf⟩

/-- A tried call always returns: the called contract's result with its writes, or its failure
without any. -/
theorem returns_tryCall_iff {get : S → S'} {set : S' → S → S} {m : Contract E' S' A}
    {r : Except (Failure E') A} :
    (tryCall get set m : Contract E S _).Returns s r s' ↔
      (∃ a t, m.Returns (get s) a t ∧ r = .ok a ∧ set t s = s') ∨
        ∃ f t, m.run (get s) = (.error f, t) ∧ r = .error f ∧ s = s' := by
  unfold Returns Contract.run tryCall Contract.run
  rcases m (get s) with ⟨f | b, t⟩
  · simp [eq_comm]
  · simp only [Prod.mk.injEq, Except.ok.injEq, reduceCtorEq, false_and, exists_false, or_false]
    constructor
    · rintro ⟨rfl, rfl⟩
      exact ⟨b, t, ⟨rfl, rfl⟩, rfl, rfl⟩
    · rintro ⟨a, t', ⟨rfl, rfl⟩, rfl, rfl⟩
      exact ⟨rfl, rfl⟩

/-- Running an operation on a part of the state runs it there and puts the part back. -/
theorem run_zoom (get : S → S') (set : S' → S → S) (m : Contract E S' A) (s : S) :
    (zoom get set m).run s = ((m.run (get s)).1, set (m.run (get s)).2 s) := rfl

/-- Working on a part returns what the work does and puts the part back. -/
theorem returns_zoom_iff {get : S → S'} {set : S' → S → S} {m : Contract E S' A} :
    (zoom get set m).Returns s a s' ↔ ∃ t, m.Returns (get s) a t ∧ set t s = s' := by
  unfold Returns
  rw [run_zoom]
  constructor
  · intro h
    rw [Prod.mk.injEq] at h
    exact ⟨_, Prod.ext h.1 rfl, h.2⟩
  · rintro ⟨t, hm, rfl⟩
    rw [hm]

/-- Parts worked on one after the other are worked on together. -/
theorem zoom_bind {get : S → S'} {set : S' → S → S} (hget : ∀ t s, get (set t s) = t)
    (hset : ∀ t t' s, set t' (set t s) = set t' s) (m : Contract E S' A)
    (f : A → Contract E S' B) :
    zoom get set (m >>= f) = zoom get set m >>= fun a => zoom get set (f a) := by
  funext s
  change (zoom get set (m >>= f)).run s = (zoom get set m >>= fun a => zoom get set (f a)).run s
  rw [run_zoom, run_bind, run_bind, run_zoom]
  rcases m.run (get s) with ⟨e | a, t⟩
  · rfl
  · simp only [run_zoom, hget, hset]

/-- A view of the storage that each part moves on by a step moves on by all the steps of the parts,
one after the other. -/
theorem returns_forM {W V : Type} {op : W → Contract E S Unit} {view : S → V} (next : V → W → V)
    (hop : ∀ w s s', (op w).Returns s () s' → view s' = next (view s) w) {ws : List W} {u : Unit}
    (h : (ws.forM op).Returns s u s') : view s' = ws.foldl next (view s) := by
  induction ws generalizing s with
  | nil => exact congrArg view (returns_pure_iff.mp h).2.symm
  | cons w ws ih =>
    obtain ⟨_, s₁, hfirst, hrest⟩ := returns_bind_iff.mp h
    rw [List.foldl_cons, ← hop w s s₁ hfirst]
    exact ih hrest

/-- The committed storage of a successful invocation is the one it leaves. -/
theorem Returns.commit_eq {m : Contract E S A} (h : m.Returns s a s') : m.commit s = s' := by
  rw [Contract.commit, h]

/-- Committing an invocation either applies a success or changes nothing. -/
theorem commit_cases (m : Contract E S A) (s : S) :
    (∃ a s', m.Returns s a s' ∧ m.commit s = s') ∨ m.commit s = s := by
  rcases h : m.run s with ⟨e | a, s'⟩
  · exact .inr (by rw [Contract.commit, h])
  · exact .inl ⟨a, s', h, by rw [Contract.commit, h]⟩

end Returns

/-! ## Success -/

section Succeeds

variable {s s' : S} {a : A}

/-- A sequence succeeds if its second part does where the first one ends. -/
theorem Returns.succeeds_bind {m : Contract E S A} {f : A → Contract E S B}
    (h : m.Returns s a s') (hf : (f a).Succeeds s') : (m >>= f).Succeeds s := by
  obtain ⟨b, s₂, hb⟩ := hf
  exact ⟨b, s₂, h.bind hb⟩

/-- So does one whose first part succeeds and whose second part always does. -/
theorem Succeeds.bind {m : Contract E S A} {f : A → Contract E S B} (h : m.Succeeds s)
    (hf : ∀ a s', (f a).Succeeds s') : (m >>= f).Succeeds s := by
  obtain ⟨a, s₁, ha⟩ := h
  exact ha.succeeds_bind (hf a s₁)

/-- `pure` always succeeds. -/
@[simp] theorem succeeds_pure_iff : (pure a : Contract E S A).Succeeds s ↔ True :=
  iff_true_intro ⟨a, s, rfl⟩

/-- A read and its continuation succeed when the continuation does on the state. -/
@[simp] theorem succeeds_read_bind_iff {f : S → Contract E S A} :
    (read >>= f).Succeeds s ↔ (f s).Succeeds s := Iff.rfl

/-- A write always succeeds. -/
@[simp] theorem succeeds_write_iff {g : S → S} :
    (write g : Contract E S Unit).Succeeds s ↔ True := iff_true_intro ⟨(), g s, rfl⟩

/-- A check and the rest succeed exactly when its condition is false and the rest does. -/
@[simp] theorem succeeds_rejectIf_bind_iff {c : Prop} [Decidable c] {e : E}
    {f : Unit → Contract E S A} : (rejectIf c e >>= f).Succeeds s ↔ ¬ c ∧ (f ()).Succeeds s := by
  simp only [Succeeds, returns_rejectIf_bind_iff, exists_and_left]

/-- A demand and the rest succeed exactly when its condition is true and the rest does. -/
@[simp] theorem succeeds_demand_bind_iff {c : Prop} [Decidable c] {t : Trap}
    {f : Unit → Contract E S A} : (demand c t >>= f).Succeeds s ↔ c ∧ (f ()).Succeeds s := by
  simp only [Succeeds, returns_demand_bind_iff, exists_and_left]

/-- An optional value or a failure succeeds exactly when the value is there and the rest does on
it. -/
theorem succeeds_orElse_bind_iff {o : Option A} {e : Failure E} {f : A → Contract E S B} :
    (orElse o e >>= f).Succeeds s ↔ ∃ a, o = some a ∧ (f a).Succeeds s := by
  cases o with
  | none => simp [orElse, Succeeds, Returns]
  | some a =>
    simp only [Option.some.injEq, exists_eq_left']
    exact Iff.rfl

/-- An optional value or an error succeeds exactly when the value is there and the rest does on
it. -/
@[simp] theorem succeeds_okOr_bind_iff {o : Option A} {e : E} {f : A → Contract E S B} :
    (okOr o e >>= f).Succeeds s ↔ ∃ a, o = some a ∧ (f a).Succeeds s := succeeds_orElse_bind_iff

/-- Unwrapping succeeds exactly when the value is there and the rest does on it. -/
@[simp] theorem succeeds_unwrap_bind_iff {o : Option A} {t : Trap} {f : A → Contract E S B} :
    (unwrap o t >>= f).Succeeds s ↔ ∃ a, o = some a ∧ (f a).Succeeds s := succeeds_orElse_bind_iff

/-- A read succeeds with its continuation. -/
theorem succeeds_read_bind {f : S → Contract E S A} (h : (f s).Succeeds s) :
    (read >>= f).Succeeds s := succeeds_read_bind_iff.mpr h

/-- Unwrapping a value that is there succeeds with its continuation. -/
theorem succeeds_unwrap_bind {o : Option A} {t : Trap} {f : A → Contract E S B} (ho : o = some a)
    (hf : (f a).Succeeds s) : (unwrap o t >>= f).Succeeds s :=
  succeeds_unwrap_bind_iff.mpr ⟨a, ho, hf⟩

/-- An optional value that is there succeeds with its continuation. -/
theorem succeeds_okOr_bind {o : Option A} {e : E} {f : A → Contract E S B} (ho : o = some a)
    (hf : (f a).Succeeds s) : (okOr o e >>= f).Succeeds s := succeeds_okOr_bind_iff.mpr ⟨a, ho, hf⟩

/-- A check whose condition is false succeeds with its continuation. -/
theorem succeeds_rejectIf_bind {c : Prop} [Decidable c] {e : E} {f : Unit → Contract E S A}
    (hc : ¬ c) (hf : (f ()).Succeeds s) : (rejectIf c e >>= f).Succeeds s :=
  succeeds_rejectIf_bind_iff.mpr ⟨hc, hf⟩

/-- A sequence succeeds exactly when both parts do, one after the other. -/
theorem succeeds_bind_iff {m : Contract E S A} {f : A → Contract E S B} :
    (m >>= f).Succeeds s ↔ ∃ a s', m.Returns s a s' ∧ (f a).Succeeds s' := by
  constructor
  · rintro ⟨b, s₂, h⟩
    obtain ⟨a, s₁, hm, hf⟩ := returns_bind_iff.mp h
    exact ⟨a, s₁, hm, b, s₂, hf⟩
  · rintro ⟨a, s₁, hm, hf⟩
    exact hm.succeeds_bind hf

/-- After a successful first part the second part decides. -/
theorem Returns.succeeds_bind_iff {m : Contract E S A} {f : A → Contract E S B}
    (h : m.Returns s a s') : (m >>= f).Succeeds s ↔ (f a).Succeeds s' := by
  rw [Succeeds, Succeeds]
  simp only [Returns, h.run_bind]

/-- Whether an invocation succeeds can be computed. -/
theorem succeeds_iff {m : Contract E S A} : m.Succeeds s ↔ (m.run s).1.isOk = true := by
  unfold Succeeds Returns
  rcases m.run s with ⟨f | a, s'⟩
  · simp [Except.isOk, Except.toBool]
  · simp [Except.isOk, Except.toBool]

instance Succeeds.decidable {m : Contract E S A} : Decidable (m.Succeeds s) :=
  decidable_of_iff _ succeeds_iff.symm

/-- What succeeds does not fail. -/
theorem Succeeds.run_ne_error {m : Contract E S A} (h : m.Succeeds s) (f : Failure E) (s' : S) :
    m.run s ≠ (.error f, s') := by
  obtain ⟨a, s₁, hret⟩ := h
  rw [hret]
  simp

end Succeeds

/-! ## Refusals -/

section Refuses

variable {P : Failure E → Prop} {s : S}

/-- An invocation that succeeds refuses nothing. -/
theorem Succeeds.refuses {m : Contract E S A} (h : m.Succeeds s) : m.Refuses P s :=
  fun f s' hrun => absurd hrun (h.run_ne_error f s')

/-- A sequence whose second part always succeeds refuses only what the first part refuses. -/
theorem Refuses.bind {m : Contract E S A} {f : A → Contract E S B} (h : m.Refuses P s)
    (hf : ∀ a s', m.Returns s a s' → (f a).Succeeds s') : (m >>= f).Refuses P s := by
  intro e s' hrun
  rw [run_bind] at hrun
  rcases hm : m.run s with ⟨e' | a, s₁⟩
  · rw [hm] at hrun
    obtain ⟨rfl, rfl⟩ : e' = e ∧ s₁ = s' := by simpa using hrun
    exact h e' s₁ hm
  · rw [hm] at hrun
    exact absurd hrun ((hf a s₁ hm).run_ne_error e s')

/-- A read and its continuation refuse as the continuation does. -/
theorem refuses_read_bind {f : S → Contract E S A} (h : (f s).Refuses P s) :
    (read >>= f).Refuses P s := h

/-- A check refuses when its error is excused and the rest refuses where the check passes. -/
theorem refuses_rejectIf_bind {c : Prop} [Decidable c] {e : E} {f : Unit → Contract E S A}
    (hreject : c → P (.error e)) (hf : ¬ c → (f ()).Refuses P s) :
    (rejectIf c e >>= f).Refuses P s := by
  intro e' s' hrun
  rw [run_rejectIf_bind] at hrun
  split at hrun <;> rename_i h
  · obtain ⟨rfl, rfl⟩ : .error e = e' ∧ s = s' := by simpa using hrun
    exact ⟨hreject h, rfl⟩
  · exact hf h e' s' hrun

/-- A demand refuses when its trap is excused and the rest refuses where the demand is met. -/
theorem refuses_demand_bind {c : Prop} [Decidable c] {t : Trap} {f : Unit → Contract E S A}
    (htrap : ¬ c → P (.trap t)) (hf : c → (f ()).Refuses P s) :
    (demand c t >>= f).Refuses P s := by
  intro e' s' hrun
  rw [run_demand_bind] at hrun
  split at hrun <;> rename_i h
  · exact hf h e' s' hrun
  · obtain ⟨rfl, rfl⟩ : .trap t = e' ∧ s = s' := by simpa using hrun
    exact ⟨htrap h, rfl⟩

/-- An optional value or a failure refuses when the failure is excused and the rest refuses on every
value that is there. -/
theorem refuses_orElse_bind {o : Option A} {e : Failure E} {f : A → Contract E S B}
    (hnone : o = none → P e) (hf : ∀ a, o = some a → (f a).Refuses P s) :
    (orElse o e >>= f).Refuses P s := by
  cases o with
  | none =>
    intro e' s' hrun
    obtain ⟨rfl, rfl⟩ : e = e' ∧ s = s' := by simpa [orElse] using hrun
    exact ⟨hnone rfl, rfl⟩
  | some a => exact hf a rfl

/-- An optional value or an error refuses when the error is excused and the rest refuses on every
value that is there. -/
theorem refuses_okOr_bind {o : Option A} {e : E} {f : A → Contract E S B}
    (hnone : o = none → P (.error e)) (hf : ∀ a, o = some a → (f a).Refuses P s) :
    (okOr o e >>= f).Refuses P s := refuses_orElse_bind hnone hf

/-- With the value there, an optional value or an error refuses as the rest does. -/
theorem refuses_okOr_bind_of_some {o : Option A} {e : E} {f : A → Contract E S B} {a : A}
    (ho : o = some a) (hf : (f a).Refuses P s) : (okOr o e >>= f).Refuses P s := by
  subst ho
  exact hf

/-- With the value there, unwrapping refuses as the rest does. -/
theorem refuses_unwrap_bind_of_some {o : Option A} {t : Trap} {f : A → Contract E S B} {a : A}
    (ho : o = some a) (hf : (f a).Refuses P s) : (unwrap o t >>= f).Refuses P s := by
  subst ho
  exact hf

/-- Refusals for one reason are refusals for any weaker one. -/
theorem Refuses.mono {Q : Failure E → Prop} {m : Contract E S A} (h : m.Refuses P s)
    (hPQ : ∀ f, P f → Q f) : m.Refuses Q s :=
  fun f s' hrun => ⟨hPQ f (h f s' hrun).1, (h f s' hrun).2⟩

end Refuses

/-! ## Failures of one kind -/

section Fails

variable {P : Failure E → Prop} {s s' : S} {a : A}

/-- `pure` never fails. -/
@[simp] theorem fails_pure_iff : (pure a : Contract E S A).Fails P s ↔ False := by
  simp [Fails]

/-- A write never fails. -/
@[simp] theorem fails_write_iff {f : S → S} :
    (write f : Contract E S Unit).Fails P s ↔ False := by
  simp [Fails]

/-- A sequence fails in its first part, or in its second part where the first one ends. -/
theorem fails_bind_iff {m : Contract E S A} {f : A → Contract E S B} :
    (m >>= f).Fails P s ↔ m.Fails P s ∨ ∃ a s', m.Returns s a s' ∧ (f a).Fails P s' := by
  unfold Fails Returns
  rw [run_bind]
  rcases m.run s with ⟨e | a, s'⟩
  · simp
  · simp only [reduceCtorEq, false_and, exists_false, Prod.mk.injEq, Except.ok.injEq, false_or]
    constructor
    · exact fun h => ⟨a, s', ⟨rfl, rfl⟩, h⟩
    · rintro ⟨_, _, ⟨rfl, rfl⟩, h⟩
      exact h

/-- After a successful first part the second part decides. -/
theorem Returns.fails_bind_iff {m : Contract E S A} {f : A → Contract E S B}
    (h : m.Returns s a s') : (m >>= f).Fails P s ↔ (f a).Fails P s' := by
  rw [Fails, h.run_bind, Fails]

/-- A read and its continuation fail as the continuation does on the state. -/
@[simp] theorem fails_read_bind_iff {f : S → Contract E S A} :
    (read >>= f).Fails P s ↔ (f s).Fails P s := Iff.rfl

/-- A check fails with its error where its condition is true, and else as the rest does. -/
@[simp] theorem fails_rejectIf_bind_iff {c : Prop} [Decidable c] {e : E}
    {f : Unit → Contract E S A} :
    (rejectIf c e >>= f).Fails P s ↔ c ∧ P (.error e) ∨ ¬ c ∧ (f ()).Fails P s := by
  by_cases h : c <;> simp [Fails, h]

/-- A check for a failure in question fails there or later. -/
theorem fails_check_bind_iff {c : Prop} [Decidable c] {e : E} {f : Unit → Contract E S A}
    (he : P (.error e)) : (rejectIf c e >>= f).Fails P s ↔ c ∨ (f ()).Fails P s := by
  by_cases h : c <;> simp [h, he]

/-- A check with a listed error fails with a listed error where its condition is true or the rest
does. -/
theorem fails_listed_bind_iff {codes : List E} {c : Prop} [Decidable c] {e : E}
    {f : Unit → Contract E S A} (he : e ∈ codes) :
    (rejectIf c e >>= f).Fails (Failure.IsOneOf codes) s ↔
      c ∨ (f ()).Fails (Failure.IsOneOf codes) s := fails_check_bind_iff he

/-- A check that passes is no failure. -/
theorem fails_passed_bind_iff {c : Prop} [Decidable c] {e : E} {f : Unit → Contract E S A}
    (hc : ¬ c) : (rejectIf c e >>= f).Fails P s ↔ (f ()).Fails P s := by
  simp [hc]

/-- A demand traps where its condition is false, and else fails as the rest does. -/
@[simp] theorem fails_demand_bind_iff {c : Prop} [Decidable c] {t : Trap}
    {f : Unit → Contract E S A} :
    (demand c t >>= f).Fails P s ↔ ¬ c ∧ P (.trap t) ∨ c ∧ (f ()).Fails P s := by
  by_cases h : c <;> simp [Fails, h]

/-- An optional value or a failure fails so where the value is absent, and else as the rest does on
it. -/
theorem fails_orElse_bind_iff {o : Option A} {e : Failure E} {f : A → Contract E S B} :
    (orElse o e >>= f).Fails P s ↔ o = none ∧ P e ∨ ∃ a, o = some a ∧ (f a).Fails P s := by
  cases o with
  | none => simp [orElse, Fails]
  | some a =>
    simp only [reduceCtorEq, false_and, Option.some.injEq, exists_eq_left', false_or]
    exact Iff.rfl

/-- An optional value or an error fails so where the value is absent, and else as the rest does on
it. -/
@[simp] theorem fails_okOr_bind_iff {o : Option A} {e : E} {f : A → Contract E S B} :
    (okOr o e >>= f).Fails P s ↔
      o = none ∧ P (.error e) ∨ ∃ a, o = some a ∧ (f a).Fails P s := fails_orElse_bind_iff

/-- Unwrapping traps where the value is absent, and else fails as the rest does on it. -/
@[simp] theorem fails_unwrap_bind_iff {o : Option A} {t : Trap} {f : A → Contract E S B} :
    (unwrap o t >>= f).Fails P s ↔
      o = none ∧ P (.trap t) ∨ ∃ a, o = some a ∧ (f a).Fails P s := fails_orElse_bind_iff

/-- A call into another contract fails only by the trap of the call. -/
theorem Fails.of_call {get : S → S'} {set : S' → S → S} {m : Contract E' S' A}
    (h : (call get set m : Contract E S A).Fails P s) : P (.trap .call) := by
  obtain ⟨f, hrun, hf⟩ := h
  unfold Contract.run call Contract.run at hrun
  rcases hm : m (get s) with ⟨e | b, t⟩
  · rw [hm] at hrun
    obtain rfl : .trap .call = f := by simpa using hrun
    exact hf
  · rw [hm] at hrun
    contradiction

/-- A call that fails is one of an invocation that does not succeed. -/
theorem Fails.not_succeeds_of_call {get : S → S'} {set : S' → S → S} {m : Contract E' S' A}
    (h : (call get set m : Contract E S A).Fails P s) : ¬ m.Succeeds (get s) := by
  rintro ⟨a, t, hret⟩
  obtain ⟨f, hrun, -⟩ := h
  have hcall : (call get set m : Contract E S A).run s = (.ok a, set t s) := by
    unfold Contract.run call
    rw [show m.run (get s) = (.ok a, t) from hret]
  rw [hcall] at hrun
  contradiction

/-- An invocation that returns does not fail. -/
theorem Succeeds.not_fails {m : Contract E S A} (h : m.Succeeds s) : ¬ m.Fails P s := by
  obtain ⟨a, s', hret⟩ := h
  simp [Fails, show m.run s = (.ok a, s') from hret]

end Fails

end Contract

end Foundation
