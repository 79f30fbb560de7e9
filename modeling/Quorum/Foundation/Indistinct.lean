import Quorum.Foundation.Clocked
import Quorum.Foundation.Contract

/-!
# Invocations that cannot tell two storages apart

Two storages are related when they agree on all that an observer may look at. Two invocations
agree under such a relation if, started from related storages, they return related values or fail
alike, and leave related storages. Each combinator has one rule, so that a function agrees with
itself as soon as every entry it reads is among those the relation fixes, and everything it
writes is written alike on both sides.

For a clocked machine whose steps keep the relation, whole runs keep it, and so they do when
calls that the observer does not notice are left out.
-/

namespace Foundation

namespace Contract

variable {E E' S S' A A' B B' : Type}

/-- Both outcomes are values that `V` relates, or both are the same failure. -/
inductive SameOutcome (V : A → A' → Prop) : Except (Failure E) A → Except (Failure E) A' → Prop
  | ok {a : A} {a' : A'} (h : V a a') : SameOutcome V (.ok a) (.ok a')
  | error (f : Failure E) : SameOutcome V (.error f) (.error f)

/-- Outcomes that are the same up to equality are equal. -/
theorem SameOutcome.eq {x y : Except (Failure E) A} (h : SameOutcome Eq x y) : x = y := by
  cases h with
  | ok h => rw [h]
  | error f => rfl

/-- From related storages the two invocations have the same outcome and leave related storages. -/
def Agrees (R : S → S → Prop) (V : A → A' → Prop) (m : Contract E S A) (m' : Contract E S A') :
    Prop :=
  ∀ s s', R s s' → SameOutcome V (m.run s).1 (m'.run s').1 ∧ R (m.run s).2 (m'.run s').2

variable {R : S → S → Prop} {V : A → A' → Prop} {W : B → B' → Prop}

/-- Related values agree. -/
theorem agrees_pure {a : A} {a' : A'} (h : V a a') :
    Agrees R V (pure a : Contract E S A) (pure a') := fun _ _ hR => ⟨.ok h, hR⟩

/-- Returning nothing agrees with returning nothing. -/
theorem agrees_unit (u u' : Unit) : Agrees R Eq (pure u : Contract E S Unit) (pure u') :=
  agrees_pure rfl

/-- A failure agrees with itself. -/
theorem agrees_stop (f : Failure E) : Agrees R V (stop f) (stop f) := fun _ _ hR => ⟨.error f, hR⟩

/-- Sequences agree part by part. -/
theorem Agrees.bind {m : Contract E S A} {m' : Contract E S A'} {f : A → Contract E S B}
    {f' : A' → Contract E S B'} (h : Agrees R V m m')
    (hf : ∀ a a', V a a' → Agrees R W (f a) (f' a')) : Agrees R W (m >>= f) (m' >>= f') := by
  intro s s' hR
  obtain ⟨hsame, hleft⟩ := h s s' hR
  rw [run_bind, run_bind]
  rcases hm : m.run s with ⟨e | a, s₁⟩ <;> rcases hm' : m'.run s' with ⟨e' | a', s₁'⟩ <;>
    rw [hm, hm'] at hsame hleft
  · cases hsame
    exact ⟨.error e, hleft⟩
  · contradiction
  · contradiction
  · cases hsame with
    | ok hV => exact hf a a' hV s₁ s₁' hleft

/-- A first part that returns the same value on both sides. -/
theorem Agrees.bind_eq {m m' : Contract E S A} {f : A → Contract E S B} {f' : A → Contract E S B'}
    (h : Agrees R Eq m m') (hf : ∀ a, Agrees R W (f a) (f' a)) :
    Agrees R W (m >>= f) (m' >>= f') := by
  apply h.bind
  rintro a _ rfl
  exact hf a

/-- The rest may use what the relation says about the storage read. -/
theorem agrees_read_bind {f : S → Contract E S A} {f' : S → Contract E S A'}
    (h : ∀ s s', R s s' → Agrees R V (f s) (f' s')) : Agrees R V (read >>= f) (read >>= f') :=
  fun s s' hR => h s s' hR s s' hR

/-- Writes that keep storages related agree. -/
theorem agrees_write {g g' : S → S} (h : ∀ s s', R s s' → R (g s) (g' s')) :
    Agrees R Eq (write g : Contract E S Unit) (write g') :=
  fun s s' hR => ⟨.ok rfl, h s s' hR⟩

/-- Checks of equivalent conditions agree. -/
theorem agrees_rejectIf {c c' : Prop} [Decidable c] [Decidable c'] (h : c ↔ c') (e : E) :
    Agrees R Eq (rejectIf c e : Contract E S Unit) (rejectIf c' e) := by
  unfold rejectIf
  by_cases hc : c
  · rw [if_pos hc, if_pos (h.mp hc)]
    exact agrees_stop _
  · rw [if_neg hc, if_neg fun hc' => hc (h.mpr hc')]
    exact agrees_unit _ _

/-- A check of what both sides see alike. -/
theorem agrees_rejectIf_bind {c : Prop} [Decidable c] {e : E} {f : Unit → Contract E S B}
    {f' : Unit → Contract E S B'} (h : Agrees R W (f ()) (f' ())) :
    Agrees R W (rejectIf c e >>= f) (rejectIf c e >>= f') :=
  (agrees_rejectIf Iff.rfl e).bind_eq fun _ => h

/-- A demand agrees with itself when what follows does. -/
theorem agrees_demand_bind {c : Prop} [Decidable c] {t : Trap} {f : Unit → Contract E S B}
    {f' : Unit → Contract E S B'} (h : Agrees R W (f ()) (f' ())) :
    Agrees R W (demand c t >>= f) (demand c t >>= f') := by
  have hdemand : Agrees R Eq (demand c t : Contract E S Unit) (demand c t) := by
    unfold demand
    split
    · exact agrees_unit _ _
    · exact agrees_stop _
  exact hdemand.bind_eq fun _ => h

/-- Related optional values agree under the same failure. -/
theorem agrees_orElse {o : Option A} {o' : Option A'} (h : Option.Rel V o o') (f : Failure E) :
    Agrees R V (orElse o f) (orElse o' f) := by
  cases h with
  | some h => exact agrees_pure h
  | none => exact agrees_stop f

/-- Related optional values agree under the same error. -/
theorem agrees_okOr {o : Option A} {o' : Option A'} (h : Option.Rel V o o') (e : E) :
    Agrees R V (okOr o e : Contract E S A) (okOr o' e) := agrees_orElse h _

/-- Related optional values agree under the same trap. -/
theorem agrees_unwrap {o : Option A} {o' : Option A'} (h : Option.Rel V o o') (t : Trap) :
    Agrees R V (unwrap o t : Contract E S A) (unwrap o' t) := agrees_orElse h _

/-- One optional value agrees with itself when what follows does on it. -/
theorem agrees_orElse_bind {o : Option A} {e : Failure E} {f : A → Contract E S B}
    {f' : A → Contract E S B'} (h : ∀ a, o = some a → Agrees R W (f a) (f' a)) :
    Agrees R W (orElse o e >>= f) (orElse o e >>= f') := by
  cases o with
  | none => exact agrees_stop e
  | some a => exact h a rfl

/-- One optional value agrees with itself under an error when what follows does on it. -/
theorem agrees_okOr_bind {o : Option A} {e : E} {f : A → Contract E S B} {f' : A → Contract E S B'}
    (h : ∀ a, o = some a → Agrees R W (f a) (f' a)) :
    Agrees R W (okOr o e >>= f) (okOr o e >>= f') := agrees_orElse_bind h

/-- One optional value agrees with itself under a trap when what follows does on it. -/
theorem agrees_unwrap_bind {o : Option A} {t : Trap} {f : A → Contract E S B}
    {f' : A → Contract E S B'} (h : ∀ a, o = some a → Agrees R W (f a) (f' a)) :
    Agrees R W (unwrap o t >>= f) (unwrap o t >>= f') := agrees_orElse_bind h

/-- A call that works on a part the relation fixes, and puts it back alike. -/
theorem agrees_call {get : S → S'} {set : S' → S → S} (m : Contract E' S' A)
    (hget : ∀ s s', R s s' → get s = get s') (hset : ∀ t s s', R s s' → R (set t s) (set t s')) :
    Agrees R Eq (call get set m : Contract E S A) (call get set m) := by
  intro s s' hR
  unfold Contract.run call
  rw [hget s s' hR]
  rcases m.run (get s') with ⟨f | a, t⟩
  · exact ⟨.error _, hR⟩
  · exact ⟨.ok rfl, hset t s s' hR⟩

/-- A caught call agrees where the callee's storages are equal and are put back alike. -/
theorem agrees_tryCall {get : S → S'} {set : S' → S → S} (m : Contract E' S' A)
    (hget : ∀ s s', R s s' → get s = get s') (hset : ∀ t s s', R s s' → R (set t s) (set t s')) :
    Agrees R Eq (tryCall get set m : Contract E S _) (tryCall get set m) := by
  intro s s' hR
  unfold Contract.run tryCall
  rw [hget s s' hR]
  rcases m.run (get s') with ⟨f | a, t⟩
  · exact ⟨.ok rfl, hR⟩
  · exact ⟨.ok rfl, hset t s s' hR⟩

section Committed

variable {m : Contract E S A} {m' : Contract E S A'} {s s' : S}

/-- From related storages one invocation succeeds exactly when the other does. -/
theorem Agrees.succeeds_iff (h : Agrees R V m m') (hR : R s s') :
    m.Succeeds s ↔ m'.Succeeds s' := by
  obtain ⟨hsame, -⟩ := h s s' hR
  rw [Contract.succeeds_iff, Contract.succeeds_iff]
  generalize (m.run s).1 = outcome at hsame
  generalize (m'.run s').1 = outcome' at hsame
  cases hsame <;> exact Iff.rfl

/-- What the host keeps of two such invocations is related. -/
theorem Agrees.commit (h : Agrees R V m m') (hR : R s s') : R (m.commit s) (m'.commit s') := by
  obtain ⟨hsame, hleft⟩ := h s s' hR
  unfold Contract.commit
  rcases hm : m.run s with ⟨e | a, s₁⟩ <;> rcases hm' : m'.run s' with ⟨e' | a', s₁'⟩ <;>
    rw [hm, hm'] at hsame hleft
  · exact hR
  · contradiction
  · contradiction
  · exact hleft

end Committed

end Contract

namespace Clocked

variable {S C : Type*} {m : Clocked S C}

/-- A relation that each of the calls keeps is kept by the run. -/
theorem run_related {R : S → S → Prop} {calls : List C}
    (h : ∀ c ∈ calls, ∀ s s', R s s' → R (m.step c s) (m.step c s')) {s s' : S} (hR : R s s') :
    R (m.run s calls) (m.run s' calls) := by
  induction calls generalizing s s' with
  | nil => exact hR
  | cons c rest ih =>
    exact ih (fun d hd => h d (List.mem_cons_of_mem c hd)) (h c List.mem_cons_self s s' hR)

/-- A relation that the kept calls preserve when both sides make them, and the others when one
side alone makes them, relates a run to what is left of it without those others. -/
theorem run_purged {R : S → S → Prop} {keep : C → Bool} {calls : List C} {s s' : S}
    (hkept : ∀ first c later, calls = first ++ c :: later → keep c = true →
      ∀ s', R (m.run s first) s' → R (m.step c (m.run s first)) (m.step c s'))
    (hleft : ∀ first c later, calls = first ++ c :: later → keep c = false →
      ∀ s', R (m.run s first) s' → R (m.step c (m.run s first)) s')
    (hR : R s s') : R (m.run s calls) (m.run s' (calls.filter keep)) := by
  induction calls generalizing s s' with
  | nil => exact hR
  | cons c rest ih =>
    have hrest : ∀ first d later, rest = first ++ d :: later → keep d = false →
        ∀ t, R (m.run (m.step c s) first) t → R (m.step d (m.run (m.step c s) first)) t := by
      intro first d later hsplit hd t ht
      exact hleft (c :: first) d later (by rw [hsplit, List.cons_append]) hd t ht
    have hmore : ∀ first d later, rest = first ++ d :: later → keep d = true →
        ∀ t, R (m.run (m.step c s) first) t →
          R (m.step d (m.run (m.step c s) first)) (m.step d t) := by
      intro first d later hsplit hd t ht
      exact hkept (c :: first) d later (by rw [hsplit, List.cons_append]) hd t ht
    rw [run_cons]
    cases hc : keep c with
    | true =>
      rw [List.filter_cons_of_pos hc, run_cons]
      exact ih hmore hrest (hkept [] c rest rfl hc s' hR)
    | false =>
      rw [List.filter_cons_of_neg (by rw [hc]; exact Bool.false_ne_true)]
      exact ih hmore hrest (hleft [] c rest rfl hc s' hR)

end Clocked

end Foundation
