import Mathlib.Data.List.Basic

/-! Code that raises. A function body is a `do` block of `Except`; `raiseIf` is a
guarded `RAISE EXCEPTION`, and an exception block matches on the result. -/

namespace Raise

variable {ε α β : Type}

def raiseIf (p : Prop) [Decidable p] (e : ε) : Except ε Unit :=
  if p then .error e else .ok ()

theorem raiseIf_eq_ok {p : Prop} [Decidable p] {e : ε} {u : Unit} :
    raiseIf p e = .ok u ↔ ¬ p := by
  unfold raiseIf
  by_cases hp : p
  · simp [hp]
  · simp [hp]

theorem exists_of_isOk {x : Except ε α} (h : x.isOk = true) : ∃ v, x = .ok v := by
  cases x with
  | error e => cases h
  | ok v => exact ⟨v, rfl⟩

theorem isOk_raiseIf_bind {p : Prop} [Decidable p] {e : ε} {k : Unit → Except ε α} :
    (raiseIf p e >>= k).isOk = (!decide p && (k ()).isOk) := by
  unfold raiseIf
  by_cases hp : p
  · simp only [if_pos hp, decide_eq_true hp]
    rfl
  · simp only [if_neg hp, decide_eq_false hp]
    rfl

/-- A sequence returns when its first part does and the rest returns on that value. -/
theorem bind_eq_ok {x : Except ε α} {k : α → Except ε β} {r : β} :
    (x >>= k) = .ok r ↔ ∃ v, x = .ok v ∧ k v = .ok r := by
  constructor
  · intro h
    cases x with
    | error e => exact absurd h (by simp [bind, Except.bind])
    | ok v => exact ⟨v, rfl, h⟩
  · rintro ⟨v, rfl, hk⟩
    exact hk

/-- Whatever the code returns meets `Q`. -/
def Returns (Q : α → Prop) (x : Except ε α) : Prop :=
  ∀ v, x = .ok v → Q v

section Returns

variable {Q : α → Prop} {P : β → Prop}

theorem returns_ok {v : α} (h : Q v) : Returns Q (.ok v : Except ε α) := by
  rintro w ⟨⟩
  exact h

theorem returns_pure {v : α} (h : Q v) : Returns Q (pure v : Except ε α) :=
  returns_ok h

theorem returns_error (e : ε) : Returns Q (.error e) := by
  intro v h
  cases h

/-- The rest of the code is judged on every value its first part returns. -/
theorem returns_bind {x : Except ε β} {k : β → Except ε α} (hx : Returns P x)
    (hk : ∀ v, P v → Returns Q (k v)) : Returns Q (x >>= k) := by
  intro w h
  obtain ⟨v, hv, hw⟩ := bind_eq_ok.mp h
  exact hk v (hx v hv) w hw

theorem returns_mono {R : α → Prop} {x : Except ε α} (hx : Returns R x) (h : ∀ v, R v → Q v) :
    Returns Q x :=
  fun v hv => h v (hx v hv)

theorem returns_any (x : Except ε α) : Returns (fun _ => True) x :=
  fun _ _ => trivial

theorem returns_seq {x : Except ε β} {k : β → Except ε α} (hk : ∀ v, Returns Q (k v)) :
    Returns Q (x >>= k) :=
  returns_bind (returns_any x) fun v _ => hk v

/-- A guard that may end the code early, before its rest. -/
theorem returns_guard {p : Prop} [Decidable p] {x : Except ε Unit} {k : Unit → Except ε α}
    (hk : ∀ u, Returns Q (k u)) : Returns Q (if p then x >>= k else k ()) := by
  split
  · exact returns_seq hk
  · exact hk ()

theorem returns_guard_ok {p : Prop} [Decidable p] {x : Except ε Unit} {k : Unit → Except ε α}
    (hk : (p → x = .ok ()) → Returns Q (k ())) : Returns Q (if p then x >>= k else k ()) := by
  split
  · intro v hv
    obtain ⟨u, hu, hku⟩ := bind_eq_ok.mp hv
    exact hk (fun _ => hu) v hku
  · rename_i hp
    exact hk fun h => absurd h hp

theorem returns_ite {p : Prop} [Decidable p] {x y : Except ε α} (hx : p → Returns Q x)
    (hy : ¬ p → Returns Q y) : Returns Q (if p then x else y) := by
  split
  · rename_i h
    exact hx h
  · rename_i h
    exact hy h

end Returns

/-- A loop that may raise at each element. -/
def each (f : α → Except ε Unit) : List α → Except ε Unit
  | [] => .ok ()
  | a :: l => do
    f a
    each f l

theorem each_eq_ok {f : α → Except ε Unit} {l : List α} {u : Unit} :
    each f l = .ok u ↔ ∀ a ∈ l, f a = .ok () := by
  induction l with
  | nil => simp [each]
  | cons a l ih =>
    rw [each, bind_eq_ok, List.forall_mem_cons, ← ih]
    constructor
    · rintro ⟨v, hv, hl⟩
      exact ⟨hv, hl⟩
    · rintro ⟨hv, hl⟩
      exact ⟨(), hv, hl⟩

end Raise
