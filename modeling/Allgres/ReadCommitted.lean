import Mathlib.Logic.Function.Basic
import Allgres.Runs

/-! Transactions under READ COMMITTED. A statement sees what is committed together with
what its own transaction wrote, waits for the locks it needs, and the locks are kept to the
end of the transaction. -/

namespace ReadCommitted

open Runs

/-- Code that runs in transactions: where a call begins and ends, and for the statement at
a place the locks it waits for, the place it leads to and what it writes. -/
structure Code (σ L K : Type) where
  entry : L → Bool
  final : L → Bool
  locks : L → σ → List K
  /-- Nothing stands for an exception. -/
  exec : L → σ → Option (L × (σ → σ))

structure Txn (σ L : Type) where
  loc : L
  write : σ → σ

structure Server (σ L K : Type) where
  db : σ
  live : Nat → Option (Txn σ L) := fun _ => none
  locked : List (K × Nat) := []

inductive Event (L : Type) where
  | call (i : Nat) (loc : L)
  | exec (i : Nat)
  | commit (i : Nat)
  | abort (i : Nat)

variable {σ L K : Type}

namespace Server

/-- What a transaction has written so far. -/
def pending (s : Server σ L K) (i : Nat) : σ → σ :=
  match s.live i with
  | some t => t.write
  | none => id

def Holds (s : Server σ L K) (i : Nat) (k : K) : Prop :=
  (k, i) ∈ s.locked

def free [DecidableEq K] (s : Server σ L K) (i : Nat) (ks : List K) : Bool :=
  s.locked.all fun l => !ks.contains l.1 || l.2 == i

def set (s : Server σ L K) (i : Nat) (t : Txn σ L) : Server σ L K :=
  { s with live := Function.update s.live i (some t) }

def acquire (s : Server σ L K) (i : Nat) (ks : List K) : Server σ L K :=
  { s with locked := ks.map (·, i) ++ s.locked }

def finish (s : Server σ L K) (i : Nat) : Server σ L K :=
  { s with
    live := Function.update s.live i none
    locked := s.locked.filter (·.2 != i) }

/-- A transaction may begin a call. -/
def idle (code : Code σ L K) (s : Server σ L K) (i : Nat) : Bool :=
  (s.live i).all fun t => code.final t.loc

end Server

def step [DecidableEq K] (code : Code σ L K) (s : Server σ L K) : Event L → Server σ L K
  | .call i loc =>
    if s.idle code i && code.entry loc then s.set i ⟨loc, s.pending i⟩ else s
  | .exec i => match s.live i with
    | none => s
    | some t =>
      if !code.final t.loc && s.free i (code.locks t.loc (t.write s.db)) then
        match code.exec t.loc (t.write s.db) with
        | none => s.finish i
        | some (loc, w) =>
          (s.acquire i (code.locks t.loc (t.write s.db))).set i ⟨loc, fun d => w (t.write d)⟩
      else s
  | .commit i => match s.live i with
    | none => s
    | some t => if code.final t.loc then { s.finish i with db := t.write s.db } else s
  | .abort i => s.finish i

/-- The statements of a call with nothing else going on. -/
def Code.alone (code : Code σ L K) : Nat → L → σ → Option σ
  | 0, _, _ => none
  | n + 1, loc, d =>
    if code.final loc then some d
    else match code.exec loc d with
      | none => none
      | some (loc', w) => alone code n loc' (w d)

theorem Code.alone_succ {code : Code σ L K} {n : Nat} {loc loc' : L} {d : σ} {w : σ → σ}
    (hloc : code.final loc = false) (h : code.exec loc d = some (loc', w)) :
    code.alone (n + 1) loc d = code.alone n loc' (w d) := by
  rw [alone, hloc, h]
  rfl

/-- What every statement keeps between the tables before and after it, a call keeps. -/
theorem Code.alone_lift {code : Code σ L K} {I : L → Prop} {R : σ → σ → Prop}
    (hrefl : ∀ d, R d d) (htrans : ∀ a b c, R a b → R b c → R a c)
    (hexec : ∀ loc d loc' w, I loc → code.exec loc d = some (loc', w) → I loc' ∧ R d (w d))
    {n : Nat} {loc : L} {d d' : σ} (hloc : I loc) (h : code.alone n loc d = some d') : R d d' := by
  induction n generalizing loc d with
  | zero => cases h
  | succ n ih =>
    rw [alone] at h
    split at h
    · cases h
      exact hrefl _
    · cases he : code.exec loc d with
      | none =>
        rw [he] at h
        cases h
      | some r =>
        rw [he] at h
        obtain ⟨hnext, hr⟩ := hexec loc d r.1 r.2 hloc he
        exact htrans _ _ _ hr (ih hnext h)

/-- No lock has two holders. -/
def Exclusive (s : Server σ L K) : Prop :=
  ∀ i j k, s.Holds i k → s.Holds j k → i = j

/-- Every commit meets a condition on the transactions that are open beside it. -/
def Spares (code : Code σ L K) (Q : σ → Txn σ L → Txn σ L → Prop) (s : Server σ L K) :
    Event L → Prop
  | .commit i => ∀ t, s.live i = some t → code.final t.loc = true →
      ∀ j u, j ≠ i → s.live j = some u → Q s.db t u
  | _ => True

/-- A proof outline: what holds of the committed state, what holds of each transaction with
the locks it has, and that no commit of one disturbs another under a condition. -/
structure Outline (code : Code σ L K) (Q : σ → Txn σ L → Txn σ L → Prop) (G : σ → Prop)
    (P : σ → (K → Prop) → Txn σ L → Prop) : Prop where
  fresh : ∀ {d H loc}, G d → (∀ k, ¬ H k) → code.entry loc = true → P d H ⟨loc, id⟩
  again : ∀ {d H t loc}, G d → P d H t → code.final t.loc = true → code.entry loc = true →
    P d H ⟨loc, t.write⟩
  exec : ∀ {d H t loc w}, G d → P d H t → code.final t.loc = false →
    code.exec t.loc (t.write d) = some (loc, w) →
      P d (fun k => k ∈ code.locks t.loc (t.write d) ∨ H k) ⟨loc, fun d => w (t.write d)⟩
  commit : ∀ {d H t}, G d → P d H t → code.final t.loc = true → G (t.write d)
  apart : ∀ {d H I t u}, Q d t u → G d → P d H t → P d I u → code.final t.loc = true →
    (∀ k, H k → ¬ I k) → P (t.write d) I u

namespace Server

variable {s : Server σ L K} {i j : Nat} {k : K} {ks : List K} {t : Txn σ L}

theorem holds_finish : (s.finish i).Holds j k ↔ s.Holds j k ∧ j ≠ i := by
  simp [finish, Holds]

theorem holds_acquire : (s.acquire i ks).Holds j k ↔ (k ∈ ks ∧ i = j) ∨ s.Holds j k := by
  simp [acquire, Holds]

theorem free_eq_true [DecidableEq K] : s.free i ks = true ↔ ∀ k ∈ ks, ∀ j, s.Holds j k → j = i := by
  simp only [free, List.all_eq_true, Bool.or_eq_true, Bool.not_eq_true', List.contains_eq_mem,
    decide_eq_false_iff_not, beq_iff_eq, Holds]
  constructor
  · intro h k hk j hj
    rcases h (k, j) hj with hn | hi
    · exact absurd hk hn
    · exact hi
  · rintro h ⟨k, j⟩ hj
    by_cases hk : k ∈ ks
    · exact .inr (h k hk j hj)
    · exact .inl hk

theorem exclusive_finish (h : Exclusive s) : Exclusive (s.finish i) := fun a b k ha hb =>
  h a b k (holds_finish.mp ha).1 (holds_finish.mp hb).1

theorem exclusive_acquire [DecidableEq K] (h : Exclusive s) (hf : s.free i ks = true) :
    Exclusive (s.acquire i ks) := by
  intro a b k ha hb
  rw [free_eq_true] at hf
  rcases holds_acquire.mp ha with ⟨hk, rfl⟩ | ha <;> rcases holds_acquire.mp hb with ⟨hk', rfl⟩ | hb
  · rfl
  · exact (hf k hk b hb).symm
  · exact hf k hk' a ha
  · exact h a b k ha hb

@[simp] theorem live_finish : (s.finish i).live = Function.update s.live i none := rfl

@[simp] theorem live_set : (s.set i t).live = Function.update s.live i (some t) := rfl

end Server

open Server

/-- What a proof outline keeps true. -/
structure Ok (G : σ → Prop) (P : σ → (K → Prop) → Txn σ L → Prop) (s : Server σ L K) : Prop where
  db : G s.db
  txns : ∀ i t, s.live i = some t → P s.db (s.Holds i) t
  exclusive : Exclusive s
  clean : ∀ i, s.live i = none → ∀ k, ¬ s.Holds i k

section Steps

variable {code : Code σ L K} {Q : σ → Txn σ L → Txn σ L → Prop} {G : σ → Prop}
  {P : σ → (K → Prop) → Txn σ L → Prop} {s : Server σ L K} {i j : Nat} {t u : Txn σ L}

theorem ok_of_idle {d : σ} (h : G d) : Ok G P ({ db := d } : Server σ L K) :=
  ⟨h, by simp, by simp [Exclusive, Holds], by simp [Holds]⟩

/-- The locks of the others are what they were. -/
theorem holds_finish_ne (h : j ≠ i) : (s.finish i).Holds j = s.Holds j := by
  funext k
  simp [holds_finish, h]

theorem holds_acquire_ne (h : j ≠ i) (ks : List K) : (s.acquire i ks).Holds j = s.Holds j := by
  funext k
  simp [holds_acquire, h.symm]

theorem Ok.finish (h : Ok G P s) : Ok G P (s.finish i) := by
  refine ⟨h.db, fun j u hu => ?_, exclusive_finish h.exclusive, fun j hj k hk => ?_⟩
  · by_cases hij : j = i
    · subst hij
      simp at hu
    · rw [live_finish, Function.update_of_ne hij] at hu
      rw [holds_finish_ne hij]
      exact h.txns j u hu
  · obtain ⟨hk, hij⟩ := holds_finish.mp hk
    rw [live_finish, Function.update_of_ne hij] at hj
    exact h.clean j hj k hk

theorem Ok.set (h : Ok G P s) (ht : P s.db (s.Holds i) t) : Ok G P (s.set i t) := by
  refine ⟨h.db, fun j u hu => ?_, h.exclusive, fun j hj => ?_⟩
  · by_cases hij : j = i
    · subst hij
      rw [live_set, Function.update_self] at hu
      cases hu
      exact ht
    · rw [live_set, Function.update_of_ne hij] at hu
      exact h.txns j u hu
  · by_cases hij : j = i
    · subst hij
      simp at hj
    · rw [live_set, Function.update_of_ne hij] at hj
      exact h.clean j hj

theorem Outline.call (o : Outline code Q G P) (h : Ok G P s) {loc : L}
    (hi : s.idle code i = true) (hl : code.entry loc = true) :
    Ok G P (s.set i ⟨loc, s.pending i⟩) := by
  refine h.set ?_
  cases hs : s.live i with
  | none =>
    have hid : s.pending i = id := by simp only [pending, hs]
    rw [hid]
    exact o.fresh h.db (h.clean i hs) hl
  | some t =>
    have hw : s.pending i = t.write := by simp only [pending, hs]
    rw [hw]
    have hfin : code.final t.loc = true := by simpa [idle, hs] using hi
    exact o.again h.db (h.txns i t hs) hfin hl

theorem Outline.statement [DecidableEq K] (o : Outline code Q G P) (h : Ok G P s) (ht : s.live i = some t)
    (hfin : code.final t.loc = false) (hfree : s.free i (code.locks t.loc (t.write s.db)) = true) {loc : L}
    {w : σ → σ} (he : code.exec t.loc (t.write s.db) = some (loc, w)) :
    Ok G P ((s.acquire i (code.locks t.loc (t.write s.db))).set i ⟨loc, fun d => w (t.write d)⟩) := by
  have hmine : (s.acquire i (code.locks t.loc (t.write s.db))).Holds i =
      fun k => k ∈ code.locks t.loc (t.write s.db) ∨ s.Holds i k := by
    funext k
    simp [holds_acquire]
  have hown := o.exec h.db (h.txns i t ht) hfin he
  refine ⟨h.db, fun j u hu => ?_, exclusive_acquire h.exclusive hfree, fun j hj k hk => ?_⟩
  · by_cases hij : j = i
    · subst hij
      rw [live_set, Function.update_self] at hu
      cases hu
      have := hmine ▸ hown
      exact this
    · rw [live_set, Function.update_of_ne hij] at hu
      have hother := h.txns j u hu
      rw [← holds_acquire_ne hij (code.locks t.loc (t.write s.db))] at hother
      exact hother
  · by_cases hij : j = i
    · subst hij
      simp at hj
    · rw [live_set, Function.update_of_ne hij] at hj
      have hk' : (s.acquire i (code.locks t.loc (t.write s.db))).Holds j k := hk
      rw [holds_acquire_ne hij] at hk'
      exact h.clean j hj k hk'

theorem Outline.committed (o : Outline code Q G P) (h : Ok G P s) (hc : Spares code Q s (.commit i))
    (ht : s.live i = some t) (hfin : code.final t.loc = true) :
    Ok G P { s.finish i with db := t.write s.db } := by
  have hfinish : Ok G P (s.finish i) := h.finish
  refine ⟨o.commit h.db (h.txns i t ht) hfin, fun j u hu => ?_,
    hfinish.exclusive, hfinish.clean⟩
  by_cases hij : j = i
  · subst hij
    simp at hu
  · have hu' : s.live j = some u := by
      have : (s.finish i).live j = some u := hu
      rwa [live_finish, Function.update_of_ne hij] at this
    have hother := o.apart (hc t ht hfin j u hij hu') h.db (h.txns i t ht) (h.txns j u hu') hfin
      fun k hi hj => hij (h.exclusive j i k hj hi)
    rw [← holds_finish_ne hij] at hother
    exact hother

theorem Outline.step [DecidableEq K] (o : Outline code Q G P) (h : Ok G P s) {e : Event L}
    (hc : Spares code Q s e) : Ok G P (step code s e) := by
  cases e with
  | call i loc =>
    dsimp only [ReadCommitted.step]
    split
    · rename_i hcall
      rw [Bool.and_eq_true] at hcall
      exact o.call h hcall.1 hcall.2
    · exact h
  | exec i =>
    dsimp only [ReadCommitted.step]
    split
    · exact h
    · rename_i t ht
      split
      · rename_i hgo
        rw [Bool.and_eq_true, Bool.not_eq_true'] at hgo
        split
        · exact h.finish
        · rename_i loc w he
          exact o.statement h ht hgo.1 hgo.2 he
      · exact h
  | commit i =>
    dsimp only [ReadCommitted.step]
    split
    · exact h
    · rename_i t ht
      split
      · rename_i hfin
        exact o.committed h hc ht hfin
      · exact h
  | abort i => exact h.finish

/-- What an outline says of a state holds along every run that keeps its condition. -/
theorem Outline.run [DecidableEq K] (o : Outline code Q G P) {d : σ} (hd : G d) {es : List (Event L)}
    (hc : Along (ReadCommitted.step code) (Spares code Q) { db := d } es) :
    Ok G P (run (ReadCommitted.step code) { db := d } es) := by
  have hstep : ∀ s e, Ok G P s → Spares code Q s e → Ok G P (ReadCommitted.step code s e) :=
    fun s e h he => o.step h he
  exact invariant hstep (ok_of_idle hd) hc

/-- A statement is executed at a place of a kind. -/
def Places (C : L → Bool) (s : Server σ L K) : Event L → Prop
  | .exec i => (s.live i).all (fun t => C t.loc) = true
  | _ => True

instance (C : L → Bool) (s : Server σ L K) (e : Event L) : Decidable (Places C s e) := by
  unfold Places
  split <;> infer_instance

/-- A property of the tables that every statement at such a place keeps, and every write of an open
transaction with it. -/
structure Keeps (G : σ → Prop) (s : Server σ L K) : Prop where
  db : G s.db
  txns : ∀ i t, s.live i = some t → ∀ d, G d → G (t.write d)

theorem Keeps.set (h : Keeps G s) {t : Txn σ L} (ht : ∀ d, G d → G (t.write d)) :
    Keeps G (s.set i t) := by
  refine ⟨h.db, fun j u hu => ?_⟩
  by_cases hij : j = i
  · subst hij
    rw [live_set, Function.update_self] at hu
    cases hu
    exact ht
  · rw [live_set, Function.update_of_ne hij] at hu
    exact h.txns j u hu

theorem Keeps.finish (h : Keeps G s) : Keeps G (s.finish i) := by
  refine ⟨h.db, fun j u hu => ?_⟩
  by_cases hij : j = i
  · subst hij
    simp at hu
  · rw [live_finish, Function.update_of_ne hij] at hu
    exact h.txns j u hu

theorem Keeps.step [DecidableEq K] {C : L → Bool}
    (hexec : ∀ loc d loc' w, C loc = true → code.exec loc d = some (loc', w) → ∀ d, G d → G (w d))
    (h : Keeps G s) {e : Event L} (hc : Places C s e) : Keeps G (ReadCommitted.step code s e) := by
  cases e with
  | call i loc =>
    dsimp only [ReadCommitted.step]
    split
    · refine h.set fun d hd => ?_
      unfold Server.pending
      split
      · rename_i t ht
        exact h.txns i t ht d hd
      · exact hd
    · exact h
  | exec i =>
    dsimp only [ReadCommitted.step]
    split
    · exact h
    · rename_i t ht
      have hloc : C t.loc = true := by simpa [Places, ht] using hc
      split
      · split
        · exact h.finish
        · rename_i loc w he
          have hacquired : Keeps G (s.acquire i (code.locks t.loc (t.write s.db))) := ⟨h.db, h.txns⟩
          exact hacquired.set fun d hd => hexec t.loc _ loc w hloc he _ (h.txns i t ht d hd)
      · exact h
  | commit i =>
    dsimp only [ReadCommitted.step]
    split
    · exact h
    · rename_i t ht
      split
      · exact ⟨h.txns i t ht _ h.db, h.finish.txns⟩
      · exact h
  | abort i => exact h.finish

/-- What the statements keep holds of the tables along every run of statements of the kind. -/
theorem kept_run [DecidableEq K] {C : L → Bool} {d : σ} (hd : G d)
    (hexec : ∀ loc d loc' w, C loc = true → code.exec loc d = some (loc', w) → ∀ d, G d → G (w d))
    {es : List (Event L)} (hc : Along (ReadCommitted.step code) (Places C) { db := d } es) :
    G (run (ReadCommitted.step code) { db := d } es).db := by
  have hstart : Keeps G ({ db := d } : Server σ L K) := ⟨hd, by simp⟩
  have hstep : ∀ s e, Keeps G s → Places C s e → Keeps G (ReadCommitted.step code s e) :=
    fun s e h he => h.step hexec he
  exact (invariant hstep hstart hc).db

/-- A transaction that has failed commits nothing. -/
theorem spares_gone (h : (s.live i).isNone = true) : Spares code Q s (.commit i) := by
  intro t ht
  rw [ht] at h
  cases h

/-- The transaction of an event. -/
def Event.txn : Event L → Nat
  | call i _ => i
  | exec i => i
  | commit i => i
  | abort i => i

theorem live_step_ne [DecidableEq K] {e : Event L} (h : j ≠ e.txn) :
    (ReadCommitted.step code s e).live j = s.live j := by
  cases e with
  | call i loc =>
    dsimp only [ReadCommitted.step]
    split
    · exact Function.update_of_ne h _ _
    · rfl
  | exec i =>
    dsimp only [ReadCommitted.step]
    split
    · rfl
    · split
      · split
        · exact Function.update_of_ne h _ _
        · exact Function.update_of_ne h _ _
      · rfl
  | commit i =>
    dsimp only [ReadCommitted.step]
    split
    · rfl
    · split
      · exact Function.update_of_ne h _ _
      · rfl
  | abort i => exact Function.update_of_ne h _ _

/-- A transaction that no event is about is not there. -/
theorem live_run_ne [DecidableEq K] {es : List (Event L)} (h : ∀ e ∈ es, j ≠ e.txn) :
    (run (ReadCommitted.step code) s es).live j = s.live j := by
  induction es generalizing s with
  | nil => rfl
  | cons e es ih =>
    have hrest := ih (s := ReadCommitted.step code s e) fun e' he' => h e' (by simp [he'])
    exact hrest.trans (live_step_ne (h e (by simp)))

/-- Nor is one beyond all that the events are about. -/
theorem live_run_lt [DecidableEq K] {d : σ} {es : List (Event L)} {n : Nat} (h : ∀ e ∈ es, e.txn ≤ n)
    (hj : n < j) : (run (ReadCommitted.step code) { db := d } es).live j = none := by
  refine live_run_ne fun e he => ?_
  have hle : e.txn ≤ n := h e he
  omega

/-- A commit beside one other transaction, of which the condition asks nothing as it stands. -/
theorem spares_beside {P : Txn σ L → Bool} (hstands : (s.live j).all P = true)
    (hnone : ∀ k, k ≠ i → k ≠ j → s.live k = none)
    (hq : ∀ t u, s.live i = some t → P u = true → Q s.db t u) : Spares code Q s (.commit i) := by
  intro t ht _ k u hk hu
  by_cases hkj : k = j
  · subst hkj
    rw [hu] at hstands
    exact hq t u ht hstands
  · rw [hnone k hk hkj] at hu
    cases hu

theorem spares_last (hgone : (s.live j).isNone = true) (hnone : ∀ k, k ≠ i → k ≠ j → s.live k = none) :
    Spares code Q s (.commit i) := by
  refine spares_beside (j := j) (P := fun _ => false) ?_ hnone fun _ _ _ h => by cases h
  rw [Option.isNone_iff_eq_none.mp hgone]
  rfl

end Steps

section Local

variable {κ α : Type} {view : σ → κ → α} {H I : κ → Prop} {v w : σ → σ} {d d' : σ} {k : κ}

/-- Writes that act on each key of a view apart, and only on the keys that are locked. -/
def Local (view : σ → κ → α) (H : κ → Prop) (w : σ → σ) : Prop :=
  ∃ f : κ → α → α, (∀ d k, view (w d) k = f k (view d k)) ∧ ∀ k, ¬ H k → f k = id

theorem Local.same (hw : Local view H w) (hn : ¬ H k) : view (w d) k = view d k := by
  obtain ⟨f, hf, hid⟩ := hw
  rw [hf, hid k hn]
  rfl

theorem Local.congr (hw : Local view H w) (h : view d k = view d' k) :
    view (w d) k = view (w d') k := by
  obtain ⟨f, hf, -⟩ := hw
  rw [hf, hf, h]

theorem local_of_same (h : ∀ d k, view (w d) k = view d k) : Local view H w :=
  ⟨fun _ x => x, h, fun _ _ => rfl⟩

theorem Local.weaken (hw : Local view H w) (h : ∀ k, H k → I k) : Local view I w := by
  obtain ⟨f, hf, hid⟩ := hw
  exact ⟨f, hf, fun k hn => hid k fun hk => hn (h k hk)⟩

theorem Local.comp (hw : Local view H w) (hv : Local view H v) : Local view H fun d => w (v d) := by
  obtain ⟨f, hf, hid⟩ := hw
  obtain ⟨g, hg, hid'⟩ := hv
  refine ⟨fun k x => f k (g k x), fun d k => by rw [hf, hg], fun k hn => ?_⟩
  funext x
  simp only [hid k hn, hid' k hn, id_eq]

/-- Writes that change one key. -/
theorem local_at [DecidableEq κ] {a : κ} {g : α → α} (hk : H a)
    (h : ∀ d k, view (w d) k = if k = a then g (view d k) else view d k) : Local view H w := by
  refine ⟨fun k x => if k = a then g x else x, h, fun k hn => ?_⟩
  have hne : k ≠ a := fun h => hn (h ▸ hk)
  funext x
  exact if_neg hne

end Local

end ReadCommitted
