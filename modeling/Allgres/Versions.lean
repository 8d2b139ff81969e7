import Allgres.Runs
import Mathlib.Data.List.Induction
import Mathlib.Data.List.Nodup

/-! A record kept in versions: the live one, and an archive to which the live one goes before
a version of the next generation takes its place. -/

namespace Versions

open Runs

structure Line (α : Type) where
  live : α
  archive : List α
  deriving DecidableEq

def Line.versions {α : Type} (l : Line α) : List α :=
  l.archive ++ [l.live]

/-- A call leaves the line alone, writes the live version over with the same contents, or makes
one version with others; what it writes may replace the live version. -/
inductive Advance {α : Type} (gen : α → Nat) (Same New : α → α → Prop) (l : Line α) : Line α → Prop
  | keep : Advance gen Same New l l
  | restate (b : α) (hgen : gen b = gen l.live) (hsame : Same b l.live) (hnew : New l.live b) :
      Advance gen Same New l ⟨b, l.archive⟩
  | cut (b : α) (hgen : gen b = gen l.live + 1) (hother : ¬Same b l.live) (hnew : New l.live b) :
      Advance gen Same New l ⟨b, l.archive ++ [l.live]⟩

/-- There is one version of each generation from the first to the live one. -/
def Complete {α : Type} (gen : α → Nat) (l : Line α) : Prop :=
  l.versions.map gen = List.range' 1 (gen l.live)

section Lines

variable {α : Type} {gen : α → Nat} {Same New : α → α → Prop} {l l' : Line α}

theorem Line.live_mem (l : Line α) : l.live ∈ l.versions := by
  simp [versions]

theorem Complete.next (h : Complete gen l) (hn : Advance gen Same New l l') : Complete gen l' := by
  cases hn with
  | keep => exact h
  | restate b hgen _ _ =>
    rw [Complete, hgen, ← h]
    simp [Line.versions, hgen]
  | cut b hgen _ _ =>
    have hrange : List.range' 1 (gen l.live + 1) = List.range' 1 (gen l.live) ++ [gen l.live + 1] := by
      simp [List.range'_concat, Nat.add_comm]
    have hversions : (⟨b, l.archive ++ [l.live]⟩ : Line α).versions = l.versions ++ [b] := rfl
    rw [Complete, hversions, List.map_append, h, hgen, hrange, List.map_singleton, hgen]

theorem Complete.pos (h : Complete gen l) : 0 < gen l.live := by
  have hlen := congrArg List.length h
  simp only [Line.versions, List.length_map, List.length_append, List.length_range'] at hlen
  simp at hlen
  omega

theorem Complete.archive (h : Complete gen l) :
    l.archive.map gen = List.range' 1 (gen l.live - 1) := by
  obtain ⟨n, hn⟩ : ∃ n, gen l.live = n + 1 := Nat.exists_eq_add_of_lt h.pos |>.imp fun n hn => by omega
  have hall : l.archive.map gen ++ [gen l.live] = List.range' 1 (gen l.live) := by
    simpa [Complete, Line.versions] using h
  rw [hn, List.range'_concat] at hall
  rw [hn]
  exact (List.append_inj' hall rfl).1

theorem Complete.nodup (h : Complete gen l) : (l.versions.map gen).Nodup := by
  rw [h]
  exact List.nodup_range'

theorem Complete.eq (h : Complete gen l) {a b : α} (ha : a ∈ l.versions) (hb : b ∈ l.versions)
    (hab : gen a = gen b) : a = b :=
  List.inj_on_of_nodup_map h.nodup ha hb hab

theorem Advance.isPrefix (h : Advance gen Same New l l') : l.archive <+: l'.archive := by
  cases h with
  | keep => exact List.prefix_refl _
  | restate b _ _ _ => exact List.prefix_refl _
  | cut b _ _ _ => exact List.prefix_append _ _

/-- The generation is raised by one exactly when the contents are others. -/
theorem Advance.raised (hrefl : Same l.live l.live) (h : Advance gen Same New l l') :
    (gen l'.live = gen l.live + 1 ↔ ¬Same l'.live l.live) ∧
      (gen l'.live = gen l.live ↔ Same l'.live l.live) := by
  cases h with
  | keep => simp [hrefl]
  | restate b hgen hsame _ => simp [hgen, hsame]
  | cut b hgen hother _ => simp [hgen, hother]

/-- The live version stays live up to its contents, or goes to the archive. -/
theorem Advance.live (hrefl : Same l.live l.live) (h : Advance gen Same New l l') :
    gen l'.live = gen l.live ∧ Same l'.live l.live ∨ l.live ∈ l'.archive := by
  cases h with
  | keep => exact .inl ⟨rfl, hrefl⟩
  | restate b hgen hsame _ => exact .inl ⟨hgen, hsame⟩
  | cut b _ _ _ => exact .inr (by simp)

theorem Advance.mem (h : Advance gen Same New l l') {a : α} (ha : a ∈ l'.versions) :
    a ∈ l.versions ∨ a = l'.live := by
  cases h with
  | keep => exact .inl ha
  | restate b _ _ _ => exact (List.mem_append.mp ha).imp (List.mem_append_left _) List.mem_singleton.mp
  | cut b _ _ _ =>
    rcases List.mem_append.mp ha with ha | ha
    · exact .inl ha
    · exact .inr (List.mem_singleton.mp ha)

/-- What holds of every version and of what may replace it stays so. -/
theorem Advance.all {P : α → Prop} (hnew : ∀ a b, P a → New a b → P b) (h : Advance gen Same New l l')
    (hP : ∀ a ∈ l.versions, P a) : ∀ a ∈ l'.versions, P a := by
  cases h with
  | keep => exact hP
  | restate b _ _ hb =>
    intro a ha
    rcases List.mem_append.mp ha with ha | ha
    · exact hP a (List.mem_append_left _ ha)
    · rw [List.mem_singleton.mp ha]
      exact hnew _ b (hP _ l.live_mem) hb
  | cut b _ _ hb =>
    intro a ha
    rcases List.mem_append.mp ha with ha | ha
    · exact hP a ha
    · rw [List.mem_singleton.mp ha]
      exact hnew _ b (hP _ l.live_mem) hb

end Lines

section Track

variable {σ ε α : Type} {step : σ → ε → σ} {line : σ → Option (Line α)} {gen : α → Nat}
  {Same New : α → α → Prop}

/-- Every step of a machine takes the line it keeps to a next one. -/
def Tracks (step : σ → ε → σ) (line : σ → Option (Line α)) (gen : α → Nat)
    (Same New : α → α → Prop) : Prop :=
  ∀ s e l, line s = some l → ∃ l', line (step s e) = some l' ∧ Advance gen Same New l l'

theorem Tracks.run (ht : Tracks step line gen Same New) {s : σ} {l : Line α} (hl : line s = some l)
    (es : List ε) : ∃ l', line (Runs.run step s es) = some l' ∧ l.archive <+: l'.archive ∧
      (Complete gen l → Complete gen l') := by
  induction es generalizing s l with
  | nil => exact ⟨l, hl, List.prefix_refl _, id⟩
  | cons e es ih =>
    obtain ⟨m, hm, hadv⟩ := ht s e l hl
    obtain ⟨l', hl', hpre, hcomplete⟩ := ih hm
    exact ⟨l', hl', hadv.isPrefix.trans hpre, fun h => hcomplete (h.next hadv)⟩

theorem Tracks.all (ht : Tracks step line gen Same New) {P : α → Prop} (hnew : ∀ a b, P a → New a b → P b)
    {s : σ} {l l' : Line α} (hl : line s = some l) (hP : ∀ a ∈ l.versions, P a) (es : List ε)
    (hl' : line (Runs.run step s es) = some l') : ∀ a ∈ l'.versions, P a := by
  induction es generalizing s l with
  | nil =>
    obtain rfl : l = l' := by simpa [Runs.run, hl] using hl'
    exact hP
  | cons e es ih =>
    obtain ⟨m, hm, hadv⟩ := ht s e l hl
    exact ih hm (hadv.all hnew hP) hl'

/-- Every version a run leaves was there at its start, or live after some of its calls. -/
theorem Tracks.lived (ht : Tracks step line gen Same New) {s : σ} {l l' : Line α} (hl : line s = some l)
    (es : List ε) (hl' : line (Runs.run step s es) = some l') {a : α} (ha : a ∈ l'.versions) :
    a ∈ l.versions ∨ ∃ before after m, es = before ++ after ∧
      line (Runs.run step s before) = some m ∧ m.live = a := by
  induction es using List.reverseRecOn generalizing l' with
  | nil =>
    obtain rfl : l = l' := by simpa [Runs.run, hl] using hl'
    exact .inl ha
  | append_singleton es e ih =>
    obtain ⟨m, hm, -⟩ := ht.run hl es
    obtain ⟨m', hm', hadv⟩ := ht _ e m hm
    rw [← @run_snoc σ ε step] at hm'
    obtain rfl : m' = l' := by simpa [hm'] using hl'
    rcases hadv.mem ha with ha | ha
    · rcases ih hm ha with hstart | ⟨before, after, k, rfl, hk⟩
      · exact .inl hstart
      · exact .inr ⟨before, after ++ [e], k, by simp, hk⟩
    · exact .inr ⟨es ++ [e], [], m', by simp, hm', ha.symm⟩

/-- What was live at the start of a run is among the versions at its end, up to its contents. -/
theorem Tracks.kept (ht : Tracks step line gen Same New) (hsame : Equivalence Same) {s : σ}
    {l l' : Line α} (hl : line s = some l) (es : List ε) (hl' : line (Runs.run step s es) = some l') :
    ∃ a ∈ l'.versions, gen a = gen l.live ∧ Same a l.live := by
  induction es generalizing s l with
  | nil =>
    obtain rfl : l = l' := by simpa [Runs.run, hl] using hl'
    exact ⟨l.live, l.live_mem, rfl, hsame.refl _⟩
  | cons e es ih =>
    obtain ⟨m, hm, hadv⟩ := ht s e l hl
    rcases hadv.live (hsame.refl _) with ⟨hgen, hlive⟩ | hold
    · obtain ⟨a, ha, hag, has⟩ := ih hm hl'
      exact ⟨a, ha, hag.trans hgen, hsame.trans has hlive⟩
    · obtain ⟨k, hk, hpre, -⟩ := ht.run hm es
      obtain rfl : k = l' := Option.some.inj (hk.symm.trans hl')
      exact ⟨l.live, List.mem_append_left _ (hpre.subset hold), rfl, hsame.refl _⟩

end Track

end Versions
