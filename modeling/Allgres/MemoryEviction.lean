import Allgres.Administration
import Allgres.RankedRows
import Mathlib.Algebra.Order.Ring.Unbundled.Rat

/-! The working set of an agent after `write_memory`: at most 500 memories, the
most important ones. The new memory is one of the candidates. -/

namespace Allgres

open Raise

section Order

instance : Std.Total memoryBefore where
  total a b := by
    unfold memoryBefore
    rcases lt_trichotomy a.importance b.importance with h | h | h
    · exact .inr (.inl h)
    · rcases Nat.le_total a.createdAt b.createdAt with ht | ht
      · exact .inr (.inr ⟨h.symm, ht⟩)
      · exact .inl (.inr ⟨h, ht⟩)
    · exact .inl (.inl h)

instance : IsTrans Memory memoryBefore where
  trans a b c hab hbc := by
    unfold memoryBefore at *
    rcases hab with hab | ⟨hab, tab⟩ <;> rcases hbc with hbc | ⟨hbc, tbc⟩
    · exact .inl (hbc.trans hab)
    · exact .inl (hbc ▸ hab)
    · exact .inl (hab ▸ hbc)
    · exact .inr ⟨hab.trans hbc, tbc.trans tab⟩

end Order

def memoriesOf (c : Config) (agentId : Uuid) : List Memory :=
  c.memories.filter (·.agentId = agentId)

/-- `memory_id` is the primary key, and a new one is drawn fresh. -/
structure MemoryKeys (c : Config) : Prop where
  nodup : (c.memories.map (·.memoryId)).Nodup
  fresh : ∀ m ∈ c.memories, m.memoryId < c.nextId

section Write

variable {pg : Postgres} {now : Time} {c c₁ c' : Config} {agentId : Uuid}
  {content memoryType importance subjectId expiresInDays : Option String}
  {sessionId taskId : Option Uuid} {row : Memory}

/-- A memory that ranks no lower than a new one of this importance. -/
def ranksBefore (pg : Postgres) (now : Time) (importance : Option String) (m : Memory) : Prop :=
  memoryImportance pg importance < m.importance ∨
    (m.importance = memoryImportance pg importance ∧ now ≤ m.createdAt)

instance : DecidablePred (ranksBefore pg now importance) := fun m => by
  unfold ranksBefore
  infer_instance

/-- What a write of `row` may leave behind: the server ranks memories of one
importance and one time in any order. `c₁` is the store of `writeMemory`. -/
def MemoryOutcome (c c₁ : Config) (row : Memory) (c' : Config) : Prop :=
  ∃ ranked, Ranked memoryBefore (memoriesOf c row.agentId ++ [row]) ranked ∧
    c' = { c₁ with memories := deleteBehind Memory.memoryId 500 ranked (c.memories ++ [row]) }

/-- The fields of the new row that the ranking reads. -/
structure MemoryRow (pg : Postgres) (now : Time) (c : Config) (agentId : Uuid)
    (importance : Option String) (row : Memory) : Prop where
  memoryId : row.memoryId = c.nextId
  agentId : row.agentId = agentId
  importance : row.importance = memoryImportance pg importance
  createdAt : row.createdAt = now

theorem queueEmbedding_memories (c : Config) (target : EmbeddingTarget) (input : Option String)
    (now : Time) : (queueEmbedding c target input now).memories = c.memories := by
  obtain ⟨ks, es, n, h⟩ := (queueEmbedding_indexed c target input now).eq
  rw [h]

/-- The `INSERT` of `write_memory`. -/
def insertMemory (c : Config) (row : Memory) : Config :=
  { c with memories := c.memories ++ [row], nextId := c.nextId + 1 }

theorem writeMemory_ok (h : writeMemory pg now c agentId content memoryType importance subjectId
    expiresInDays sessionId taskId = .ok (c₁, row)) :
    MemoryRow pg now c agentId importance row ∧
      c₁ = evictMemories (queueMemoryEmbedding (insertMemory c row) row.memoryId now) agentId := by
  have hreturns : Returns (fun r => MemoryRow pg now c agentId importance r.2 ∧
      r.1 = evictMemories (queueMemoryEmbedding (insertMemory c r.2) r.2.memoryId now) agentId)
      (writeMemory pg now c agentId content memoryType importance subjectId expiresInDays sessionId
        taskId) := by
    unfold writeMemory
    exact returns_seq fun _ => returns_seq fun _ => returns_pure ⟨⟨rfl, rfl, rfl, rfl⟩, rfl⟩
  exact hreturns _ h

theorem MemoryRow.memoriesOf_append (hrow : MemoryRow pg now c agentId importance row) :
    (c.memories ++ [row]).filter (fun m => decide (m.agentId = agentId)) =
      memoriesOf c row.agentId ++ [row] := by
  rw [List.filter_append, hrow.agentId]
  simp [memoriesOf, hrow.agentId]

theorem MemoryRow.memoryBefore_iff (hrow : MemoryRow pg now c agentId importance row) (m : Memory) :
    memoryBefore m row ↔ ranksBefore pg now importance m := by
  unfold memoryBefore ranksBefore
  rw [hrow.importance, hrow.createdAt]

/-- The store of `writeMemory` ranks the ties in the order of the table. -/
theorem writeMemory_outcome (h : writeMemory pg now c agentId content memoryType importance subjectId
    expiresInDays sessionId taskId = .ok (c₁, row)) : MemoryOutcome c c₁ row c₁ := by
  obtain ⟨hrow, rfl⟩ := writeMemory_ok h
  refine ⟨_, ranked_insertionSort memoryBefore _, ?_⟩
  unfold evictMemories queueMemoryEmbedding
  simp only [queueEmbedding_memories, rankedMemories, insertMemory, hrow.memoriesOf_append]
  rfl

/-- What the caller of `write_memory` relies on. -/
structure MemoryKept (c c' : Config) (row : Memory) : Prop where
  bounded : (memoriesOf c' row.agentId).length ≤ 500
  top : TopRows memoryBefore 500 (memoriesOf c row.agentId ++ [row]) (memoriesOf c' row.agentId)
  others : c'.memories.filter (fun m => decide (m.agentId ≠ row.agentId)) =
    c.memories.filter fun m => decide (m.agentId ≠ row.agentId)
  stored : ∃ m ∈ c'.memories, m.memoryId = row.memoryId

theorem MemoryRow.countP_candidates (hrow : MemoryRow pg now c agentId importance row) :
    (memoriesOf c row.agentId ++ [row]).countP (fun m => decide (memoryBefore m row)) =
      (memoriesOf c agentId).countP (fun m => decide (ranksBefore pg now importance m)) + 1 := by
  have hself : memoryBefore row row := Std.Refl.refl row
  rw [List.countP_append, List.countP_singleton, if_pos (decide_eq_true hself), hrow.agentId]
  simp only [hrow.memoryBefore_iff]

section Outcome

variable (hkeys : MemoryKeys c) (hrow : MemoryRow pg now c agentId importance row)

include hkeys hrow

theorem MemoryRow.keys_nodup : ((c.memories ++ [row]).map (·.memoryId)).Nodup := by
  rw [List.map_append]
  refine List.nodup_append.mpr ⟨hkeys.nodup, List.nodup_singleton _, ?_⟩
  intro id hid id' hid' heq
  obtain ⟨m, hm, rfl⟩ := List.mem_map.mp hid
  have hid' : id' = row.memoryId := List.mem_singleton.mp hid'
  have hlt := hkeys.fresh m hm
  rw [heq, hid', hrow.memoryId] at hlt
  exact Nat.lt_irrefl _ hlt

theorem MemoryRow.agent_keys_nodup :
    ((memoriesOf c row.agentId ++ [row]).map (·.memoryId)).Nodup := by
  refine (hrow.keys_nodup hkeys).sublist (List.Sublist.map _ ?_)
  exact List.filter_sublist.append (List.Sublist.refl [row])

/-- The agent is left with the best 500 of its old memories and the new one. -/
theorem MemoryOutcome.topRows (h : MemoryOutcome c c₁ row c') :
    TopRows memoryBefore 500 (memoriesOf c row.agentId ++ [row]) (memoriesOf c' row.agentId) := by
  obtain ⟨ranked, hranked, rfl⟩ := h
  have htop := hranked.topRows (k := 500) (hrow.agent_keys_nodup hkeys)
  have hagent := hrow.memoriesOf_append
  rw [← hrow.agentId] at hagent
  rw [← hagent, ← deleteBehind_filter, hagent] at htop
  exact htop

theorem MemoryOutcome.others (h : MemoryOutcome c c₁ row c') :
    c'.memories.filter (fun m => decide (m.agentId ≠ row.agentId)) =
      c.memories.filter fun m => decide (m.agentId ≠ row.agentId) := by
  obtain ⟨ranked, hranked, rfl⟩ := h
  rw [deleteBehind_filter, List.filter_append]
  simp only [ne_eq, not_true_eq_false, decide_false, List.filter_cons_of_neg, Bool.false_eq_true,
    not_false_eq_true, List.filter_nil, List.append_nil]
  refine deleteBehind_eq_self fun z hz x hx heq => ?_
  obtain ⟨hx, hapart⟩ := List.mem_filter.mp hx
  have hz := hranked.perm.mem_iff.mp hz
  -- the keys of the table tell the row of another agent from the ranked ones
  have hinj := List.inj_on_of_nodup_map (hrow.keys_nodup hkeys)
  have hzc : z ∈ c.memories ++ [row] := by
    rcases List.mem_append.mp hz with hz | hz
    · exact List.mem_append_left _ (List.mem_of_mem_filter hz)
    · exact List.mem_append_right _ hz
  have hsame : z = x := hinj hzc (List.mem_append_left _ hx) heq
  have hagent : z.agentId = row.agentId := by
    rcases List.mem_append.mp hz with hz | hz
    · simpa using (List.mem_filter.mp hz).2
    · rw [List.mem_singleton.mp hz]
  exact absurd (hsame ▸ hagent) (of_decide_eq_true hapart)

theorem MemoryOutcome.stored_iff (h : MemoryOutcome c c₁ row c') :
    (∃ m ∈ c'.memories, m.memoryId = row.memoryId) ↔ row ∈ memoriesOf c' row.agentId := by
  obtain ⟨ranked, hranked, rfl⟩ := h
  constructor
  · rintro ⟨m, hm, heq⟩
    have hmem := (mem_deleteBehind.mp hm).1
    have hsame : m = row := List.inj_on_of_nodup_map (hrow.keys_nodup hkeys) hmem
      (List.mem_append_right _ (List.mem_singleton_self row)) heq
    subst hsame
    exact List.mem_filter.mpr ⟨hm, decide_eq_true rfl⟩
  · exact fun hm => ⟨row, List.mem_of_mem_filter hm, rfl⟩

/-- With fewer than 500 memories that rank as high, every answer keeps the new one. -/
theorem MemoryOutcome.kept_of_few (h : MemoryOutcome c c₁ row c')
    (hfew : (memoriesOf c agentId).countP (fun m => decide (ranksBefore pg now importance m)) < 500) :
    MemoryKept c c' row := by
  have htop := h.topRows hkeys hrow
  refine ⟨htop.length ▸ Nat.min_le_left _ _, htop, h.others hkeys hrow, ?_⟩
  refine (h.stored_iff hkeys hrow).mpr ?_
  obtain ⟨ranked, hranked, rfl⟩ := h
  have hrow' : row ∈ memoriesOf c row.agentId ++ [row] :=
    List.mem_append_right _ (List.mem_singleton_self row)
  have hcount := hrow.countP_candidates
  have htake : row ∈ ranked.take 500 := hranked.mem_take_of_few hrow' (by rw [hcount]; exact hfew)
  have hperm := hranked.deleteBehind_perm (k := 500) (hrow.agent_keys_nodup hkeys)
  have hkept := (mem_deleteBehind.mp (hperm.mem_iff.mpr htake)).2
  refine List.mem_filter.mpr ⟨mem_deleteBehind.mpr ⟨?_, hkept⟩, decide_eq_true rfl⟩
  exact List.mem_append_right _ (List.mem_singleton_self row)

omit hkeys in
/-- With 500 memories that rank as high, an answer evicts the new one. -/
theorem exists_outcome_lost (c₁ : Config)
    (hmany : 500 ≤ (memoriesOf c agentId).countP fun m => decide (ranksBefore pg now importance m)) :
    ∃ c', MemoryOutcome c c₁ row c' ∧ ∀ m ∈ c'.memories, m.memoryId ≠ row.memoryId := by
  obtain ⟨front, rest, hranked, hlen⟩ := exists_ranked_last memoryBefore
    (List.mem_append_right (memoriesOf c row.agentId) (List.mem_singleton_self row))
  rw [MemoryRow.countP_candidates hrow] at hlen
  have hdrop : row ∈ (front ++ row :: rest).drop 500 := by
    rw [List.drop_append, List.mem_append]
    have hzero : 500 - front.length = 0 := by omega
    rw [hzero]
    exact .inr List.mem_cons_self
  refine ⟨_, ⟨_, hranked, rfl⟩, fun m hm heq => ?_⟩
  exact (mem_deleteBehind.mp hm).2 row hdrop heq.symm

end Outcome

theorem MemoryOutcome.keys (hkeys : MemoryKeys c) (h : writeMemory pg now c agentId content memoryType
      importance subjectId expiresInDays sessionId taskId = .ok (c₁, row))
    (houtcome : MemoryOutcome c c₁ row c') : MemoryKeys c' := by
  obtain ⟨hrow, hstore⟩ := writeMemory_ok h
  have hnext : c.nextId < c₁.nextId := by
    rw [hstore]
    exact le_queueEmbedding_nextId _ _ now (Nat.le_refl _)
  obtain ⟨ranked, -, rfl⟩ := houtcome
  refine ⟨(hrow.keys_nodup hkeys).sublist (List.filter_sublist.map _), fun m hm => ?_⟩
  rcases List.mem_append.mp (mem_deleteBehind.mp hm).1 with hm | hm
  · exact (hkeys.fresh m hm).trans hnext
  · rw [List.mem_singleton.mp hm, hrow.memoryId]
    exact hnext

/-- A written memory outlives the eviction exactly when fewer than 500 memories
of the agent rank as high. -/
theorem memoryKept_iff (hkeys : MemoryKeys c) (h : writeMemory pg now c agentId content memoryType
      importance subjectId expiresInDays sessionId taskId = .ok (c₁, row)) :
    (∀ c', MemoryOutcome c c₁ row c' → MemoryKept c c' row) ↔
      (memoriesOf c agentId).countP (fun m => decide (ranksBefore pg now importance m)) < 500 := by
  have hrow := (writeMemory_ok h).1
  constructor
  · intro hkept
    by_contra hmany
    obtain ⟨c', houtcome, hlost⟩ := exists_outcome_lost hrow c₁ (Nat.le_of_not_lt hmany)
    obtain ⟨m, hm, heq⟩ := (hkept c' houtcome).stored
    exact hlost m hm heq
  · exact fun hfew c' houtcome => houtcome.kept_of_few hkeys hrow hfew

end Write

section Full

def plainServer : Postgres where
  rawParser := fun _ => .error "syntax error"
  explain := fun _ _ => .ok 0

def fullMemory (id : Nat) : Memory :=
  { memoryId := id, agentId := 7, memoryType := "semantic", content := "fact", importance := 1, createdAt := 0 }

/-- An agent with 500 memories of importance 1. -/
def fullStore : Config :=
  { memories := (List.range 500).map fullMemory, nextId := 500 }

theorem mem_fullStore {m : Memory} : m ∈ fullStore.memories ↔ ∃ id < 500, fullMemory id = m := by
  unfold fullStore
  rw [List.mem_map]
  simp only [List.mem_range]

theorem fullStore_memoriesOf : memoriesOf fullStore 7 = fullStore.memories := by
  refine List.filter_eq_self.mpr fun m hm => ?_
  obtain ⟨id, -, rfl⟩ := mem_fullStore.mp hm
  rfl

theorem fullStore_keys : MemoryKeys fullStore := by
  constructor
  · have hids : fullStore.memories.map (·.memoryId) = List.range 500 := by
      simp [fullStore, fullMemory, Function.comp_def]
    rw [hids]
    exact List.nodup_range
  · intro m hm
    obtain ⟨id, hid, rfl⟩ := mem_fullStore.mp hm
    exact hid

theorem fullStore_write : ∃ c₁ row,
    writeMemory plainServer 1 fullStore 7 (some "note") none none none none none none = .ok (c₁, row) :=
  ⟨_, _, rfl⟩

theorem fullStore_ranksBefore :
    500 ≤ (memoriesOf fullStore 7).countP fun m => decide (ranksBefore plainServer 1 none m) := by
  have hall : ∀ m ∈ memoriesOf fullStore 7, decide (ranksBefore plainServer 1 none m) = true := by
    rw [fullStore_memoriesOf]
    intro m hm
    obtain ⟨id, -, rfl⟩ := mem_fullStore.mp hm
    have hhalf : (1 / 2 : Rat) < 1 := by decide +kernel
    exact decide_eq_true (.inl hhalf)
  rw [List.countP_eq_length.mpr hall, fullStore_memoriesOf]
  unfold fullStore
  rw [List.length_map, List.length_range]

/-- A memory of the default importance is written and evicted at once. -/
theorem written_memory_lost : ∃ c₁ row c',
    writeMemory plainServer 1 fullStore 7 (some "note") none none none none none none = .ok (c₁, row) ∧
      MemoryOutcome fullStore c₁ row c' ∧ ∀ m ∈ c'.memories, m.memoryId ≠ row.memoryId := by
  obtain ⟨c₁, row, h⟩ := fullStore_write
  obtain ⟨c', houtcome, hlost⟩ := exists_outcome_lost (writeMemory_ok h).1 c₁ fullStore_ranksBefore
  exact ⟨c₁, row, c', h, houtcome, hlost⟩

theorem fullStore_kept_iff : ∃ c₁ row,
    writeMemory plainServer 1 fullStore 7 (some "note") none none none none none none = .ok (c₁, row) ∧
      ((∀ c', MemoryOutcome fullStore c₁ row c' → MemoryKept fullStore c' row) ↔
        (memoriesOf fullStore 7).countP (fun m => decide (ranksBefore plainServer 1 none m)) < 500) := by
  obtain ⟨c₁, row, h⟩ := fullStore_write
  exact ⟨c₁, row, h, memoryKept_iff fullStore_keys h⟩

end Full

end Allgres
