import Allgres.Complete
import Allgres.RankedRows
import Mathlib.Data.List.Pairwise

/-! The two queries of `rank_capabilities_by_embedding`. Without the extension
the limit is taken by the boosted score, with it by the similarity alone. -/

namespace Allgres

open Raise

/-- The server orders `float8` values totally, `NaN` among them. -/
structure Float8Order (pg : Postgres) : Prop where
  total : ∀ x y, pg.float8Le x y = true ∨ pg.float8Le y x = true
  trans : ∀ x y z, pg.float8Le x y = true → pg.float8Le y z = true → pg.float8Le x z = true

abbrev Hit := Capability × Option Float8

section Scores

variable (pg : Postgres) (text : Option String)

def boosted (k : Capability) (s : Float8) : Float8 :=
  if keywordHit pg text k then pg.keywordBoost s else s

/-- `1 - distance + boost`. -/
def vectorScore (r : Hit) : Option Float8 :=
  r.2.map (boosted pg text r.1)

/-- `COALESCE(cosine_similarity, -1) + boost`. -/
def portableScore (r : Hit) : Float8 :=
  boosted pg text r.1 (r.2.getD "-1")

/-- `ORDER BY distance`. -/
def closerRow (a b : Hit) : Prop :=
  closer pg a b = true

/-- `ORDER BY score DESC` of the aggregate over the extension's rows. -/
def listedRow (a b : Hit) : Prop :=
  listedBefore pg (a, vectorScore pg text a) (b, vectorScore pg text b) = true

def scoredRow (a b : Hit) : Prop :=
  pg.float8Le (portableScore pg text b) (portableScore pg text a) = true

instance : DecidableRel (closerRow pg) := fun a b => by
  unfold closerRow
  infer_instance

instance : DecidableRel (listedRow pg text) := fun a b => by
  unfold listedRow
  infer_instance

instance : DecidableRel (scoredRow pg text) := fun a b => by
  unfold scoredRow
  infer_instance

end Scores

/-- `GREATEST(1, LEAST(COALESCE(p_limit, 5), 20))`. -/
def searchLimit (limit : Option Int) : Nat :=
  (max 1 (min (limit.getD 5) 20)).toNat

/-- The permitted capabilities with the similarity of each; an empty query has none. -/
def searchHits (pg : Postgres) (c : Config) (query : List (Option Float8)) (requester : Option Uuid)
    (model : Option String) : Except String (List Hit) :=
  if query = [] then .ok []
  else withSimilarity pg (c.capabilities.filterMap fun k =>
    if k.lifecycle = .published ∧ requester.any (capabilityPermitted c · k) then
      embedded query.length model (·.embedding) (·.embeddingModel) k
    else none) query

/-- An answer of the query over the extension: ties stand in any order. -/
def VectorAnswer (pg : Postgres) (text : Option String) (n : Nat) (rows out : List Hit) : Prop :=
  ∃ ranked, Ranked (closerRow pg) rows ranked ∧ Ranked (listedRow pg text) (ranked.take n) out

def PortableAnswer (pg : Postgres) (text : Option String) (n : Nat) (rows out : List Hit) : Prop :=
  ∃ ranked, Ranked (scoredRow pg text) rows ranked ∧ Ranked (scoredRow pg text) (ranked.take n) out

/-- The candidates `rank_capabilities_by_embedding` may return, with the extension and without. -/
def RankAnswer (pg : Postgres) (vectorAvailable : Bool) (c : Config) (query : List (Option Float8))
    (requester : Option Uuid) (model text : Option String) (limit : Option Int) (out : List Hit) : Prop :=
  ∃ rows, searchHits pg c query requester model = .ok rows ∧
    if vectorAvailable then VectorAnswer pg text (searchLimit limit) rows out
    else PortableAnswer pg text (searchLimit limit) rows out

section Orders

variable {pg : Postgres} {text : Option String}

theorem Float8Order.closer_total (h : Float8Order pg) {α : Type} (a b : α × Option Float8) :
    closer pg a b = true ∨ closer pg b a = true := by
  unfold closer
  cases a.2 with
  | none =>
    cases b.2 with
    | none => exact .inl rfl
    | some y => exact .inr rfl
  | some x =>
    cases b.2 with
    | none => exact .inl rfl
    | some y => exact h.total y x

theorem Float8Order.closer_trans (h : Float8Order pg) {α : Type} {a b c : α × Option Float8}
    (hab : closer pg a b = true) (hbc : closer pg b c = true) : closer pg a c = true := by
  unfold closer at *
  cases ha : a.2 with
  | none =>
    rw [ha] at hab
    cases hb : b.2 with
    | none =>
      rw [hb] at hbc
      exact hbc
    | some y =>
      rw [hb] at hab
      cases hab
  | some x =>
    cases hc : c.2 with
    | none => rfl
    | some z =>
      cases hb : b.2 with
      | none =>
        rw [hb, hc] at hbc
        cases hbc
      | some y =>
        rw [ha, hb] at hab
        rw [hb, hc] at hbc
        exact h.trans z y x hbc hab

theorem Float8Order.listed_total (h : Float8Order pg) {α : Type} (a b : α × Option Float8) :
    listedBefore pg a b = true ∨ listedBefore pg b a = true := by
  unfold listedBefore
  cases a.2 with
  | none => exact .inl rfl
  | some x =>
    cases b.2 with
    | none => exact .inr rfl
    | some y => exact h.total y x

theorem Float8Order.listed_trans (h : Float8Order pg) {α : Type} {a b c : α × Option Float8}
    (hab : listedBefore pg a b = true) (hbc : listedBefore pg b c = true) :
    listedBefore pg a c = true := by
  unfold listedBefore at *
  cases ha : a.2 with
  | none => rfl
  | some x =>
    rw [ha] at hab
    cases hb : b.2 with
    | none =>
      rw [hb] at hab
      cases hab
    | some y =>
      rw [hb] at hab hbc
      cases hc : c.2 with
      | none =>
        rw [hc] at hbc
        cases hbc
      | some z =>
        rw [hc] at hbc
        exact h.trans z y x hbc hab

theorem Float8Order.closerRow (h : Float8Order pg) :
    Std.Total (closerRow pg) ∧ IsTrans Hit (closerRow pg) :=
  ⟨⟨h.closer_total⟩, ⟨fun _ _ _ => h.closer_trans⟩⟩

theorem Float8Order.listedRow (h : Float8Order pg) (text : Option String) :
    Std.Total (listedRow pg text) ∧ IsTrans Hit (listedRow pg text) :=
  ⟨⟨fun a b => h.listed_total (a, vectorScore pg text a) (b, vectorScore pg text b)⟩,
    ⟨fun _ _ _ => h.listed_trans⟩⟩

theorem Float8Order.scoredRow (h : Float8Order pg) (text : Option String) :
    Std.Total (scoredRow pg text) ∧ IsTrans Hit (scoredRow pg text) :=
  ⟨⟨fun a b => h.total (portableScore pg text b) (portableScore pg text a)⟩,
    ⟨fun _ _ _ hab hbc => h.trans _ _ _ hbc hab⟩⟩

end Orders

section Agreement

variable {pg : Postgres} {text : Option String} {n : Nat} {rows out out' ranked : List Hit}

/-- No two candidates have one boosted score. -/
def DistinctScores (pg : Postgres) (text : Option String) (rows : List Hit) : Prop :=
  rows.Pairwise fun a b => ¬ (scoredRow pg text a b ∧ scoredRow pg text b a)

/-- The candidates no worse than `d` by the boosted score. -/
def scoreRank (pg : Postgres) (text : Option String) (rows : List Hit) (d : Hit) : Nat :=
  rows.countP fun e => decide (scoredRow pg text e d)

/-- The candidates no worse than `d` by the similarity. -/
def similarityRank (pg : Postgres) (rows : List Hit) (d : Hit) : Nat :=
  rows.countP fun e => decide (closerRow pg e d)

/-- The boost lifts no candidate over the cut by similarity, and a candidate
without a similarity is first or behind the cut. -/
structure BoostsInside (pg : Postgres) (text : Option String) (n : Nat) (rows : List Hit) : Prop where
  kept : ∀ d ∈ rows, scoreRank pg text rows d ≤ n → similarityRank pg rows d ≤ n
  unscored : ∀ d ∈ rows, d.2 = none → scoreRank pg text rows d ≤ n → scoreRank pg text rows d = 1

/-- The best `n` by similarity plus boost, best first. -/
def TopByScore (pg : Postgres) (text : Option String) (n : Nat) (rows out : List Hit) : Prop :=
  ∃ ranked, Ranked (scoredRow pg text) rows ranked ∧ out = ranked.take n

theorem scoredRow_refl (h : Float8Order pg) (a : Hit) : scoredRow pg text a a :=
  (h.total _ _).elim id id

theorem DistinctScores.nodup (h : Float8Order pg) (hd : DistinctScores pg text rows) : rows.Nodup := by
  refine List.Pairwise.imp (fun {a b} hab => ?_) hd
  rintro rfl
  exact hab ⟨scoredRow_refl h a, scoredRow_refl h a⟩

theorem DistinctScores.eq_of_tie (hd : DistinctScores pg text rows) :
    ∀ a ∈ rows, ∀ b ∈ rows, scoredRow pg text a b → scoredRow pg text b a → a = b := by
  intro a ha b hb hab hba
  have : Std.Symm fun a b => ¬ (scoredRow pg text a b ∧ scoredRow pg text b a) :=
    ⟨fun _ _ h h' => h h'.symm⟩
  by_contra hne
  exact List.Pairwise.forall hd ha hb hne ⟨hab, hba⟩

section Rankings

variable (hfloat : Float8Order pg) (hd : DistinctScores pg text rows)

include hfloat hd

/-- A ranking by score has one place for each candidate. -/
theorem mem_take_scored_iff (h : Ranked (scoredRow pg text) rows ranked) {d : Hit} (hmem : d ∈ rows) :
    d ∈ ranked.take n ↔ scoreRank pg text rows d ≤ n := by
  have : Std.Refl (scoredRow pg text) := ⟨scoredRow_refl hfloat⟩
  exact h.mem_take_iff hd.eq_of_tie (hd.nodup hfloat) hmem

omit hfloat in
theorem portableAnswer_top (h : PortableAnswer pg text n rows out) : TopByScore pg text n rows out := by
  obtain ⟨ranked, hranked, hout⟩ := h
  refine ⟨ranked, hranked, ?_⟩
  have hsub : ∀ a ∈ ranked.take n, a ∈ rows := fun a ha =>
    hranked.perm.mem_iff.mp (List.mem_of_mem_take ha)
  refine hout.eq_of_distinct (fun a ha b hb => hd.eq_of_tie a (hsub a ha) b (hsub b hb)) ?_
  exact ⟨List.Perm.refl _, hranked.ordered.sublist (List.take_sublist n ranked)⟩

/-- The two cuts keep the same candidates. -/
theorem BoostsInside.take_perm (h : BoostsInside pg text n rows) {closest : List Hit}
    (hc : Ranked (closerRow pg) rows closest) (hs : Ranked (scoredRow pg text) rows ranked) :
    (ranked.take n).Perm (closest.take n) := by
  have hrefl : Std.Refl (closerRow pg) := ⟨fun a => (hfloat.closer_total a a).elim id id⟩
  have hnodup : (ranked.take n).Nodup :=
    (hs.perm.nodup_iff.mpr (hd.nodup hfloat)).sublist (List.take_sublist n ranked)
  have hsub : ranked.take n ⊆ closest.take n := fun d hmem => by
    have hrows : d ∈ rows := hs.perm.mem_iff.mp (List.mem_of_mem_take hmem)
    exact hc.mem_take_of_few hrows (h.kept d hrows ((mem_take_scored_iff hfloat hd hs hrows).mp hmem))
  refine (List.subperm_of_subset hnodup hsub).perm_of_length_le ?_
  rw [List.length_take, List.length_take, hc.perm.length_eq, hs.perm.length_eq]

/-- Among the kept candidates the order of the aggregate is that of the scores. -/
theorem BoostsInside.scored_of_listed (h : BoostsInside pg text n rows)
    (hs : Ranked (scoredRow pg text) rows ranked) {a b : Hit} (ha : a ∈ ranked.take n)
    (hb : b ∈ ranked.take n) (hab : listedRow pg text a b) : scoredRow pg text a b := by
  have hrows : a ∈ rows := hs.perm.mem_iff.mp (List.mem_of_mem_take ha)
  cases hsim : a.2 with
  | some x =>
    unfold listedRow listedBefore vectorScore at hab
    cases hother : b.2 with
    | none =>
      rw [hsim, hother] at hab
      cases hab
    | some y =>
      rw [hsim, hother] at hab
      unfold scoredRow portableScore
      rw [hsim, hother]
      exact hab
  | none =>
    -- the candidate without a similarity is the first of all
    have hfirst := h.unscored a hrows hsim ((mem_take_scored_iff hfloat hd hs hrows).mp ha)
    have hone : a ∈ ranked.take 1 := (mem_take_scored_iff hfloat hd hs hrows).mpr (Nat.le_of_eq hfirst)
    cases ranked with
    | nil => cases hone
    | cons r rs =>
      obtain rfl : a = r := List.mem_singleton.mp hone
      rcases List.mem_cons.mp (List.mem_of_mem_take hb) with rfl | hb
      · exact scoredRow_refl hfloat b
      · exact (List.pairwise_cons.mp hs.ordered).1 b hb

theorem BoostsInside.agree (h : BoostsInside pg text n rows) (hv : VectorAnswer pg text n rows out)
    (hp : PortableAnswer pg text n rows out') : out = out' := by
  obtain ⟨closest, hc, hout⟩ := hv
  obtain ⟨ranked, hs, hout'⟩ := hp
  have hperm := h.take_perm hfloat hd hc hs
  have hmem : ∀ a ∈ out, a ∈ ranked.take n := fun a ha =>
    hperm.mem_iff.mpr (hout.perm.mem_iff.mp ha)
  have hscored : out.Pairwise (scoredRow pg text) := hout.ordered.imp_of_mem fun ha hb hab =>
    h.scored_of_listed hfloat hd hs (hmem _ ha) (hmem _ hb) hab
  have hsub : ∀ a ∈ ranked.take n, a ∈ rows := fun a ha =>
    hs.perm.mem_iff.mp (List.mem_of_mem_take ha)
  have hlisted : Ranked (scoredRow pg text) (ranked.take n) out :=
    ⟨hout.perm.trans hperm.symm, hscored⟩
  exact hlisted.eq_of_distinct (fun a ha b hb => hd.eq_of_tie a (hsub a ha) b (hsub b hb)) hout'

/-- An answer by similarity that leaves `d` out. -/
theorem exists_vectorAnswer_without (text : Option String) {d : Hit} (hmem : d ∈ rows) (hrank : n < similarityRank pg rows d) :
    ∃ out, VectorAnswer pg text n rows out ∧ d ∉ out := by
  obtain ⟨_, _⟩ := hfloat.closerRow
  obtain ⟨_, _⟩ := hfloat.listedRow text
  obtain ⟨front, rest, hranked, hlen⟩ := exists_ranked_last (closerRow pg) hmem
  have hlong : n ≤ front.length := by
    unfold similarityRank at hrank
    omega
  refine ⟨_, ⟨_, hranked, ranked_insertionSort _ _⟩, ?_⟩
  rw [List.mem_insertionSort, List.take_append_of_le_length hlong]
  intro hfront
  have hnodup := hranked.perm.nodup_iff.mpr (hd.nodup hfloat)
  exact (List.nodup_append.mp hnodup).2.2 d (List.mem_of_mem_take hfront) d List.mem_cons_self rfl

omit hd in
/-- An answer by similarity lists a kept candidate without one first. -/
theorem exists_vectorAnswer_first (text : Option String) {d : Hit} (hmem : d ∈ rows) (hnone : d.2 = none)
    (hrank : similarityRank pg rows d ≤ n) : ∃ out, VectorAnswer pg text n rows (d :: out) := by
  obtain ⟨_, _⟩ := hfloat.closerRow
  obtain ⟨_, _⟩ := hfloat.listedRow text
  have hranked := ranked_insertionSort (closerRow pg) rows
  have hkept := hranked.mem_take_of_few hmem hrank
  have hfirst : ∀ b, listedRow pg text d b := fun b => by
    unfold listedRow listedBefore vectorScore
    rw [hnone]
    rfl
  have hrest := ranked_insertionSort (listedRow pg text)
    (((rows.insertionSort (closerRow pg)).take n).erase d)
  have hout := (ranked_singleton d).append hrest fun a ha b _ => by
    rw [List.mem_singleton.mp ha]
    exact hfirst b
  exact ⟨_, _, hranked, hout.perm.trans (List.perm_cons_erase hkept).symm, hout.ordered⟩

omit hd in
theorem exists_portableAnswer (text : Option String) (n : Nat) (rows : List Hit) : ∃ out, PortableAnswer pg text n rows out := by
  obtain ⟨_, _⟩ := hfloat.scoredRow text
  exact ⟨_, _, ranked_insertionSort _ _, ranked_insertionSort _ _⟩

theorem boostsInside_of_agree (h : ∀ out out', VectorAnswer pg text n rows out →
    PortableAnswer pg text n rows out' → out = out') : BoostsInside pg text n rows := by
  obtain ⟨out', hp⟩ := exists_portableAnswer hfloat text n rows
  obtain ⟨ranked, hs, hout'⟩ := portableAnswer_top hd hp
  have hkept : ∀ d ∈ rows, scoreRank pg text rows d ≤ n → similarityRank pg rows d ≤ n := by
    intro d hmem hrank
    by_contra hlow
    obtain ⟨out, hv, hnot⟩ := exists_vectorAnswer_without hfloat hd text hmem
      (Nat.lt_of_not_le hlow)
    have hin : d ∈ ranked.take n := (mem_take_scored_iff hfloat hd hs hmem).mpr hrank
    rw [h out out' hv hp, hout'] at hnot
    exact hnot hin
  refine ⟨hkept, fun d hmem hnone hrank => ?_⟩
  obtain ⟨out, hv⟩ := exists_vectorAnswer_first hfloat text hmem hnone (hkept d hmem hrank)
  have hfirst : d ∈ ranked.take 1 := by
    have heq := h _ out' hv hp
    rw [hout'] at heq
    cases ranked with
    | nil => cases n <;> cases heq
    | cons r rs =>
      cases n with
      | zero => cases heq
      | succ n =>
        rw [List.take_succ_cons] at heq
        cases heq
        exact List.mem_cons_self
  have hle := (mem_take_scored_iff hfloat hd hs hmem).mp hfirst
  have hpos : 0 < scoreRank pg text rows d :=
    List.countP_pos_iff.mpr ⟨d, hmem, decide_eq_true (scoredRow_refl hfloat d)⟩
  omega

end Rankings

/-- Both queries return the best candidates by similarity plus boost exactly
when the boosts stay inside the cut. -/
theorem rankAnswer_agree_iff {c : Config} {query : List (Option Float8)} {requester : Option Uuid}
    {model : Option String} {limit : Option Int} (hfloat : Float8Order pg)
    (hrows : searchHits pg c query requester model = .ok rows) (hd : DistinctScores pg text rows) :
    (∀ out out', RankAnswer pg true c query requester model text limit out →
      RankAnswer pg false c query requester model text limit out' →
        out = out' ∧ TopByScore pg text (searchLimit limit) rows out) ↔
      BoostsInside pg text (searchLimit limit) rows := by
  unfold RankAnswer
  simp only [hrows, Except.ok.injEq, exists_eq_left', if_true, Bool.false_eq_true,
    if_false]
  constructor
  · exact fun h => boostsInside_of_agree hfloat hd fun out out' hv hp => (h out out' hv hp).1
  · intro h out out' hv hp
    have heq := h.agree hfloat hd hv hp
    exact ⟨heq, heq ▸ portableAnswer_top hd hp⟩

end Agreement

section Search

variable {pg : Postgres} {text : Option String} {rows : List Hit}

theorem Float8Order.closer (h : Float8Order pg) : Std.Total (fun a b : Hit × Option Float8 =>
    closer pg a b = true) ∧ IsTrans (Hit × Option Float8) fun a b => closer pg a b = true :=
  ⟨⟨h.closer_total⟩, ⟨fun _ _ _ => h.closer_trans⟩⟩

theorem Float8Order.listed (h : Float8Order pg) : Std.Total (fun a b : Hit × Option Float8 =>
    listedBefore pg a b = true) ∧ IsTrans (Hit × Option Float8) fun a b => listedBefore pg a b = true :=
  ⟨⟨h.listed_total⟩, ⟨fun _ _ _ => h.listed_trans⟩⟩

theorem topCapabilities_vector (hfloat : Float8Order pg) (hv : pg.vectorAvailable = true) :
    VectorAnswer pg text 5 rows (topCapabilities pg text rows) := by
  obtain ⟨_, _⟩ := hfloat.closerRow
  obtain ⟨_, _⟩ := hfloat.listed
  refine ⟨_, ranked_insertionSort _ rows, ?_⟩
  have hlisted := (ranked_insertionSort
    (fun a b : Hit × Option Float8 => listedBefore pg a b = true)
    (((rows.insertionSort (closerRow pg)).take 5).map fun r => (r, vectorScore pg text r))).map_fst
    fun _ => mem_map_added
  rw [map_fst_map] at hlisted
  unfold topCapabilities
  simp only [hv, if_true]
  exact hlisted

theorem topCapabilities_portable (hfloat : Float8Order pg) (hv : pg.vectorAvailable = false) :
    PortableAnswer pg text 5 rows (topCapabilities pg text rows) := by
  obtain ⟨_, _⟩ := hfloat.closer
  obtain ⟨_, _⟩ := hfloat.listed
  have hsorted := ranked_insertionSort (fun a b : Hit × Option Float8 => closer pg a b = true)
    (rows.map fun r => (r, some (portableScore pg text r)))
  have hscored := hsorted.map_fst (f := fun r => some (portableScore pg text r))
    fun _ => mem_map_added
  have hlisted := (ranked_insertionSort
    (fun a b : Hit × Option Float8 => listedBefore pg a b = true)
    (((rows.map fun r => (r, some (portableScore pg text r))).insertionSort
      fun a b => closer pg a b = true).take 5)).map_fst
    (f := fun r => some (portableScore pg text r)) fun _ hy => mem_map_added (hsorted.perm.mem_iff.mp (List.mem_of_mem_take hy))
  rw [map_fst_map] at hscored
  rw [List.map_take] at hlisted
  refine ⟨_, hscored, ?_⟩
  unfold topCapabilities
  simp only [hv, Bool.false_eq_true, if_false, Option.map_some]
  exact hlisted

/-- A search of the control plane asks for the default number of candidates. -/
theorem rankCapabilitiesByEmbedding_answer {now : Time} {db db' : Db} {query : List (Option Float8)}
    {requester : Option Uuid} {model : Option String} {taskId : Uuid} {reply : Json}
    (hfloat : Float8Order pg) (hquery : query ≠ [])
    (h : rankCapabilitiesByEmbedding pg now db query requester model text taskId = .ok (db', reply)) :
    ∃ out, RankAnswer pg pg.vectorAvailable db.cfg query requester model text none out ∧
      reply = .arr (out.map fun r =>
        .object [("capability_id", .str (uuidText r.1.capabilityId)),
          ("type", .str r.1.capabilityType.text), ("name", .str r.1.name),
          ("description", .str (left r.1.description 1000)), ("metadata", r.1.metadata),
          ("similarity", similarityJson r.2), ("keyword_match", .bool (keywordHit pg text r.1))]) := by
  unfold rankCapabilitiesByEmbedding at h
  obtain ⟨ranked, hranked, h⟩ := bind_eq_ok.mp h
  obtain ⟨-, hout⟩ := Prod.mk.inj (Except.ok.inj h)
  refine ⟨topCapabilities pg text ranked, ⟨ranked, ?_, ?_⟩, hout.symm⟩
  · unfold searchHits
    rw [if_neg hquery]
    exact hranked
  · cases hv : pg.vectorAvailable with
    | true => exact topCapabilities_vector hfloat hv
    | false => exact topCapabilities_portable hfloat hv

end Search

section Overtaken

/-- A server whose vectors have length 1 and whose queries point along the first axis. -/
def axisServer : Postgres where
  rawParser := fun _ => .error "syntax error"
  explain := fun _ _ => .ok 0
  similarities := fun stored _ => .ok (stored.map fun v => v.head?.join)
  keywordBoost := fun s => if s = "0.28" then "0.43" else s
  keywordMatch := fun document query => document = query

def near : Capability :=
  { capabilityId := 1, capabilityType := .function, sourceId := some 11, name := "near"
    searchDocument := "restart a service", embedding := some [some "0.352", some "0.936"]
    embeddingModel := some "local:small" }

def matching : Capability :=
  { capabilityId := 2, capabilityType := .function, sourceId := some 12, name := "matching"
    searchDocument := "rotate a key", embedding := some [some "0.28", some "0.96"]
    embeddingModel := some "local:small" }

def twoCapabilities : Config :=
  { agents := [{ agentId := 7, name := "researcher" }]
    capabilities := [near, matching]
    permissions := [⟨7, .function, "near"⟩, ⟨7, .function, "matching"⟩] }

def axisQuery : List (Option Float8) := [some "1", some "0"]

theorem axisServer_order : Float8Order axisServer where
  total x y := by
    simpa [axisServer] using String.le_total x y
  trans x y z hxy hyz := by
    simp only [axisServer, decide_eq_true_eq] at *
    exact String.le_trans hxy hyz

def twoHits : List Hit := [(near, some "0.352"), (matching, some "0.28")]

theorem twoCapabilities_hits :
    searchHits axisServer twoCapabilities axisQuery (some 7) (some "local:small") = .ok twoHits := by
  decide +kernel

theorem twoHits_distinct : DistinctScores axisServer (some "rotate a key") twoHits := by
  unfold DistinctScores twoHits
  decide +kernel

theorem twoCapabilities_agree_iff :
    (∀ out out', RankAnswer axisServer true twoCapabilities axisQuery (some 7) (some "local:small")
        (some "rotate a key") (some 1) out →
      RankAnswer axisServer false twoCapabilities axisQuery (some 7) (some "local:small")
        (some "rotate a key") (some 1) out' →
        out = out' ∧ TopByScore axisServer (some "rotate a key") 1 twoHits out) ↔
      BoostsInside axisServer (some "rotate a key") 1 twoHits :=
  rankAnswer_agree_iff axisServer_order twoCapabilities_hits twoHits_distinct

/-- With the extension the nearer candidate is returned, without it the one that matches the text. -/
theorem answers_differ :
    RankAnswer axisServer true twoCapabilities axisQuery (some 7) (some "local:small")
        (some "rotate a key") (some 1) [(near, some "0.352")] ∧
      RankAnswer axisServer false twoCapabilities axisQuery (some 7) (some "local:small")
        (some "rotate a key") (some 1) [(matching, some "0.28")] ∧
      [(near, some "0.352")] ≠ [(matching, some "0.28")] := by
  have hcloser : closerRow axisServer (near, some "0.352") (matching, some "0.28") := by decide +kernel
  have hscored : scoredRow axisServer (some "rotate a key") (matching, some "0.28") (near, some "0.352") := by
    decide +kernel
  refine ⟨?_, ?_, by decide +kernel⟩
  · exact ⟨twoHits, twoCapabilities_hits, twoHits, ⟨List.Perm.refl _, List.pairwise_pair.mpr hcloser⟩,
      ranked_singleton _⟩
  · exact ⟨twoHits, twoCapabilities_hits, _, ⟨List.Perm.swap _ _ _, List.pairwise_pair.mpr hscored⟩,
      ranked_singleton _⟩

end Overtaken

end Allgres
