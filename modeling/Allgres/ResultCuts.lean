import Allgres.Json
import Allgres.Raise

/-! The answer of `fn_run_sandboxed_sql`: the rows of one statement, cut at 200
rows and at 65536 bytes of JSON. -/

namespace Allgres

open Raise

/-- What the server returns for a statement, each value as `to_jsonb` has it. -/
structure QueryResult where
  columns : List String
  rows : List (List Json)
  shape : ∀ row ∈ rows, row.length = columns.length

namespace QueryResult

/-- `to_jsonb` of one row. -/
def rowJson (columns : List String) (row : List Json) : Json :=
  .object (columns.zip row)

def jsonRows (q : QueryResult) : List Json :=
  q.rows.map (rowJson q.columns)

/-- `to_jsonb(s)` over `FROM (…) s`: a simple name is matched to the columns of
the subquery before it is taken for the row. -/
def toJsonb (q : QueryResult) (name : String) : Except String (List Json) :=
  match q.columns.count name with
  | 0 => .ok q.jsonRows
  | 1 => .ok (q.rows.map fun row => ((q.columns.zip row).lookup name).getD .null)
  | _ => .error ("column reference " ++ Json.quote name ++ " is ambiguous")

end QueryResult

structure SandboxRows where
  rowCount : Nat
  truncated : Bool
  rows : List Json
  deriving DecidableEq

/-- `octet_length(rows::text)`. -/
def octets (rows : List Json) : Nat :=
  (Json.arr rows).render.utf8ByteSize

def rowLimit : Nat := 200

def byteLimit : Nat := 65536

/-- The `WHILE` loop; `rows - (n - 1)` drops the last of `n` elements. -/
def shrinkRows (rows : List Json) (truncated : Bool) : List Json × Bool :=
  if byteLimit < octets rows ∧ 1 < rows.length then shrinkRows rows.dropLast true
  else (rows, truncated)
termination_by rows.length
decreasing_by
  rw [List.length_dropLast]
  omega

def cutBytes (r : SandboxRows) : SandboxRows :=
  if byteLimit < octets r.rows then
    let (rows, truncated) := shrinkRows r.rows r.truncated
    ⟨rows.length, truncated, rows⟩
  else r

def cutRows (rows : List Json) : SandboxRows :=
  cutBytes (if rowLimit < rows.length then ⟨rowLimit, true, rows.take rowLimit⟩
    else ⟨rows.length, false, rows⟩)

/-- `subquery` is what the server makes of a statement as a subquery of a `FROM`
clause: its result, or the text of the error. -/
def sandboxRows (subquery : String → Except String QueryResult) (sql : String) :
    Except String SandboxRows := do
  let q ← subquery sql
  let rows ← q.toJsonb "s"
  pure (cutRows (rows.take 201))

def sandboxReply : Except String SandboxRows → Json
  | .error e => .object [("ok", .bool false), ("error", .str e)]
  | .ok r => .object [("ok", .bool true), ("row_count", .ofInt r.rowCount),
      ("truncated", .bool r.truncated), ("rows", .arr r.rows)]

def fnRunSandboxedSql (subquery : String → Except String QueryResult) (sql : String) : Json :=
  sandboxReply (sandboxRows subquery sql)

section Octets

open Json

theorem renderAll_size_le (xs : List Json) (x : Json) :
    (renderAll xs).utf8ByteSize ≤ (renderAll (xs ++ [x])).utf8ByteSize := by
  induction xs with
  | nil => simp [renderAll]
  | cons y ys ih =>
    cases ys with
    | nil =>
      simp only [List.cons_append, List.nil_append, renderAll, String.utf8ByteSize_append]
      omega
    | cons z zs =>
      simp only [List.cons_append, renderAll, String.utf8ByteSize_append] at ih ⊢
      omega

theorem octets_append_le (rows : List Json) (x : Json) : octets rows ≤ octets (rows ++ [x]) := by
  have h := renderAll_size_le rows x
  simp only [octets, render, String.utf8ByteSize_append]
  omega

theorem octets_take_le (rows : List Json) {j k : Nat} (h : j ≤ k) :
    octets (rows.take j) ≤ octets (rows.take k) := by
  induction h with
  | refl => exact Nat.le_refl _
  | @step k _ ih =>
    refine Nat.le_trans ih ?_
    rcases Nat.lt_or_ge k rows.length with hk | hk
    · rw [List.take_succ_eq_append_getElem hk]
      exact octets_append_le _ _
    · have hall : rows.take k = rows.take (k + 1) := by
        rw [List.take_of_length_le hk, List.take_of_length_le (by omega)]
      exact Nat.le_of_eq (congrArg octets hall)

end Octets

section Cut

variable {rows : List Json} {r : SandboxRows}

/-- `k` rows are the longest start of the rows that the bytes allow, or the one
row that is always returned. -/
structure LongestStart (rows : List Json) (k : Nat) : Prop where
  within : k ≤ rows.length
  some : rows ≠ [] → 0 < k
  fits : octets (rows.take k) ≤ byteLimit ∨ k ≤ 1
  longest : ∀ j ≤ rows.length, octets (rows.take j) ≤ byteLimit → j ≤ k

theorem longestStart_all (h : octets rows ≤ byteLimit ∨ rows.length ≤ 1) :
    LongestStart rows rows.length where
  within := Nat.le_refl _
  some := List.length_pos_of_ne_nil
  fits := by rwa [List.take_length]
  longest := fun _ hj _ => hj

/-- A start of fewer rows stays the longest when a last row does not fit. -/
theorem LongestStart.of_dropLast {k : Nat} (h : LongestStart rows.dropLast k)
    (hbig : byteLimit < octets rows) (hlen : 1 < rows.length) : LongestStart rows k := by
  have hdrop : rows.dropLast.length = rows.length - 1 := List.length_dropLast
  have hwithin := h.within
  have htake : ∀ j ≤ rows.length - 1, rows.dropLast.take j = rows.take j := fun j hj => by
    rw [List.dropLast_eq_take, List.take_take, Nat.min_eq_left hj]
  refine ⟨by omega, fun _ => h.some ?_, ?_, fun j hj hfits => ?_⟩
  · exact List.ne_nil_of_length_pos (by omega)
  · rw [← htake k (by omega)]
    exact h.fits
  · have hne : j ≠ rows.length := by
      rintro rfl
      rw [List.take_length] at hfits
      omega
    refine h.longest j (by omega) ?_
    rwa [htake j (by omega)]

theorem shrinkRows_eq (rows : List Json) (truncated : Bool) : ∃ k, LongestStart rows k ∧
    shrinkRows rows truncated = (rows.take k, truncated || decide (k < rows.length)) := by
  induction rows, truncated using shrinkRows.induct with
  | case1 rows truncated h ih =>
    obtain ⟨k, hk, heq⟩ := ih
    have hlen : rows.dropLast.length = rows.length - 1 := List.length_dropLast
    have hwithin := hk.within
    refine ⟨k, hk.of_dropLast h.1 h.2, ?_⟩
    rw [shrinkRows, if_pos h, heq, List.dropLast_eq_take, List.take_take]
    have hlt : k < rows.length := by omega
    rw [Nat.min_eq_left (by omega), decide_eq_true hlt, Bool.true_or, Bool.or_true]
  | case2 rows truncated h =>
    refine ⟨rows.length, longestStart_all (by omega), ?_⟩
    rw [shrinkRows, if_neg h, List.take_length, decide_eq_false (Nat.lt_irrefl _), Bool.or_false]

/-- What the answer says of the rows of the statement. -/
structure SandboxCut (rows : List Json) (r : SandboxRows) : Prop where
  isStart : r.rows = (rows.take rowLimit).take r.rows.length
  longest : octets (rows.take 1) ≤ byteLimit → octets r.rows ≤ byteLimit ∧
    ∀ j ≤ (rows.take rowLimit).length, octets (rows.take j) ≤ byteLimit → j ≤ r.rows.length
  oversized : byteLimit < octets (rows.take 1) → r.rows.length = 1
  rowCount : r.rowCount = r.rows.length
  truncated : r.truncated = true ↔ r.rows.length < rows.length

theorem LongestStart.sandboxCut {k : Nat} (h : LongestStart (rows.take rowLimit) k) :
    SandboxCut rows ⟨k, decide (k < rows.length), rows.take k⟩ := by
  have hwithin := h.within
  rw [List.length_take] at hwithin
  have htake : ∀ j ≤ rowLimit, (rows.take rowLimit).take j = rows.take j := fun j hj => by
    rw [List.take_take, Nat.min_eq_left hj]
  have hlen : (rows.take k).length = k := by
    rw [List.length_take]
    omega
  have hlimit : k ≤ rowLimit := by omega
  refine ⟨?_, fun hone => ?_, fun hone => ?_, hlen.symm, ?_⟩
  · rw [hlen, htake k hlimit]
  · dsimp only
    rw [hlen]
    refine ⟨?_, fun j hj hfits => h.longest j hj ?_⟩
    · rcases h.fits with hfits | hk
      · rwa [htake k hlimit] at hfits
      · exact Nat.le_trans (octets_take_le rows hk) hone
    · rw [List.length_take] at hj
      rwa [htake j (by omega)]
  · dsimp only
    rw [hlen]
    have hpos : rows.take rowLimit ≠ [] := by
      rintro hnil
      have hempty : rows = [] := by
        simpa [rowLimit] using hnil
      rw [hempty] at hone
      exact absurd hone (by decide +kernel)
    have hk := h.some hpos
    rcases h.fits with hfits | hle
    · rw [htake k hlimit] at hfits
      have hmono := octets_take_le rows (show 1 ≤ k from hk)
      omega
    · omega
  · dsimp only
    rw [hlen, decide_eq_true_iff]

theorem cutRows_take (rows : List Json) : cutRows (rows.take 201) =
    cutBytes ⟨(rows.take rowLimit).length, decide ((rows.take rowLimit).length < rows.length),
      rows.take rowLimit⟩ := by
  have hlen : (rows.take 201).length = min 201 rows.length := List.length_take
  have hlimit : (rows.take rowLimit).length = min 200 rows.length := List.length_take
  unfold cutRows
  by_cases hmore : rowLimit < (rows.take 201).length
  · have hmany : 200 < rows.length := by
      have h := hmore
      unfold rowLimit at h
      omega
    have hlt : (rows.take rowLimit).length < rows.length := by omega
    have htake : (rows.take 201).take rowLimit = rows.take rowLimit := by
      rw [List.take_take]
      rfl
    have hwindow : (rows.take rowLimit).length = rowLimit := by
      unfold rowLimit at hlimit ⊢
      omega
    rw [if_pos hmore, decide_eq_true hlt, hwindow, htake]
  · have hfew : rows.length ≤ 200 := by
      have h := hmore
      unfold rowLimit at h
      omega
    have hle : ¬ (rows.take rowLimit).length < rows.length := by omega
    rw [if_neg hmore, decide_eq_false hle, List.take_of_length_le (by omega : rows.length ≤ 201),
      List.take_of_length_le (by unfold rowLimit; omega : rows.length ≤ rowLimit)]

/-- The two cuts and their counts, on the rows behind `LIMIT 201`. -/
theorem cutRows_sandboxCut (rows : List Json) : SandboxCut rows (cutRows (rows.take 201)) := by
  rw [cutRows_take]
  unfold cutBytes
  split
  · obtain ⟨k, hk, heq⟩ := shrinkRows_eq (rows.take rowLimit)
      (decide ((rows.take rowLimit).length < rows.length))
    have hwithin := hk.within
    have hle : (rows.take rowLimit).length ≤ rows.length := List.length_take_le' _ _
    have hflag : (decide ((rows.take rowLimit).length < rows.length) ||
        decide (k < (rows.take rowLimit).length)) = decide (k < rows.length) := by
      rw [← Bool.decide_or]
      exact decide_eq_decide.mpr (by omega)
    have hrows : (rows.take rowLimit).take k = rows.take k := by
      rw [List.length_take] at hwithin
      rw [List.take_take, Nat.min_eq_left (by omega)]
    have hlen : (rows.take k).length = k := by
      rw [List.length_take]
      omega
    rw [heq, hflag, hrows]
    dsimp only
    rw [hlen]
    exact hk.sandboxCut
  · rename_i hfits
    have hall := (longestStart_all (.inl (Nat.le_of_not_lt hfits))).sandboxCut
    have hrows : rows.take (rows.take rowLimit).length = rows.take rowLimit := by
      rw [List.length_take, ← List.take_eq_take_min]
    rw [hrows] at hall
    exact hall

theorem SandboxCut.rows_ne_nil (h : SandboxCut rows r) (hne : rows ≠ []) : r.rows ≠ [] := by
  have hpos : 0 < rows.length := List.length_pos_of_ne_nil hne
  have hwindow : 1 ≤ (rows.take rowLimit).length := by
    rw [List.length_take]
    exact Nat.le_min.mpr ⟨by decide, hpos⟩
  refine List.ne_nil_of_length_pos ?_
  rcases Nat.lt_or_ge byteLimit (octets (rows.take 1)) with hone | hone
  · exact h.oversized hone ▸ Nat.one_pos
  · exact (h.longest hone).2 1 hwindow hone

theorem SandboxCut.head_eq (h : SandboxCut rows r) (hne : rows ≠ []) : r.rows.head? = rows.head? := by
  have hr := h.rows_ne_nil hne
  have hlen : r.rows.length ≠ 0 := Nat.ne_of_gt (List.length_pos_of_ne_nil hr)
  rw [h.isStart, List.head?_take, if_neg hlen, List.head?_take]
  rfl

end Cut

section Names

open QueryResult

variable {q : QueryResult} {subquery : String → Except String QueryResult} {sql : String}

theorem toJsonb_of_free (h : q.columns.count "s" = 0) : q.toJsonb "s" = .ok q.jsonRows := by
  unfold toJsonb
  split
  · rfl
  · omega
  · contradiction

theorem toJsonb_of_taken (h : q.columns.count "s" = 1) : q.toJsonb "s" =
    .ok (q.rows.map fun row => ((q.columns.zip row).lookup "s").getD .null) := by
  unfold toJsonb
  split
  · omega
  · rfl
  · contradiction

theorem toJsonb_of_ambiguous (h : 2 ≤ q.columns.count "s") :
    ∃ e, q.toJsonb "s" = .error e := by
  unfold toJsonb
  split
  · omega
  · omega
  · exact ⟨_, rfl⟩

theorem rowJson_get {row : List Json} (hname : q.columns.count "s" = 1) (hrow : row ∈ q.rows) :
    ∃ v, (q.columns.zip row).lookup "s" = some v ∧ (rowJson q.columns row).get "s" = some v := by
  have hkeys : (q.columns.zip row).map (·.1) = q.columns :=
    List.map_fst_zip (Nat.le_of_eq (q.shape row hrow).symm)
  have hget : (rowJson q.columns row).get "s" = (q.columns.zip row).lookup "s" :=
    Json.get_object_once (by rw [hkeys]; exact Nat.le_of_eq hname)
  have hmem : "s" ∈ (Json.obj (q.columns.zip row)).keys := by
    rw [Json.keys, hkeys]
    exact List.count_pos_iff.mp (by omega)
  obtain ⟨v, hv⟩ := Option.isSome_iff_exists.mp (Json.mem_keys.mp hmem)
  exact ⟨v, hv, hget.trans hv⟩

theorem sandboxReply_rows {r r' : SandboxRows} (h : sandboxReply (.ok r) = sandboxReply (.ok r')) :
    r.rows = r'.rows := by
  have hget : ∀ x : SandboxRows, (sandboxReply (.ok x)).get "rows" = some (.arr x.rows) := fun x =>
    Json.get_object (by simp) "rows"
  have heq := hget r
  rw [h, hget r'] at heq
  injection heq with heq
  injection heq with heq
  exact heq.symm

theorem sandboxReply_error_ne (e : String) (r : SandboxRows) :
    sandboxReply (.error e) ≠ sandboxReply (.ok r) := by
  intro h
  have herror : (sandboxReply (.error e)).get "ok" = some (.bool false) := Json.get_object (by simp) _
  have hok : (sandboxReply (.ok r)).get "ok" = some (.bool true) := Json.get_object (by simp) _
  rw [h, hok] at herror
  cases herror

theorem sandboxRows_eq (h : subquery sql = .ok q) : sandboxRows subquery sql =
    (q.toJsonb "s" >>= fun rows => .ok (cutRows (rows.take 201))) := by
  unfold sandboxRows
  rw [h]
  rfl

/-- With a column `s` the values of that column are returned for the rows. -/
theorem not_cut_of_column {r : SandboxRows} (h : subquery sql = .ok q) (hs : "s" ∈ q.columns)
    (hrows : ¬ (q.columns.count "s" = 1 ∧ q.rows = []))
    (hreply : fnRunSandboxedSql subquery sql = sandboxReply (.ok r)) : ¬ SandboxCut q.jsonRows r := by
  intro hcut
  have hcount := List.count_pos_iff.mpr hs
  unfold fnRunSandboxedSql at hreply
  rw [sandboxRows_eq h] at hreply
  rcases Nat.lt_or_ge (q.columns.count "s") 2 with hone | htwo
  · have hone : q.columns.count "s" = 1 := by omega
    have hne : q.rows ≠ [] := fun hnil => hrows ⟨hone, hnil⟩
    rw [toJsonb_of_taken hone] at hreply
    have hsame := sandboxReply_rows hreply
    have hhead := (cutRows_sandboxCut (q.rows.map fun row =>
      ((q.columns.zip row).lookup "s").getD .null)).head_eq (by simpa using hne)
    rw [hsame, hcut.head_eq (by simpa [jsonRows] using hne)] at hhead
    obtain ⟨row, rows, hq⟩ := List.exists_cons_of_ne_nil hne
    obtain ⟨v, hv, hget⟩ := rowJson_get hone (hq ▸ List.mem_cons_self : row ∈ q.rows)
    have heq : rowJson q.columns row = v := by simpa [jsonRows, hq, hv] using hhead
    exact Json.get_ne_self _ _ (heq ▸ hget)
  · obtain ⟨e, he⟩ := toJsonb_of_ambiguous htwo
    rw [he] at hreply
    exact sandboxReply_error_ne e r hreply

/-- The answer is the cut of the rows of the statement exactly when no column of
it is named `s`, a result without rows apart. -/
theorem fnRunSandboxedSql_cut_iff (h : subquery sql = .ok q) :
    (∃ r, fnRunSandboxedSql subquery sql = sandboxReply (.ok r) ∧ SandboxCut q.jsonRows r) ↔
      "s" ∉ q.columns ∨ (q.columns.count "s" = 1 ∧ q.rows = []) := by
  constructor
  · rintro ⟨r, hreply, hcut⟩
    by_contra hname
    obtain ⟨hs, hrows⟩ := not_or.mp hname
    exact not_cut_of_column h (not_not.mp hs) hrows hreply hcut
  · unfold fnRunSandboxedSql
    rw [sandboxRows_eq h]
    rintro (hs | ⟨hone, hnil⟩)
    · rw [toJsonb_of_free (List.count_eq_zero.mpr hs)]
      exact ⟨_, rfl, cutRows_sandboxCut _⟩
    · have hempty : q.jsonRows = [] := by rw [jsonRows, hnil, List.map_nil]
      have hcut := cutRows_sandboxCut []
      rw [toJsonb_of_taken hone, hnil, List.map_nil, hempty]
      exact ⟨_, rfl, hcut⟩

/-- The result of `SELECT 1 AS <column>`. -/
def oneRow (column : String) : QueryResult where
  columns := [column]
  rows := [[.num "1"]]
  shape := fun row hrow => by rw [List.mem_singleton.mp hrow]; rfl

/-- The result of `SELECT 1 AS id, 'x' AS t FROM generate_series(1, 300)`. -/
def manyRows : QueryResult where
  columns := ["id", "t"]
  rows := List.replicate 300 [.num "1", .str "x"]
  shape := fun row hrow => by rw [(List.mem_replicate.mp hrow).2]; rfl

def manyRowsQuery : String :=
  "SELECT 1 AS id, 'x' AS t FROM generate_series(1, 300)"

def manyRowsServer (_ : String) : Except String QueryResult :=
  .ok manyRows

theorem manyRows_cut :
    ∃ r, fnRunSandboxedSql manyRowsServer manyRowsQuery = sandboxReply (.ok r) ∧
      SandboxCut manyRows.jsonRows r ∧ r.truncated = true := by
  have hanswer : manyRowsServer manyRowsQuery = .ok manyRows := rfl
  have hname : "s" ∉ manyRows.columns := by decide
  obtain ⟨r, hreply, hcut⟩ := (fnRunSandboxedSql_cut_iff hanswer).mpr (.inl hname)
  refine ⟨r, hreply, hcut, hcut.truncated.mpr ?_⟩
  have hlength : manyRows.jsonRows.length = 300 := (List.length_map _).trans List.length_replicate
  have hlimit : r.rows.length ≤ rowLimit := by
    rw [hcut.isStart, List.length_take, List.length_take]
    omega
  rw [hlength]
  exact Nat.lt_of_le_of_lt hlimit (by decide)

theorem row_replaced_by_column : ¬ ∃ r,
    fnRunSandboxedSql (fun _ => .ok (oneRow "s")) "SELECT 1 AS s" = sandboxReply (.ok r) ∧
      SandboxCut (oneRow "s").jsonRows r := by
  rintro ⟨r, hreply, hcut⟩
  exact not_cut_of_column rfl List.mem_cons_self (by decide) hreply hcut

end Names

end Allgres
