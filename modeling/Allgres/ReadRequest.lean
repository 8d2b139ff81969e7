import Allgres.Chunks
import Allgres.RpcGate
import Allgres.WebRequest
import Mathlib.Algebra.Group.Nat.Defs

/-! `read_http_request`: the request is read in as many pieces as the network makes of it, and parsed
when its length says that it is complete. -/

namespace Allgres

open Bytes

namespace HttpProtocol

/-- `char::is_whitespace`. -/
def isWhitespace (c : Char) : Bool :=
  let n := c.toNat
  (9 ≤ n && n ≤ 13) || (8192 ≤ n && n ≤ 8202) || n ∈ [32, 133, 160, 5760, 8232, 8233, 8239, 8287, 12288]

def trim (s : String) : String :=
  String.ofList (rtrimChars isWhitespace (ltrimChars isWhitespace s.toList))

/-- `str::split_whitespace`; the first argument is the word so far. -/
def splitWhitespace : List Char → List Char → List String
  | word, [] => if word = [] then [] else [String.ofList word]
  | word, c :: cs =>
    if isWhitespace c then
      if word = [] then splitWhitespace [] cs else String.ofList word :: splitWhitespace [] cs
    else splitWhitespace (word ++ [c]) cs

def stripCr (line : List Char) : List Char :=
  if line.getLast? = some '\r' then line.dropLast else line

/-- `str::lines`; the first argument is the line so far. -/
def lines : List Char → List Char → List String
  | line, [] => if line = [] then [] else [String.ofList line]
  | line, c :: cs =>
    if c = '\n' then String.ofList (stripCr line) :: lines [] cs else lines (line ++ [c]) cs

/-- `str::parse::<usize>`. -/
def parseUsize (s : String) : Option Nat :=
  let digits := match s.toList with
    | '+' :: cs => cs
    | cs => cs
  if digits ≠ [] ∧ digits.all Char.isDigit then
    (some (digits.foldl (fun n c => 10 * n + (c.toNat - 48)) 0)).filter (· < 2 ^ 64)
  else none

/-- The position behind the first `\r\n\r\n`. -/
def headEnd : List Byte → Option Nat
  | [] => none
  | b :: rest =>
    if [13, 10, 13, 10] <+: b :: rest then some 4 else (headEnd rest).map (· + 1)

def headLines (data : List Byte) (split : Nat) : List String :=
  lines [] (lossy none (data.take split))

def parseHeader (line : String) : Option (String × String) :=
  (splitOnce line ':').map fun kv => (lower (trim kv.1), trim kv.2)

def parseHttpRequest (data : List Byte) : Option HttpRequest := do
  let split ← headEnd data
  match headLines data split with
  | [] => none
  | first :: rest => match splitWhitespace [] first.toList with
    | method :: path :: _ =>
      some { method, path, headers := rest.filterMap parseHeader, body := toStringLossy (data.drop split) }
    | _ => none

def contentLength (data : List Byte) (headerEnd : Nat) : Nat :=
  match ((headLines data headerEnd).filterMap (splitOnce · ':')).find? fun kv =>
      eqIgnoreAsciiCase kv.1 "content-length" with
  | some kv => (parseUsize (trim kv.2)).getD 0
  | none => 0

/-- What a `read` of the stream gives. -/
inductive Received where
  | bytes (bs : List Byte)
  | closed
  | failed

structure ReadTurn where
  now : Nat
  received : Received

def requestDeadline : Nat :=
  5 * 1000000000

def bufferSize : Nat :=
  8192

/-- `usize` addition of a release build. -/
def addUsize (a b : Nat) : Nat :=
  (a + b) % 2 ^ 64

/-- The loop of `read_http_request`, up to the bytes it hands to the parser. A read that never comes back
counts as failed, as the socket's own timeout sees to. -/
def readLoop (deadline : Nat) : List Byte → Option Nat → Nat → List ReadTurn → Option (List Byte)
  | _, _, _, [] => none
  | data, headerEnd, want, t :: ts =>
    if deadline < t.now then none
    else match t.received with
      | .failed => none
      | .closed => some data
      | .bytes bs =>
        let data := data ++ bs
        if maxRequestBytes < data.length then none
        else
          let found := match headerEnd with
            | some h => (some h, want)
            | none => match headEnd data with
              | some h => (some h, contentLength data h)
              | none => (none, want)
          match found.1 with
          | some h =>
            if addUsize h found.2 ≤ data.length then some data else readLoop deadline data found.1 found.2 ts
          | none => readLoop deadline data found.1 found.2 ts

def readBytes (start : Nat) (turns : List ReadTurn) : Option (List Byte) :=
  readLoop (start + requestDeadline) [] none 0 turns

def readHttpRequest (start : Nat) (turns : List ReadTurn) : Option HttpRequest :=
  (readBytes start turns).bind parseHttpRequest

/-- The length the headers of a parsed request show. -/
def shownLength (r : HttpRequest) : Nat :=
  ((r.header "content-length").bind parseUsize).getD 0

end HttpProtocol

open HttpProtocol

section Head

variable {data more : List Byte} {h : Nat}

theorem headEnd_le (hh : headEnd data = some h) : 4 ≤ h ∧ h ≤ data.length := by
  induction data generalizing h with
  | nil => cases hh
  | cons b rest ih =>
    rw [headEnd] at hh
    split at hh
    · rename_i hpre
      have hlength := hpre.length_le
      obtain rfl := Option.some.inj hh
      exact ⟨Nat.le_refl 4, hlength⟩
    · obtain ⟨k, hk, rfl⟩ := Option.map_eq_some_iff.mp hh
      have hle := ih hk
      simp only [List.length_cons]
      omega

/-- The end of the head is where it is, whatever follows. -/
theorem headEnd_append (hh : headEnd data = some h) (more : List Byte) : headEnd (data ++ more) = some h := by
  induction data generalizing h with
  | nil => cases hh
  | cons b rest ih =>
    rw [headEnd] at hh
    rw [List.cons_append, headEnd]
    split at hh
    · rename_i hpre
      have hlonger : [13, 10, 13, 10] <+: b :: (rest ++ more) := hpre.trans (List.prefix_append (b :: rest) more)
      rw [if_pos hlonger]
      exact hh
    · rename_i hnot
      obtain ⟨k, hk, rfl⟩ := Option.map_eq_some_iff.mp hh
      have hstill : ¬[13, 10, 13, 10] <+: b :: (rest ++ more) := by
        intro hpre
        have hlength := (headEnd_le hk)
        apply hnot
        refine List.prefix_of_prefix_length_le hpre (List.prefix_append (b :: rest) more) ?_
        simp only [List.length_cons, List.length_nil]
        omega
      rw [if_neg hstill, ih hk]
      rfl

/-- The head is found as soon as it is there. -/
theorem headEnd_take (hh : headEnd data = some h) : headEnd (data.take h) = some h := by
  induction data generalizing h with
  | nil => cases hh
  | cons b rest ih =>
    rw [headEnd] at hh
    split at hh
    · rename_i hpre
      obtain rfl := Option.some.inj hh
      obtain ⟨tail, htail⟩ := hpre
      rw [← htail]
      show headEnd [13, 10, 13, 10] = some 4
      decide
    · rename_i hnot
      obtain ⟨k, hk, rfl⟩ := Option.map_eq_some_iff.mp hh
      have hstill : ¬[13, 10, 13, 10] <+: b :: rest.take k := fun hpre =>
        hnot (hpre.trans ((List.prefix_cons_inj b).mpr (List.take_prefix k rest)))
      rw [List.take_succ_cons, headEnd, if_neg hstill, ih hk]
      rfl

theorem headEnd_initial {d : List Byte} (hh : headEnd data = some h) (hd : d <+: data) :
    headEnd d = if h ≤ d.length then some h else none := by
  obtain ⟨rest, rfl⟩ := hd
  by_cases hle : h ≤ d.length
  · have htake := headEnd_append (headEnd_take hh) (d.drop h)
    rw [List.take_append_of_le_length hle, List.take_append_drop] at htake
    rw [if_pos hle, htake]
  · rw [if_neg hle]
    cases hd : headEnd d with
    | none => rfl
    | some k =>
      have hsame := headEnd_append hd rest
      rw [hh, Option.some.injEq] at hsame
      exact absurd (hsame ▸ (headEnd_le hd).2) hle

theorem headLines_append (hle : h ≤ data.length) (more : List Byte) :
    headLines (data ++ more) h = headLines data h := by
  unfold headLines
  rw [List.take_append_of_le_length hle]

theorem contentLength_append (hle : h ≤ data.length) (more : List Byte) :
    contentLength (data ++ more) h = contentLength data h := by
  unfold contentLength
  rw [headLines_append hle]

theorem parse_append (hh : headEnd data = some h) (more : List Byte) :
    parseHttpRequest (data ++ more) =
      (parseHttpRequest data).map fun r => { r with body := toStringLossy (data.drop h ++ more) } := by
  have hle := (headEnd_le hh).2
  unfold parseHttpRequest
  rw [headEnd_append hh more, hh]
  simp only [Option.bind_eq_bind, Option.bind_some, headLines_append hle, List.drop_append_of_le_length hle]
  split
  · rfl
  · split <;> rfl

end Head

/-- The loop has all it waits for. -/
def enough (data : List Byte) : Bool :=
  match headEnd data with
  | some h => addUsize h (contentLength data h) ≤ data.length
  | none => false

/-- The head and the length of the body, where the loop has found them. -/
def scanned (data : List Byte) : Option Nat × Nat :=
  match headEnd data with
  | some h => (some h, contentLength data h)
  | none => (none, 0)

/-- A stream that is left open makes the last read time out. -/
def streamEnd (closes : Bool) : Received :=
  if closes then .closed else .failed

/-- A stream of bytes arrives in time, in pieces that fit the buffer, and is closed or not. -/
structure Arrives (bs : List Byte) (closes : Bool) (start : Nat) (turns : List ReadTurn) : Prop where
  timely : ∀ t ∈ turns, t.now ≤ start + requestDeadline
  split : ∃ chunks : List (List Byte), chunks.flatten = bs ∧ (∀ c ∈ chunks, 0 < c.length ∧ c.length ≤ bufferSize) ∧
    turns.map (·.received) = chunks.map .bytes ++ [streamEnd closes]

section Loop

variable {data bs : List Byte} {h : Nat}

theorem scanned_append (more : List Byte) : scanned (data ++ more) = match scanned data with
    | (some h, want) => (some h, want)
    | (none, _) => scanned (data ++ more) := by
  unfold scanned
  cases hh : headEnd data with
  | none => rfl
  | some h => simp only [headEnd_append hh more, contentLength_append (headEnd_le hh).2]

/-- The loop reads until it has enough, or to the end of the stream. -/
theorem readLoop_eq {deadline : Nat} (data : List Byte) (closes : Bool) (chunks : List (List Byte)) {turns : List ReadTurn}
    (htimely : ∀ t ∈ turns, t.now ≤ deadline) (hmax : (data ++ chunks.flatten).length ≤ maxRequestBytes)
    (hturns : turns.map (·.received) = chunks.map .bytes ++ [streamEnd closes]) :
    readLoop deadline data (scanned data).1 (scanned data).2 turns =
      (Chunks.stopAt enough data chunks).or (if closes then some (data ++ chunks.flatten) else none) := by
  induction chunks generalizing data turns with
  | nil =>
    obtain ⟨t, rfl, ht⟩ : ∃ t, turns = [t] ∧ t.received = streamEnd closes := by
      simpa [List.map_eq_singleton_iff] using hturns
    have hnow : ¬ deadline < t.now := Nat.not_lt.mpr (htimely t List.mem_cons_self)
    cases closes <;> simp_all [readLoop, streamEnd, Chunks.stopAt]
  | cons c cs ih =>
    obtain ⟨t, ts, rfl, ht, hts⟩ := List.map_eq_cons_iff.mp hturns
    have hnow : ¬ deadline < t.now := Nat.not_lt.mpr (htimely t List.mem_cons_self)
    have hflatten : data ++ (c :: cs).flatten = data ++ c ++ cs.flatten := by simp
    rw [hflatten] at hmax ⊢
    have hroom : ¬ maxRequestBytes < (data ++ c).length := by
      simp only [List.length_append] at hmax ⊢
      omega
    have hrest := ih (data ++ c) (fun u hu => htimely u (List.mem_cons_of_mem _ hu)) hmax hts
    have hfound : (match (scanned data).1 with
        | some h => (some h, (scanned data).2)
        | none => match headEnd (data ++ c) with
          | some h => (some h, contentLength (data ++ c) h)
          | none => (none, (scanned data).2)) = scanned (data ++ c) := by
      rw [scanned_append]
      unfold scanned
      cases hh : headEnd data with
      | none => rfl
      | some h => rfl
    simp only [readLoop, ht, hfound]
    have henough : enough (data ++ c) = match headEnd (data ++ c) with
        | some h => decide (addUsize h (contentLength (data ++ c) h) ≤ (data ++ c).length)
        | none => false := rfl
    rw [if_neg hnow, if_neg hroom, Chunks.stopAt, henough]
    unfold scanned at hrest ⊢
    cases hh : headEnd (data ++ c) with
    | none => simpa [hh] using hrest
    | some h =>
      simp only [hh] at hrest ⊢
      by_cases hdone : addUsize h (contentLength (data ++ c) h) ≤ (data ++ c).length
      · simp only [hdone, if_true, decide_true, Option.some_or]
      · simpa only [hdone, if_false, decide_false, Bool.false_eq_true] using hrest

theorem readBytes_eq {closes : Bool} {start : Nat} {turns : List ReadTurn} (hmax : bs.length ≤ maxRequestBytes)
    (h : Arrives bs closes start turns) : ∃ chunks : List (List Byte), chunks.flatten = bs ∧
      readBytes start turns = (Chunks.stopAt enough [] chunks).or (if closes then some bs else none) := by
  obtain ⟨chunks, rfl, -, hturns⟩ := h.split
  refine ⟨chunks, rfl, ?_⟩
  have hloop := readLoop_eq [] closes chunks h.timely (by simpa using hmax) hturns
  simpa [readBytes, scanned, headEnd] using hloop

/-- What the loop hands on is enough, or all there is. -/
theorem readBytes_some {closes : Bool} {start : Nat} {turns : List ReadTurn} (hmax : bs.length ≤ maxRequestBytes)
    (h : Arrives bs closes start turns) (hread : readBytes start turns = some data) :
    data <+: bs ∧ (enough data = true ∨ (closes = true ∧ data = bs)) := by
  obtain ⟨chunks, rfl, hbytes⟩ := readBytes_eq hmax h
  rw [hbytes] at hread
  cases hstop : Chunks.stopAt enough [] chunks with
  | some d =>
    rw [hstop, Option.some_or, Option.some.injEq] at hread
    subst hread
    obtain ⟨henough, -, hpre⟩ := Chunks.stopAt_some hstop
    exact ⟨by simpa using hpre, .inl henough⟩
  | none =>
    rw [hstop, Option.none_or] at hread
    split at hread
    · rename_i hcloses
      obtain rfl := Option.some.inj hread
      exact ⟨List.prefix_rfl, .inr ⟨hcloses, rfl⟩⟩
    · cases hread

theorem readBytes_none {closes : Bool} {start : Nat} {turns : List ReadTurn} (hmax : bs.length ≤ maxRequestBytes)
    (h : Arrives bs closes start turns) (hread : readBytes start turns = none) : closes = false ∧ enough bs = false := by
  obtain ⟨chunks, rfl, hbytes⟩ := readBytes_eq hmax h
  rw [hbytes, Option.or_eq_none_iff] at hread
  have hnot : enough ([] ++ chunks.flatten) = false := Chunks.stopAt_none rfl hread.1
  exact ⟨by simpa using hread.2, by simpa using hnot⟩

/-- A stream arrives in any pieces that fit the buffer. -/
theorem arrives_in (chunks : List (List Byte)) (closes : Bool) (start : Nat)
    (hsize : ∀ c ∈ chunks, 0 < c.length ∧ c.length ≤ bufferSize) :
    Arrives chunks.flatten closes start
      ((chunks.map Received.bytes ++ [streamEnd closes]).map fun r => ⟨start, r⟩) where
  timely := by
    intro t ht
    obtain ⟨r, -, rfl⟩ := List.mem_map.mp ht
    exact Nat.le_add_right _ _
  split := ⟨chunks, rfl, hsize, by simp [List.map_map, Function.comp_def]⟩

theorem single_size {l c : List Byte} (h : c ∈ Chunks.single l) : 0 < c.length ∧ c.length ≤ bufferSize := by
  rw [Chunks.mem_single h]
  decide

end Loop

section Framing

variable {bs d : List Byte} {h : Nat}

theorem enough_iff (hh : headEnd bs = some h) (hfits : h + contentLength bs h < 2 ^ 64) (hd : d <+: bs) :
    enough d = true ↔ h + contentLength bs h ≤ d.length := by
  unfold enough
  rw [headEnd_initial hh hd]
  by_cases hle : h ≤ d.length
  · obtain ⟨rest, rfl⟩ := hd
    rw [contentLength_append hle] at hfits ⊢
    simp only [hle, if_true, addUsize, Nat.mod_eq_of_lt hfits, decide_eq_true_eq]
  · simp only [hle, if_false, Bool.false_eq_true, false_iff]
    omega

theorem enough_of_headless (hh : headEnd bs = none) (hd : d <+: bs) : enough d = false ∧ parseHttpRequest d = none := by
  have hnone : headEnd d = none := by
    cases hk : headEnd d with
    | none => rfl
    | some k =>
      obtain ⟨rest, rfl⟩ := hd
      rw [headEnd_append hk] at hh
      cases hh
  simp [enough, parseHttpRequest, hnone]

/-- Whatever has been read behind the head becomes the body. -/
theorem parse_initial (hh : headEnd bs = some h) (hd : d <+: bs) (hle : h ≤ d.length) :
    parseHttpRequest d = (parseHttpRequest (bs.take h)).map fun r => { r with body := toStringLossy (d.drop h) } := by
  have hhead : bs.take h = d.take h := by
    obtain ⟨rest, rfl⟩ := hd
    exact List.take_append_of_le_length hle
  have hparse := parse_append (headEnd_take hh) (d.drop h)
  have hdrop : (bs.take h).drop h = [] := List.drop_eq_nil_of_le (List.length_take_le _ _)
  rw [hdrop, List.nil_append, hhead, List.take_append_drop] at hparse
  rw [hparse, hhead]

end Framing

/-- Nothing but the bytes of a stream decides what is read, and what is read as a request is as long as
its own headers say. -/
structure BoundaryFree (bs : List Byte) (closes : Bool) (start : Nat) : Prop where
  same : ∀ ts ts', Arrives bs closes start ts → Arrives bs closes start ts' →
    readHttpRequest start ts = readHttpRequest start ts'
  whole : ∀ ts data r, Arrives bs closes start ts → readBytes start ts = some data →
    parseHttpRequest data = some r → ∃ h, headEnd bs = some h ∧ h + shownLength r ≤ bs.length ∧
      data = bs.take (h + shownLength r) ∧ r.body = toStringLossy ((bs.drop h).take (shownLength r))
  rejected : ∀ ts h r, Arrives bs closes start ts → headEnd bs = some h → parseHttpRequest (bs.take h) = some r →
    bs.length < h + shownLength r → readHttpRequest start ts = none
  fits : ∀ h, headEnd bs = some h → h + contentLength bs h < 2 ^ 64

/-- A stream with a head that can be parsed ends with the body its headers show, and the length the loop
waits for is no shorter; where the stream is left open, the loop may also wait for more than comes. -/
def Framed (bs : List Byte) (closes : Bool) : Prop :=
  ∀ h, headEnd bs = some h → h + contentLength bs h < 2 ^ 64 ∧ ∀ r, parseHttpRequest (bs.take h) = some r →
    if closes then bs.length = h + shownLength r ∧ shownLength r ≤ contentLength bs h
    else bs.length < h + contentLength bs h ∨ (bs.length = h + shownLength r ∧ shownLength r = contentLength bs h)

section Boundaries

variable {bs : List Byte} {closes : Bool} {start : Nat} {h : Nat} {r : HttpRequest}

/-- A framed stream is read to its end or not at all. -/
theorem readBytes_framed (hmax : bs.length ≤ maxRequestBytes) (hframed : Framed bs closes) (hh : headEnd bs = some h)
    (hr : parseHttpRequest (bs.take h) = some r) {ts : List ReadTurn} (hts : Arrives bs closes start ts) :
    readBytes start ts = if closes = false ∧ bs.length < h + contentLength bs h then none else some bs := by
  obtain ⟨hfits, hlength⟩ := hframed h hh
  have hwant := hlength r hr
  cases hread : readBytes start ts with
  | none =>
    obtain ⟨hopen, hnot⟩ := readBytes_none hmax hts hread
    have hshort : ¬ h + contentLength bs h ≤ bs.length := by
      rw [← enough_iff hh hfits List.prefix_rfl, hnot]
      exact Bool.false_ne_true
    rw [if_pos ⟨hopen, Nat.lt_of_not_le hshort⟩]
  | some data =>
    obtain ⟨hpre, hend⟩ := readBytes_some hmax hts hread
    have hle := hpre.length_le
    rcases hend with henough | ⟨hcloses, rfl⟩
    · have hdata := (enough_iff hh hfits hpre).mp henough
      have hnot : ¬ (closes = false ∧ bs.length < h + contentLength bs h) := by omega
      rw [if_neg hnot, Option.some.injEq]
      apply hpre.eq_of_length_le
      cases closes with
      | true =>
        simp only [if_true] at hwant
        omega
      | false =>
        simp only [Bool.false_eq_true, if_false] at hwant
        omega
    · rw [if_neg (by simp [hcloses])]

/-- Some pieces make the loop stop just when it has enough, and others one byte later. -/
theorem exists_arrival (closes : Bool) (start : Nat) (hmax : bs.length ≤ maxRequestBytes) (hh : headEnd bs = some h)
    (hfits : h + contentLength bs h < 2 ^ 64) {j : Nat} (hj : j ≤ 1) (hlong : h + contentLength bs h + j ≤ bs.length) :
    ∃ ts, Arrives bs closes start ts ∧ readBytes start ts = some (bs.take (h + contentLength bs h + j)) := by
  have hpos := (headEnd_le hh).1
  generalize hm : h + contentLength bs h = m at hfits hlong
  have hbefore : ∀ d, d <+: bs.take (m - 1) → enough d = false := by
    intro d hd
    have hle := hd.length_le
    have hpre : d <+: bs := hd.trans (List.take_prefix _ _)
    rw [← Bool.not_eq_true, enough_iff hh (by omega) hpre]
    simp only [List.length_take] at hle
    omega
  have hjoin : bs.take (m - 1) ++ (bs.drop (m - 1)).take (1 + j) = bs.take (m + j) := by
    rw [← List.take_add]
    congr 1
    omega
  have henough : enough (bs.take (m - 1) ++ (bs.drop (m - 1)).take (1 + j)) = true := by
    rw [hjoin, enough_iff hh (by omega) (List.take_prefix _ _)]
    simp only [List.length_take]
    omega
  let chunks := Chunks.single (bs.take (m - 1)) ++ (bs.drop (m - 1)).take (1 + j) :: Chunks.single (bs.drop (m + j))
  have hflatten : chunks.flatten = bs := by
    simp only [chunks, List.flatten_append, List.flatten_cons, Chunks.flatten_single, ← List.append_assoc, hjoin]
    exact List.take_append_drop _ _
  have hsize : ∀ c ∈ chunks, 0 < c.length ∧ c.length ≤ bufferSize := by
    intro c hc
    rcases List.mem_append.mp hc with hc | hc
    · exact single_size hc
    · rcases List.mem_cons.mp hc with rfl | hc
      · simp only [List.length_take, List.length_drop, bufferSize]
        omega
      · exact single_size hc
  have harrives := arrives_in chunks closes start hsize
  have hloop := readLoop_eq [] closes chunks harrives.timely (by simpa [hflatten] using hmax)
    (by simp [List.map_map, Function.comp_def])
  have hstop : Chunks.stopAt enough [] chunks = some (bs.take (m + j)) := by
    rw [← hjoin]
    exact Chunks.stopAt_single hbefore henough
  rw [hflatten] at harrives
  refine ⟨_, harrives, ?_⟩
  rw [hstop, Option.some_or] at hloop
  simpa [readBytes, scanned, headEnd] using hloop

theorem framed_of_boundaryFree (hmax : bs.length ≤ maxRequestBytes) (hfree : BoundaryFree bs closes start) :
    Framed bs closes := by
  intro h hh
  have hfits := hfree.fits h hh
  refine ⟨hfits, fun r hr => ?_⟩
  have hhead := (headEnd_le hh).2
  -- what is read is as long as the headers show
  have hwhole : ∀ ts k, Arrives bs closes start ts → h ≤ k → k ≤ bs.length → readBytes start ts = some (bs.take k) →
      k = h + shownLength r := by
    intro ts k hts hk hle hread
    have hparse := parse_initial hh (List.take_prefix k bs) (by simp only [List.length_take]; omega)
    rw [hr, Option.map_some] at hparse
    obtain ⟨h', hh', hlength, hdata, -⟩ := hfree.whole ts _ _ hts hread hparse
    obtain rfl : h = h' := Option.some.inj (hh.symm.trans hh')
    have hsame := congrArg List.length hdata
    simp only [List.length_take] at hsame
    have hshown : shownLength { r with body := toStringLossy ((bs.take k).drop h) } = shownLength r := rfl
    omega
  by_cases hlong : h + contentLength bs h ≤ bs.length
  · obtain ⟨ts, hts, hread⟩ := exists_arrival closes start hmax hh hfits (Nat.zero_le 1) hlong
    have hn := hwhole ts _ hts (by omega) hlong hread
    have hend : ¬ h + contentLength bs h + 1 ≤ bs.length := by
      intro hlonger
      obtain ⟨ts', hts', hread'⟩ := exists_arrival closes start hmax hh hfits (Nat.le_refl 1) hlonger
      have hn' := hwhole ts' _ hts' (by omega) hlonger hread'
      omega
    split
    · omega
    · omega
  · have hshort : ∀ d, d <+: bs → enough d = false := by
      intro d hd
      have hle := hd.length_le
      rw [← Bool.not_eq_true, enough_iff hh hfits hd]
      omega
    cases closes with
    | false => exact .inl (Nat.lt_of_not_le hlong)
    | true =>
      have harrives := arrives_in (Chunks.single bs) true start fun c hc => single_size hc
      rw [Chunks.flatten_single] at harrives
      cases hread : readBytes start _ with
      | none => exact absurd (readBytes_none hmax harrives hread).1 (by decide)
      | some data =>
        obtain ⟨hpre, henough | ⟨-, rfl⟩⟩ := readBytes_some hmax harrives hread
        · rw [hshort data hpre] at henough
          cases henough
        · have hn := hwhole _ data.length harrives hhead (Nat.le_refl _) (by rwa [List.take_length])
          simp only [if_true]
          omega

/-- A stream that is never parsed is rejected in whatever pieces it arrives. -/
theorem boundaryFree_of_unparsed (hfits : ∀ h, headEnd bs = some h → h + contentLength bs h < 2 ^ 64)
    (hnone : ∀ ts data, Arrives bs closes start ts → readBytes start ts = some data → parseHttpRequest data = none) :
    BoundaryFree bs closes start := by
  have hreject : ∀ ts, Arrives bs closes start ts → readHttpRequest start ts = none := by
    intro ts hts
    unfold readHttpRequest
    cases hread : readBytes start ts with
    | none => rfl
    | some data => exact hnone ts data hts hread
  refine ⟨?_, ?_, ?_, hfits⟩
  · intro ts ts' hts hts'
    rw [hreject ts hts, hreject ts' hts']
  · intro ts data r hts hread hr
    rw [hnone ts data hts hread] at hr
    cases hr
  · intro ts _ _ hts _ _ _
    exact hreject ts hts

theorem boundaryFree_of_framed (hmax : bs.length ≤ maxRequestBytes) (hframed : Framed bs closes) :
    BoundaryFree bs closes start := by
  have hfits : ∀ h, headEnd bs = some h → h + contentLength bs h < 2 ^ 64 := fun h hh => (hframed h hh).1
  cases hh : headEnd bs with
  | none =>
    refine boundaryFree_of_unparsed hfits fun ts data hts hread => ?_
    exact (enough_of_headless hh (readBytes_some hmax hts hread).1).2
  | some h =>
    have hhead := (headEnd_le hh).2
    cases hr : parseHttpRequest (bs.take h) with
    | none =>
      refine boundaryFree_of_unparsed hfits fun ts data hts hread => ?_
      obtain ⟨hpre, hend⟩ := readBytes_some hmax hts hread
      have hle : h ≤ data.length := by
        rcases hend with henough | ⟨-, rfl⟩
        · have hdata := (enough_iff hh (hfits h hh) hpre).mp henough
          omega
        · exact hhead
      rw [parse_initial hh hpre hle, hr]
      rfl
    | some r =>
      have hread : ∀ ts, Arrives bs closes start ts → readBytes start ts =
          if closes = false ∧ bs.length < h + contentLength bs h then none else some bs :=
        fun ts hts => readBytes_framed hmax hframed hh hr hts
      have hwant := (hframed h hh).2 r hr
      refine ⟨?_, ?_, ?_, ?_⟩
      · intro ts ts' hts hts'
        unfold readHttpRequest
        rw [hread ts hts, hread ts' hts']
      · intro ts data r' hts hdata hr'
        rw [hread ts hts] at hdata
        split at hdata
        · cases hdata
        · rename_i hfull
          obtain rfl := Option.some.inj hdata
          rw [parse_initial hh List.prefix_rfl hhead, hr, Option.map_some, Option.some.injEq] at hr'
          subst hr'
          have hshown : shownLength { r with body := toStringLossy (bs.drop h) } = shownLength r := rfl
          have hlength : bs.length = h + shownLength r := by
            cases closes with
            | true => exact hwant.1
            | false =>
              simp only [Bool.false_eq_true, if_false, true_and] at hwant hfull
              omega
          refine ⟨h, hh, by omega, ?_, ?_⟩
          · rw [hshown, ← hlength, List.take_length]
          · have hall : (bs.drop h).take (shownLength r) = bs.drop h :=
              List.take_of_length_le (by simp only [List.length_drop]; omega)
            rw [hshown, hall]
      · intro ts h' r' hts hh' hr' hshort
        obtain rfl : h = h' := Option.some.inj (hh.symm.trans hh')
        obtain rfl : r = r' := Option.some.inj (hr.symm.trans hr')
        have hopen : closes = false ∧ bs.length < h + contentLength bs h := by
          cases closes with
          | true =>
            simp only [if_true] at hwant
            omega
          | false =>
            simp only [Bool.false_eq_true, if_false] at hwant
            exact ⟨rfl, by omega⟩
        unfold readHttpRequest
        rw [hread ts hts, if_pos hopen]
        rfl
      · exact hfits

/-- A stream within the size limit is read the same in whatever pieces it arrives, and exactly, just if it
is framed. -/
theorem boundaryFree_iff (bs : List Byte) (closes : Bool) (start : Nat) (hmax : bs.length ≤ maxRequestBytes) :
    BoundaryFree bs closes start ↔ Framed bs closes :=
  ⟨framed_of_boundaryFree hmax, boundaryFree_of_framed hmax⟩

end Boundaries

/-- A request that ends with the body its header announces. -/
def wholePost : List Byte :=
  ofString "POST /api/v1/run HTTP/1.1\r\nContent-Length: 5\r\n\r\n[1,2]"

theorem wholePost_boundaryFree : BoundaryFree wholePost true 0 := by
  have hend : headEnd wholePost = some 48 := by decide +kernel
  have hlength : contentLength wholePost 48 = 5 := by decide +kernel
  have hshown : (parseHttpRequest (wholePost.take 48)).map shownLength = some 5 := by decide +kernel
  have hframed : Framed wholePost true := by
    intro h hh
    obtain rfl : 48 = h := Option.some.inj (hend.symm.trans hh)
    refine ⟨by rw [hlength]; decide, fun r hr => ?_⟩
    rw [hr, Option.map_some] at hshown
    rw [if_pos rfl, hlength, Option.some.inj hshown]
    exact ⟨by decide +kernel, Nat.le_refl 5⟩
  exact (boundaryFree_iff wholePost true 0 (by decide +kernel)).mpr hframed

/-- The client closes the connection before the body is complete. -/
def cutPost : List Byte :=
  ofString "POST /api/v1/run HTTP/1.1\r\nContent-Length: 5\r\n\r\n[1"

theorem cut_body_accepted :
    ¬ ∀ (bs : List Byte) (closes : Bool) (start : Nat), bs.length ≤ maxRequestBytes → BoundaryFree bs closes start := by
  intro h
  have hfree := h cutPost true 0 (by decide +kernel)
  have harrives := arrives_in [cutPost] true 0 (by decide +kernel)
  have hshown : (parseHttpRequest (cutPost.take 48)).map shownLength = some 5 := by decide +kernel
  obtain ⟨r, hr, hfive⟩ := Option.map_eq_some_iff.mp hshown
  have hnone := hfree.rejected _ 48 r harrives (by decide +kernel) hr (by rw [hfive]; decide +kernel)
  have hsome : (readHttpRequest 0 [⟨0, .bytes cutPost⟩, ⟨0, .closed⟩]).isSome = true := by decide +kernel
  have hread : readHttpRequest 0 [⟨0, .bytes cutPost⟩, ⟨0, .closed⟩] = none := hnone
  rw [hread] at hsome
  cases hsome

end Allgres
