import Allgres.GuardedBuild
import Mathlib.Data.List.TakeWhile

/-! The lexer of PostgreSQL on dollar quotes, rule by rule, against the literals of `dollar_quote`. -/

namespace Allgres

section Lexer

/-- `dolq_start`. -/
def dolqStart (c : Char) : Bool :=
  c.isAlpha || c == '_' || decide (128 ≤ c.toNat)

/-- `dolq_cont`. -/
def dolqCont (c : Char) : Bool :=
  dolqStart c || c.isDigit

/-- The tag that starts here, which may be empty. -/
def dolqTag (s : List Char) : List Char :=
  if s.head?.any dolqStart then s.takeWhile dolqCont else []

theorem dolqTag_append (s : List Char) : dolqTag s ++ s.drop (dolqTag s).length = s := by
  unfold dolqTag
  split_ifs
  · exact List.prefix_iff_eq_append.mp (List.takeWhile_prefix _)
  · rfl

/-- The text of a dollar quote and what stands behind it, from inside the quote. -/
def scanDollar (delim : List Char) (s : List Char) : Option (List Char × List Char) :=
  match s with
  | [] => none
  | c :: s =>
    if c = '$' then
      match _h : s.drop (dolqTag s).length with
      | d :: rest =>
        if d = '$' then
          -- a delimiter, whose last `$` is scanned again when it is another one
          if '$' :: (dolqTag s ++ ['$']) = delim then some ([], rest)
          else (scanDollar delim ('$' :: rest)).map fun r => ('$' :: (dolqTag s ++ r.1), r.2)
        else (scanDollar delim (d :: rest)).map fun r => ('$' :: (dolqTag s ++ r.1), r.2)
      | [] => none
    else
      -- all up to the next `$`
      (scanDollar delim (s.dropWhile (· ≠ '$'))).map fun r => (c :: (s.takeWhile (· ≠ '$') ++ r.1), r.2)
termination_by s.length
decreasing_by
  · have hs := congrArg List.length (dolqTag_append s)
    rw [_h] at hs
    simp only [List.length_append, List.length_cons] at hs ⊢
    omega
  · have hs := congrArg List.length (dolqTag_append s)
    rw [_h] at hs
    simp only [List.length_append, List.length_cons] at hs ⊢
    omega
  · have hs := (List.dropWhile_suffix (l := s) (· ≠ '$')).length_le
    simp only [List.length_cons]
    omega

/-- A dollar-quoted constant: its delimiter, its text, and what stands behind it. -/
def lexDollarQuote (s : List Char) : Option (List Char × List Char × List Char) :=
  match s with
  | '$' :: t =>
    match t.drop (dolqTag t).length with
    | '$' :: text =>
      let delim := '$' :: (dolqTag t ++ ['$'])
      (scanDollar delim text).map fun r => (delim, r)
    | _ => none
  | _ => none

theorem dolqCont_plain {c : Char} (h : dolqCont c = true) : c ≠ '$' := by
  rintro rfl
  exact absurd h (by decide)

/-- A tag that the lexer takes whole. -/
def ValidTag (tag : List Char) : Prop :=
  (∀ c ∈ tag, dolqCont c = true) ∧ tag.head?.all dolqStart = true

theorem dolqTag_plain (s : List Char) : ∀ c ∈ dolqTag s, c ≠ '$' := by
  unfold dolqTag
  split_ifs
  · exact fun c hc => dolqCont_plain (List.mem_takeWhile_imp hc)
  · nofun

theorem dolqTag_valid {tag : List Char} (h : ValidTag tag) (rest : List Char) :
    dolqTag (tag ++ '$' :: rest) = tag := by
  unfold dolqTag
  cases tag with
  | nil => rfl
  | cons c tag =>
    have hc : dolqStart c = true := by simpa using h.2
    rw [List.cons_append, List.head?_cons, Option.any_some, if_pos hc, ← List.cons_append]
    exact takeWhile_stop h.1 rfl

theorem readUntil_skip {d u : List Char} (h : ∀ c ∈ u, c ≠ '$') (s : List Char) :
    readUntil ('$' :: d) (u ++ s) = (readUntil ('$' :: d) s).map (u ++ ·) := by
  induction u with
  | nil => simp
  | cons c u ih =>
    have hc : ¬ '$' :: d <+: c :: (u ++ s) := fun hpre =>
      h c List.mem_cons_self (List.cons_prefix_cons.mp hpre).1.symm
    rw [List.cons_append, readUntil, if_neg hc, ih fun e he => h e (List.mem_cons_of_mem c he), Option.map_map]
    rfl

theorem lexDollarQuote_open {t text : List Char} (h : t.drop (dolqTag t).length = '$' :: text) :
    lexDollarQuote ('$' :: t) =
      (scanDollar ('$' :: (dolqTag t ++ ['$'])) text).map fun r => ('$' :: (dolqTag t ++ ['$']), r) := by
  change (match t.drop (dolqTag t).length with
    | '$' :: text => (scanDollar ('$' :: (dolqTag t ++ ['$'])) text).map fun r => ('$' :: (dolqTag t ++ ['$']), r)
    | _ => none) = _
  rw [h]
  rfl

/-- A part without `$` ends in front of the first `$`. -/
theorem split_before_dollar {p : Char → Bool} (hp : p '$' = false) (u r : List Char) :
    ∃ w, u = (u ++ '$' :: r).takeWhile p ++ w ∧ (u ++ '$' :: r).dropWhile p = w ++ '$' :: r := by
  induction u with
  | nil => exact ⟨[], by simp [hp], by simp [hp]⟩
  | cons c u ih =>
    by_cases hc : p c = true
    · obtain ⟨w, hw, hdrop⟩ := ih
      refine ⟨w, ?_, ?_⟩
      · rw [List.cons_append, List.takeWhile_cons_of_pos hc, List.cons_append, ← hw]
      · rw [List.cons_append, List.dropWhile_cons_of_pos hc, hdrop]
    · exact ⟨c :: u, by simp [hc], by simp [hc]⟩

theorem dolqTag_split (u r : List Char) : ∃ w, u = dolqTag (u ++ '$' :: r) ++ w ∧
    (u ++ '$' :: r).drop (dolqTag (u ++ '$' :: r)).length = w ++ '$' :: r := by
  unfold dolqTag
  split_ifs
  · obtain ⟨w, hw, -⟩ := split_before_dollar (p := dolqCont) (by decide) u r
    refine ⟨w, hw, ?_⟩
    generalize (u ++ '$' :: r).takeWhile dolqCont = tag at hw
    rw [hw, List.append_assoc, List.drop_left]
  · exact ⟨u, rfl, rfl⟩

/-- The lexer ends a quote at the first place where its delimiter stands. -/
theorem scanDollar_of_readUntil {tag : List Char} (htag : ValidTag tag) {u rest : List Char}
    (h : readUntil ('$' :: (tag ++ ['$'])) (u ++ '$' :: (tag ++ '$' :: rest)) = some u) :
    scanDollar ('$' :: (tag ++ ['$'])) (u ++ '$' :: (tag ++ '$' :: rest)) = some (u, rest) := by
  induction hn : u.length using Nat.strongRecOn generalizing u with
  | _ n ih =>
    cases u with
    | nil =>
      have hdrop : (tag ++ '$' :: rest).drop (dolqTag (tag ++ '$' :: rest)).length = '$' :: rest := by
        rw [dolqTag_valid htag, List.drop_left]
      rw [List.nil_append, scanDollar, if_pos rfl]
      split
      · rename_i d rest' heq
        rw [hdrop] at heq
        obtain ⟨rfl, rfl⟩ := List.cons.inj heq
        rw [if_pos rfl, dolqTag_valid htag, if_pos rfl]
      · rename_i heq
        rw [hdrop] at heq
        cases heq
    | cons c u =>
      have hpre : ¬ '$' :: (tag ++ ['$']) <+: c :: (u ++ '$' :: (tag ++ '$' :: rest)) := by
        intro hpre
        rw [List.cons_append, readUntil, if_pos hpre] at h
        cases h
      -- the lexer goes on behind a part without `$`
      have hnext : ∀ {v w : List Char}, (∀ e ∈ v, e ≠ '$') → u = v ++ w →
          scanDollar ('$' :: (tag ++ ['$'])) (w ++ '$' :: (tag ++ '$' :: rest)) = some (w, rest) := by
        rintro v w hv rfl
        rw [List.cons_append, readUntil, if_neg hpre, List.append_assoc, readUntil_skip hv, Option.map_map] at h
        obtain ⟨x, hx, heq⟩ := Option.map_eq_some_iff.mp h
        obtain rfl : x = w := List.append_cancel_left (List.cons.inj heq).2
        exact ih x.length (by simp only [List.length_cons, List.length_append] at hn; omega) hx rfl
      rw [List.cons_append, scanDollar]
      by_cases hc : c = '$'
      · subst hc
        rw [if_pos rfl]
        obtain ⟨w, hw, hdrop⟩ := dolqTag_split u (tag ++ '$' :: rest)
        have hw' := hnext (dolqTag_plain _) hw
        generalize dolqTag (u ++ '$' :: (tag ++ '$' :: rest)) = t at hw hdrop
        split
        · rename_i d rest' heq
          rw [hdrop] at heq
          rw [heq] at hw'
          split_ifs with hd hdelim
          · subst hd
            refine absurd ?_ hpre
            rw [← hdelim, hw, List.append_assoc, heq]
            simp
          · subst hd
            rw [hw', Option.map_some, hw]
          · rw [hw', Option.map_some, hw]
        · rename_i heq
          rw [hdrop] at heq
          simp at heq
      · rw [if_neg hc]
        obtain ⟨w, hw, hdrop⟩ := split_before_dollar (p := (· ≠ '$')) (by decide) u (tag ++ '$' :: rest)
        have hv : ∀ e ∈ (u ++ '$' :: (tag ++ '$' :: rest)).takeWhile (· ≠ '$'), e ≠ '$' := fun e he => by
          simpa using List.mem_takeWhile_imp he
        rw [hdrop, hnext hv hw, Option.map_some, ← hw]

end Lexer

section Search

/-- `while body.contains("$tag$") { tag.push('x') }`, with a bound on the rounds. -/
def searchTag (body : List Char) : Nat → List Char → Option (List Char)
  | 0, _ => none
  | n + 1, tag => if ('$' :: tag ++ ['$']) <:+: body then searchTag body n (tag ++ ['x']) else some tag

/-- As long as the body, a tag cannot stand in it. -/
theorem searchTag_eq (body : List Char) {n : Nat} {tag : List Char} (h : body.length < tag.length + 2 + n) :
    searchTag body (n + 1) tag = some (freshTag body n tag) := by
  induction n generalizing tag with
  | zero =>
    have hfree : ¬('$' :: tag ++ ['$']) <:+: body := by
      intro hin
      have hlength := hin.length_le
      simp only [List.cons_append, List.length_cons, List.length_append, List.length_nil] at hlength
      omega
    rw [searchTag, if_neg hfree]
    rfl
  | succ n ih =>
    rw [searchTag, freshTag]
    split_ifs
    · refine ih ?_
      simp only [List.length_append, List.length_cons, List.length_nil]
      omega
    · rfl

theorem searchTag_more {body : List Char} {n : Nat} {tag t : List Char} (h : searchTag body n tag = some t)
    {m : Nat} (hm : n ≤ m) : searchTag body m tag = some t := by
  induction n generalizing tag m with
  | zero => cases h
  | succ n ih =>
    obtain ⟨m, rfl⟩ : ∃ k, m = k + 1 := ⟨m - 1, by omega⟩
    rw [searchTag] at h ⊢
    split_ifs at h ⊢
    · exact ih h (by omega)
    · exact h

theorem bodyTag_valid (nanos : Nat) (body : List Char) : ValidTag (bodyTag nanos body) := by
  refine ⟨fun c hc => ?_, ?_⟩
  · have h := bodyTag_tagChar nanos body c hc
    simp only [tagChar, Char.isAlphanum, Bool.or_eq_true, decide_eq_true_eq] at h
    simp only [dolqCont, dolqStart, Bool.or_eq_true, beq_iff_eq]
    tauto
  · rw [bodyTag_head]
    decide

theorem bodyTag_fresh (nanos : Nat) (body : List Char) : ¬('$' :: bodyTag nanos body ++ ['$']) <:+: body :=
  freshTag_fresh body body.length _ (Nat.le_add_left _ _)

end Search

/-- The search for a tag comes to an end, and the lexer reads the literal up to its own closing
tag, as the body between two line breaks. -/
theorem dollarQuote_exact (nanos : Nat) (body : String) :
    (∀ n, searchTag body.toList (body.toList.length + 1 + n) ("body_".toList ++ Nat.toDigits 16 nanos) =
      some (bodyTag nanos body.toList)) ∧
    ∀ rest, lexDollarQuote ((dollarQuote nanos body).toList ++ rest) =
      some ('$' :: (bodyTag nanos body.toList ++ ['$']), '\n' :: body.toList ++ ['\n'], rest) := by
  constructor
  · intro n
    exact searchTag_more (searchTag_eq body.toList (by omega)) (Nat.le_add_right _ n)
  · intro rest
    have hvalid := bodyTag_valid nanos body.toList
    have hfresh := bodyTag_fresh nanos body.toList
    unfold dollarQuote
    rw [String.toList_ofList]
    generalize bodyTag nanos body.toList = tag at hvalid hfresh ⊢
    have hnewline : '\n' ∉ '$' :: (tag ++ ['$']) := by
      intro hm
      simp only [List.mem_cons, List.mem_append, List.not_mem_nil, or_false] at hm
      rcases hm with h | h | h
      · exact absurd h (by decide)
      · exact absurd (hvalid.1 _ h) (by decide)
      · exact absurd h (by decide)
    have hinfix : ¬ '$' :: (tag ++ ['$']) <:+: '\n' :: body.toList := by
      intro h
      rcases List.infix_cons_iff.mp h with h | h
      · exact absurd (List.cons_prefix_cons.mp h).1 (by decide)
      · exact hfresh h
    have hread := readUntil_text rest hnewline (by simp) hinfix
    have hscan := scanDollar_of_readUntil hvalid (u := '\n' :: body.toList ++ ['\n'])
      (by simpa using hread)
    have hopen : (tag ++ '$' :: ('\n' :: body.toList ++ ['\n'] ++ '$' :: (tag ++ '$' :: rest))).drop
        (dolqTag (tag ++ '$' :: ('\n' :: body.toList ++ ['\n'] ++ '$' :: (tag ++ '$' :: rest)))).length =
        '$' :: ('\n' :: body.toList ++ ['\n'] ++ '$' :: (tag ++ '$' :: rest)) := by
      rw [dolqTag_valid hvalid, List.drop_left]
    rw [show '$' :: tag ++ ['$'] ++ '\n' :: body.toList ++ '\n' :: ('$' :: tag ++ ['$']) ++ rest =
      '$' :: (tag ++ '$' :: ('\n' :: body.toList ++ ['\n'] ++ '$' :: (tag ++ '$' :: rest))) by simp]
    rw [lexDollarQuote_open hopen, dolqTag_valid hvalid, hscan]
    rfl

end Allgres
