import Allgres.NodeDump
import Allgres.SqlParser

/-! Tokens. What `outToken` writes never closes a bracket, keeps its blanks
escaped and is what `read_token` reads back. -/

namespace Allgres

open Scan

theorem tokenSpecial_eq_false {c : Char} (h : tokenSpecial c = false) :
    c ≠ ' ' ∧ c ≠ '\\' ∧ (c ≠ '{' ∧ c ≠ '}') ∧ (c ≠ '(' ∧ c ≠ ')') := by
  simp only [tokenSpecial, Bool.or_eq_false_iff, beq_eq_false_iff_ne] at h
  tauto

theorem leadingSpecial_head {c : Char} {s : Chars} (h : leadingSpecial (c :: s) = true) :
    tokenSpecial c = false := by
  have hc : c = '<' ∨ c = '"' ∨ c.isDigit = true ∨ c = '+' ∨ c = '-' := by
    simp only [leadingSpecial, Bool.or_eq_true, Bool.and_eq_true, beq_iff_eq] at h
    tauto
  rcases hc with rfl | rfl | hd | rfl | rfl
  · decide
  · decide
  · cases hs : tokenSpecial c with
    | false => rfl
    | true =>
      simp only [tokenSpecial, Bool.or_eq_true, beq_iff_eq] at hs
      have : c.isDigit = false := by
        rcases hs with ((((((rfl | rfl) | rfl) | rfl) | rfl) | rfl) | rfl) | rfl <;> decide
      rw [hd] at this
      exact absurd this (by decide)
  · decide
  · decide

/-- The shape of a token: its first character may have a backslash of its own. -/
theorem outToken_cons (c : Char) (s : Chars) :
    ∃ front, outToken (c :: s) = front ++ s.flatMap tokenEscape ∧
      (front = ['\\', c] ∨
        front = [c] ∧ tokenSpecial c = false ∧ leadingSpecial (c :: s) = false) := by
  cases hl : leadingSpecial (c :: s) with
  | true =>
    refine ⟨['\\', c], ?_, Or.inl rfl⟩
    simp [outToken, hl, tokenEscape, leadingSpecial_head hl]
  | false =>
    refine ⟨tokenEscape c, by simp [outToken, hl], ?_⟩
    cases hs : tokenSpecial c with
    | true => exact Or.inl (by simp [tokenEscape, hs])
    | false => exact Or.inr ⟨by simp [tokenEscape, hs], rfl, rfl⟩

section Brackets

variable {op cl : Char}

/-- Both kinds of brackets are protected in a token. -/
def Protected (op cl : Char) : Prop :=
  ∀ c, tokenSpecial c = false → c ≠ op ∧ c ≠ cl

theorem protected_braces : Protected '{' '}' :=
  fun _ h => (tokenSpecial_eq_false h).2.2.1

theorem protected_parens : Protected '(' ')' :=
  fun _ h => (tokenSpecial_eq_false h).2.2.2

theorem plain_of_all {s : Chars} (h : s.all (!tokenSpecial ·) = true) : ∀ c ∈ s, tokenSpecial c = false := by
  intro c hc
  simpa using List.all_eq_true.mp h c hc

theorem Protected.neutral_plain (hp : Protected op cl) {s : Chars}
    (h : ∀ c ∈ s, tokenSpecial c = false) : Neutral '\\' op cl s :=
  Neutral.of_forall fun c hc => ⟨(tokenSpecial_eq_false (h c hc)).2.1, hp c (h c hc)⟩

theorem Protected.neutral_escape (hp : Protected op cl) (c : Char) :
    Neutral '\\' op cl (tokenEscape c) := by
  cases hs : tokenSpecial c with
  | true =>
    simp only [tokenEscape, hs, if_true]
    exact Neutral.pair c
  | false =>
    have : tokenEscape c = [c] := by simp [tokenEscape, hs]
    rw [this]
    exact hp.neutral_plain (by simpa using hs)

theorem Protected.neutral_outToken (hp : Protected op cl) (s : Chars) :
    Neutral '\\' op cl (outToken s) := by
  cases s with
  | nil => exact hp.neutral_plain (plain_of_all (by decide))
  | cons c s =>
    obtain ⟨front, he, hf⟩ := outToken_cons c s
    rw [he]
    refine Neutral.append ?_ (Neutral.flatMap fun b _ => hp.neutral_escape b)
    rcases hf with rfl | ⟨rfl, hs, _⟩
    · exact Neutral.pair c
    · exact hp.neutral_plain (by simpa using hs)

theorem Protected.neutral_outString (hp : Protected op cl) (s : Chars) :
    Neutral '\\' op cl (outString s) := by
  have hq : Neutral '\\' op cl ['"'] := hp.neutral_plain (plain_of_all (by decide))
  have hm : Neutral '\\' op cl (if s = [] then [] else outToken s) := by
    split
    · exact Neutral.nil
    · exact hp.neutral_outToken s
  exact hq.append (hm.append hq)

theorem Protected.neutral_dumpStrings (hp : Protected op cl) (ho : op ≠ ' ') (hc : cl ≠ ' ')
    (ss : List Chars) : ∀ sep : Chars, (sep = [] ∨ sep = [' ']) →
      Neutral '\\' op cl (dumpStrings sep ss) := by
  induction ss with
  | nil => exact fun _ _ => Neutral.nil
  | cons s ss ih =>
    intro sep hsep
    refine Neutral.append (Neutral.append ?_ (hp.neutral_outString s)) (ih _ (Or.inr rfl))
    rcases hsep with rfl | rfl
    · exact Neutral.nil
    · exact Neutral.single (by decide) (Ne.symm ho) (Ne.symm hc)

end Brackets

section Tokens

/-- The characters `read_token` takes for white space and `outToken` does not protect. -/
def breaksToken (c : Char) : Bool :=
  c == '\r' || c == '\x0c'

theorem tokenEnd_eq_false {c : Char} (hs : tokenSpecial c = false) (hb : breaksToken c = false) :
    tokenEnd c = false := by
  simp only [tokenSpecial, breaksToken, Bool.or_eq_false_iff] at hs hb
  simp only [tokenEnd, asciiWhitespace, Bool.or_eq_false_iff]
  tauto

theorem readTokenAux_escape {c : Char} (hb : breaksToken c = false) (s : Chars) :
    readTokenAux false (tokenEscape c ++ s) = c :: readTokenAux false s := by
  cases hs : tokenSpecial c with
  | true => simp [tokenEscape, hs, readTokenAux]
  | false =>
    have he := (tokenSpecial_eq_false hs).2.1
    simp [tokenEscape, hs, readTokenAux, he, tokenEnd_eq_false hs hb]

theorem flatMap_tokenEscape_head (s : Chars) : (s.flatMap tokenEscape).head? ≠ some ' ' := by
  cases s with
  | nil => simp
  | cons c s =>
    cases hs : tokenSpecial c with
    | true => simp [tokenEscape, hs]
    | false => simpa [tokenEscape, hs] using (tokenSpecial_eq_false hs).1

theorem escaped_flatMap (s : Chars) : Escaped '\\' ' ' (s.flatMap tokenEscape) := by
  induction s with
  | nil => exact Escaped.of_not_mem (by simp)
  | cons c s ih =>
    have hc := ih.cons (a := c) fun h => absurd h (flatMap_tokenEscape_head s)
    rw [List.flatMap_cons]
    cases hs : tokenSpecial c with
    | true => simpa [tokenEscape, hs] using hc.cons (a := '\\') fun _ => rfl
    | false => simpa [tokenEscape, hs] using hc

theorem escaped_outToken (s : Chars) : Escaped '\\' ' ' (outToken s) := by
  cases s with
  | nil => exact Escaped.of_not_mem (by decide)
  | cons c s =>
    have hc := (escaped_flatMap s).cons (a := c) fun h => absurd h (flatMap_tokenEscape_head s)
    obtain ⟨front, he, hf⟩ := outToken_cons c s
    rw [he]
    rcases hf with rfl | ⟨rfl, _, _⟩
    · exact hc.cons fun _ => rfl
    · exact hc

theorem flatMap_tokenEscape_plain {s : Chars}
    (h : ∀ c ∈ s.flatMap tokenEscape, tokenSpecial c = false) : s.flatMap tokenEscape = s := by
  induction s with
  | nil => rfl
  | cons c s ih =>
    rw [List.flatMap_cons] at h ⊢
    have ht := ih fun b hb => h b (List.mem_append_right _ hb)
    cases hs : tokenSpecial c with
    | true =>
      have := h '\\' (List.mem_append_left _ (by simp [tokenEscape, hs]))
      exact absurd this (by decide)
    | false => simp [tokenEscape, hs, ht]

end Tokens

end Allgres
