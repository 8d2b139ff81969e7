import Allgres.ByteAnalyser
import Allgres.DumpText

/-! Texts whose backslashes come in pairs with an ASCII character. Every dump is
one, and a scanner that steps over pairs never stops inside a character. -/

namespace Allgres

open Scan Bytes

inductive Aligned : Chars → Prop where
  | nil : Aligned []
  | plain {c : Char} {s : Chars} (hc : c ≠ '\\') (hs : Aligned s) : Aligned (c :: s)
  | pair {c : Char} {s : Chars} (hc : Ascii c) (hs : Aligned s) : Aligned ('\\' :: c :: s)

namespace Aligned

variable {s t : Chars}

theorem append (hs : Aligned s) (ht : Aligned t) : Aligned (s ++ t) := by
  induction hs with
  | nil => exact ht
  | plain hc _ ih => exact ih.plain hc
  | pair hc _ ih => exact ih.pair hc

theorem of_not_mem (h : '\\' ∉ s) : Aligned s := by
  induction s with
  | nil => exact nil
  | cons c s ih =>
    obtain ⟨hc, hs⟩ := not_or.mp fun hm => h (List.mem_cons.mpr hm)
    exact (ih hs).plain (Ne.symm hc)

theorem flatMap {f : Char → Chars} (h : ∀ c ∈ s, Aligned (f c)) : Aligned (s.flatMap f) := by
  induction s with
  | nil => exact nil
  | cons c s ih =>
    rw [List.flatMap_cons]
    exact (h c List.mem_cons_self).append (ih fun d hd => h d (List.mem_cons_of_mem c hd))

theorem tail_plain {c : Char} (h : Aligned (c :: s)) (hc : c ≠ '\\') : Aligned s := by
  cases h with
  | plain _ hs => exact hs
  | pair _ _ => exact absurd rfl hc

theorem drop_plain {w : Chars} (hw : '\\' ∉ w) (h : Aligned (w ++ s)) : Aligned s := by
  induction w with
  | nil => exact h
  | cons c w ih =>
    obtain ⟨hc, hw'⟩ := not_or.mp fun hm => hw (List.mem_cons.mpr hm)
    exact ih hw' (h.tail_plain (Ne.symm hc))

/-- A match of a word without a backslash may start at the second character of a pair, but what is
behind it is aligned. -/
theorem behind {w r : Chars} (h : Aligned s) (hne : w ≠ []) (hw : '\\' ∉ w) :
    ∀ p, s = p ++ (w ++ r) → Aligned r := by
  induction h with
  | nil =>
    intro p he
    have : w = [] := by simp_all
    exact absurd this hne
  | @plain c s hc hs ih =>
    intro p he
    cases p with
    | nil =>
      have hall : Aligned (w ++ r) := he ▸ hs.plain hc
      exact hall.drop_plain hw
    | cons d p => exact ih p (List.cons.inj he).2
  | @pair c s hc hs ih =>
    intro p he
    cases p with
    | nil =>
      cases w with
      | nil => exact absurd rfl hne
      | cons a w =>
        obtain rfl : '\\' = a := (List.cons.inj he).1
        exact absurd List.mem_cons_self hw
    | cons d p =>
      have he' : c :: s = p ++ (w ++ r) := (List.cons.inj he).2
      cases p with
      | nil =>
        cases w with
        | nil => exact absurd rfl hne
        | cons a w =>
          have hs' : s = w ++ r := (List.cons.inj he').2
          exact (hs' ▸ hs).drop_plain fun hm => hw (List.mem_cons_of_mem _ hm)
      | cons d p => exact ih p (List.cons.inj he').2

theorem findAfter {w r : Chars} (h : Aligned s) (hne : w ≠ []) (hw : '\\' ∉ w)
    (hf : findAfter w s = some r) : Aligned r := by
  obtain ⟨p, hp⟩ := findAfter_eq_some hf
  exact h.behind hne hw p hp

theorem insideAux {op cl : Char} (h : Aligned s) : ∀ d, Aligned (insideAux '\\' op cl false d s) := by
  induction h with
  | nil => exact fun _ => nil
  | plain hc _ ih =>
    intro d
    simp only [Scan.insideAux, if_neg hc]
    split_ifs
    · exact (ih (d + 1)).plain hc
    · exact nil
    · exact (ih (d - 1)).plain hc
    · exact (ih d).plain hc
  | pair hc _ ih =>
    intro d
    simp only [Scan.insideAux, if_true]
    exact (ih d).pair hc

end Aligned

section Dumps

theorem ascii_of_special {c : Char} (h : tokenSpecial c = true) : Ascii c := by
  simp only [tokenSpecial, Bool.or_eq_true, beq_iff_eq] at h
  rcases h with ((((((rfl | rfl) | rfl) | rfl) | rfl) | rfl) | rfl) | rfl <;> decide

theorem ascii_of_leading {c : Char} {s : Chars} (h : leadingSpecial (c :: s) = true) : Ascii c := by
  simp only [leadingSpecial, Bool.or_eq_true, Bool.and_eq_true, beq_iff_eq] at h
  rcases h with ((rfl | rfl) | hd) | ⟨rfl | rfl, _⟩
  · decide
  · decide
  · have hle : c.val ≤ 57 := by
      simp only [Char.isDigit, Bool.and_eq_true, decide_eq_true_eq] at hd
      exact hd.2
    have : c.toNat ≤ 57 := hle
    simp only [Ascii]
    omega
  · decide
  · decide

theorem aligned_escape (c : Char) : Aligned (tokenEscape c) := by
  cases hs : tokenSpecial c with
  | true => simpa [tokenEscape, hs] using Aligned.nil.pair (ascii_of_special hs)
  | false => simpa [tokenEscape, hs] using Aligned.nil.plain (tokenSpecial_eq_false hs).2.1

theorem aligned_outToken (s : Chars) : Aligned (outToken s) := by
  cases s with
  | nil => exact Aligned.of_not_mem (by decide)
  | cons c s =>
    have htail : Aligned (s.flatMap tokenEscape) := Aligned.flatMap fun d _ => aligned_escape d
    have hall : Aligned ((c :: s).flatMap tokenEscape) := Aligned.flatMap fun d _ => aligned_escape d
    cases hl : leadingSpecial (c :: s) with
    | true => simpa [outToken, hl, tokenEscape, leadingSpecial_head hl] using htail.pair (ascii_of_leading hl)
    | false => simpa [outToken, hl] using hall

theorem aligned_outOptToken (s : Option Chars) : Aligned (outOptToken s) := by
  cases s with
  | none => exact Aligned.of_not_mem (by decide)
  | some s => exact aligned_outToken s

theorem aligned_outString (s : Chars) : Aligned (outString s) := by
  have hquote : Aligned ['"'] := Aligned.of_not_mem (by decide)
  have htext : Aligned (if s = [] then [] else outToken s) := by
    split
    · exact Aligned.nil
    · exact aligned_outToken s
  exact hquote.append (htext.append hquote)

theorem aligned_dumpStrings (ss : List Chars) : ∀ sep, Aligned sep → Aligned (dumpStrings sep ss) := by
  induction ss with
  | nil => exact fun _ _ => Aligned.nil
  | cons s ss ih =>
    intro sep hsep
    exact (hsep.append (aligned_outString s)).append (ih [' '] (Aligned.of_not_mem (by decide)))

theorem Word.aligned (w : Word) : Aligned w.chars :=
  Aligned.of_not_mem fun h => (tokenSpecial_eq_false (plain_of_all w.plain _ h)).2.1 rfl

theorem SqlValueFunctionOp.aligned (op : SqlValueFunctionOp) : Aligned op.code := by
  cases op <;> exact Aligned.of_not_mem (by decide)

theorem aligned_lit {u : Chars} (h : u.all (· != '\\') = true) : Aligned u := by
  apply Aligned.of_not_mem
  intro hm
  simpa using List.all_eq_true.mp h _ hm

theorem aligned_node {u : Chars} (h : Aligned u) : Aligned ('{' :: u ++ ['}']) :=
  (h.plain (by decide)).append (aligned_lit (by decide))

mutual

theorem Node.dump_aligned : ∀ n : Node, Aligned n.dump
  | .null => aligned_lit (by decide)
  | .atom w => w.aligned
  | .token s => aligned_outToken s
  | .str s => aligned_outString s
  | .list xs => by
    rw [Node.dump]
    exact ((xs.dump_aligned [] Aligned.nil).append (aligned_lit (by decide))).plain (by decide)
  | .rangeVar schemaname relname rest => by
    rw [Node.dump]
    have hs := (aligned_lit (u := ":schemaname ".toList) (by decide)).append (aligned_outOptToken schemaname)
    have hr := ((aligned_lit (u := ' ' :: ":relname ".toList) (by decide)).append
      (aligned_outToken relname)).append rest.dump_aligned
    exact aligned_node ((aligned_lit (by decide)).append (hs.append hr))
  | .funcCall funcname rest => by
    rw [Node.dump]
    have hf := (aligned_lit (u := ":funcname (".toList) (by decide)).append
      (aligned_dumpStrings funcname [] Aligned.nil)
    have hr := (hf.append (aligned_lit (u := [')']) (by decide))).append rest.dump_aligned
    exact aligned_node ((aligned_lit (by decide)).append hr)
  | .sqlValueFunction op rest => by
    rw [Node.dump]
    have ho := ((aligned_lit (u := ":op ".toList) (by decide)).append op.aligned).append rest.dump_aligned
    exact aligned_node ((aligned_lit (by decide)).append ho)
  | .withStmt tag before ctes recursive location after => by
    rw [Node.dump]
    have hc := (aligned_lit (u := ['(']) (by decide)).append
      ((ctes.dump_aligned [] Aligned.nil).append (aligned_lit (u := [')']) (by decide)))
    have hf : Aligned (if recursive then " :recursive true".toList else " :recursive false".toList) := by
      split <;> exact aligned_lit (by decide)
    have hl := (aligned_lit (u := " :location ".toList) (by decide)).append location.aligned
    have hw := aligned_node (((aligned_lit (u := "WITHCLAUSE :ctes ".toList) (by decide)).append hc).append
      (hf.append hl))
    have hb := (before.dump_aligned.append (aligned_lit (u := " :withClause ".toList) (by decide))).append hw
    exact aligned_node (tag.toWord.aligned.append (hb.append after.dump_aligned))
  | .node tag fields => by
    rw [Node.dump]
    exact aligned_node (tag.toWord.aligned.append fields.dump_aligned)

theorem Nodes.dump_aligned : ∀ (xs : Nodes) (sep : Chars), Aligned sep → Aligned (xs.dump sep)
  | .nil, _, _ => Aligned.nil
  | .cons x xs, sep, h => by
    rw [Nodes.dump]
    exact (h.append x.dump_aligned).append (xs.dump_aligned [' '] (aligned_lit (by decide)))

theorem Fields.dump_aligned : ∀ fs : Fields, Aligned fs.dump
  | .nil => Aligned.nil
  | .flag w tail => by
    rw [Fields.dump]
    exact ((aligned_lit (u := [' ']) (by decide)).append w.aligned).append tail.dump_aligned
  | .cons label value tail => by
    rw [Fields.dump]
    have hl := ((aligned_lit (u := " :".toList) (by decide)).append label.aligned).append
      (aligned_lit (u := [' ']) (by decide))
    exact (hl.append value.dump_aligned).append tail.dump_aligned

theorem Ctes.dump_aligned : ∀ (cs : Ctes) (sep : Chars), Aligned sep → Aligned (cs.dump sep)
  | .nil, _, _ => Aligned.nil
  | .cons ctename rest tail, sep, h => by
    rw [Ctes.dump]
    have hn := ((aligned_lit (u := ":ctename ".toList) (by decide)).append
      (aligned_outToken ctename)).append rest.dump_aligned
    have hc := aligned_node ((aligned_lit (u := "COMMONTABLEEXPR ".toList) (by decide)).append hn)
    exact (h.append hc).append (tail.dump_aligned [' '] (aligned_lit (by decide)))

end

end Dumps

end Allgres
