import Allgres.DumpText

/-! What the analyser reads back from the text of a tree: every function of the
tree is reported, under its own name unless the name is one the reader stumbles
over. -/

namespace Allgres

open Scan

section Functions

/-- A name with a quotation mark behind its first character, where `outToken` leaves it bare. -/
def Misquoted (funcname : List Chars) : Prop :=
  ∃ s ∈ funcname, '"' ∈ s.tail

instance (funcname : List Chars) : Decidable (Misquoted funcname) :=
  inferInstanceAs (Decidable (∃ s ∈ funcname, '"' ∈ s.tail))

theorem quotedStringsAux_escape {c : Char} (hc : c ≠ '"') (acc t : Chars) :
    quotedStringsAux (.inside acc) (tokenEscape c ++ t) = quotedStringsAux (.inside (acc ++ [c])) t := by
  cases hs : tokenSpecial c with
  | true => simp [tokenEscape, hs, quotedStringsAux]
  | false =>
    have he := (tokenSpecial_eq_false hs).2.1
    simp [tokenEscape, hs, quotedStringsAux, hc, he]

theorem quotedStringsAux_flatMap {s : Chars} (hs : '"' ∉ s) (acc t : Chars) :
    quotedStringsAux (.inside acc) (s.flatMap tokenEscape ++ '"' :: t) =
      (acc ++ s) :: quotedStringsAux .outside t := by
  induction s generalizing acc with
  | nil => simp [quotedStringsAux]
  | cons c s ih =>
    have hc : c ≠ '"' := fun h => hs (by simp [h])
    rw [List.flatMap_cons, List.append_assoc, quotedStringsAux_escape hc,
      ih (fun h => hs (List.mem_cons_of_mem c h))]
    simp

theorem quotedStringsAux_outString {s : Chars} (hs : '"' ∉ s.tail) (t : Chars) :
    quotedStringsAux .outside (outString s ++ t) = s :: quotedStringsAux .outside t := by
  cases s with
  | nil => simp [outString, quotedStringsAux]
  | cons c s =>
    obtain ⟨front, he, hf⟩ := outToken_cons c s
    have htail := quotedStringsAux_flatMap hs [c] t
    simp only [List.singleton_append, List.tail_cons] at htail
    rcases hf with rfl | ⟨rfl, hc, hl⟩
    · simp [outString, he, quotedStringsAux, htail]
    · have hne : c ≠ '"' := by
        simp only [leadingSpecial, Bool.or_eq_false_iff, beq_eq_false_iff_ne] at hl
        exact hl.1.1.2
      simp [outString, he, quotedStringsAux, hne, (tokenSpecial_eq_false hc).2.1, htail]

theorem quotedStrings_dumpStrings {ss : List Chars} (hs : ¬ Misquoted ss) :
    ∀ sep, separator sep → quotedStrings (dumpStrings sep ss) = ss := by
  induction ss with
  | nil => exact fun _ _ => rfl
  | cons s ss ih =>
    intro sep hsep
    have hhead : '"' ∉ s.tail := fun h => hs ⟨s, List.mem_cons_self, h⟩
    have htail := ih (fun ⟨u, hu, h⟩ => hs ⟨u, List.mem_cons_of_mem s hu, h⟩) [' '] (Or.inr rfl)
    have hdump : quotedStrings (outString s ++ dumpStrings [' '] ss) = s :: ss := by
      rw [quotedStrings, quotedStringsAux_outString hhead]
      exact congrArg (s :: ·) htail
    rcases hsep with rfl | rfl
    · simpa [dumpStrings] using hdump
    · simpa [dumpStrings, quotedStrings, quotedStringsAux] using hdump

theorem readFunction_dumpStrings {funcname : List Chars} (hm : ¬ Misquoted funcname) (t : Chars) :
    readFunction (dumpStrings [] funcname ++ ')' :: t) = lastNames funcname := by
  have hn := protected_parens.neutral_dumpStrings (by decide) (by decide) funcname [] (Or.inl rfl)
  have hbody : parenBody (dumpStrings [] funcname ++ ')' :: t) = dumpStrings [] funcname :=
    inside_of_neutral (by decide) (by decide) hn t
  rw [readFunction, hbody, quotedStrings_dumpStrings hm [] (Or.inl rfl)]

end Functions

theorem analyzeDump_eq_some {dump : Chars} {a : Analysis} (ha : analyzeDump dump = some a) :
    a.functions = (findAll (':' :: "funcname (".toList) dump).filterMap readFunction := by
  unfold analyzeDump at ha
  split at ha
  · simp at ha
  · simp only [Option.some.injEq] at ha
    subst ha
    rfl

/-- The analyser reports every function call of the tree whose names it can read. -/
theorem analyzeDump_functions {n : Node} {a : Analysis} (ha : analyzeDump n.dump = some a)
    {funcname : List Chars} (hf : funcname ∈ n.funcnames) (hm : ¬ Misquoted funcname)
    {f : ReadName} (hl : lastNames funcname = some f) : f ∈ a.functions := by
  obtain ⟨m, hsub, hname⟩ := List.mem_filterMap.mp hf
  obtain ⟨rest, rfl⟩ : ∃ rest, m = Node.funcCall funcname rest := by
    cases m <;> simp [Node.funcname?] at hname
    next rest => exact ⟨rest, by rw [hname]⟩
  obtain ⟨p, q, hd⟩ := n.dump_infix _ hsub
  have hdump : n.dump = (p ++ '{' :: "FUNCCALL ".toList) ++ (':' :: "funcname (".toList ++
      (dumpStrings [] funcname ++ ')' :: (rest.dump ++ '}' :: q))) := by
    rw [← hd, Node.dump]
    simp
  have hmem := mem_findAll (a := ':') (w := "funcname (".toList) (by decide)
    (p ++ '{' :: "FUNCCALL ".toList) (dumpStrings [] funcname ++ ')' :: (rest.dump ++ '}' :: q))
  rw [← hdump] at hmem
  rw [analyzeDump_eq_some ha]
  exact List.mem_filterMap.mpr ⟨_, hmem, (readFunction_dumpStrings hm _).trans hl⟩

end Allgres
