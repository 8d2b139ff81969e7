import Allgres.OutToken

/-! The text of a tree. The text of every node below stands in it, and a whole
node leaves the bracket count as it was. -/

namespace Allgres

open Scan

section Neutral

theorem neutral_braces_node {u : Chars} (hu : Neutral '\\' '{' '}' u) :
    Neutral '\\' '{' '}' ('{' :: u ++ ['}']) :=
  Neutral.bracket (by decide) (by decide) (by decide) hu

theorem neutral_braces_lit {u : Chars} (hu : u.all (fun c => c != '\\' && c != '{' && c != '}') = true) :
    Neutral '\\' '{' '}' u := by
  refine Neutral.of_forall fun c hc => ?_
  have := List.all_eq_true.mp hu c hc
  simpa [and_assoc] using this

theorem Word.neutral (w : Word) : Neutral '\\' '{' '}' w.chars := by
  refine protected_braces.neutral_plain fun c hc => ?_
  simpa using List.all_eq_true.mp w.plain c hc

theorem neutral_outOptToken (s : Option Chars) : Neutral '\\' '{' '}' (outOptToken s) := by
  cases s with
  | none => exact neutral_braces_lit (by decide)
  | some s => exact protected_braces.neutral_outToken s

theorem SqlValueFunctionOp.neutral (op : SqlValueFunctionOp) : Neutral '\\' '{' '}' op.code := by
  apply neutral_braces_lit
  cases op <;> decide

def separator (sep : Chars) : Prop :=
  sep = [] ∨ sep = [' ']

theorem separator.neutral {sep : Chars} (h : separator sep) : Neutral '\\' '{' '}' sep := by
  rcases h with rfl | rfl
  · exact Neutral.nil
  · exact neutral_braces_lit (by decide)

mutual

theorem Node.dump_neutral : ∀ n : Node, Neutral '\\' '{' '}' n.dump
  | .null => neutral_braces_lit (by decide)
  | .atom w => w.neutral
  | .token s => protected_braces.neutral_outToken s
  | .str s => protected_braces.neutral_outString s
  | .list xs => by
    rw [Node.dump]
    exact (neutral_braces_lit (u := ['(']) (by decide)).append
      ((xs.dump_neutral [] (Or.inl rfl)).append (neutral_braces_lit (by decide)))
  | .rangeVar schemaname relname rest => by
    rw [Node.dump]
    have hs := (neutral_braces_lit (u := ":schemaname ".toList) (by decide)).append
      (neutral_outOptToken schemaname)
    have hr := ((neutral_braces_lit (u := ' ' :: ":relname ".toList) (by decide)).append
      (protected_braces.neutral_outToken relname)).append rest.dump_neutral
    exact neutral_braces_node ((neutral_braces_lit (by decide)).append (hs.append hr))
  | .funcCall funcname rest => by
    rw [Node.dump]
    have hf := (neutral_braces_lit (u := ":funcname (".toList) (by decide)).append
      (protected_braces.neutral_dumpStrings (by decide) (by decide) funcname [] (Or.inl rfl))
    have hr := (hf.append (neutral_braces_lit (u := [')']) (by decide))).append rest.dump_neutral
    exact neutral_braces_node ((neutral_braces_lit (by decide)).append hr)
  | .sqlValueFunction op rest => by
    rw [Node.dump]
    have ho := ((neutral_braces_lit (u := ":op ".toList) (by decide)).append op.neutral).append
      rest.dump_neutral
    exact neutral_braces_node ((neutral_braces_lit (by decide)).append ho)
  | .withStmt tag before ctes recursive location after => by
    rw [Node.dump]
    have hc := (neutral_braces_lit (u := ['(']) (by decide)).append
      ((ctes.dump_neutral [] (Or.inl rfl)).append (neutral_braces_lit (u := [')']) (by decide)))
    have hf : Neutral '\\' '{' '}' (if recursive then " :recursive true".toList
        else " :recursive false".toList) := by
      split <;> exact neutral_braces_lit (by decide)
    have hl := (neutral_braces_lit (u := " :location ".toList) (by decide)).append location.neutral
    have hw := neutral_braces_node (((neutral_braces_lit (u := "WITHCLAUSE :ctes ".toList)
      (by decide)).append hc).append (hf.append hl))
    have hb := (before.dump_neutral.append
      (neutral_braces_lit (u := " :withClause ".toList) (by decide))).append hw
    exact neutral_braces_node (tag.toWord.neutral.append (hb.append after.dump_neutral))
  | .node tag fields => by
    rw [Node.dump]
    exact neutral_braces_node (tag.toWord.neutral.append fields.dump_neutral)

theorem Nodes.dump_neutral : ∀ (xs : Nodes) (sep : Chars), separator sep →
    Neutral '\\' '{' '}' (xs.dump sep)
  | .nil, _, _ => Neutral.nil
  | .cons x xs, sep, h => by
    rw [Nodes.dump]
    exact (h.neutral.append x.dump_neutral).append (xs.dump_neutral _ (Or.inr rfl))

theorem Fields.dump_neutral : ∀ fs : Fields, Neutral '\\' '{' '}' fs.dump
  | .nil => Neutral.nil
  | .flag w tail => by
    rw [Fields.dump]
    exact ((neutral_braces_lit (u := [' ']) (by decide)).append w.neutral).append tail.dump_neutral
  | .cons label value tail => by
    rw [Fields.dump]
    have hl := ((neutral_braces_lit (u := " :".toList) (by decide)).append label.neutral).append
      (neutral_braces_lit (u := [' ']) (by decide))
    exact (hl.append value.dump_neutral).append tail.dump_neutral

theorem Ctes.dump_neutral : ∀ (cs : Ctes) (sep : Chars), separator sep →
    Neutral '\\' '{' '}' (cs.dump sep)
  | .nil, _, _ => Neutral.nil
  | .cons ctename rest tail, sep, h => by
    rw [Ctes.dump]
    have hn := ((neutral_braces_lit (u := ":ctename ".toList) (by decide)).append
      (protected_braces.neutral_outToken ctename)).append rest.dump_neutral
    have hc := neutral_braces_node
      ((neutral_braces_lit (u := "COMMONTABLEEXPR ".toList) (by decide)).append hn)
    exact (h.neutral.append hc).append (tail.dump_neutral _ (Or.inr rfl))

end

end Neutral

def rangeVarBody (schemaname : Option Chars) (relname : Chars) (rest : Fields) : Chars :=
  ":schemaname ".toList ++ outOptToken schemaname ++
    (' ' :: ":relname ".toList ++ outToken relname ++ rest.dump)

theorem Node.dump_rangeVar (schemaname : Option Chars) (relname : Chars) (rest : Fields) :
    (Node.rangeVar schemaname relname rest).dump =
      '{' :: ("RANGEVAR ".toList ++ rangeVarBody schemaname relname rest) ++ ['}'] := by
  rw [Node.dump]
  rfl

section Infix

theorem infix_node {u v : Chars} (h : u <:+: v) : u <:+: '{' :: v ++ ['}'] :=
  List.infix_append_of_infix_left (List.infix_cons h)

mutual

/-- The text of a node below stands in the text of the whole. -/
theorem Node.dump_infix : ∀ n : Node, ∀ m ∈ n.subnodes, m.dump <:+: n.dump
  | .null => by simp [Node.subnodes]
  | .atom _ => by simp [Node.subnodes]
  | .token _ => by simp [Node.subnodes]
  | .str _ => by simp [Node.subnodes]
  | .list xs => by
    intro m hm
    rw [Node.subnodes, List.mem_cons] at hm
    rcases hm with rfl | hm
    · exact List.infix_rfl
    · rw [show (Node.list xs).dump = '(' :: (xs.dump [] ++ [')']) by rw [Node.dump]]
      exact List.infix_cons (List.infix_append_of_infix_left (xs.dump_infix [] m hm))
  | .rangeVar schemaname relname rest => by
    intro m hm
    rw [Node.subnodes, List.mem_cons] at hm
    rcases hm with rfl | hm
    · exact List.infix_rfl
    · rw [Node.dump_rangeVar]
      exact infix_node (List.infix_append_of_infix_right (List.infix_append_of_infix_right
        (List.infix_append_of_infix_right (rest.dump_infix m hm))))
  | .funcCall funcname rest => by
    intro m hm
    rw [Node.subnodes, List.mem_cons] at hm
    rcases hm with rfl | hm
    · exact List.infix_rfl
    · rw [Node.dump]
      exact infix_node (List.infix_append_of_infix_right (List.infix_append_of_infix_right
        (rest.dump_infix m hm)))
  | .sqlValueFunction op rest => by
    intro m hm
    rw [Node.subnodes, List.mem_cons] at hm
    rcases hm with rfl | hm
    · exact List.infix_rfl
    · rw [show (Node.sqlValueFunction op rest).dump = '{' :: ("SQLVALUEFUNCTION ".toList ++
        (":op ".toList ++ op.code ++ rest.dump)) ++ ['}'] by rw [Node.dump]; rfl]
      exact infix_node (List.infix_append_of_infix_right (List.infix_append_of_infix_right
        (rest.dump_infix m hm)))
  | .withStmt tag before ctes recursive location after => by
    intro m hm
    rw [Node.subnodes, List.mem_cons, List.mem_append, List.mem_append] at hm
    rcases hm with rfl | hm | hm | hm
    · exact List.infix_rfl
    · rw [Node.dump]
      refine infix_node (List.infix_append_of_infix_right (List.infix_append_of_infix_left
        (List.infix_append_of_infix_left (List.infix_append_of_infix_left ?_))))
      exact before.dump_infix m hm
    · rw [Node.dump]
      refine infix_node (List.infix_append_of_infix_right (List.infix_append_of_infix_left
        (List.infix_append_of_infix_right (infix_node ?_))))
      exact List.infix_append_of_infix_left (List.infix_append_of_infix_right
        (List.infix_append_of_infix_left (List.infix_cons (ctes.dump_infix [] m hm))))
    · rw [Node.dump]
      exact infix_node (List.infix_append_of_infix_right (List.infix_append_of_infix_right
        (after.dump_infix m hm)))
  | .node tag fields => by
    intro m hm
    rw [Node.subnodes, List.mem_cons] at hm
    rcases hm with rfl | hm
    · exact List.infix_rfl
    · rw [show (Node.node tag fields).dump = '{' :: (tag.chars ++ fields.dump) ++ ['}'] by
        rw [Node.dump]; rfl]
      exact infix_node (List.infix_append_of_infix_right (fields.dump_infix m hm))

theorem Nodes.dump_infix : ∀ (xs : Nodes) (sep : Chars), ∀ m ∈ xs.subnodes,
    m.dump <:+: xs.dump sep
  | .nil, _ => by simp [Nodes.subnodes]
  | .cons x xs, sep => by
    intro m hm
    rw [Nodes.subnodes, List.mem_append] at hm
    rw [Nodes.dump]
    rcases hm with hm | hm
    · exact List.infix_append_of_infix_left (List.infix_append_of_infix_right (x.dump_infix m hm))
    · exact List.infix_append_of_infix_right (xs.dump_infix [' '] m hm)

theorem Fields.dump_infix : ∀ fs : Fields, ∀ m ∈ fs.subnodes, m.dump <:+: fs.dump
  | .nil => by simp [Fields.subnodes]
  | .flag w tail => by
    intro m hm
    rw [Fields.dump]
    exact List.infix_append_of_infix_right (tail.dump_infix m hm)
  | .cons label value tail => by
    intro m hm
    rw [Fields.subnodes, List.mem_append] at hm
    rw [Fields.dump]
    rcases hm with hm | hm
    · exact List.infix_append_of_infix_left (List.infix_append_of_infix_right
        (value.dump_infix m hm))
    · exact List.infix_append_of_infix_right (tail.dump_infix m hm)

theorem Ctes.dump_infix : ∀ (cs : Ctes) (sep : Chars), ∀ m ∈ cs.subnodes,
    m.dump <:+: cs.dump sep
  | .nil, _ => by simp [Ctes.subnodes]
  | .cons ctename rest tail, sep => by
    intro m hm
    rw [Ctes.subnodes, List.mem_append] at hm
    rw [Ctes.dump]
    rcases hm with hm | hm
    · refine List.infix_append_of_infix_left (List.infix_append_of_infix_right ?_)
      exact infix_node (List.infix_append_of_infix_right (List.infix_append_of_infix_right
        (rest.dump_infix m hm)))
    · exact List.infix_append_of_infix_right (tail.dump_infix [' '] m hm)

end

end Infix

end Allgres
