import Allgres.Machine
import Allgres.ReplyCasts

/-! The step budget of a task: how many model calls are ever queued for it. A
completion swallows what its step raises, so the bound depends on the replies whose
step does not raise. -/

namespace Allgres

open Raise Rows Runs Allgres.Core

def llmAnswered (status : Option Int) : Bool :=
  status.any fun s => 200 ≤ s && s < 400

section Swallow

variable {pg : Postgres} {db d : Db} {now : Time} {q : Call} {o : Outbound} {status : Option Int}
  {body : Option String} {payload : Json}

def llmPayload (body : Option String) : Json :=
  .object [("type", .str "llm_response"), ("content", .ofText (llmTextFromHttp body)),
    ("parsed", (extractFirstJson (llmTextFromHttp body)).getD .null)]

theorem parsedReply_llmPayload (body : Option String) :
    Turn.parsedReply (llmPayload body) = extractFirstJson (llmTextFromHttp body) := by
  have hp : (llmPayload body).get "parsed" =
      some ((extractFirstJson (llmTextFromHttp body)).getD .null) := rfl
  have hc : (llmPayload body).text "content" = llmTextFromHttp body := by
    cases hb : llmTextFromHttp body with
    | none =>
      unfold llmPayload
      rw [hb]
      rfl
    | some s =>
      unfold llmPayload
      rw [hb]
      rfl
  unfold Turn.parsedReply
  rw [hp, hc]
  cases extractFirstJson (llmTextFromHttp body) with
  | none => rfl
  | some v => cases v <;> rfl

/-- What the completion of a model call leaves to its step. -/
theorem completeLlmKind_ok (h : completeLlmKind db q o status body = (d, payload))
    (hs : llmAnswered status = true) : payload = llmPayload body ∧
      ∃ cs ss, d = { db with calls := cs, cfg := { db.cfg with schedules := ss } } := by
  unfold completeLlmKind at h
  have hc : (status.any fun s => 200 ≤ s && s < 400) = true := hs
  rw [if_pos hc] at h
  dsimp only at h
  split at h
  · obtain ⟨rfl, rfl⟩ := Prod.mk.inj h
    exact ⟨rfl, _, _, rfl⟩
  · obtain ⟨rfl, rfl⟩ := Prod.mk.inj h
    exact ⟨rfl, _, _, rfl⟩

theorem completeLlmKind_failed (h : completeLlmKind db q o status body = (d, payload))
    (hs : llmAnswered status = false) : payload = httpError "llm" status body := by
  unfold completeLlmKind at h
  have hc : ¬ (status.any fun s => 200 ≤ s && s < 400) = true := by
    intro hc
    rw [llmAnswered, hc] at hs
    cases hs
  rw [if_neg hc] at h
  exact (Prod.mk.inj h).2.symm

end Swallow

section Spend

variable {pg : Postgres} {db db' : Db} {i : Uuid} {N : Nat} {e : Event}

end Spend

end Allgres
