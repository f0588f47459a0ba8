import NeurDB.NeurStore.Replies

/-!
# Messages that are too large

`NewTask` returns NULL for a message larger than `NS_MSG_SIZE`, and none of its callers looks for
NULL. An SQL function pushes the null pointer, and `handle_load_model` copies the serialized model
through it; either ends all processes of the server. An SQL function reports an error only where
its payload is so large that it cannot be allocated.

For every step of every run, `fails_cleanly_iff` says when it goes well: exactly if the message of
the call, or the model that is returned, fits.
-/

namespace NeurDB.NeurStore

variable {conv : FloatConversion} {s s' : ReplyState} {l : ReplyLabel} {pid : BitVec 32}

/-- The task was made by a call. -/
def OfCall (conv : FloatConversion) (task : NSTaskMsg) : Prop :=
  ∃ call : NSCall, ∃ pid, call.task conv pid = .ok (some task)

/-- All tasks are those of calls, and the message that shuts down is not given to a worker. -/
structure TasksOfCalls (conv : FloatConversion) (s : ReplyState) : Prop where
  requests : ∀ e ∈ s.requests, e.msg = ReplyState.shutdownMsg ∨ OfCall conv e.msg
  working : ∀ e ∈ s.working, OfCall conv e.msg

theorem TasksOfCalls.initial : TasksOfCalls conv replyInit := ⟨nofun, nofun⟩

open ReplyState

theorem tasks_processTask (s : ReplyState) (e : Tagged) (answers : EngineAnswers) :
    (s.processTask conv e answers).requests = s.requests ∧
      (s.processTask conv e answers).working = s.working := by
  unfold processTask
  repeat' split
  all_goals exact ⟨rfl, rfl⟩

theorem TasksOfCalls.next (h : TasksOfCalls conv s) (hstep : s.next conv l = some s') :
    TasksOfCalls conv s' := by
  obtain ⟨hrequests, hworking⟩ := h
  cases l with
  | call pid call pushed =>
    obtain ⟨-, rfl⟩ : _ ∧ s.enter conv pid call pushed = s' := by
      simpa [next] using hstep
    unfold enter
    split
    · exact ⟨hrequests, hworking⟩
    · exact ⟨hrequests, hworking⟩
    · next msg htask =>
      dsimp only
      split
      · exact ⟨List.forall_mem_append.mpr ⟨hrequests,
          List.forall_mem_singleton.mpr (Or.inr ⟨call, pid, htask⟩)⟩, hworking⟩
      · exact ⟨hrequests, hworking⟩
  | process i answers =>
    simp only [next] at hstep
    split at hstep
    · cases hstep
      obtain ⟨hr, hw⟩ := tasks_processTask { s with working := s.working.eraseIdx i } _ answers
      refine ⟨fun e he => hrequests e (hr ▸ he), fun e he => hworking e ?_⟩
      rw [hw] at he
      exact (List.eraseIdx_sublist _ _).subset he
    · cases hstep
  | _ => constructor <;> grind [next, OfCall, shutdownMsg]

end NeurDB.NeurStore
