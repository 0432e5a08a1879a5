import Chronicle.Transaction.Basic
import Mathlib.Data.List.Induction

/-!
# How transactions complete

What is called at the end of a transaction, in which order, and what each call sees, whatever those who
are called do to the resources.

## Implementation notes

`Transaction.Runs` says what calls are possible at all: each one sees what the one before it left.
`TransactionStatus.schedule` says which of them a status asks for. A completion is both.
-/

namespace Chronicle

/-- Who is called, and when. -/
def SynchronizationCall.key (call : SynchronizationCall) : Nat × Phase := (call.place, call.phase)

/-- The calls of a phase: everyone is called once, in the order of registration. -/
def Phase.round (phase : Phase) (count : Nat) : List (Nat × Phase) :=
  (List.range count).map (·, phase)

/-- The calls that a status asks for. -/
def TransactionStatus.schedule (count : Nat) : TransactionStatus → List (Nat × Phase)
  | .committed => Phase.beforeCommit.round count ++ (Phase.afterCompletion .committed).round count
  | .rolledBack => (Phase.afterCompletion .rolledBack).round count

theorem TransactionStatus.mem_schedule {status : TransactionStatus} {count place : Nat}
    (h : place < count) : (place, .afterCompletion status) ∈ status.schedule count := by
  cases status <;> simp [schedule, Phase.round, h]

namespace Transaction

variable {t : Transaction}

/-- The registered synchronizations are called one after another, each with the resources as the one
before it left them; the last one leaves the resources `r`. -/
inductive Runs (t : Transaction) : List SynchronizationCall → Resources → Prop
  | nil : Runs t [] t.resources
  | call {calls : List SynchronizationCall} {r : Resources} {place : Nat} {s : Synchronization}
    (phase : Phase) : Runs t calls r → t.registered[place]? = some s →
    Runs t (calls ++ [⟨place, phase, r⟩]) (s.reaction calls phase r)

/-- A transaction completes with a status: the calls are those that the status asks for, what is still
bound after the last of them is counted, and nothing remains. -/
structure CompletesBy (t : Transaction) (status : TransactionStatus) (c : Completion) : Prop where
  status_eq : c.status = status
  scheduled : c.calls.map SynchronizationCall.key = status.schedule t.synchronizationCount
  counted : ∃ last, t.Runs c.calls last ∧ c.unreleased = last.size
  released : c.left.resources.isEmpty = true
  unregistered : c.left.synchronizationCount = 0

/-! ## Calls -/

namespace Runs

variable {calls : List SynchronizationCall} {r : Resources}

theorem eq_of_nil (h : t.Runs [] r) : r = t.resources := by
  generalize hcalls : ([] : List SynchronizationCall) = calls at h
  cases h with
  | nil => rfl
  | call => simp at hcalls

/-- The last call of a run, and the run before it. -/
theorem concat_inv {call : SynchronizationCall} (h : t.Runs (calls ++ [call]) r) :
    ∃ s, t.registered[call.place]? = some s ∧ t.Runs calls call.seen ∧
      r = s.reaction calls call.phase call.seen := by
  generalize hall : calls ++ [call] = all at h
  cases h with
  | nil => simp at hall
  | call phase hrun hs =>
      obtain ⟨rfl, hcall⟩ := List.append_inj' hall rfl
      cases hcall
      exact ⟨_, hs, hrun, rfl⟩

/-- Every call sees what the calls before it left. -/
theorem seen {earlier later : List SynchronizationCall} {call : SynchronizationCall}
    (h : t.Runs (earlier ++ call :: later) r) : t.Runs earlier call.seen := by
  induction later using List.reverseRecOn generalizing r with
  | nil =>
      obtain ⟨-, -, hrun, -⟩ := h.concat_inv
      exact hrun
  | append_singleton later last ih =>
      rw [← List.cons_append, ← List.append_assoc] at h
      obtain ⟨-, -, hrun, -⟩ := h.concat_inv
      exact ih hrun

variable {p : Progress}

/-- One more call. -/
theorem progress {place : Nat} {s : Synchronization} (h : t.Runs p.calls p.resources)
    (phase : Phase) (hs : t.registered[place]? = some s) :
    t.Runs (p.call phase place s).calls (p.call phase place s).resources :=
  h.call phase hs

/-- All calls of a phase from a place on. -/
theorem progressFrom {place : Nat} {rest : List Synchronization} (h : t.Runs p.calls p.resources)
    (phase : Phase) (hrest : t.registered.drop place = rest) :
    t.Runs (Progress.callFrom phase place rest p).calls
      (Progress.callFrom phase place rest p).resources := by
  -- The rest of the list says who is at the next place.
  induction rest generalizing place p with
  | nil => exact h
  | cons s rest ih =>
      have hs : t.registered[place]? = some s := by
        rw [← Nat.add_zero place, ← List.getElem?_drop, hrest, List.getElem?_cons_zero]
      have hnext : t.registered.drop (place + 1) = rest := by
        rw [← List.drop_drop, hrest, List.drop_one, List.tail_cons]
      exact ih (h.progress phase hs) hnext

end Runs

/-- From a place on everyone is called once, in the order of registration. -/
theorem keys_callFrom (phase : Phase) (place : Nat) (rest : List Synchronization) (p : Progress) :
    (Progress.callFrom phase place rest p).calls.map SynchronizationCall.key =
      p.calls.map SynchronizationCall.key ++
        (List.range' place rest.length).map (·, phase) := by
  induction rest generalizing place p with
  | nil => simp [Progress.callFrom]
  | cons s rest ih =>
      calc
        (Progress.callFrom phase place (s :: rest) p).calls.map SynchronizationCall.key
            = (p.call phase place s).calls.map SynchronizationCall.key ++
                (List.range' (place + 1) rest.length).map (·, phase) := ih _ _
        _ = p.calls.map SynchronizationCall.key ++
              ((place, phase) :: (List.range' (place + 1) rest.length).map (·, phase)) := by
          simp [Progress.call, SynchronizationCall.key]
        _ = _ := by simp [List.range'_succ]

theorem keys_round (t : Transaction) (phase : Phase) (p : Progress) :
    (Progress.callFrom phase 0 t.registered p).calls.map SynchronizationCall.key =
      p.calls.map SynchronizationCall.key ++ phase.round t.synchronizationCount := by
  rw [keys_callFrom, ← List.range_eq_range']
  rfl

/-! ## Completions -/

theorem runs_callAll (t : Transaction) (status : TransactionStatus) :
    t.Runs (t.callAll status).calls (t.callAll status).resources := by
  have hnil : t.Runs (Progress.mk t.resources []).calls (Progress.mk t.resources []).resources :=
    Runs.nil
  cases status with
  | committed => exact (hnil.progressFrom .beforeCommit rfl).progressFrom _ rfl
  | rolledBack => exact hnil.progressFrom _ rfl

theorem keys_callAll (t : Transaction) (status : TransactionStatus) :
    (t.callAll status).calls.map SynchronizationCall.key =
      status.schedule t.synchronizationCount := by
  cases status with
  | committed =>
      unfold callAll
      rw [keys_round, keys_round]
      rfl
  | rolledBack =>
      unfold callAll
      rw [keys_round]
      rfl

theorem completesBy_complete (t : Transaction) (status : TransactionStatus) :
    t.CompletesBy status (t.complete status) where
  status_eq := rfl
  scheduled := t.keys_callAll status
  counted := ⟨_, t.runs_callAll status, rfl⟩
  released := rfl
  unregistered := rfl

/-- What is left of a completed transaction is given up without another completion. -/
theorem finish_eq (t : Transaction) (how : Ending) :
    t.finish how = ⟨(t.complete how.status).left, true, [t.complete how.status]⟩ := by
  cases how <;> rfl

theorem completions_finish (t : Transaction) (how : Ending) :
    (t.finish how).completions = [t.complete how.status] := by
  rw [t.finish_eq how]

/-- However a transaction ends, it is completed once: whatever those who are called do, everyone is
called as the status asks for, in the order of registration and with the resources as the call before
left them, what is then still bound is counted, and nothing remains. -/
theorem finish_completes_once (t : Transaction) (how : Ending) :
    ∃ c, (t.finish how).completions = [c] ∧ t.CompletesBy how.status c ∧
      (t.finish how).completed = true ∧ (t.finish how).transaction = c.left := by
  rw [t.finish_eq how]
  exact ⟨_, rfl, t.completesBy_complete how.status, rfl, rfl⟩

end Transaction

end Chronicle
