import Chronicle.Proofs.Tracking.Rounds
import Chronicle.Proofs.Transaction.Completion

/-!
# The lifetime of accumulators

When the accumulator of a transaction is bound, how often its release is registered, and that the end of
the transaction releases it.

## Implementation notes

A transaction is used by any number of managers, and by others that register synchronizations and bind
resources of their own. What these do is any function that leaves the accumulator alone. A use that is
refused changes nothing.
-/

namespace Chronicle

/-- What can be done with a transaction before its end. -/
inductive Use where
  | beforeFlush (m : Manager) (store : Store) (ids : List EntityId)
  | collect (m : Manager) (store : Store) (ids : List EntityId)
  | register (s : Synchronization)
  /-- Binds and unbinds resources. -/
  | act (change : Resources → Resources)

namespace Transaction

/-- The transaction after a use. -/
def use (t : Transaction) : Use → Transaction
  | .beforeFlush m store ids =>
    match m.beforeFlush store t ids with
    | .ok next => next
    | .error _ => t
  | .collect m store ids =>
    match m.collect store t ids with
    | .ok (next, _) => next
    | .error _ => t
  | .register s => (t.register? s).getD t
  | .act change => { t with resources := change t.resources }

/-- The transaction after uses. -/
def useAll (t : Transaction) (uses : List Use) : Transaction := uses.foldl use t

theorem useAll_append (t : Transaction) (uses later : List Use) :
    t.useAll (uses ++ later) = (t.useAll uses).useAll later := List.foldl_append

end Transaction

/-- Whether a manager accesses the accumulator, given whether there is synchronization. -/
def Manager.accesses (m : Manager) (active : Bool) : Bool :=
  m.config.enabled && (active || !m.config.requireTransaction)

theorem Manager.accesses_eq (m : Manager) (t : Transaction) :
    m.accesses t.isSynchronizationActive = (m.config.enabled && !m.refuses t) := by
  simp [accesses, refuses, Bool.or_comm]

/-- Whether a synchronization leaves the accumulator alone. -/
def Synchronization.LeavesAccumulator (s : Synchronization) : Prop :=
  ∀ earlier phase r, (s.reaction earlier phase r).accumulator = r.accumulator

namespace Use

/-- Whether what others do leaves the accumulator alone. -/
def LeavesAccumulator : Use → Prop
  | .register s => s.LeavesAccumulator
  | .act change => ∀ r, (change r).accumulator = r.accumulator
  | _ => True

/-- Whether a use is an access to the accumulator, given whether there is synchronization. -/
def accesses (active : Bool) : Use → Bool
  | .beforeFlush m _ _ => m.accesses active
  | .collect m _ _ => m.accesses active
  | _ => false

/-- What others register. -/
def registered : Use → List Synchronization
  | .register s => [s]
  | _ => []

/-- What others register in uses one after another. -/
def registeredIn (uses : List Use) : List Synchronization := uses.flatMap registered

theorem leaves_of_mem_registeredIn {uses : List Use} (h : ∀ use ∈ uses, use.LeavesAccumulator) :
    ∀ s ∈ registeredIn uses, s.LeavesAccumulator := by
  intro s hs
  obtain ⟨use, huse, hmem⟩ := List.mem_flatMap.mp hs
  cases use with
  | register own =>
      cases List.mem_singleton.mp hmem
      exact h _ huse
  | _ => cases hmem

end Use

/-- Whether a call is the one after completion of the synchronization at a place. -/
def SynchronizationCall.completes (place : Nat) (call : SynchronizationCall) : Bool :=
  call.place = place && call.phase != .beforeCommit

namespace Transaction

variable {t : Transaction} {u : Use} {uses : List Use} {active : Bool}
variable {registered earlier later : List Synchronization}

/-- The accumulator was not accessed yet: it is not bound, and only others have registered. -/
structure Untouched (t : Transaction) (registered : List Synchronization) : Prop where
  unbound : t.resources.accumulator = none
  registered : t.synchronizations = some registered

/-- The accumulator was accessed: it is bound and known to be released at the end, and its release is
registered once, between what others registered earlier and later. -/
structure Accessed (t : Transaction) (earlier later : List Synchronization) : Prop where
  bound : ∃ records, t.resources.accumulator = some ⟨records, true⟩
  registered : t.synchronizations = some (earlier ++ .releasing :: later)

/-- There is no synchronization, and the accumulator is bound or not. -/
structure Unsynchronized (t : Transaction) (bound : Bool) : Prop where
  bound : t.resources.accumulator.isSome = bound
  registered : t.synchronizations = none

/-! ## Single uses -/

/-- An access leaves the accumulator bound. -/
theorem use_of_accesses (hactive : t.isSynchronizationActive = active)
    (h : u.accesses active = true) : ∃ records, t.use u = t.holding records := by
  subst hactive
  cases u with
  | beforeFlush m store ids =>
      obtain ⟨henabled, hrefuses⟩ := by simpa [Use.accesses, Manager.accesses_eq] using h
      exact ⟨_, by rw [Transaction.use, Manager.beforeFlush_eq henabled hrefuses]⟩
  | collect m store ids =>
      obtain ⟨henabled, hrefuses⟩ := by simpa [Use.accesses, Manager.accesses_eq] using h
      exact ⟨_, by rw [Transaction.use, Manager.collect_eq henabled hrefuses]⟩
  | register s => cases h
  | act change => cases h

/-- A manager that does not access the accumulator leaves the transaction as it is. -/
theorem use_of_idle {m : Manager} (h : m.accesses t.isSynchronizationActive = false)
    (store : Store) (ids : List EntityId) :
    t.use (.beforeFlush m store ids) = t ∧ t.use (.collect m store ids) = t := by
  rw [m.accesses_eq] at h
  by_cases henabled : m.config.enabled = true
  · have hrefuses : m.refuses t = true := by simpa [henabled] using h
    obtain ⟨hflush, hcollect⟩ := Manager.refused_eq henabled hrefuses store ids
    exact ⟨by rw [Transaction.use, hflush], by rw [Transaction.use, hcollect]⟩
  · simp [Transaction.use, Manager.beforeFlush, Manager.collect, henabled]

/-- Any other use leaves the accumulator alone and registers what others register. -/
theorem use_of_not_accesses (hactive : t.isSynchronizationActive = active)
    (h : u.accesses active = false) (hleaves : u.LeavesAccumulator) :
    (t.use u).resources.accumulator = t.resources.accumulator ∧
      (t.use u).synchronizations = t.synchronizations.map (· ++ u.registered) := by
  subst hactive
  have hnothing : t.synchronizations = t.synchronizations.map (· ++ []) := by simp
  cases u with
  | beforeFlush m store ids =>
      rw [(use_of_idle h store ids).1]
      exact ⟨rfl, hnothing⟩
  | collect m store ids =>
      rw [(use_of_idle h store ids).2]
      exact ⟨rfl, hnothing⟩
  | register s => obtain ⟨resources, _ | registered⟩ := t <;> exact ⟨rfl, rfl⟩
  | act change => exact ⟨hleaves t.resources, hnothing⟩

namespace Untouched

theorem isSynchronizationActive (h : t.Untouched registered) : t.isSynchronizationActive = true := by
  rw [Transaction.isSynchronizationActive, h.registered, Option.isSome_some]

/-- Without an access the accumulator stays untouched. -/
theorem use (h : t.Untouched registered) (hidle : u.accesses true = false)
    (hleaves : u.LeavesAccumulator) : (t.use u).Untouched (registered ++ u.registered) := by
  obtain ⟨haccumulator, hsynchronizations⟩ :=
    use_of_not_accesses h.isSynchronizationActive hidle hleaves
  exact ⟨haccumulator.trans h.unbound, by rw [hsynchronizations, h.registered, Option.map_some]⟩

/-- At the first access the accumulator is bound and its release registered. -/
theorem access (h : t.Untouched registered) (haccess : u.accesses true = true) :
    (t.use u).Accessed registered [] := by
  obtain ⟨records, huse⟩ := use_of_accesses h.isSynchronizationActive haccess
  obtain ⟨⟨accumulator, bound⟩, synchronizations⟩ := t
  obtain ⟨rfl, rfl⟩ := h
  rw [huse]
  exact ⟨⟨records, rfl⟩, rfl⟩

theorem useAll (h : t.Untouched registered) (hidle : ∀ u ∈ uses, u.accesses true = false)
    (hleaves : ∀ u ∈ uses, u.LeavesAccumulator) :
    (t.useAll uses).Untouched (registered ++ Use.registeredIn uses) := by
  induction uses generalizing t registered with
  | nil => rwa [Use.registeredIn, List.flatMap_nil, List.append_nil]
  | cons first rest ih =>
      rw [List.forall_mem_cons] at hidle hleaves
      have hrest := ih (h.use hidle.1 hleaves.1) hidle.2 hleaves.2
      rwa [List.append_assoc] at hrest

end Untouched

namespace Accessed

theorem isSynchronizationActive (h : t.Accessed earlier later) : t.isSynchronizationActive = true := by
  rw [Transaction.isSynchronizationActive, h.registered, Option.isSome_some]

/-- Once accessed, the accumulator stays bound, and its release is not registered again. -/
theorem use (h : t.Accessed earlier later) (hleaves : u.LeavesAccumulator) :
    (t.use u).Accessed earlier (later ++ u.registered) := by
  cases haccess : u.accesses true with
  | true =>
      have hnothing : u.registered = [] := by cases u <;> first | rfl | cases haccess
      obtain ⟨records, huse⟩ := use_of_accesses h.isSynchronizationActive haccess
      obtain ⟨⟨accumulator, bound⟩, synchronizations⟩ := t
      obtain ⟨⟨held, rfl⟩, rfl⟩ := h
      rw [huse, hnothing, List.append_nil]
      exact ⟨⟨records, rfl⟩, rfl⟩
  | false =>
      obtain ⟨haccumulator, hsynchronizations⟩ :=
        use_of_not_accesses h.isSynchronizationActive haccess hleaves
      refine ⟨haccumulator ▸ h.bound, ?_⟩
      rw [hsynchronizations, h.registered, Option.map_some, List.append_assoc, List.cons_append]

theorem useAll (h : t.Accessed earlier later) (hleaves : ∀ u ∈ uses, u.LeavesAccumulator) :
    (t.useAll uses).Accessed earlier (later ++ Use.registeredIn uses) := by
  induction uses generalizing t later with
  | nil => rwa [Use.registeredIn, List.flatMap_nil, List.append_nil]
  | cons first rest ih =>
      rw [List.forall_mem_cons] at hleaves
      have hrest := ih (h.use hleaves.1) hleaves.2
      rwa [List.append_assoc] at hrest

end Accessed

namespace Unsynchronized

variable {bound : Bool}

/-- Without synchronization an access binds the accumulator, and nothing is ever registered. -/
theorem use (h : t.Unsynchronized bound) (hleaves : u.LeavesAccumulator) :
    (t.use u).Unsynchronized (bound || u.accesses false) := by
  have hactive : t.isSynchronizationActive = false := by
    rw [Transaction.isSynchronizationActive, h.registered, Option.isSome_none]
  cases haccess : u.accesses false with
  | true =>
      obtain ⟨records, huse⟩ := use_of_accesses hactive haccess
      obtain ⟨resources, synchronizations⟩ := t
      obtain ⟨-, rfl⟩ := h
      rw [huse, Bool.or_true]
      exact ⟨rfl, rfl⟩
  | false =>
      obtain ⟨haccumulator, hsynchronizations⟩ := use_of_not_accesses hactive haccess hleaves
      rw [Bool.or_false]
      exact ⟨haccumulator ▸ h.bound, by rw [hsynchronizations, h.registered, Option.map_none]⟩

theorem useAll (h : t.Unsynchronized bound) (hleaves : ∀ u ∈ uses, u.LeavesAccumulator) :
    (t.useAll uses).Unsynchronized (bound || uses.any (·.accesses false)) := by
  induction uses generalizing t bound with
  | nil => rwa [List.any_nil, Bool.or_false]
  | cons first rest ih =>
      rw [List.forall_mem_cons] at hleaves
      have hrest := ih (h.use hleaves.1) hleaves.2
      rwa [Bool.or_assoc] at hrest

end Unsynchronized

/-! ## Completions -/

variable {calls : List SynchronizationCall} {r : Resources} {c : Completion} {status : TransactionStatus}

/-- What is counted at the end is what others left bound. -/
def CountsOthers (t : Transaction) (c : Completion) : Prop :=
  ∃ last, t.Runs c.calls last ∧ last.accumulator = none ∧ c.unreleased = last.bound.length

/-- The call of the synchronization at a place after completion releases the accumulator: what is called
until then sees it as it was, and what is called later does not see it any more. -/
def ReleasesAt (t : Transaction) (place : Nat) (c : Completion) : Prop :=
  ∀ earlier call later, c.calls = earlier ++ call :: later →
    call.seen.accumulator =
      if earlier.any (·.completes place) then none else t.resources.accumulator

@[simp] theorem releasing_beforeCommit (earlier : List SynchronizationCall) (r : Resources) :
    Synchronization.releasing.reaction earlier .beforeCommit r = r := rfl

@[simp] theorem releasing_afterCompletion (earlier : List SynchronizationCall)
    (status : TransactionStatus) (r : Resources) :
    Synchronization.releasing.reaction earlier (.afterCompletion status) r = r.release := rfl

/-- Who is not at the place between two lists is in one of them. -/
theorem mem_beside {s between : Synchronization} {place : Nat}
    (hs : (earlier ++ between :: later)[place]? = some s) (hplace : place ≠ earlier.length) :
    s ∈ earlier ∨ s ∈ later := by
  rcases Nat.lt_or_gt_of_ne hplace with hlt | hgt
  · rw [List.getElem?_append_left hlt] at hs
    exact Or.inl (List.mem_of_getElem? hs)
  · rw [List.getElem?_append_right (Nat.le_of_lt hgt),
      List.getElem?_cons, if_neg (Nat.sub_ne_zero_of_lt hgt)] at hs
    exact Or.inr (List.mem_of_getElem? hs)

/-- Those who leave the accumulator alone leave it alone in all calls. -/
theorem Runs.accumulator_of_leaves (hleaves : ∀ s ∈ t.registered, s.LeavesAccumulator)
    (h : t.Runs calls r) : r.accumulator = t.resources.accumulator := by
  induction h with
  | nil => rfl
  | call phase hrun hs ih => exact (hleaves _ (List.mem_of_getElem? hs) _ _ _).trans ih

/-- The accumulator is bound until its release is called. -/
theorem Accessed.accumulator_of_runs (h : t.Accessed earlier later)
    (hearlier : ∀ s ∈ earlier, s.LeavesAccumulator) (hlater : ∀ s ∈ later, s.LeavesAccumulator)
    (hrun : t.Runs calls r) :
    r.accumulator =
      if calls.any (·.completes earlier.length) then none else t.resources.accumulator := by
  have hregistered : t.registered = earlier ++ .releasing :: later := by
    rw [Transaction.registered, h.registered, Option.getD_some]
  induction hrun with
  | nil => rfl
  | @call calls r place s phase hrun hs ih =>
      rw [hregistered] at hs
      rw [List.any_append, List.any_cons, List.any_nil, Bool.or_false]
      -- At its place stands the release, at any other place someone who leaves the accumulator alone.
      by_cases hplace : place = earlier.length
      · subst hplace
        rw [List.getElem?_append_right (Nat.le_refl _), Nat.sub_self, List.getElem?_cons_zero,
          Option.some.injEq] at hs
        subst hs
        cases phase with
        | beforeCommit =>
            rw [releasing_beforeCommit, ih]
            simp [SynchronizationCall.completes]
        | afterCompletion status =>
            rw [releasing_afterCompletion]
            simp [SynchronizationCall.completes, Resources.release]
      · have hleaves : s.LeavesAccumulator :=
          (mem_beside hs hplace).elim (hearlier s) (hlater s)
        rw [hleaves, ih]
        simp [SynchronizationCall.completes, hplace]

/-- A completion calls everyone after completion. -/
theorem CompletesBy.any_completes {place : Nat} (h : t.CompletesBy status c)
    (hplace : place < t.synchronizationCount) : c.calls.any (·.completes place) = true := by
  have hkey : (place, .afterCompletion status) ∈ c.calls.map SynchronizationCall.key := by
    rw [h.scheduled]
    exact TransactionStatus.mem_schedule hplace
  obtain ⟨call, hcall, heq⟩ := List.mem_map.mp hkey
  obtain ⟨rfl, hphase⟩ := Prod.mk.inj heq
  exact List.any_eq_true.mpr ⟨call, hcall, by simp [SynchronizationCall.completes, hphase]⟩

theorem size_of_unbound (h : r.accumulator = none) : r.size = r.bound.length := by
  rw [Resources.size, h, Option.toList_none, List.length_nil, Nat.zero_add]

/-- If the accumulator was never accessed, there is nothing to release. -/
theorem Untouched.countsOthers (h : t.Untouched registered)
    (hleaves : ∀ s ∈ registered, s.LeavesAccumulator) (hc : t.CompletesBy status c) :
    t.CountsOthers c := by
  obtain ⟨last, hrun, hcounted⟩ := hc.counted
  have hregistered : t.registered = registered := by
    rw [Transaction.registered, h.registered, Option.getD_some]
  have hlast : last.accumulator = none :=
    (hrun.accumulator_of_leaves (hregistered ▸ hleaves)).trans h.unbound
  exact ⟨last, hrun, hlast, hcounted.trans (size_of_unbound hlast)⟩

/-- If the accumulator was accessed, the end of the transaction releases it. -/
theorem Accessed.countsOthers (h : t.Accessed earlier later)
    (hearlier : ∀ s ∈ earlier, s.LeavesAccumulator) (hlater : ∀ s ∈ later, s.LeavesAccumulator)
    (hc : t.CompletesBy status c) : t.CountsOthers c ∧ t.ReleasesAt earlier.length c := by
  obtain ⟨last, hrun, hcounted⟩ := hc.counted
  have hplace : earlier.length < t.synchronizationCount := by
    rw [synchronizationCount, Transaction.registered, h.registered, Option.getD_some,
      List.length_append, List.length_cons]
    omega
  have hlast : last.accumulator = none := by
    rw [h.accumulator_of_runs hearlier hlater hrun, hc.any_completes hplace, if_pos rfl]
  refine ⟨⟨last, hrun, hlast, hcounted.trans (size_of_unbound hlast)⟩, ?_⟩
  intro before call after hcalls
  exact h.accumulator_of_runs hearlier hlater (hcalls ▸ hrun).seen

/-- Without synchronization nothing is called, and a bound accumulator is counted. -/
theorem Unsynchronized.unreleased {bound : Bool} (h : t.Unsynchronized bound)
    (hc : t.CompletesBy status c) :
    c.calls = [] ∧ c.unreleased = t.resources.bound.length + if bound then 1 else 0 := by
  obtain ⟨last, hrun, hcounted⟩ := hc.counted
  have hcount : t.synchronizationCount = 0 := by
    rw [synchronizationCount, Transaction.registered, h.registered, Option.getD_none, List.length_nil]
  have hcalls : c.calls = [] := by
    have hkeys := hc.scheduled
    rw [hcount] at hkeys
    cases status <;> simpa [TransactionStatus.schedule, Phase.round] using hkeys
  rw [hcalls] at hrun
  refine ⟨hcalls, ?_⟩
  rw [hcounted, hrun.eq_of_nil, Resources.size, Nat.add_comm, ← h.bound]
  cases t.resources.accumulator <;> rfl

/-! ## One lifetime -/

/-- A transaction with synchronization before the first access. -/
theorem start_untouched (hleaves : ∀ u ∈ uses, u.LeavesAccumulator)
    (hidle : ∀ u ∈ uses, u.accesses true = false) :
    (start.useAll uses).Untouched (Use.registeredIn uses) :=
  Untouched.useAll (t := start) ⟨rfl, rfl⟩ hidle hleaves

/-- A transaction with synchronization from the first access on. -/
theorem start_accessed {before after : List Use} {first : Use}
    (hleaves : ∀ u ∈ before ++ first :: after, u.LeavesAccumulator)
    (hidle : ∀ u ∈ before, u.accesses true = false) (hfirst : first.accesses true = true) :
    (start.useAll (before ++ first :: after)).Accessed (Use.registeredIn before)
      (Use.registeredIn after) := by
  obtain ⟨hbefore, hrest⟩ := List.forall_mem_append.mp hleaves
  rw [List.forall_mem_cons] at hrest
  rw [useAll_append]
  exact ((start_untouched hbefore hidle).access hfirst).useAll hrest.2

/-- In the end nothing but what others left bound is counted. -/
theorem start_countsOthers (hleaves : ∀ u ∈ uses, u.LeavesAccumulator) (status : TransactionStatus) :
    (start.useAll uses).CountsOthers ((start.useAll uses).complete status) := by
  cases hfirst : uses.find? (·.accesses true) with
  | none =>
      have hidle : ∀ u ∈ uses, u.accesses true = false := fun u hu =>
        Bool.eq_false_iff.mpr (List.find?_eq_none.mp hfirst u hu)
      exact (start_untouched hleaves hidle).countsOthers
        (Use.leaves_of_mem_registeredIn hleaves) (completesBy_complete _ _)
  | some first =>
      obtain ⟨haccess, before, after, rfl, hidle⟩ := List.find?_eq_some_iff_append.mp hfirst
      obtain ⟨hbefore, hrest⟩ := List.forall_mem_append.mp hleaves
      have hafter := start_accessed hleaves (fun u hu => by simpa using hidle u hu) haccess
      exact (hafter.countsOthers (Use.leaves_of_mem_registeredIn hbefore)
        (Use.leaves_of_mem_registeredIn (List.forall_mem_cons.mp hrest).2)
        (completesBy_complete _ _)).1

/-- Whatever is done with a transaction that has synchronization: until the first access the accumulator
is not bound and only others have registered; from then on it is bound, and its release is registered
once, where the first access was. However the transaction ends, the release is called, and what is
counted is what others left bound. Without synchronization nothing is ever registered, and an
accumulator that was accessed is counted. -/
theorem accumulator_lives_once {uses : List Use} (hleaves : ∀ u ∈ uses, u.LeavesAccumulator) :
    ((∀ u ∈ uses, u.accesses true = false) →
      (start.useAll uses).Untouched (Use.registeredIn uses) ∧
        ∀ how, ∃ c, ((start.useAll uses).finish how).completions = [c] ∧
          (start.useAll uses).CountsOthers c) ∧
    (∀ before first after, uses = before ++ first :: after →
      (∀ u ∈ before, u.accesses true = false) → first.accesses true = true →
      (start.useAll uses).Accessed (Use.registeredIn before) (Use.registeredIn after) ∧
        ∀ how, ∃ c, ((start.useAll uses).finish how).completions = [c] ∧
          (start.useAll uses).CountsOthers c ∧
          (start.useAll uses).ReleasesAt (Use.registeredIn before).length c) ∧
    (nonTransactional.useAll uses).Unsynchronized (uses.any (·.accesses false)) ∧
      ∀ how, ∃ c, ((nonTransactional.useAll uses).finish how).completions = [c] ∧ c.calls = [] ∧
        c.unreleased = (nonTransactional.useAll uses).resources.bound.length +
          if uses.any (·.accesses false) then 1 else 0 := by
  have hunbound : nonTransactional.Unsynchronized false := ⟨rfl, rfl⟩
  have hnone : (nonTransactional.useAll uses).Unsynchronized (uses.any (·.accesses false)) := by
    simpa only [Bool.false_or] using hunbound.useAll hleaves
  refine ⟨?_, ?_, hnone, ?_⟩
  · intro hidle
    exact ⟨start_untouched hleaves hidle, fun how =>
      ⟨_, completions_finish _ how, start_countsOthers hleaves how.status⟩⟩
  · rintro before first after rfl hidle hfirst
    obtain ⟨hbefore, hrest⟩ := List.forall_mem_append.mp hleaves
    have hafter := start_accessed hleaves hidle hfirst
    exact ⟨hafter, fun how => ⟨_, completions_finish _ how,
      hafter.countsOthers (Use.leaves_of_mem_registeredIn hbefore)
        (Use.leaves_of_mem_registeredIn (List.forall_mem_cons.mp hrest).2)
        (completesBy_complete _ _)⟩⟩
  · exact fun how => ⟨_, completions_finish _ how, hnone.unreleased (completesBy_complete _ _)⟩

/-- Uses by two managers and by someone who unbinds a resource of its own at the end. -/
def sampleUses : List Use :=
  [.act (·.bind "Counter" 1), .register ⟨fun _ => id, fun _ _ r => r.unbind "Counter"⟩,
    .collect { config := { requireTransaction := false } } ⟨[]⟩ [],
    .register ⟨fun _ => id, fun _ _ r => r.bind "Timer" 2⟩,
    .beforeFlush { config := { requireTransaction := true } } ⟨[]⟩ []]

theorem sampleUses_leave : ∀ u ∈ sampleUses, u.LeavesAccumulator := by
  have hregistered : ∀ change : Resources → Resources,
      (∀ r, (change r).accumulator = r.accumulator) →
      (Use.register ⟨fun _ => id, fun _ _ => change⟩).LeavesAccumulator := by
    intro change hchange earlier phase r
    cases phase with
    | beforeCommit => rfl
    | afterCompletion status => exact hchange r
  simp only [sampleUses, List.forall_mem_cons]
  exact ⟨fun _ => rfl, hregistered _ fun _ => rfl, trivial, hregistered _ fun _ => rfl, trivial,
    fun _ h => nomatch h⟩

/-- Here the third use is the first access. -/
theorem sample_accumulator_lives_once :
    (∀ u ∈ sampleUses, u.LeavesAccumulator) ∧
      (start.useAll sampleUses).Accessed (Use.registeredIn (sampleUses.take 2))
        (Use.registeredIn (sampleUses.drop 3)) ∧
      (nonTransactional.useAll sampleUses).Unsynchronized true :=
  ⟨sampleUses_leave,
    ((accumulator_lives_once sampleUses_leave).2.1 _ _ _ rfl (by decide +kernel) rfl).1,
    (accumulator_lives_once sampleUses_leave).2.2.1⟩

end Transaction

end Chronicle
