import Chronicle.Proofs.Tracking.Session
import Mathlib.Data.List.Induction

/-!
# Notifications of enhanced setters

An enhanced setter does to the fields of an entity what its body does, and announces what its getter
reads before and after: to nobody if the two are the same, and otherwise once to the change listener of
the provider and then once to each listener of the application, in the order in which they came to listen.

## Implementation notes

Which listeners there are is told by the history of additions and removals alone. A listener joins when it
is added while it is not there; adding it again while it is there is no moment of its own, so that every
listener has one moment at which it joined last, and the moments give the order.
-/

namespace Chronicle

/-! ## Histories of listeners -/

/-- What an application does with the listeners of an entity. -/
inductive Registration where
  | add (listener : String)
  | remove (listener : String)
deriving DecidableEq

namespace Registration

/-- Whether a history leaves a listener in place: it was added, and not removed since. -/
def Leaves (history : List Registration) (listener : String) : Prop :=
  ∃ before after, history = before ++ .add listener :: after ∧ .remove listener ∉ after

/-- Whether a listener joined last at a moment of a history: it was added while it was not in place, and
not removed since. -/
def JoinsAt (history : List Registration) (listener : String) (moment : Nat) : Prop :=
  ∃ before after, history = before ++ .add listener :: after ∧ before.length = moment ∧
    ¬ Leaves before listener ∧ .remove listener ∉ after

/-- Whether a history makes a list of listeners: those that joined, each once and in that order. -/
structure Makes (history : List Registration) (listeners : List String) : Prop where
  distinct : listeners.Nodup
  mem_iff : ∀ listener, listener ∈ listeners ↔ ∃ moment, JoinsAt history listener moment
  ordered : listeners.Pairwise fun earlier later =>
    ∀ i j, JoinsAt history earlier i → JoinsAt history later j → i < j

variable {history : List Registration} {r : Registration} {listener : String} {moment : Nat}

/-- An element of a history that goes on is its last one, or it was there before. -/
theorem concat_eq_iff {x : Registration} {before after : List Registration} :
    history ++ [r] = before ++ x :: after ↔
      after = [] ∧ history = before ∧ r = x ∨
        ∃ rest, after = rest ++ [r] ∧ history = before ++ x :: rest := by
  constructor
  · intro h
    rcases List.eq_nil_or_concat after with rfl | ⟨rest, last, rfl⟩
    · obtain ⟨hhistory, hlast⟩ := List.append_inj' h rfl
      exact Or.inl ⟨rfl, hhistory, (List.cons.inj hlast).1⟩
    · have hsplit : history ++ [r] = (before ++ x :: rest) ++ [last] := by simpa using h
      obtain ⟨hhistory, hlast⟩ := List.append_inj' hsplit rfl
      obtain rfl := (List.cons.inj hlast).1
      exact Or.inr ⟨rest, List.concat_eq_append, hhistory⟩
  · rintro (⟨rfl, rfl, rfl⟩ | ⟨rest, rfl, rfl⟩)
    · rfl
    · simp

theorem leaves_concat :
    Leaves (history ++ [r]) listener ↔
      r = .add listener ∨ Leaves history listener ∧ r ≠ .remove listener := by
  constructor
  · rintro ⟨before, after, hsplit, hkept⟩
    rcases concat_eq_iff.mp hsplit with ⟨-, -, hr⟩ | ⟨rest, rfl, hhistory⟩
    · exact Or.inl hr
    · rw [List.mem_append, List.mem_singleton, not_or] at hkept
      exact Or.inr ⟨⟨before, rest, hhistory, hkept.1⟩, Ne.symm hkept.2⟩
  · rintro (rfl | ⟨⟨before, after, hhistory, hkept⟩, hr⟩)
    · exact ⟨history, [], rfl, List.not_mem_nil⟩
    · refine ⟨before, after ++ [r], concat_eq_iff.mpr (Or.inr ⟨after, rfl, hhistory⟩), ?_⟩
      rw [List.mem_append, List.mem_singleton, not_or]
      exact ⟨hkept, Ne.symm hr⟩

/-- A listener that joins with the last addition was not in place; any other one joined before and was
not removed with it. -/
theorem joinsAt_concat :
    JoinsAt (history ++ [r]) listener moment ↔
      (r = .add listener ∧ ¬ Leaves history listener ∧ moment = history.length) ∨
        JoinsAt history listener moment ∧ r ≠ .remove listener := by
  constructor
  · rintro ⟨before, after, hsplit, hmoment, hnew, hkept⟩
    rcases concat_eq_iff.mp hsplit with ⟨-, rfl, hr⟩ | ⟨rest, rfl, hhistory⟩
    · exact Or.inl ⟨hr, hnew, hmoment.symm⟩
    · rw [List.mem_append, List.mem_singleton, not_or] at hkept
      exact Or.inr ⟨⟨before, rest, hhistory, hmoment, hnew, hkept.1⟩, Ne.symm hkept.2⟩
  · rintro (⟨rfl, hnew, rfl⟩ | ⟨⟨before, after, hhistory, hmoment, hnew, hkept⟩, hr⟩)
    · exact ⟨history, [], rfl, rfl, hnew, List.not_mem_nil⟩
    · refine ⟨before, after ++ [r], concat_eq_iff.mpr (Or.inr ⟨after, rfl, hhistory⟩), hmoment, hnew, ?_⟩
      rw [List.mem_append, List.mem_singleton, not_or]
      exact ⟨hkept, Ne.symm hr⟩

theorem JoinsAt.lt (h : JoinsAt history listener moment) : moment < history.length := by
  obtain ⟨before, after, rfl, rfl, -⟩ := h
  simp

theorem not_leaves_nil : ¬ Leaves [] listener := by
  rintro ⟨before, after, h, -⟩
  simp at h

theorem JoinsAt.leaves (h : JoinsAt history listener moment) : Leaves history listener := by
  obtain ⟨before, after, hhistory, -, -, hkept⟩ := h
  exact ⟨before, after, hhistory, hkept⟩

/-- A listener that is in place joined at a moment. -/
theorem leaves_iff : Leaves history listener ↔ ∃ moment, JoinsAt history listener moment := by
  refine ⟨?_, fun ⟨_, h⟩ => h.leaves⟩
  induction history using List.reverseRecOn with
  | nil => exact fun h => absurd h not_leaves_nil
  | append_singleton history r ih =>
      intro h
      simp only [joinsAt_concat]
      by_cases hbefore : Leaves history listener
      · obtain ⟨moment, hmoment⟩ := ih hbefore
        have hr : r ≠ .remove listener := by
          rcases leaves_concat.mp h with rfl | ⟨-, hr⟩
          · exact Registration.noConfusion
          · exact hr
        exact ⟨moment, Or.inr ⟨hmoment, hr⟩⟩
      · have hr : r = .add listener :=
          (leaves_concat.mp h).resolve_right fun hkept => hbefore hkept.1
        exact ⟨history.length, Or.inl ⟨hr, hbefore, rfl⟩⟩

end Registration

namespace Entity

open Registration (Leaves JoinsAt Makes)

variable {e : Entity} {history : List Registration}

/-- The entity after an addition or a removal. -/
def register (e : Entity) : Registration → Entity
  | .add listener => e.listen listener
  | .remove listener => e.unlisten listener

/-- The entity after additions and removals. -/
def registerAll (e : Entity) (history : List Registration) : Entity := history.foldl register e

/-- A listener that is there already is not added again. -/
theorem listen_of_mem {listener : String} (h : listener ∈ e.listeners) : e.listen listener = e :=
  if_pos (List.contains_iff_mem.mpr h)

theorem listeners_listen_of_not_mem {listener : String} (h : listener ∉ e.listeners) :
    (e.listen listener).listeners = e.listeners ++ [listener] := by
  rw [listen, if_neg fun hmem => h (List.contains_iff_mem.mp hmem)]

theorem mem_listeners_iff (h : Makes history e.listeners) (listener : String) :
    listener ∈ e.listeners ↔ Leaves history listener :=
  (h.mem_iff listener).trans Registration.leaves_iff.symm

/-- An addition puts a listener at the end, unless it is there already. -/
theorem makes_listen (h : Makes history e.listeners) (listener : String) :
    Makes (history ++ [.add listener]) (e.listen listener).listeners := by
  by_cases hmem : listener ∈ e.listeners
  · have hin := (mem_listeners_iff h listener).mp hmem
    have hjoins : ∀ other moment,
        JoinsAt (history ++ [.add listener]) other moment ↔ JoinsAt history other moment := by
      intro other moment
      rw [Registration.joinsAt_concat, and_iff_left Registration.noConfusion, or_iff_right]
      rintro ⟨hother, hnew, -⟩
      cases hother
      exact hnew hin
    rw [listen_of_mem hmem]
    exact ⟨h.distinct, by simpa only [hjoins] using h.mem_iff, by simpa only [hjoins] using h.ordered⟩
  · have hout : ¬ Leaves history listener := fun hin => hmem ((mem_listeners_iff h listener).mpr hin)
    have hjoins : ∀ other moment, JoinsAt (history ++ [.add listener]) other moment ↔
        other = listener ∧ moment = history.length ∨ JoinsAt history other moment := by
      intro other moment
      rw [Registration.joinsAt_concat, and_iff_left Registration.noConfusion]
      refine or_congr_left ⟨?_, ?_⟩
      · rintro ⟨hother, -, hmoment⟩
        cases hother
        exact ⟨rfl, hmoment⟩
      · rintro ⟨rfl, hmoment⟩
        exact ⟨rfl, hout, hmoment⟩
    rw [listeners_listen_of_not_mem hmem]
    refine ⟨?_, fun other => ?_, List.pairwise_append.mpr ⟨?_, List.pairwise_singleton _ _, ?_⟩⟩
    · exact List.nodup_append.mpr ⟨h.distinct, List.nodup_singleton listener, fun a ha b hb hab =>
        hmem (List.mem_singleton.mp hb ▸ hab ▸ ha)⟩
    · rw [List.mem_append, List.mem_singleton, h.mem_iff]
      simp only [hjoins, exists_or, exists_and_left, exists_eq, and_true]
      exact or_comm
    · refine h.ordered.imp_of_mem fun ha hb hlt i j hi hj => ?_
      exact hlt i j (((hjoins _ i).mp hi).resolve_left fun hnew => hmem (hnew.1 ▸ ha))
        (((hjoins _ j).mp hj).resolve_left fun hnew => hmem (hnew.1 ▸ hb))
    · intro a ha b hb i j hi hj
      obtain rfl := List.mem_singleton.mp hb
      have hi := ((hjoins a i).mp hi).resolve_left fun hnew => hmem (hnew.1 ▸ ha)
      have hj := ((hjoins b j).mp hj).resolve_right fun hold => hout hold.leaves
      exact hj.2 ▸ hi.lt

/-- A removal takes a listener out and leaves the order of the others. -/
theorem makes_unlisten (h : Makes history e.listeners) (listener : String) :
    Makes (history ++ [.remove listener]) (e.unlisten listener).listeners := by
  have hjoins : ∀ other moment, JoinsAt (history ++ [.remove listener]) other moment ↔
      JoinsAt history other moment ∧ other ≠ listener := by
    intro other moment
    rw [Registration.joinsAt_concat, or_iff_right fun hadd => Registration.noConfusion hadd.1]
    simp [eq_comm]
  refine ⟨h.distinct.filter _, fun other => ?_, ?_⟩
  · simp [unlisten, h.mem_iff, hjoins]
  · refine (h.ordered.filter _).imp fun hlt i j hi hj => ?_
    exact hlt i j ((hjoins _ i).mp hi).1 ((hjoins _ j).mp hj).1

/-- The listeners of an entity that had none are what the history makes of them. -/
theorem makes_registerAll (h : e.listeners = []) (history : List Registration) :
    Makes history (e.registerAll history).listeners := by
  induction history using List.reverseRecOn with
  | nil =>
      rw [registerAll, List.foldl_nil, h]
      refine ⟨List.nodup_nil, fun listener => ?_, List.Pairwise.nil⟩
      simp only [List.not_mem_nil, false_iff, not_exists]
      exact fun moment hjoins => Registration.not_leaves_nil hjoins.leaves
  | append_singleton history r ih =>
      rw [registerAll, List.foldl_append, List.foldl_cons, List.foldl_nil]
      cases r with
      | add listener => exact makes_listen ih listener
      | remove listener => exact makes_unlisten ih listener

theorem register_keeps (e : Entity) (r : Registration) :
    (e.register r).object = e.object ∧ (e.register r).state = e.state ∧
      (e.register r).changeListener = e.changeListener := by
  cases r with
  | add listener =>
      change (e.listen listener).object = _ ∧ (e.listen listener).state = _ ∧
        (e.listen listener).changeListener = _
      unfold listen
      split_ifs <;> exact ⟨rfl, rfl, rfl⟩
  | remove listener => exact ⟨rfl, rfl, rfl⟩

/-- Additions and removals change nothing but the listeners. -/
theorem registerAll_keeps (e : Entity) (history : List Registration) :
    (e.registerAll history).object = e.object ∧ (e.registerAll history).state = e.state ∧
      (e.registerAll history).changeListener = e.changeListener := by
  induction history generalizing e with
  | nil => exact ⟨rfl, rfl, rfl⟩
  | cons r rest ih =>
      obtain ⟨hobject, hstate, hprovider⟩ := register_keeps e r
      obtain ⟨hobjects, hstates, hproviders⟩ := ih (e.register r)
      exact ⟨hobjects.trans hobject, hstates.trans hstate, hproviders.trans hprovider⟩

/-- Everybody who is told is told once. -/
theorem nodup_recipients (h : e.listeners.Nodup) : e.recipients.Nodup := by
  refine List.nodup_append.mpr ⟨?_, h.map fun _ _ heq => Recipient.listener.inj heq, ?_⟩
  · cases e.changeListener <;> simp
  · intro a ha b hb hab
    obtain ⟨listener, -, rfl⟩ := List.mem_map.mp hb
    cases hprovider : e.changeListener with
    | none => simp [hprovider] at ha
    | some provider => simp [hprovider, hab] at ha

end Entity

/-- An enhanced setter keeps the effect of its body and notifies exactly once. Whatever the body does and
wherever it returns, the fields are those that the body leaves. If the getter reads the same before and
after, nobody is told. Otherwise the change listener of the provider is told first, and then each listener
of the application once, in the order in which they joined last, all of the values that the getter read.
Adding a listener that is there already changes nothing. -/
theorem enhanced_setter_notifies_once (o : Object) (state : LifecycleState)
    (provider : Option ChangeListener) (history : List Registration) (attr : String)
    (getter : Object → Value) (body : Body) :
    let e := (⟨o, state, [], provider⟩ : Entity).registerAll history
    let change : PropertyChange := ⟨attr, getter o, getter (body.result o)⟩
    let after := (e.perform attr getter body).1
    let notices := (e.perform attr getter body).2
    (after.object = body.result o ∧ after.state = state ∧ after.listeners = e.listeners) ∧
    (change.old.same change.new = true → notices = [] ∧ after.changeListener = provider) ∧
    (change.old.same change.new = false →
      after.changeListener = provider.map (·.notified change) ∧
      notices = (provider.map fun _ => ⟨.changeListener, change⟩).toList ++
        e.listeners.map fun listener => ⟨.listener listener, change⟩) ∧
    (notices.map Notice.recipient).Nodup ∧
    Registration.Makes history e.listeners ∧
    ∀ listener ∈ e.listeners, e.listen listener = e := by
  intro e change after notices
  obtain ⟨hobject, hstate, hprovider⟩ :=
    Entity.registerAll_keeps ⟨o, state, [], provider⟩ history
  have hmakes : Registration.Makes history e.listeners := Entity.makes_registerAll rfl history
  have hperform : e.perform attr getter body =
      { e with object := body.result o }.announce change := by
    rw [Entity.perform, show e.object = o from hobject]
  have hagain : ∀ listener ∈ e.listeners, e.listen listener = e := fun _ => Entity.listen_of_mem
  by_cases hsame : change.old.same change.new = true
  · obtain ⟨hafter, hnotices⟩ : after = { e with object := body.result o } ∧ notices = [] :=
      Prod.ext_iff.mp (hperform.trans (if_pos hsame))
    rw [hafter, hnotices]
    exact ⟨⟨rfl, hstate, rfl⟩, fun _ => ⟨rfl, hprovider⟩,
      fun hdiffers => absurd (hsame.symm.trans hdiffers) Bool.noConfusion, List.nodup_nil, hmakes, hagain⟩
  · obtain ⟨hafter, hnotices⟩ : after = { e with
          object := body.result o
          changeListener := e.changeListener.map (·.notified change) } ∧
        notices = e.recipients.map fun recipient => ⟨recipient, change⟩ :=
      Prod.ext_iff.mp (hperform.trans (if_neg hsame))
    have hrecipients : notices.map Notice.recipient = e.recipients := by
      rw [hnotices, List.map_map]
      exact List.map_id _
    rw [hafter, hrecipients, hnotices, Entity.recipients, hprovider]
    refine ⟨⟨rfl, hstate, rfl⟩, fun h => absurd h hsame, fun _ => ⟨rfl, ?_⟩, ?_, hmakes, hagain⟩
    · rw [List.map_append, List.map_map]
      cases provider <;> rfl
    · exact hprovider ▸ Entity.nodup_recipients hmakes.distinct

/-- A listener that is added again stays at its place, and comes last if it was removed before. -/
example :
    (Entity.registerAll ⟨Object.fresh { structName := "Owner", fields := [] }, .new, [], none⟩
      [.add "a", .add "b", .add "c", .add "a", .remove "b", .add "b"]).listeners = ["a", "c", "b"] := by
  decide

end Chronicle
