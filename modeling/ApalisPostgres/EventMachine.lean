/-
Systems that move by events.  An event either does not apply to a state or
takes it to the next one; what every event keeps holds of every state a run
reaches.
-/
import Mathlib.Logic.Relation

namespace RowStore

/-- A system started in one of its initial states and moved by events. -/
structure Machine (σ ε : Type) where
  Initial : σ → Prop
  step : σ → ε → Option σ

namespace Machine

variable {σ ε : Type} (m : Machine σ ε)

/-- The second state follows the first by events that are all admitted. -/
def FollowsBy (admits : ε → Prop) : σ → σ → Prop :=
  Relation.ReflTransGen fun state after =>
    ∃ event, admits event ∧ m.step state event = some after

/-- The second state follows the first by events, each of them admitted in
the state it occurs in. -/
def FollowsWhere (admits : σ → ε → Prop) : σ → σ → Prop :=
  Relation.ReflTransGen fun state after =>
    ∃ event, admits state event ∧ m.step state event = some after

/-- The second state follows the first by any events. -/
def Follows : σ → σ → Prop := m.FollowsBy fun _ => True

def Reachable (state : σ) : Prop :=
  ∃ start, m.Initial start ∧ m.Follows start state

/-- Apply a list of events in order. -/
def run : σ → List ε → Option σ
  | state, [] => some state
  | state, event :: rest => (m.step state event).bind fun next => run next rest

/-- Apply a list of events in order, as long as each passes a check in the
state it occurs in. -/
def runWhere (check : σ → ε → Bool) : σ → List ε → Option σ
  | state, [] => some state
  | state, event :: rest =>
      if check state event then
        (m.step state event).bind fun next => runWhere check next rest
      else none

variable {m} (inv : σ → Prop) {admits : ε → Prop}

/-- What every admitted event keeps is kept along a run. -/
theorem FollowsBy.invariant {state after : σ}
    (h : m.FollowsBy admits state after)
    (hstep : ∀ {state after event}, inv state → admits event →
      m.step state event = some after → inv after)
    (hstate : inv state) : inv after := by
  induction h with
  | refl => exact hstate
  | tail _ hmove ih =>
      obtain ⟨event, hadmits, hevent⟩ := hmove
      exact hstep ih hadmits hevent

/-- What every event keeps where it is admitted is kept along a run. -/
theorem FollowsWhere.invariant {admits : σ → ε → Prop} {state after : σ}
    (h : m.FollowsWhere admits state after)
    (hstep : ∀ {state after event}, inv state → admits state event →
      m.step state event = some after → inv after)
    (hstate : inv state) : inv after := by
  induction h with
  | refl => exact hstate
  | tail _ hmove ih =>
      obtain ⟨event, hadmits, hevent⟩ := hmove
      exact hstep ih hadmits hevent

/-- Leaving the conditions away leaves a run. -/
theorem FollowsWhere.follows {admits : σ → ε → Prop} {state after : σ}
    (h : m.FollowsWhere admits state after) : m.Follows state after := by
  refine Relation.ReflTransGen.mono ?_ state after h
  rintro _ _ ⟨event, _, hevent⟩
  exact ⟨event, trivial, hevent⟩

theorem Follows.invariant {state after : σ} (h : m.Follows state after)
    (hstep : ∀ {state after event}, inv state →
      m.step state event = some after → inv after)
    (hstate : inv state) : inv after :=
  FollowsBy.invariant inv h (fun hold _ hevent => hstep hold hevent) hstate

theorem Reachable.follows {state after : σ} (h : m.Reachable state)
    (hafter : m.Follows state after) : m.Reachable after := by
  obtain ⟨start, hstart, hstate⟩ := h
  exact ⟨start, hstart, hstate.trans hafter⟩

theorem Reachable.step {state after : σ} {event : ε} (h : m.Reachable state)
    (hevent : m.step state event = some after) : m.Reachable after :=
  h.follows (Relation.ReflTransGen.single ⟨event, trivial, hevent⟩)

/-- An inductive invariant holds in every reachable state. -/
theorem Reachable.invariant {state : σ} (h : m.Reachable state)
    (hinitial : ∀ {start}, m.Initial start → inv start)
    (hstep : ∀ {state after event}, inv state →
      m.step state event = some after → inv after) : inv state := by
  obtain ⟨start, hstart, hfollows⟩ := h
  exact hfollows.invariant inv hstep (hinitial hstart)

/-- An invariant whose steps are only taken from reachable states. -/
theorem Reachable.invariant_of_reachable {state : σ} (h : m.Reachable state)
    (hinitial : ∀ {start}, m.Initial start → inv start)
    (hstep : ∀ {state after event}, m.Reachable state → inv state →
      m.step state event = some after → inv after) : inv state := by
  have hboth : m.Reachable state ∧ inv state := by
    apply h.invariant fun state => m.Reachable state ∧ inv state
    · intro start hstart
      exact ⟨⟨start, hstart, Relation.ReflTransGen.refl⟩, hinitial hstart⟩
    · rintro state after event ⟨hreachable, hinv⟩ hevent
      exact ⟨hreachable.step hevent, hstep hreachable hinv hevent⟩
  exact hboth.2

/-- A list of admitted events that runs is a run. -/
theorem followsBy_of_run {state after : σ} (events : List ε)
    (hadmits : ∀ event ∈ events, admits event)
    (h : m.run state events = some after) : m.FollowsBy admits state after := by
  induction events generalizing state with
  | nil =>
      obtain rfl := Option.some.inj h
      exact Relation.ReflTransGen.refl
  | cons event rest ih =>
      simp only [run, Option.bind_eq_some_iff] at h
      obtain ⟨next, hnext, hrest⟩ := h
      refine Relation.ReflTransGen.head
        ⟨event, hadmits event List.mem_cons_self, hnext⟩ (ih ?_ hrest)
      intro other hother
      exact hadmits other (List.mem_cons_of_mem _ hother)

/-- A list of checked events that runs is a run. -/
theorem followsWhere_of_run {check : σ → ε → Bool} {state after : σ}
    (events : List ε) (h : m.runWhere check state events = some after) :
    m.FollowsWhere (fun state event => check state event = true)
      state after := by
  induction events generalizing state with
  | nil =>
      obtain rfl := Option.some.inj h
      exact Relation.ReflTransGen.refl
  | cons event rest ih =>
      simp only [runWhere] at h
      split at h
      · rename_i hcheck
        obtain ⟨next, hnext, hrest⟩ := Option.bind_eq_some_iff.mp h
        exact Relation.ReflTransGen.head ⟨event, hcheck, hnext⟩ (ih hrest)
      · cases h

/-- A checked run that does not get stuck ends in the state it computes. -/
theorem runWhere_eq_getD {check : σ → ε → Bool} {state : σ} {events : List ε}
    (fallback : σ) (h : (m.runWhere check state events).isSome = true) :
    m.runWhere check state events =
      some ((m.runWhere check state events).getD fallback) := by
  obtain ⟨after, hafter⟩ := Option.isSome_iff_exists.mp h
  rw [hafter]
  rfl

theorem run_eq_getD {state : σ} {events : List ε} (fallback : σ)
    (h : (m.run state events).isSome = true) :
    m.run state events = some ((m.run state events).getD fallback) := by
  obtain ⟨after, hafter⟩ := Option.isSome_iff_exists.mp h
  rw [hafter]
  rfl

theorem follows_of_run {state after : σ} (events : List ε)
    (h : m.run state events = some after) : m.Follows state after :=
  followsBy_of_run events (fun _ _ => trivial) h

/-- How many events of a list make progress, each in the state it occurs
in. -/
def progressed (productive : σ → ε → Bool) (m : Machine σ ε) : σ → List ε → Nat
  | _, [] => 0
  | state, event :: rest =>
      (productive state event).toNat +
        (m.step state event).elim 0 fun next =>
          progressed productive m next rest

/-- A variant that no event raises and that every event of progress lowers
bounds the progress of a run. -/
theorem runWhere_progressed (variant : σ → Nat)
    {check productive : σ → ε → Bool} {state after : σ}
    (hstep : ∀ {state after event}, inv state → check state event = true →
      m.step state event = some after → inv after ∧
        (productive state event).toNat + variant after ≤ variant state)
    (events : List ε) (h : m.runWhere check state events = some after)
    (hstate : inv state) :
    inv after ∧
      m.progressed productive state events + variant after ≤ variant state := by
  induction events generalizing state with
  | nil =>
      obtain rfl := Option.some.inj h
      exact ⟨hstate, by simp [progressed]⟩
  | cons event rest ih =>
      simp only [runWhere] at h
      split at h
      · rename_i hcheck
        obtain ⟨next, hnext, hrest⟩ := Option.bind_eq_some_iff.mp h
        obtain ⟨hinv, hlower⟩ := hstep hstate hcheck hnext
        obtain ⟨hlast, hbound⟩ := ih hrest hinv
        refine ⟨hlast, ?_⟩
        rw [progressed, hnext, Option.elim_some]
        omega
      · cases h

end Machine

end RowStore
