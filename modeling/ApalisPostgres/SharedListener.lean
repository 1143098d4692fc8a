/-
The shared notification listener.  Consumers register a sender under their
queue; one listener thread serves them all.  The registry lock makes each
section below atomic, and the registration, the exit decision and the failure
broadcast interleave in any order.
-/
import ApalisPostgres.EventMachine
import ApalisPostgres.KeyedTable
import Mathlib.Data.List.Basic

namespace ApalisPostgres

open RowStore

/-- What a consumer shares with the listener: its hint channel and its cell of
`NotificationErrors`.  `published` is every failure published to it. -/
structure Consumer where
  capacity : Nat
  hints : List String
  isOpen : Bool
  pending : Option String
  published : List String
deriving Repr, DecidableEq

/-- The senders of one queue, by the id of their registration. -/
structure QueueSenders where
  queue : String
  senders : List Nat
deriving Repr, DecidableEq

abbrev RegistryMap := Table String QueueSenders QueueSenders.queue

/-- Where a listener is: claimed by a registration that has yet to spawn it,
on its thread, or about to report the failure that ends it. -/
inductive ListenerPhase where
  | claimed
  | connecting
  | subscribing
  | looping
  | failing (error : String)
  | exited
deriving Repr, DecidableEq

def ListenerPhase.active (phase : ListenerPhase) : Bool :=
  phase ≠ .exited

/-- `InsertEvent`, the payload of a notification. -/
structure InsertEvent where
  jobType : String
  id : Option String
  ids : List String

def insertEventIdsCap : Nat := 65536

def InsertEvent.intoIds (event : InsertEvent) : String × List String :=
  let ids := event.ids.take insertEventIdsCap
  if ids.isEmpty then (event.jobType, event.id.toList)
  else (event.jobType, ids)

abbrev Consumers := Nat → Option Consumer

/-- `registrations` are the registrations not yet dropped, with their queue. -/
structure SharedSystem where
  registry : RegistryMap
  listenerAlive : Bool
  consumers : Consumers
  registrations : Nat → Option String
  listeners : List ListenerPhase

inductive SharedEvent where
  | makeShared (id : Nat) (queue : String) (bufferSize : Nat)
  | spawn (n : Nat) (result : Except String Unit)
  | checkout (n : Nat) (result : Except String Unit)
  | listen (n : Nat) (result : Except String Unit)
  | receive (n : Nat) (notification : Except String (Option InsertEvent))
  | checkExit (n : Nat)
  | exitListener (n : Nat)
  | closeReceiver (id : Nat)
  | dropRegistration (id : Nat)
  | takeError (id : Nat)
  | takeHint (id : Nat)

def notifyChannelCapacityMax : Nat := 8192

def clampNotifyCapacity (capacity : Nat) : Nat :=
  max 1 (min capacity notifyChannelCapacityMax)

namespace Consumer

def new (bufferSize : Nat) : Consumer :=
  ⟨clampNotifyCapacity bufferSize, [], true, none, []⟩

/-- `NotificationErrors::publish`: failures coalesce until observed. -/
def publish (consumer : Consumer) (error : String) : Consumer :=
  { consumer with
    pending := some (consumer.pending.getD error)
    published := consumer.published ++ [error] }

/-- `try_send` on an open channel; one sender adds one slot to the buffer, and
a full channel drops the hint. -/
def trySend (consumer : Consumer) (hint : String) : Consumer :=
  if consumer.capacity < consumer.hints.length then consumer
  else { consumer with hints := consumer.hints ++ [hint] }

end Consumer

namespace Consumers

def isOpen (consumers : Consumers) (id : Nat) : Bool :=
  (consumers id).any Consumer.isOpen

def change (consumers : Consumers) (id : Nat) (f : Consumer → Consumer) :
    Consumers :=
  fun other => if other = id then (consumers other).map f else consumers other

/-- `retain_mut` of one broadcast: a disconnected sender is pruned, every
other one is kept. -/
def sendAll (hint : String) : List Nat → Consumers → Consumers × List Nat
  | [], consumers => (consumers, [])
  | id :: rest, consumers =>
      if consumers.isOpen id then
        let sent := sendAll hint rest (consumers.change id (·.trySend hint))
        (sent.1, id :: sent.2)
      else sendAll hint rest consumers

/-- Broadcast every id to the senders left by the one before. -/
def sendIds : List String → List Nat → Consumers → Consumers × List Nat
  | [], senders, consumers => (consumers, senders)
  | hint :: rest, senders, consumers =>
      let sent := sendAll hint senders consumers
      sendIds rest sent.2 sent.1

end Consumers

namespace RegistryMap

/-- The senders registered under a queue. -/
def sendersOf (registry : RegistryMap) (queue : String) : List Nat :=
  (registry.get? queue).elim [] QueueSenders.senders

/-- `entry(queue).or_default().push(..)`. -/
def push (registry : RegistryMap) (queue : String) (id : Nat) : RegistryMap :=
  registry.put ⟨queue, registry.sendersOf queue ++ [id]⟩

/-- Store what is left of a queue's senders; the last one takes the key with
it. -/
def store (registry : RegistryMap) (queue : String) (senders : List Nat) :
    RegistryMap :=
  if senders.isEmpty then registry.erase queue
  else registry.put ⟨queue, senders⟩

def deliverToQueue (registry : RegistryMap) (queue : String)
    (ids : List String) (consumers : Consumers) : RegistryMap × Consumers :=
  match registry.get? queue with
  | none => (registry, consumers)
  | some row =>
      let sent := consumers.sendIds ids row.senders
      (registry.store queue sent.2, sent.1)

def listenerShouldExit (registry : RegistryMap) : Bool :=
  registry.rows.isEmpty

/-- The senders of a queue whose receiver is still there. -/
def keepOpen (consumers : Consumers) (row : QueueSenders) :
    Option QueueSenders :=
  let kept := row.senders.filter consumers.isOpen
  if kept.isEmpty then none else some { row with senders := kept }

theorem keepOpen_queue {consumers : Consumers} {row kept : QueueSenders}
    (h : keepOpen consumers row = some kept) : kept.queue = row.queue := by
  simp only [keepOpen] at h
  split at h
  · cases h
  · obtain rfl := Option.some.inj h
    rfl

def listed (registry : RegistryMap) : List Nat :=
  registry.rows.flatMap QueueSenders.senders

def broadcastNotifyErrorLocked (registry : RegistryMap) (message : String)
    (consumers : Consumers) : RegistryMap × Consumers :=
  (registry.retain (keepOpen consumers) keepOpen_queue,
    (registry.listed.filter consumers.isOpen).foldl
      (fun consumers id => consumers.change id (·.publish message)) consumers)

/-- `Drop for SharedRegistration`. -/
def dropRegistration (registry : RegistryMap) (queue : String) (id : Nat) :
    RegistryMap :=
  match registry.get? queue with
  | none => registry
  | some row => registry.store queue (row.senders.filter (· ≠ id))

end RegistryMap

namespace SharedSystem

def initial : SharedSystem :=
  ⟨∅, false, fun _ => none, fun _ => none, []⟩

def setListener (system : SharedSystem) (n : Nat) (phase : ListenerPhase) :
    SharedSystem :=
  { system with listeners := system.listeners.set n phase }

/-- The locked section of `make_shared_with_config`: the sender is appended
and the spawn is claimed when no listener is alive. -/
def makeShared (system : SharedSystem) (id : Nat) (queue : String)
    (bufferSize : Nat) : SharedSystem where
  registry := system.registry.push queue id
  listenerAlive := true
  consumers other :=
    if other = id then some (.new bufferSize) else system.consumers other
  registrations other :=
    if other = id then some queue else system.registrations other
  listeners :=
    if system.listenerAlive then system.listeners
    else system.listeners ++ [.claimed]

/-- `exit_listener`. -/
def exitListener (system : SharedSystem) (n : Nat) (error : String) :
    SharedSystem :=
  let broadcast :=
    system.registry.broadcastNotifyErrorLocked error system.consumers
  { system.setListener n .exited with
    registry := broadcast.1
    consumers := broadcast.2
    listenerAlive := false }

/-- The next phase of a listener, or the message it fails with. -/
def advance (system : SharedSystem) (n : Nat) (next : ListenerPhase)
    (failure : String → String) : Except String Unit → SharedSystem
  | .ok () => system.setListener n next
  | .error error => system.setListener n (.failing (failure error))

/-- Whether a registration id is taken; `Ulid::new` never repeats one. -/
def knows (system : SharedSystem) (id : Nat) : Bool :=
  (system.consumers id).isSome

def step (system : SharedSystem) : SharedEvent → Option SharedSystem
  | .makeShared id queue bufferSize =>
      if system.knows id then none
      else some (system.makeShared id queue bufferSize)
  | .spawn n result =>
      match system.listeners[n]? with
      | some .claimed =>
          some (system.advance n .connecting
            ("failed to spawn listener: " ++ ·) result)
      | _ => none
  | .checkout n result =>
      match system.listeners[n]? with
      | some .connecting =>
          some (system.advance n .subscribing
            ("failed to get pooled connection for shared LISTEN: " ++ ·)
            result)
      | _ => none
  | .listen n result =>
      match system.listeners[n]? with
      | some .subscribing =>
          some (system.advance n .looping
            ("failed to start shared LISTEN listener: " ++ ·) result)
      | _ => none
  | .receive n notification =>
      match system.listeners[n]?, notification with
      | some .looping, .error error =>
          some (system.setListener n
            (.failing ("failed to receive shared notification: " ++ error)))
      | some .looping, .ok none => some system
      | some .looping, .ok (some event) =>
          let (queue, ids) := event.intoIds
          let delivered :=
            system.registry.deliverToQueue queue ids system.consumers
          some { system with
            registry := delivered.1
            consumers := delivered.2 }
      | _, _ => none
  | .checkExit n =>
      match system.listeners[n]? with
      | some .looping =>
          if system.registry.listenerShouldExit then
            some { system.setListener n .exited with listenerAlive := false }
          else some system
      | _ => none
  | .exitListener n =>
      match system.listeners[n]? with
      | some (.failing error) => some (system.exitListener n error)
      | _ => none
  | .closeReceiver id =>
      some { system with
        consumers := system.consumers.change id
          fun consumer => { consumer with isOpen := false } }
  | .dropRegistration id =>
      match system.registrations id with
      | none => none
      | some queue =>
          some { system with
            registry := system.registry.dropRegistration queue id
            registrations := fun other =>
              if other = id then none else system.registrations other }
  | .takeError id =>
      some { system with
        consumers := system.consumers.change id
          fun consumer => { consumer with pending := none } }
  | .takeHint id =>
      some { system with
        consumers := system.consumers.change id
          fun consumer => { consumer with hints := consumer.hints.tail } }

def machine : Machine SharedSystem SharedEvent where
  Initial system := system = initial
  step := step

end SharedSystem

/-- The same channels are open and the same failures were published: only the
hints and the pending cells may differ. -/
structure Consumers.SameStatus (consumers after : Consumers) : Prop where
  isOpen : ∀ id, after.isOpen id = consumers.isOpen id
  published : ∀ id, (after id).map Consumer.published =
    (consumers id).map Consumer.published

namespace Consumers

variable {consumers middle after : Consumers}

theorem SameStatus.refl (consumers : Consumers) :
    consumers.SameStatus consumers :=
  ⟨fun _ => rfl, fun _ => rfl⟩

theorem SameStatus.trans (h : consumers.SameStatus middle)
    (h' : middle.SameStatus after) : consumers.SameStatus after :=
  ⟨fun id => (h'.isOpen id).trans (h.isOpen id),
    fun id => (h'.published id).trans (h.published id)⟩

theorem SameStatus.knows (h : consumers.SameStatus after) (id : Nat) :
    (after id).isSome = (consumers id).isSome := by
  have hpublished := congrArg Option.isSome (h.published id)
  simpa using hpublished

/-- A change that touches neither the channel's end nor the failures. -/
theorem change_sameStatus (consumers : Consumers) (id : Nat)
    {f : Consumer → Consumer} (hopen : ∀ c, (f c).isOpen = c.isOpen)
    (hpublished : ∀ c, (f c).published = c.published) :
    consumers.SameStatus (consumers.change id f) := by
  constructor
  · intro other
    by_cases hother : other = id
    · subst hother
      cases hconsumer : consumers other <;>
        simp [isOpen, change, hconsumer, hopen]
    · simp [isOpen, change, hother]
  · intro other
    by_cases hother : other = id
    · subst hother
      cases hconsumer : consumers other <;>
        simp [change, hconsumer, hpublished]
    · simp [change, hother]

theorem trySend_sameStatus (consumers : Consumers) (id : Nat)
    (hint : String) :
    consumers.SameStatus (consumers.change id (·.trySend hint)) := by
  refine consumers.change_sameStatus id ?_ ?_ <;> intro consumer <;>
    unfold Consumer.trySend <;> split <;> rfl

/-- One broadcast keeps the senders whose receiver is there. -/
theorem sendAll_spec (hint : String) (senders : List Nat)
    (consumers : Consumers) :
    (sendAll hint senders consumers).2 = senders.filter consumers.isOpen ∧
      consumers.SameStatus (sendAll hint senders consumers).1 := by
  induction senders generalizing consumers with
  | nil => exact ⟨rfl, SameStatus.refl consumers⟩
  | cons id rest ih =>
      by_cases hopen : consumers.isOpen id = true
      · have hsent := consumers.trySend_sameStatus id hint
        obtain ⟨hkept, hsame⟩ := ih (consumers.change id (·.trySend hint))
        have hfilter :
            rest.filter (consumers.change id (·.trySend hint)).isOpen =
              rest.filter consumers.isOpen :=
          List.filter_congr fun other _ => hsent.isOpen other
        simp only [sendAll, hopen, ↓reduceIte, List.filter_cons]
        exact ⟨by rw [hkept, hfilter], hsent.trans hsame⟩
      · simp only [sendAll, hopen, List.filter_cons, Bool.false_eq_true,
          ↓reduceIte]
        exact ih consumers

theorem sendIds_spec (hints : List String) (senders : List Nat)
    (consumers : Consumers) :
    (consumers.sendIds hints senders).2.Sublist senders ∧
      (∀ id ∈ senders, consumers.isOpen id = true →
        id ∈ (consumers.sendIds hints senders).2) ∧
      consumers.SameStatus (consumers.sendIds hints senders).1 := by
  induction hints generalizing senders consumers with
  | nil =>
      exact ⟨List.Sublist.refl _, fun _ hid _ => hid, SameStatus.refl _⟩
  | cons hint rest ih =>
      obtain ⟨hkept, hsame⟩ := sendAll_spec hint senders consumers
      obtain ⟨hsub, hstay, hstatus⟩ := ih (sendAll hint senders consumers).2
        (sendAll hint senders consumers).1
      refine ⟨hsub.trans (hkept ▸ List.filter_sublist), ?_,
        hsame.trans hstatus⟩
      intro id hid hopen
      refine hstay id ?_ (by rw [hsame.isOpen, hopen])
      rw [hkept]
      exact List.mem_filter.mpr ⟨hid, hopen⟩

/-- Publishing leaves the channels alone and reaches every target. -/
theorem publish_spec (message : String) (targets : List Nat)
    (consumers : Consumers) :
    let after := targets.foldl (fun consumers id =>
      consumers.change id (·.publish message)) consumers
    (∀ id, after.isOpen id = consumers.isOpen id) ∧
      (∀ id, (after id).isSome = (consumers id).isSome) ∧
      ∀ id consumer, after id = some consumer →
        (id ∈ targets ∨ (consumers id).any (fun c => c.published ≠ [])) →
        consumer.published ≠ [] := by
  induction targets generalizing consumers with
  | nil =>
      refine ⟨fun _ => rfl, fun _ => rfl, ?_⟩
      intro id consumer hconsumer hwas
      simpa [show consumers id = some consumer from hconsumer] using hwas
  | cons target rest ih =>
      obtain ⟨hopen, hknown, hpublished⟩ :=
        ih (consumers.change target (·.publish message))
      refine ⟨?_, ?_, ?_⟩
      · intro id
        refine (hopen id).trans ?_
        by_cases hid : id = target
        · subst hid
          cases hconsumer : consumers id <;>
            simp [isOpen, change, hconsumer, Consumer.publish]
        · simp [isOpen, change, hid]
      · intro id
        refine (hknown id).trans ?_
        by_cases hid : id = target <;> simp [change, hid]
      · intro id consumer hconsumer hwas
        refine hpublished id consumer hconsumer ?_
        by_cases hid : id = target
        · subst hid
          refine Or.inr ?_
          have hsome : (consumers id).isSome = true := by
            have hback := hknown id
            rw [List.foldl_cons] at hconsumer
            rw [hconsumer] at hback
            simpa [change] using hback.symm
          obtain ⟨old, hold⟩ := Option.isSome_iff_exists.mp hsome
          simp [change, hold, Consumer.publish]
        · simpa [change, hid] using hwas

end Consumers

namespace RegistryMap

variable {registry : RegistryMap} {consumers : Consumers}

theorem sendersOf_push (registry : RegistryMap) (queue other : String)
    (id : Nat) : (registry.push queue id).sendersOf other =
      registry.sendersOf other ++ (if queue = other then [id] else []) := by
  unfold push
  rw [sendersOf, Table.get?_put]
  by_cases hqueue : queue = other
  · subst hqueue
    simp
  · simp [hqueue, sendersOf]

theorem sendersOf_store (registry : RegistryMap) (queue other : String)
    (senders : List Nat) : (registry.store queue senders).sendersOf other =
      if queue = other then senders else registry.sendersOf other := by
  unfold store sendersOf
  split
  · rename_i hempty
    rw [Table.get?_erase]
    split <;> simp_all
  · rw [Table.get?_put]
    split <;> simp_all

theorem sendersOf_dropRegistration (registry : RegistryMap)
    (queue other : String) (id : Nat) :
    (registry.dropRegistration queue id).sendersOf other =
      if queue = other then (registry.sendersOf other).filter (· ≠ id)
      else registry.sendersOf other := by
  unfold dropRegistration
  split
  · rename_i hnone
    split
    · rename_i hqueue
      subst hqueue
      simp [sendersOf, hnone]
    · rfl
  · rename_i row hrow
    rw [sendersOf_store]
    split
    · rename_i hqueue
      subst hqueue
      simp [sendersOf, hrow]
    · rfl

theorem sendersOf_broadcast (registry : RegistryMap) (message : String)
    (consumers : Consumers) (queue : String) :
    (registry.broadcastNotifyErrorLocked message consumers).1.sendersOf queue =
      (registry.sendersOf queue).filter consumers.isOpen := by
  unfold broadcastNotifyErrorLocked
  rw [sendersOf, Table.get?_retain, sendersOf]
  cases hrow : registry.get? queue with
  | none => rfl
  | some row =>
      simp only [Option.bind_some, keepOpen]
      split
      · rename_i hempty
        exact (List.isEmpty_iff.mp hempty).symm
      · rfl

theorem mem_listed {id : Nat} :
    id ∈ registry.listed ↔ ∃ queue, id ∈ registry.sendersOf queue := by
  simp only [listed, List.mem_flatMap]
  constructor
  · rintro ⟨row, hrow, hid⟩
    exact ⟨row.queue, by simpa [sendersOf, Table.get?_of_mem hrow] using hid⟩
  · rintro ⟨queue, hid⟩
    cases hrow : registry.get? queue with
    | none => simp [sendersOf, hrow] at hid
    | some row =>
        exact ⟨row, Table.mem_of_get? hrow, by
          simpa [sendersOf, hrow] using hid⟩

/-- No key is left with an empty list of senders. -/
def NoEmptyKey (registry : RegistryMap) : Prop :=
  ∀ row ∈ registry.rows, row.senders ≠ []

theorem NoEmptyKey.put (h : registry.NoEmptyKey) {row : QueueSenders}
    (hrow : row.senders ≠ []) : NoEmptyKey (registry.put row) := by
  intro other hother
  rcases (registry.mem_put row other).mp hother with rfl | ⟨hmem, _⟩
  · exact hrow
  · exact h other hmem

theorem NoEmptyKey.store (h : registry.NoEmptyKey) (queue : String)
    (senders : List Nat) : (registry.store queue senders).NoEmptyKey := by
  unfold RegistryMap.store
  split
  · intro row hrow
    exact h row (List.mem_of_mem_filter hrow)
  · rename_i hsome
    exact h.put (by simpa using hsome)

theorem NoEmptyKey.broadcast (message : String) :
    (registry.broadcastNotifyErrorLocked message consumers).1.NoEmptyKey := by
  intro kept hkept
  obtain ⟨row, _, hrow⟩ := List.mem_filterMap.mp hkept
  simp only [keepOpen] at hrow
  split at hrow
  · cases hrow
  · rename_i hsome
    obtain rfl := Option.some.inj hrow
    simpa using hsome

theorem NoEmptyKey.dropRegistration (h : registry.NoEmptyKey)
    (queue : String) (id : Nat) :
    (registry.dropRegistration queue id).NoEmptyKey := by
  unfold RegistryMap.dropRegistration
  split
  · exact h
  · exact h.store queue _

/-- A delivery prunes closed channels only. -/
theorem deliverToQueue_spec (registry : RegistryMap) (queue : String)
    (ids : List String) (consumers : Consumers) :
    let delivered := registry.deliverToQueue queue ids consumers
    (registry.NoEmptyKey → delivered.1.NoEmptyKey) ∧
      consumers.SameStatus delivered.2 ∧
      ∀ other, (delivered.1.sendersOf other).Sublist
          (registry.sendersOf other) ∧
        ∀ id ∈ registry.sendersOf other, consumers.isOpen id = true →
          id ∈ delivered.1.sendersOf other := by
  unfold deliverToQueue
  cases hrow : registry.get? queue with
  | none =>
      exact ⟨id, Consumers.SameStatus.refl _,
        fun _ => ⟨List.Sublist.refl _, fun _ hid _ => hid⟩⟩
  | some row =>
      obtain ⟨hsub, hstay, hsame⟩ :=
        Consumers.sendIds_spec ids row.senders consumers
      refine ⟨fun h => h.store queue _, hsame, ?_⟩
      intro other
      rw [sendersOf_store]
      by_cases hqueue : queue = other
      · subst hqueue
        have hsenders : registry.sendersOf queue = row.senders := by
          simp [sendersOf, hrow]
        rw [if_pos rfl, hsenders]
        exact ⟨hsub, hstay⟩
      · rw [if_neg hqueue]
        exact ⟨List.Sublist.refl _, fun _ hid _ => hid⟩

end RegistryMap

namespace SharedSystem

/-- The listeners between their spawn and their exit decision. -/
def activeListeners (system : SharedSystem) : List ListenerPhase :=
  system.listeners.filter ListenerPhase.active

/-- The flag counts the one active listener, every entry belongs to a live
registration of its queue, no open registration is missing, and without a
listener every open one was told. -/
structure Covered (system : SharedSystem) : Prop where
  single : system.activeListeners.length =
    if system.listenerAlive then 1 else 0
  noEmptyKey : system.registry.NoEmptyKey
  nodup : ∀ queue, (system.registry.sendersOf queue).Nodup
  owned : ∀ queue, ∀ id ∈ system.registry.sendersOf queue,
    system.registrations id = some queue
  known : ∀ id queue, system.registrations id = some queue →
    system.knows id = true
  registered : ∀ id queue, system.registrations id = some queue →
    system.consumers.isOpen id = true → id ∈ system.registry.sendersOf queue
  told : system.listenerAlive = false → ∀ queue,
    ∀ id ∈ system.registry.sendersOf queue, ∀ consumer,
      system.consumers id = some consumer → consumer.isOpen = true →
        consumer.published ≠ []

variable {system after : SharedSystem}

/-- A listener that moves on stays the one active listener; one that exits
leaves none. -/
theorem activeListeners_setListener {n : Nat} {phase : ListenerPhase}
    (next : ListenerPhase) (hphase : system.listeners[n]? = some phase)
    (hactive : phase.active = true) :
    (system.setListener n next).activeListeners.length =
      system.activeListeners.length - 1 + if next.active then 1 else 0 := by
  obtain ⟨hlt, hget⟩ := List.getElem?_eq_some_iff.mp hphase
  simp only [activeListeners, setListener, ← List.countP_eq_length_filter]
  rw [List.countP_set hlt, hget, if_pos hactive]

theorem Covered.alive (h : system.Covered) {n : Nat} {phase : ListenerPhase}
    (hphase : system.listeners[n]? = some phase)
    (hactive : phase.active = true) : system.listenerAlive = true := by
  have hmem : phase ∈ system.activeListeners :=
    List.mem_filter.mpr ⟨List.mem_of_getElem? hphase, hactive⟩
  have hpos := List.length_pos_of_mem hmem
  have hsingle := h.single
  by_contra hdead
  rw [if_neg hdead] at hsingle
  omega

theorem initial_covered : initial.Covered where
  single := rfl
  noEmptyKey := by
    intro row hrow
    cases hrow
  nodup _ := List.nodup_nil
  owned _ _ hid := by cases hid
  known _ _ hid := by cases hid
  registered _ _ hid := by cases hid
  told _ _ _ hid := by cases hid

theorem Covered.setListener (h : system.Covered) {n : Nat}
    {phase next : ListenerPhase}
    (hphase : system.listeners[n]? = some phase)
    (hactive : phase.active = true) (hnext : next.active = true) :
    (system.setListener n next).Covered := by
  have halive := h.alive hphase hactive
  refine { h with single := ?_ }
  have hsingle := h.single
  rw [if_pos halive] at hsingle
  rw [activeListeners_setListener next hphase hactive, if_pos hnext, hsingle]
  simp [SharedSystem.setListener, halive]

theorem Covered.advance (h : system.Covered) {n : Nat}
    {phase next : ListenerPhase} {failure : String → String}
    (hphase : system.listeners[n]? = some phase)
    (hactive : phase.active = true) (hnext : next.active = true)
    (result : Except String Unit) :
    (system.advance n next failure result).Covered := by
  cases result with
  | ok value => exact h.setListener hphase hactive hnext
  | error error => exact h.setListener hphase hactive rfl

theorem Covered.makeShared (h : system.Covered) {id : Nat}
    (hfresh : system.knows id = false) (queue : String) (bufferSize : Nat) :
    (system.makeShared id queue bufferSize).Covered := by
  have hnew : ∀ other, id ∉ system.registry.sendersOf other := by
    intro other hid
    simp [h.known id other (h.owned other id hid)] at hfresh
  have hopen : ∀ {other}, other ≠ id →
      (system.makeShared id queue bufferSize).consumers.isOpen other =
        system.consumers.isOpen other := by
    intro other hother
    simp [Consumers.isOpen, SharedSystem.makeShared, hother]
  refine ⟨?_, ?_, ?_, ?_, ?_, ?_, by simp [SharedSystem.makeShared]⟩
  · have hsingle := h.single
    by_cases halive : system.listenerAlive = true
    · simpa [SharedSystem.makeShared, activeListeners, halive] using hsingle
    · have hclaimed : ListenerPhase.claimed.active = true := rfl
      simpa [SharedSystem.makeShared, activeListeners, halive, hclaimed]
        using hsingle
  · exact h.noEmptyKey.put (by simp)
  · intro other
    simp only [SharedSystem.makeShared, RegistryMap.sendersOf_push]
    by_cases hother : queue = other
    · rw [if_pos hother]
      exact List.nodup_append.mpr ⟨h.nodup other, List.nodup_singleton _,
        fun x hx y hy heq => hnew other
          (List.mem_singleton.mp hy ▸ heq ▸ hx)⟩
    · simpa [hother] using h.nodup other
  · intro other sender hsender
    simp only [SharedSystem.makeShared, RegistryMap.sendersOf_push,
      List.mem_append] at hsender ⊢
    rcases hsender with hold | hadded
    · have hne : sender ≠ id := fun heq => hnew other (heq ▸ hold)
      rw [if_neg hne]
      exact h.owned other sender hold
    · by_cases hother : queue = other
      · rw [if_pos hother] at hadded
        rw [if_pos (List.mem_singleton.mp hadded), hother]
      · simp [hother] at hadded
  · intro other otherQueue hother
    simp only [SharedSystem.makeShared, knows] at hother ⊢
    by_cases hid : other = id
    · simp [hid]
    · rw [if_neg hid] at hother ⊢
      exact h.known other otherQueue hother
  · intro other otherQueue hother hisOpen
    simp only [SharedSystem.makeShared, RegistryMap.sendersOf_push,
      List.mem_append] at hother ⊢
    by_cases hid : other = id
    · rw [if_pos hid] at hother
      obtain rfl := Option.some.inj hother
      simp [hid]
    · rw [if_neg hid] at hother
      rw [hopen hid] at hisOpen
      exact Or.inl (h.registered other otherQueue hother hisOpen)

/-- A section that prunes closed channels and changes no channel's end keeps
the registry covered. -/
theorem Covered.prune (h : system.Covered) {registry : RegistryMap}
    {consumers : Consumers} (hkeys : registry.NoEmptyKey)
    (hstatus : system.consumers.SameStatus consumers)
    (hsub : ∀ queue, (registry.sendersOf queue).Sublist
      (system.registry.sendersOf queue))
    (hstay : ∀ queue, ∀ id ∈ system.registry.sendersOf queue,
      system.consumers.isOpen id = true → id ∈ registry.sendersOf queue) :
    ({ system with registry := registry, consumers := consumers } :
      SharedSystem).Covered where
  single := h.single
  noEmptyKey := hkeys
  nodup queue := (hsub queue).nodup (h.nodup queue)
  owned queue id hid := h.owned queue id ((hsub queue).subset hid)
  known id queue hid := by
    rw [knows, hstatus.knows]
    exact h.known id queue hid
  registered id queue hid hopen := by
    rw [hstatus.isOpen] at hopen
    exact hstay queue id (h.registered id queue hid hopen) hopen
  told hdead queue id hid consumer hconsumer hopen := by
    have hpublished := hstatus.published id
    have hisOpen := hstatus.isOpen id
    simp only at hconsumer
    rw [hconsumer] at hpublished
    simp only [Consumers.isOpen, hconsumer] at hisOpen
    obtain ⟨old, hold, hsame⟩ :=
      Option.map_eq_some_iff.mp hpublished.symm
    rw [hold] at hisOpen
    rw [← hsame]
    exact h.told hdead queue id ((hsub queue).subset hid) old hold
      (by simpa [hopen] using hisOpen.symm)

theorem Covered.exitListener (h : system.Covered) {n : Nat}
    {phase : ListenerPhase} (hphase : system.listeners[n]? = some phase)
    (hactive : phase.active = true) (error : String) :
    (system.exitListener n error).Covered := by
  have halive := h.alive hphase hactive
  obtain ⟨hopen, hknown, hpublished⟩ := Consumers.publish_spec error
    (system.registry.listed.filter system.consumers.isOpen) system.consumers
  have hsenders := system.registry.sendersOf_broadcast error system.consumers
  refine ⟨?_, RegistryMap.NoEmptyKey.broadcast error, ?_, ?_, ?_, ?_, ?_⟩
  · have hsingle := h.single
    rw [if_pos halive] at hsingle
    have hcount := activeListeners_setListener .exited hphase hactive
    rw [hsingle] at hcount
    exact hcount
  · intro queue
    exact (hsenders queue).symm ▸ (h.nodup queue).filter _
  · intro queue id hid
    have hmem := (hsenders queue) ▸ hid
    exact h.owned queue id (List.mem_of_mem_filter hmem)
  · intro id queue hid
    exact (hknown id).trans (h.known id queue hid)
  · intro id queue hid hisOpen
    have hwas := (hopen id).symm.trans hisOpen
    exact (hsenders queue).symm ▸
      List.mem_filter.mpr ⟨h.registered id queue hid hwas, hwas⟩
  · intro _ queue id hid consumer hconsumer _
    obtain ⟨hlisted, hisOpen⟩ := List.mem_filter.mp ((hsenders queue) ▸ hid)
    exact hpublished id consumer hconsumer (Or.inl (List.mem_filter.mpr
      ⟨RegistryMap.mem_listed.mpr ⟨queue, hlisted⟩, hisOpen⟩))

/-- An exit by an empty registry leaves nobody behind. -/
theorem Covered.exitEmpty (h : system.Covered) {n : Nat}
    {phase : ListenerPhase} (hphase : system.listeners[n]? = some phase)
    (hactive : phase.active = true)
    (hempty : system.registry.listenerShouldExit = true) :
    ({ system.setListener n .exited with listenerAlive := false } :
      SharedSystem).Covered := by
  have halive := h.alive hphase hactive
  refine { h with single := ?_, told := ?_ }
  · have hsingle := h.single
    rw [if_pos halive] at hsingle
    have hcount := activeListeners_setListener .exited hphase hactive
    rw [hsingle] at hcount
    exact hcount
  · intro _ queue id hid
    have hlisted := RegistryMap.mem_listed.mpr ⟨queue, hid⟩
    have hrows := List.isEmpty_iff.mp hempty
    simp [RegistryMap.listed, SharedSystem.setListener, hrows] at hlisted

theorem Covered.closeReceiver (h : system.Covered) (id : Nat) :
    ({ system with
        consumers := system.consumers.change id
          fun consumer => { consumer with isOpen := false } } :
      SharedSystem).Covered := by
  refine { h with known := ?_, registered := ?_, told := ?_ }
  · intro other queue hother
    have hknown := h.known other queue hother
    by_cases hid : other = id <;>
      simpa [knows, Consumers.change, hid] using hknown
  · intro other queue hother hopen
    refine h.registered other queue hother ?_
    by_cases hid : other = id
    · subst hid
      cases hconsumer : system.consumers other <;>
        simp [Consumers.isOpen, Consumers.change, hconsumer] at hopen
    · simpa [Consumers.isOpen, Consumers.change, hid] using hopen
  · intro hdead queue other hother consumer hconsumer hopen
    by_cases hid : other = id
    · subst hid
      simp only [Consumers.change, ↓reduceIte, Option.map_eq_some_iff]
        at hconsumer
      obtain ⟨old, _, rfl⟩ := hconsumer
      cases hopen
    · simp only [Consumers.change, if_neg hid] at hconsumer
      exact h.told hdead queue other hother consumer hconsumer hopen

/-- A dropped registration takes its own sender with it and no other. -/
theorem Covered.mem_dropRegistration (h : system.Covered) {id : Nat}
    {queue : String} (hid : system.registrations id = some queue)
    (other : String) (sender : Nat) :
    sender ∈ (system.registry.dropRegistration queue id).sendersOf other ↔
      sender ∈ system.registry.sendersOf other ∧ sender ≠ id := by
  rw [RegistryMap.sendersOf_dropRegistration]
  by_cases hother : queue = other
  · rw [if_pos hother]
    simp
  · rw [if_neg hother]
    constructor
    · intro hsender
      refine ⟨hsender, ?_⟩
      rintro rfl
      have howned := h.owned other sender hsender
      rw [hid] at howned
      exact hother (Option.some.inj howned)
    · exact And.left

theorem Covered.dropRegistration (h : system.Covered) {id : Nat}
    {queue : String} (hid : system.registrations id = some queue) :
    ({ system with
        registry := system.registry.dropRegistration queue id
        registrations := fun other =>
          if other = id then none else system.registrations other } :
      SharedSystem).Covered where
  single := h.single
  noEmptyKey := h.noEmptyKey.dropRegistration queue id
  nodup other := by
    simp only [RegistryMap.sendersOf_dropRegistration]
    split
    · exact (h.nodup other).filter _
    · exact h.nodup other
  owned other sender hsender := by
    obtain ⟨hold, hne⟩ := (h.mem_dropRegistration hid other sender).mp hsender
    simp only [if_neg hne]
    exact h.owned other sender hold
  known other otherQueue hother := by
    by_cases hsame : other = id
    · simp [hsame] at hother
    · simp only [if_neg hsame] at hother
      exact h.known other otherQueue hother
  registered other otherQueue hother hopen := by
    by_cases hsame : other = id
    · simp [hsame] at hother
    · simp only [if_neg hsame] at hother
      exact (h.mem_dropRegistration hid otherQueue other).mpr
        ⟨h.registered other otherQueue hother hopen, hsame⟩
  told hdead other sender hsender :=
    h.told hdead other sender
      ((h.mem_dropRegistration hid other sender).mp hsender).1

theorem Covered.step (h : system.Covered) {event : SharedEvent}
    (hstep : system.step event = some after) : after.Covered := by
  cases event with
  | makeShared id queue bufferSize =>
      simp only [SharedSystem.step] at hstep
      split at hstep
      · cases hstep
      · rename_i hfresh
        obtain rfl := Option.some.inj hstep
        exact h.makeShared (Bool.eq_false_iff.mpr hfresh) queue bufferSize
  | spawn n result =>
      simp only [SharedSystem.step] at hstep
      split at hstep
      · rename_i hphase
        obtain rfl := Option.some.inj hstep
        exact h.advance hphase rfl rfl result
      · cases hstep
  | checkout n result =>
      simp only [SharedSystem.step] at hstep
      split at hstep
      · rename_i hphase
        obtain rfl := Option.some.inj hstep
        exact h.advance hphase rfl rfl result
      · cases hstep
  | listen n result =>
      simp only [SharedSystem.step] at hstep
      split at hstep
      · rename_i hphase
        obtain rfl := Option.some.inj hstep
        exact h.advance hphase rfl rfl result
      · cases hstep
  | receive n notification =>
      simp only [SharedSystem.step] at hstep
      split at hstep
      · rename_i error hphase
        obtain rfl := Option.some.inj hstep
        exact h.setListener hphase rfl rfl
      · obtain rfl := Option.some.inj hstep
        exact h
      · rename_i event hphase
        obtain rfl := Option.some.inj hstep
        obtain ⟨hkeys, hstatus, hsenders⟩ := RegistryMap.deliverToQueue_spec
          system.registry event.intoIds.1 event.intoIds.2 system.consumers
        exact h.prune (hkeys h.noEmptyKey) hstatus
          (fun queue => (hsenders queue).1) (fun queue => (hsenders queue).2)
      · cases hstep
  | checkExit n =>
      simp only [SharedSystem.step] at hstep
      split at hstep
      · rename_i hphase
        split at hstep
        · rename_i hempty
          obtain rfl := Option.some.inj hstep
          exact h.exitEmpty hphase rfl hempty
        · obtain rfl := Option.some.inj hstep
          exact h
      · cases hstep
  | exitListener n =>
      simp only [SharedSystem.step] at hstep
      split at hstep
      · rename_i error hphase
        obtain rfl := Option.some.inj hstep
        exact h.exitListener hphase rfl error
      · cases hstep
  | closeReceiver id =>
      obtain rfl := Option.some.inj hstep
      exact h.closeReceiver id
  | dropRegistration id =>
      simp only [SharedSystem.step] at hstep
      split at hstep
      · cases hstep
      · rename_i queue hqueue
        obtain rfl := Option.some.inj hstep
        exact h.dropRegistration hqueue
  | takeError id =>
      obtain rfl := Option.some.inj hstep
      exact h.prune h.noEmptyKey
        (system.consumers.change_sameStatus id (fun _ => rfl) fun _ => rfl)
        (fun _ => List.Sublist.refl _) (fun _ _ hid _ => hid)
  | takeHint id =>
      obtain rfl := Option.some.inj hstep
      exact h.prune h.noEmptyKey
        (system.consumers.change_sameStatus id (fun _ => rfl) fun _ => rfl)
        (fun _ => List.Sublist.refl _) (fun _ _ hid _ => hid)

theorem reachable_covered (h : machine.Reachable system) : system.Covered :=
  h.invariant Covered (fun hstart => hstart ▸ initial_covered)
    fun hcovered hstep => hcovered.step hstep

end SharedSystem

/-- In every interleaving of registrations, drops, deliveries, loop turns and
listener failures: one listener at most is between its spawn and its exit
decision, every open registration is listed and has that listener or was told
of a failure since it registered, no queue keeps an empty list of senders, and
a dropped registration removes its own sender and no other. -/
theorem shared_listener_coverage {system : SharedSystem}
    (h : SharedSystem.machine.Reachable system) :
    system.activeListeners.length ≤ 1 ∧
      (∀ id queue consumer, system.registrations id = some queue →
        system.consumers id = some consumer → consumer.isOpen = true →
          id ∈ system.registry.sendersOf queue ∧
            ((system.listenerAlive = true ∧
                system.activeListeners.length = 1) ∨
              consumer.published ≠ [])) ∧
      (∀ row ∈ system.registry.rows, row.senders ≠ []) ∧
      ∀ id after, system.step (.dropRegistration id) = some after →
        after.consumers = system.consumers ∧
        ∀ queue sender, sender ∈ after.registry.sendersOf queue ↔
          sender ∈ system.registry.sendersOf queue ∧ sender ≠ id := by
  have hcovered := SharedSystem.reachable_covered h
  have hsingle := hcovered.single
  refine ⟨?_, ?_, hcovered.noEmptyKey, ?_⟩
  · rw [hsingle]
    split <;> omega
  · intro id queue consumer hid hconsumer hopen
    have hisOpen : system.consumers.isOpen id = true := by
      simpa [Consumers.isOpen, hconsumer] using hopen
    have hlisted := hcovered.registered id queue hid hisOpen
    refine ⟨hlisted, ?_⟩
    by_cases halive : system.listenerAlive = true
    · rw [if_pos halive] at hsingle
      exact Or.inl ⟨halive, hsingle⟩
    · exact Or.inr (hcovered.told (Bool.eq_false_iff.mpr halive) queue id
        hlisted consumer hconsumer hopen)
  · intro id after hstep
    simp only [SharedSystem.step] at hstep
    split at hstep
    · cases hstep
    · rename_i queue hqueue
      obtain rfl := Option.some.inj hstep
      exact ⟨rfl, hcovered.mem_dropRegistration hqueue⟩

/-- Two consumers of one queue: the listener's thread fails to spawn before the
second one comes, which is told as well. -/
theorem shared_listener_coverage_failed_spawn :
    ∃ (system : SharedSystem) (consumer : Consumer),
      SharedSystem.machine.Reachable system ∧
        system.listenerAlive = false ∧
        system.registry.sendersOf "q" = [1, 2] ∧
        system.registrations 2 = some "q" ∧
        system.consumers 2 = some consumer ∧ consumer.isOpen = true ∧
        ((system.listenerAlive = true ∧
            system.activeListeners.length = 1) ∨
          consumer.published ≠ []) := by
  let events : List SharedEvent := [.makeShared 1 "q" 8,
    .spawn 0 (.error "no threads"), .makeShared 2 "q" 8, .exitListener 0]
  let system : SharedSystem :=
    (SharedSystem.machine.run .initial events).get rfl
  have hrun : SharedSystem.machine.run .initial events = some system := rfl
  have hsystem : SharedSystem.machine.Reachable system :=
    ⟨_, rfl, Machine.follows_of_run events hrun⟩
  have hregistered : system.registrations 2 = some "q" := rfl
  have hconsumer : system.consumers 2 =
      some ⟨8, [], true, some "failed to spawn listener: no threads",
        ["failed to spawn listener: no threads"]⟩ := rfl
  obtain ⟨_, hcovered, _⟩ := shared_listener_coverage hsystem
  exact ⟨system, _, hsystem, rfl, rfl, hregistered, hconsumer, rfl,
    (hcovered 2 "q" _ hregistered hconsumer rfl).2⟩

end ApalisPostgres
