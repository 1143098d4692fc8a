/-
When a heartbeat beats.  Its wait ends by a registration, by the retirement of
the name, or by a registration that was refused or given up; seen through the
lease and the task streams, every step of the worker is one of theirs.
-/
import ApalisPostgres.StartupOrder

namespace ApalisPostgres

open RowStore

namespace Fetcher

variable {rows : TaskConversion} {config : WorkerConfig}

/-- The stream of a heartbeat holds no registration of its own. -/
structure LeaseStream.Renews {T : Type} (stream : LeaseStream T) : Prop where
  heartbeat : stream.retireOnDrop = false
  idle : stream.registration = .notBegun
  unguarded : stream.guarded = false

/-- What a poll of a heartbeat does to the lease: nothing, or it retires. -/
theorem LeaseStream.Renews.pollNext {T : Type} {stream : LeaseStream T}
    (h : stream.Renews) (lease : Lease) (inner : ItemPoll T)
    (meanwhile : Bool) :
    (stream.pollNext lease inner meanwhile).2.Renews ∧
      ((stream.pollNext lease inner meanwhile).1 = lease ∨
        (stream.pollNext lease inner meanwhile).1 = lease.retire) := by
  have hbegins : (stream.record [.called (!lease.retired)]).begins = false := by
    simp [LeaseStream.begins, LeaseStream.record, h.heartbeat]
  unfold LeaseStream.pollNext
  split
  · exact ⟨⟨h.heartbeat, h.idle, h.unguarded⟩, Or.inl rfl⟩
  · split
    · exact ⟨⟨h.heartbeat, h.idle, h.unguarded⟩, Or.inl rfl⟩
    · have hidle : (LeaseStream.record (stream.record
          [.called (!lease.retired)]) [.polled]).registration ≠ .pending := by
        simp [LeaseStream.record, h.idle]
      simp only [LeaseStream.register, hbegins, Bool.false_eq_true,
        if_false, LeaseStream.settle, if_neg hidle]
      refine ⟨⟨h.heartbeat, h.idle, h.unguarded⟩, ?_⟩
      cases meanwhile <;> cases inner.outcomeUnknown <;>
        simp [Lease.retire]

theorem LeaseStream.Renews.drop {T : Type} {stream : LeaseStream T}
    (h : stream.Renews) (lease : Lease) :
    (stream.drop lease).2.Renews ∧ (stream.drop lease).1 = lease := by
  have hidle : stream.registration ≠ .pending := by simp [h.idle]
  unfold LeaseStream.drop
  simp only [h.unguarded, Bool.false_eq_true, if_false, if_neg hidle]
  exact ⟨⟨h.heartbeat, h.idle, rfl⟩, trivial⟩

/-- A name is registered only by a stream that noted its success. -/
def LeaseSystem.RegisteredByStream {T : Type} (system : LeaseSystem T) : Prop :=
  system.lease.registered = true →
    ∃ stream ∈ system.streams, true ∈ settlements stream.log

theorem LeaseSystem.RegisteredByStream.set {T : Type} {system : LeaseSystem T}
    (h : system.RegisteredByStream) {n : Nat} {stream changed : LeaseStream T}
    {moved : Lease} {noted : List Bool}
    (hstream : system.streams[n]? = some stream)
    (hlog : settlements changed.log = settlements stream.log ++ noted)
    (hregistered : moved.registered = true →
      system.lease.registered = true ∨ true ∈ noted) :
    RegisteredByStream ⟨moved, system.streams.set n changed⟩ := by
  intro hmoved
  have hlength : n < system.streams.length :=
    (List.getElem?_eq_some_iff.mp hstream).1
  have hchanged : changed ∈ system.streams.set n changed :=
    List.mem_of_getElem? (List.getElem?_set_self hlength)
  rcases hregistered hmoved with hold | hnoted
  · obtain ⟨other, hother, htrue⟩ := h hold
    obtain ⟨m, hm⟩ := List.getElem?_of_mem hother
    by_cases hsame : n = m
    · subst hsame
      rw [hstream] at hm
      obtain rfl := Option.some.inj hm
      exact ⟨changed, hchanged, by simp [hlog, htrue]⟩
    · exact ⟨other, List.mem_of_getElem?
        ((List.getElem?_set_ne hsame).trans hm), htrue⟩
  · exact ⟨changed, hchanged, by simp [hlog, hnoted]⟩

theorem LeaseSystem.reachable_registeredByStream {T : Type} {workerId : String}
    {system : LeaseSystem T}
    (h : (LeaseSystem.machine workerId).Reachable system) :
    system.RegisteredByStream := by
  refine h.invariant LeaseSystem.RegisteredByStream ?_ ?_
  · rintro start rfl hregistered
    cases hregistered
  · intro state next event hstate hevent
    cases LeaseSystem.step_stepped hevent with
    | openStream retireOnDrop =>
        intro hregistered
        obtain ⟨stream, hstream, htrue⟩ := hstate hregistered
        exact ⟨stream, List.mem_append_left _ hstream, htrue⟩
    | poll inner meanwhile hstream hdropped =>
        rename_i n stream
        obtain ⟨noted, hlog, _, hregistered⟩ :=
          stream.pollNext_settlements state.lease inner meanwhile
        exact hstate.set hstream hlog hregistered
    | drop hstream hdropped =>
        rename_i n stream
        obtain ⟨noted, hlog, _, hregistered⟩ :=
          stream.drop_settlements state.lease
        exact hstate.set hstream hlog fun hafter =>
          Or.inl (hregistered.symm.trans hafter)
    | retire => exact hstate

/-- A settled attempt of a name was noted by one of its streams. -/
theorem LeaseSystem.settled_by_stream {T : Type} {workerId : String}
    {system : LeaseSystem T}
    (h : (LeaseSystem.machine workerId).Reachable system)
    (hsettled : 0 < system.lease.settledRegistrations) :
    ∃ stream ∈ system.streams, settlements stream.log ≠ [] := by
  by_contra hnone
  push Not at hnone
  rw [(LeaseSystem.reachable_sound h).settled] at hsettled
  apply absurd hsettled
  rw [Nat.not_lt, Nat.le_zero, List.sum_eq_zero_iff]
  intro count hcount
  obtain ⟨stream, hstream, rfl⟩ := List.mem_map.mp hcount
  rw [hnone stream hstream]
  rfl

theorem LeaseStream.pollNext_meanwhile {T : Type} (stream : LeaseStream T)
    (lease : Lease) (inner : ItemPoll T) (hended : stream.ended = false)
    (hactive : lease.retired = false) :
    (stream.pollNext lease inner true).1.retired = true := by
  simp only [LeaseStream.pollNext, hended, Bool.false_eq_true, if_false,
    Lease.ensureActive, hactive, if_true]
  cases inner.outcomeUnknown with
  | true => rfl
  | false => exact (LeaseStream.settle_lease _ _ _).2

/-- The name is retired, or a stream noted a registration that was refused or
given up. -/
def LeaseSystem.Disclosed {T : Type} (system : LeaseSystem T) : Prop :=
  system.lease.retired = true ∨
    ∃ stream ∈ system.streams, false ∈ settlements stream.log

theorem LeaseSystem.Disclosed.set {T : Type} {system : LeaseSystem T} {n : Nat}
    {stream changed : LeaseStream T} {moved : Lease} {noted : List Bool}
    {retires : Bool} (h : system.Disclosed)
    (hstream : system.streams[n]? = some stream)
    (hmoves : system.lease.Moves moved retires)
    (hlog : settlements changed.log = settlements stream.log ++ noted) :
    Disclosed ⟨moved, system.streams.set n changed⟩ := by
  rcases h with hretired | ⟨other, hother, hfalse⟩
  · exact Or.inl (by rw [hmoves.retired, hretired, Bool.true_or])
  · right
    obtain ⟨m, hm⟩ := List.getElem?_of_mem hother
    by_cases hsame : n = m
    · subst hsame
      rw [hstream] at hm
      obtain rfl := Option.some.inj hm
      exact ⟨changed, List.mem_of_getElem? (List.getElem?_set_self
        (List.getElem?_eq_some_iff.mp hstream).1), by simp [hlog, hfalse]⟩
    · exact ⟨other, List.mem_of_getElem?
        ((List.getElem?_set_ne hsame).trans hm), hfalse⟩

theorem LeaseSystem.Disclosed.follows {T : Type} {workerId : String}
    {system after : LeaseSystem T} (h : system.Disclosed)
    (hfollows : (LeaseSystem.machine workerId).Follows system after) :
    after.Disclosed := by
  refine hfollows.invariant LeaseSystem.Disclosed ?_ h
  intro state next event hstate hevent
  cases LeaseSystem.step_stepped hevent with
  | openStream retireOnDrop =>
      rcases hstate with hretired | ⟨stream, hstream, hfalse⟩
      · exact Or.inl hretired
      · exact Or.inr ⟨stream, List.mem_append_left _ hstream, hfalse⟩
  | poll inner meanwhile hstream hdropped =>
      rename_i n stream
      obtain ⟨noted, hlog, _⟩ :=
        stream.pollNext_settlements state.lease inner meanwhile
      obtain ⟨retires, hmoves, -⟩ :=
        @LeaseStream.pollNext_lease _ state.lease stream inner meanwhile
      exact hstate.set hstream hmoves hlog
  | drop hstream hdropped =>
      rename_i n stream
      obtain ⟨noted, hlog, _⟩ := stream.drop_settlements state.lease
      exact hstate.set hstream LeaseStream.drop_lease hlog
  | retire => exact Or.inl rfl

namespace WorkerSystem

variable {system after : WorkerSystem}

/-- Every heartbeat with a lease leaves its registration alone. -/
def BeatsRenew (system : WorkerSystem) : Prop :=
  ∀ outer inner, BeatStream.leased outer inner ∈ system.beats → outer.Renews

/-- The lease and the task streams alone. -/
def leaseSystem (system : WorkerSystem) : LeaseSystem (Option Task) :=
  ⟨system.lease, system.tasks.map TaskStream.outer⟩

theorem BeatsRenew.set (h : system.BeatsRenew) {n : Nat} {stream : BeatStream}
    (hnew : ∀ outer inner, stream = .leased outer inner → outer.Renews)
    {outer : LeaseStream Unit} {inner : Beats}
    (hmem : BeatStream.leased outer inner ∈ system.beats.set n stream) :
    outer.Renews := by
  rcases List.mem_or_eq_of_mem_set hmem with hold | heq
  · exact h outer inner hold
  · exact hnew outer inner heq.symm

theorem pollBeat_lease (h : system.BeatsRenew) {n : Nat} {stream : BeatStream}
    (hstream : system.beats[n]? = some stream) (poll : BeatPoll)
    (meanwhile : Bool) :
    ((system.pollBeat n stream poll meanwhile).lease = system.lease ∨
      (system.pollBeat n stream poll meanwhile).lease =
        system.lease.retire) ∧
      (system.pollBeat n stream poll meanwhile).BeatsRenew ∧
      (system.pollBeat n stream poll meanwhile).tasks = system.tasks := by
  cases stream with
  | refused error answers dropped =>
      refine ⟨Or.inl rfl, ?_, rfl⟩
      intro outer inner hmem
      exact h.set (fun _ _ heq => by cases heq) hmem
  | leased outer inner =>
      have hrenews := h outer inner (List.mem_of_getElem? hstream)
      simp only [pollBeat]
      split
      · obtain ⟨hkept, hlease⟩ := hrenews.pollNext system.lease .pending
          meanwhile
        refine ⟨hlease, ?_, rfl⟩
        intro other beats hmem
        exact h.set (fun _ _ heq => by cases heq; exact hkept) hmem
      · obtain ⟨hkept, hlease⟩ := hrenews.pollNext system.lease
          (inner.poll system.calls n
            (if meanwhile then system.lease.retire else system.lease)
            poll).answer meanwhile
        refine ⟨hlease, ?_, rfl⟩
        intro other beats hmem
        exact h.set (fun _ _ heq => by cases heq; exact hkept) hmem

theorem dropBeat_lease (h : system.BeatsRenew) {n : Nat} {stream : BeatStream}
    (hstream : system.beats[n]? = some stream) :
    (system.dropBeat n stream).lease = system.lease ∧
      (system.dropBeat n stream).BeatsRenew ∧
      (system.dropBeat n stream).tasks = system.tasks := by
  cases stream with
  | refused error answers dropped =>
      refine ⟨rfl, ?_, rfl⟩
      intro outer inner hmem
      exact h.set (fun _ _ heq => by cases heq) hmem
  | leased outer inner =>
      have hrenews := h outer inner (List.mem_of_getElem? hstream)
      obtain ⟨hkept, hlease⟩ := hrenews.drop system.lease
      refine ⟨hlease, ?_, rfl⟩
      intro other beats hmem
      exact h.set (fun _ _ heq => by cases heq; exact hkept) hmem

theorem pollTask_leaseSystem {n : Nat} {stream : TaskStream} (body : BodyPoll)
    (meanwhile : Bool) (hstream : system.tasks[n]? = some stream)
    (hdropped : stream.outer.dropped = false) :
    ∃ inner, system.leaseSystem.step (.poll n inner meanwhile) =
      some (system.pollTask config n stream body meanwhile).leaseSystem := by
  have hstep : ∀ inner, system.leaseSystem.step (.poll n inner meanwhile) =
      some ⟨(stream.outer.pollNext system.lease inner meanwhile).1,
        (system.tasks.map TaskStream.outer).set n
          (stream.outer.pollNext system.lease inner meanwhile).2⟩ := by
    intro inner
    simp [leaseSystem, LeaseSystem.step, LeaseSystem.update, hstream, hdropped]
  unfold pollTask
  split
  · exact ⟨.pending, by rw [hstep]; simp [leaseSystem, List.map_set]⟩
  · exact ⟨(stream.inner.poll config system.calls n body).answer, by
      rw [hstep]; simp [leaseSystem, List.map_set]⟩

/-- Seen through the lease and the task streams, a step is one of theirs or
none. -/
theorem step_leaseSystem (h : system.BeatsRenew) {event : WorkerEvent}
    (hstep : system.step rows config event = some after) :
    after.BeatsRenew ∧ (LeaseSystem.machine config.worker).Follows
      system.leaseSystem after.leaseSystem := by
  have hone : ∀ (event : LeaseSystemEvent (Option Task))
      {next : LeaseSystem (Option Task)},
      system.leaseSystem.step event = some next →
      (LeaseSystem.machine config.worker).Follows system.leaseSystem next :=
    fun event _ hevent => Relation.ReflTransGen.single ⟨event, trivial, hevent⟩
  have hretire : (LeaseSystem.machine config.worker).Follows
      system.leaseSystem ⟨system.lease.retire, system.leaseSystem.streams⟩ :=
    hone .retire rfl
  cases step_stepped hstep with
  | openTask =>
      refine ⟨h, hone (.openStream true) ?_⟩
      simp [leaseSystem, LeaseSystem.step]
  | openBeat =>
      refine ⟨?_, Relation.ReflTransGen.refl⟩
      intro outer inner hmem
      rcases List.mem_append.mp hmem with hold | hnew
      · exact h outer inner hold
      · have heq := List.mem_singleton.mp hnew
        unfold BeatStream.new at heq
        split at heq
        · cases heq
        · cases heq
          exact ⟨rfl, rfl, rfl⟩
  | pollTask body meanwhile hstream hdropped =>
      obtain ⟨inner, hevent⟩ := @pollTask_leaseSystem config _ _ _ body
        meanwhile hstream hdropped
      refine ⟨?_, hone _ hevent⟩
      intro outer beats hmem
      apply h outer beats
      unfold pollTask at hmem
      split at hmem <;> exact hmem
  | pollBeat poll meanwhile hstream _ =>
      obtain ⟨hlease, hbeats, htasks⟩ :=
        pollBeat_lease h hstream poll meanwhile
      refine ⟨hbeats, ?_⟩
      unfold leaseSystem
      rw [htasks]
      rcases hlease with hsame | hretired
      · rw [hsame]
        exact Relation.ReflTransGen.refl
      · rw [hretired]
        exact hretire
  | dropTask hstream hdropped =>
      rename_i n stream
      refine ⟨h, hone (.drop n) ?_⟩
      simp [leaseSystem, LeaseSystem.step, LeaseSystem.update, hstream,
        hdropped, dropTask, List.map_set]
  | dropBeat hstream _ =>
      obtain ⟨hlease, hbeats, htasks⟩ := dropBeat_lease h hstream
      refine ⟨hbeats, ?_⟩
      unfold leaseSystem
      rw [htasks, hlease]
      exact Relation.ReflTransGen.refl
  | retire => exact ⟨h, hretire⟩
  | release => exact ⟨h, hretire⟩
  | transact _ _ _ => exact ⟨h, Relation.ReflTransGen.refl⟩
  | disrupt _ _ _ => exact ⟨h, Relation.ReflTransGen.refl⟩
  | lose _ _ _ _ => exact ⟨h, Relation.ReflTransGen.refl⟩
  | other _ _ => exact ⟨h, Relation.ReflTransGen.refl⟩

/-- The lease and the task streams of a reachable state are reachable on their
own. -/
theorem reachable_leaseSystem (h : (machine rows config).Reachable system) :
    (LeaseSystem.machine config.worker).Reachable system.leaseSystem ∧
      system.BeatsRenew := by
  refine h.invariant (fun system =>
    (LeaseSystem.machine config.worker).Reachable system.leaseSystem ∧
      system.BeatsRenew) ?_ ?_
  · rintro start ⟨db, rfl⟩
    refine ⟨⟨_, rfl, Relation.ReflTransGen.refl⟩, ?_⟩
    intro outer inner hmem
    cases hmem
  · rintro state next event ⟨hleases, hbeats⟩ hevent
    obtain ⟨hnext, hfollows⟩ := step_leaseSystem hbeats hevent
    exact ⟨hleases.follows hfollows, hnext⟩

/-- The calls of a later state are those of an earlier one, gone on. -/
theorem step_grown {event : WorkerEvent}
    (hstep : system.step rows config event = some after) :
    Grown system.calls after.calls := by
  cases step_stepped hstep with
  | openTask => exact .refl _
  | openBeat => exact .refl _
  | pollTask body meanwhile _ _ =>
      unfold WorkerSystem.pollTask
      split
      · exact .refl _
      · exact .append _ _
  | pollBeat poll meanwhile hstream _ =>
      rename_i n stream hdropped
      cases stream with
      | refused error answers dropped => exact .refl _
      | leased outer inner =>
          simp only [WorkerSystem.pollBeat]
          split
          · exact .refl _
          · exact .append _ _
  | dropTask _ _ => exact .refl _
  | dropBeat hstream _ =>
      rename_i n stream hdropped
      cases stream with
      | refused error answers dropped => exact .refl _
      | leased outer inner => exact .refl _
  | retire => exact .refl _
  | release => exact .append _ _
  | transact env hcall hopen => exact .set hcall (Call.grows_advance hopen _)
  | disrupt disruption hcall hopen =>
      exact .set hcall (Call.grows_fail hopen disruption)
  | lose env disruption hcall hopen =>
      exact .set hcall (Call.grows_fail hopen disruption)
  | other invocation _ => exact .refl _

/-- A renewal may be due: a stream of the name has started up, the name is
retired, or a registration of it was refused or given up. -/
def Announced (system : WorkerSystem) : Prop :=
  (∃ n, StartedUp system.calls n) ∨ system.leaseSystem.Disclosed

theorem Announced.step (h : system.Announced) (hbeats : system.BeatsRenew)
    {event : WorkerEvent}
    (hstep : system.step rows config event = some after) :
    after.Announced := by
  rcases h with ⟨n, hstarted⟩ | hdisclosed
  · exact Or.inl ⟨n, hstarted.grown (step_grown hstep)⟩
  · exact Or.inr (hdisclosed.follows (step_leaseSystem hbeats hstep).2)

/-- A wait for the registration that ends by what the lease counts. -/
theorem announced_of_settled (h : (machine rows config).Reachable system)
    {settledBefore : Nat}
    (hsettled : system.lease.isSettled settledBefore = true) :
    system.Announced := by
  have hleases := (reachable_leaseSystem h).1
  have horder := (reachable_startupOrder h).streams
  have hnoted : ∀ outer ∈ system.leaseSystem.streams,
      true ∈ settlements outer.log → system.Announced := by
    intro outer houter htrue
    obtain ⟨stream, hstream, rfl⟩ := List.mem_map.mp houter
    obtain ⟨n, hn⟩ := List.getElem?_of_mem hstream
    exact Or.inl ⟨n, horder.settled n stream hn htrue⟩
  simp only [Lease.isSettled, Bool.or_eq_true, Bool.and_eq_true,
    decide_eq_true_eq] at hsettled
  rcases hsettled with (hregistered | hretired) | ⟨hcount, _⟩
  · obtain ⟨outer, houter, htrue⟩ :=
      LeaseSystem.reachable_registeredByStream hleases hregistered
    exact hnoted outer houter htrue
  · exact Or.inr (Or.inl hretired)
  · obtain ⟨outer, houter, hsome⟩ := LeaseSystem.settled_by_stream hleases
      (Nat.lt_of_le_of_lt (Nat.zero_le _) hcount)
    obtain ⟨noted, hmem⟩ := List.exists_mem_of_ne_nil _ hsome
    cases noted with
    | true => exact hnoted outer houter hmem
    | false => exact Or.inr (Or.inr ⟨outer, houter, hmem⟩)

/-- Whatever beats or renews was announced. -/
def BeatOrder (system : WorkerSystem) : Prop :=
  ((∃ outer renewal sweep,
      BeatStream.leased outer (.beating renewal sweep) ∈ system.beats) ∨
    ∃ call ∈ system.calls, call.work = .renewal) → system.Announced

theorem pollBeat_announced (h : (machine rows config).Reachable system)
    (horder : system.BeatOrder) {n : Nat} {outer : LeaseStream Unit}
    {inner : Beats} {poll : BeatPoll} {meanwhile : Bool}
    (hstep : system.step rows config (.pollBeat n poll meanwhile) =
      some (system.pollBeat n (.leased outer inner) poll meanwhile))
    (hstream : system.beats[n]? = some (.leased outer inner))
    (hactive : ¬ (outer.ended || system.lease.retired) = true)
    (hbegun : inner.Begun
      (if meanwhile then system.lease.retire else system.lease)) :
    (system.pollBeat n (.leased outer inner) poll meanwhile).Announced := by
  have hbeats := (reachable_leaseSystem h).2
  rcases hbegun with ⟨renewal, sweep, rfl⟩ | ⟨settledBefore, _, hsettled⟩
  · exact (horder (Or.inl ⟨outer, renewal, sweep,
      List.mem_of_getElem? hstream⟩)).step hbeats hstep
  · cases meanwhile with
    | false => exact (announced_of_settled h hsettled).step hbeats hstep
    | true =>
        right
        left
        simp only [Bool.or_eq_true, not_or, Bool.not_eq_true] at hactive
        simp only [WorkerSystem.pollBeat, hactive.1, hactive.2, Bool.or_self,
          Bool.false_eq_true, if_false, leaseSystem]
        exact outer.pollNext_meanwhile system.lease _ hactive.1 hactive.2

theorem work_of_grows {call next : Call} {work : Work}
    (h : call.Grows next) (hkind : work.isStartup = false)
    (heq : next.work = work) : call.work = work := by
  have hcall : call.work.isStartup = false := by
    rw [← h.startup, heq, hkind]
  rw [← h.work hcall, heq]

theorem mem_set_work {n : Nat} {call next found : Call} {work : Work}
    (hcall : system.calls[n]? = some call) (hgrows : call.Grows next)
    (hwork : work.isStartup = false)
    (hfound : found ∈ system.calls.set n next) (heq : found.work = work) :
    (∃ old ∈ system.calls, old.work = work) := by
  rcases List.mem_or_eq_of_mem_set hfound with hold | rfl
  · exact ⟨found, hold, heq⟩
  · exact ⟨call, List.mem_of_getElem? hcall, work_of_grows hgrows hwork heq⟩

theorem BeatOrder.step (h : (machine rows config).Reachable system)
    (horder : system.BeatOrder) {event : WorkerEvent}
    (hstep : system.step rows config event = some after) :
    after.BeatOrder := by
  have hbeats := (reachable_leaseSystem h).2
  have hkept : (∀ outer renewal sweep,
        BeatStream.leased outer (.beating renewal sweep) ∈ after.beats →
        ∃ outer renewal sweep,
          BeatStream.leased outer (.beating renewal sweep) ∈ system.beats) →
      (∀ call ∈ after.calls, call.work = .renewal →
        ∃ call ∈ system.calls, call.work = .renewal) → after.BeatOrder := by
    rintro hsame hcalls (⟨outer, renewal, sweep, hmem⟩ | ⟨call, hmem, hwork⟩)
    · exact (horder (Or.inl (hsame outer renewal sweep hmem))).step hbeats hstep
    · exact (horder (Or.inr (hcalls call hmem hwork))).step hbeats hstep
  cases step_stepped hstep with
  | openTask =>
      exact hkept (fun outer renewal sweep hmem => ⟨outer, renewal, sweep, hmem⟩)
        fun call hmem hwork => ⟨call, hmem, hwork⟩
  | openBeat =>
      refine hkept ?_ fun call hmem hwork => ⟨call, hmem, hwork⟩
      intro outer renewal sweep hmem
      rcases List.mem_append.mp hmem with hold | hnew
      · exact ⟨outer, renewal, sweep, hold⟩
      · have heq := List.mem_singleton.mp hnew
        unfold BeatStream.new at heq
        split at heq <;> cases heq
  | pollTask body meanwhile hstream hdropped =>
      rename_i n stream
      refine hkept ?_ ?_
      · intro outer renewal sweep hmem
        unfold WorkerSystem.pollTask at hmem
        split at hmem <;> exact ⟨outer, renewal, sweep, hmem⟩
      · intro call hmem hwork
        unfold WorkerSystem.pollTask at hmem
        split at hmem
        · exact ⟨call, hmem, hwork⟩
        · rcases List.mem_append.mp hmem with hold | hnew
          · exact ⟨call, hold, hwork⟩
          · rcases (Gate.poll_polls system.calls n body
              stream.inner).issued call hnew with rfl | ⟨⟨request, rfl⟩, _⟩
            · cases hwork
            · cases hwork
  | pollBeat poll meanwhile hstream hdropped =>
      rename_i n stream
      cases stream with
      | refused error answers dropped =>
          refine hkept ?_ fun call hmem hwork => ⟨call, hmem, hwork⟩
          intro outer renewal sweep hmem
          rcases List.mem_or_eq_of_mem_set hmem with hold | heq
          · exact ⟨outer, renewal, sweep, hold⟩
          · cases heq
      | leased outer inner =>
          by_cases hactive : (outer.ended || system.lease.retired) = true
          · simp only [WorkerSystem.pollBeat, if_pos hactive] at hkept ⊢
            refine hkept ?_ fun call hmem hwork => ⟨call, hmem, hwork⟩
            intro other renewal sweep hmem
            rcases List.mem_or_eq_of_mem_set hmem with hold | heq
            · exact ⟨other, renewal, sweep, hold⟩
            · cases heq
              exact ⟨outer, renewal, sweep, List.mem_of_getElem? hstream⟩
          · have hannounced := fun hbegun =>
              pollBeat_announced h horder hstep hstream hactive hbegun
            by_cases hbegun : inner.Begun
                (if meanwhile then system.lease.retire else system.lease)
            · exact fun _ => hannounced hbegun
            · simp only [WorkerSystem.pollBeat, if_neg hactive] at hkept ⊢
              refine hkept ?_ ?_
              · intro other renewal sweep hmem
                rcases List.mem_or_eq_of_mem_set hmem with hold | heq
                · exact ⟨other, renewal, sweep, hold⟩
                · injection heq with _ hstate
                  exact absurd (Beats.poll_issued.2 renewal sweep hstate.symm)
                    hbegun
              · intro call hmem hwork
                rcases List.mem_append.mp hmem with hold | hnew
                · exact ⟨call, hold, hwork⟩
                · exact absurd (Beats.poll_issued.1 call hnew).2 hbegun
  | dropTask hstream hdropped =>
      exact hkept (fun outer renewal sweep hmem => ⟨outer, renewal, sweep, hmem⟩)
        fun call hmem hwork => ⟨call, hmem, hwork⟩
  | dropBeat hstream hdropped =>
      rename_i n stream
      cases stream with
      | refused error answers dropped =>
          refine hkept ?_ fun call hmem hwork => ⟨call, hmem, hwork⟩
          intro outer renewal sweep hmem
          rcases List.mem_or_eq_of_mem_set hmem with hold | heq
          · exact ⟨outer, renewal, sweep, hold⟩
          · cases heq
      | leased outer inner =>
          refine hkept ?_ fun call hmem hwork => ⟨call, hmem, hwork⟩
          intro other renewal sweep hmem
          rcases List.mem_or_eq_of_mem_set hmem with hold | heq
          · exact ⟨other, renewal, sweep, hold⟩
          · cases heq
            exact ⟨outer, renewal, sweep, List.mem_of_getElem? hstream⟩
  | retire =>
      exact hkept (fun outer renewal sweep hmem => ⟨outer, renewal, sweep, hmem⟩)
        fun call hmem hwork => ⟨call, hmem, hwork⟩
  | release =>
      refine hkept
        (fun outer renewal sweep hmem => ⟨outer, renewal, sweep, hmem⟩) ?_
      intro call hmem hwork
      rcases List.mem_append.mp hmem with hold | hnew
      · exact ⟨call, hold, hwork⟩
      · rw [List.mem_singleton.mp hnew] at hwork
        cases hwork
  | transact env hcall hopen =>
      exact hkept (fun outer renewal sweep hmem => ⟨outer, renewal, sweep, hmem⟩)
        fun _ => mem_set_work hcall (Call.grows_advance hopen _) rfl
  | disrupt disruption hcall hopen =>
      exact hkept (fun outer renewal sweep hmem => ⟨outer, renewal, sweep, hmem⟩)
        fun _ => mem_set_work hcall (Call.grows_fail hopen disruption) rfl
  | lose env disruption hcall hopen =>
      exact hkept (fun outer renewal sweep hmem => ⟨outer, renewal, sweep, hmem⟩)
        fun _ => mem_set_work hcall (Call.grows_fail hopen disruption) rfl
  | other invocation _ =>
      exact hkept (fun outer renewal sweep hmem => ⟨outer, renewal, sweep, hmem⟩)
        fun call hmem hwork => ⟨call, hmem, hwork⟩

theorem reachable_beatOrder (h : (machine rows config).Reachable system) :
    system.BeatOrder := by
  refine h.invariant_of_reachable WorkerSystem.BeatOrder ?_ ?_
  · rintro start ⟨db, rfl⟩ (⟨outer, renewal, sweep, hmem⟩ | ⟨call, hmem, _⟩)
    · cases hmem
    · cases hmem
  · intro state next event hstate horder hevent
    exact horder.step hstate hevent

end WorkerSystem

/-- An operation that leaves the registration its token. -/
structure Spares (config : WorkerConfig) (op : Op) : Prop where
  registers : ∀ storage layers token staleAfter,
    op = .registerWorker config.worker config.queue storage layers token
      staleAfter → token = config.leaseToken
  releases : op ≠ .releaseWorker config.queue config.worker config.leaseToken
  prunes : ∀ staleFor limit,
    op ≠ .pruneWorkersBatch config.queue staleFor limit

/-- The registration of the name carries the token of the storage. -/
def Carries (config : WorkerConfig) (db : Db) : Prop :=
  Holds db config.worker config.queue (some config.leaseToken)

theorem Carries.execute {db : Db} {op : Op} (h : Carries config db)
    (hspares : Spares config op) (env : Nat → Env) :
    Carries config ((program rows op).execute sql env db).view := by
  refine (System.execute_ensures rows ⟨db, []⟩ ⟨op, env⟩
    (P := fun view _ => Carries config view) h ?_).1
  intro stmt env view effects changes hissued hview hexec presented hpresented
  obtain rfl := Option.some.inj hpresented
  obtain ⟨row, hrow, htoken⟩ := hview _ rfl
  rcases hexec.worker_cases (config.worker, config.queue) with
    ⟨change, hmem, hkey, hafter⟩ | ⟨_, hsame⟩
  · cases hexec.workerStep hmem with
    | register =>
        obtain ⟨rfl, rfl⟩ := Prod.mk.inj hkey
        refine ⟨_, hafter, ?_⟩
        cases hissued with
        | read hread => simp [Stmt.readOnly] at hread
        | register hincumbent =>
            rw [← hspares.registers _ _ _ _ rfl, hrow]
            rfl
    | heartbeat hget _ =>
        rw [← hkey, hget] at hrow
        obtain rfl := Option.some.inj hrow
        exact ⟨_, hafter, htoken⟩
    | release _ =>
        obtain ⟨rfl, rfl⟩ := Prod.mk.inj hkey
        cases hissued with
        | read hread => simp [Stmt.readOnly] at hread
        | markReleased hholds hunowned =>
            obtain ⟨other, hother, hpresents⟩ := hholds _ rfl
            rw [hrow] at hother
            obtain rfl := Option.some.inj hother
            rw [htoken] at hpresents
            obtain rfl := Option.some.inj hpresents
            exact absurd rfl hspares.releases
    | admin =>
        obtain ⟨rfl, rfl⟩ := Prod.mk.inj hkey
        refine ⟨_, hafter, ?_⟩
        rw [hrow]
        exact htoken
    | prune hstored hqueue _ _ =>
        cases hissued with
        | read hread => simp [Stmt.readOnly] at hread
        | deleteUnreferenced =>
            have heq := (Prod.mk.inj hkey).2
            rw [hqueue] at heq
            subst heq
            exact absurd rfl (hspares.prunes _ _)
  · exact ⟨row, hsame.trans hrow, htoken⟩

theorem execute_settled {db : Db} {op : Op} {env : Nat → Env} {value : Outcome}
    (hok : ((program rows op).execute sql env db).outcome = .ok value) :
    op.Settled ((program rows op).execute sql env db).view := by
  have hsettled := (System.execute_ensures rows ⟨db, []⟩ ⟨op, env⟩
    (P := fun _ _ => True) trivial (fun _ _ _ _ _ _ _ _ => trivial)).2
  have houtcome : (System.execute rows ⟨db, []⟩ ⟨op, env⟩).outcome =
      .ok value := hok
  rw [houtcome] at hsettled
  exact hsettled.2

/-- A renewal finds the registration that carries its token. -/
theorem Carries.renews {db : Db} (h : Carries config db) {env : Nat → Env}
    {operation workerId queue hint : String} :
    ((program rows (Work.renewal.op config)).execute sql env db).outcome ≠
      .error (.workerNotRegistered operation workerId queue hint) := by
  have hensures : (program rows (Work.renewal.op config)).Ensures sql
      (fun _ _ _ => True) (fun error =>
        error ≠ .workerNotRegistered operation workerId queue hint) db [] := by
    intro env
    split
    · rename_i fault _
      exact fun heq => by cases heq
    · rename_i count changes hexec
      obtain ⟨row, hrow, htoken⟩ := h _ rfl
      have hplan := (exec_ok hexec).1
      simp only [Stmt.plan, hrow, htoken, if_true, Except.ok.injEq,
        Prod.mk.injEq] at hplan
      obtain ⟨rfl, _⟩ := hplan
      trivial
  have hstop := hensures.execute env
  intro hrefused
  rcases hexec : (program rows (Work.renewal.op config)).execute sql env db with
    ⟨view, effects, outcome⟩
  rw [hexec] at hstop hrefused
  subst hrefused
  exact hstop.2.2 rfl

/-- The operations of others that may take a registration away. -/
def WorkerConfig.disturbs (config : WorkerConfig) : Op → Bool
  | .registerWorker worker queue _ _ _ _ =>
      worker = config.worker && queue = config.queue
  | .pruneWorkersBatch queue _ _ => queue = config.queue
  | _ => false

/-- Nobody else registers the name or prunes its queue. -/
def WorkerConfig.leavesAlone (config : WorkerConfig) : WorkerEvent → Bool
  | .other invocation => !config.disturbs invocation.op
  | _ => true

theorem spares_foreign {op : Op} (hforeign : config.owns op = false)
    (halone : config.disturbs op = false) : Spares config op where
  registers := by
    rintro storage layers token staleAfter rfl
    simp [WorkerConfig.disturbs] at halone
  releases := by
    rintro rfl
    simp [WorkerConfig.owns] at hforeign
  prunes := by
    rintro staleFor limit rfl
    simp [WorkerConfig.disturbs] at halone

theorem spares_work {work : Work} (hkept : work ≠ .release) :
    Spares config (work.op config) := by
  cases work with
  | startup swept =>
      cases swept with
      | false => exact ⟨by simp [Work.op], by simp [Work.op], by simp [Work.op]⟩
      | true =>
          refine ⟨?_, by simp [Work.op], by simp [Work.op]⟩
          intro storage layers token staleAfter heq
          simp only [Work.op, Op.registerWorker.injEq] at heq
          exact heq.2.2.2.2.1.symm
  | claim request =>
      cases request <;>
        exact ⟨by simp [Work.op], by simp [Work.op], by simp [Work.op]⟩
  | renewal => exact ⟨by simp [Work.op], by simp [Work.op], by simp [Work.op]⟩
  | sweep => exact ⟨by simp [Work.op], by simp [Work.op], by simp [Work.op]⟩
  | release => exact absurd rfl hkept

/-- A stream that is started up after a call went on was so before, unless the
call is its startup. -/
theorem startedUp_set {calls : List Call} {n k : Nat} {next : Call}
    (h : StartedUp (calls.set n next) k) :
    StartedUp calls k ∨
      next.work.isStartup = true ∧ next.result = some (.ok ()) := by
  obtain ⟨m, found, hfound, hissuer, hkind, hok⟩ := h
  rcases getElem?_set_cases hfound with ⟨_, rfl⟩ | hold
  · exact Or.inr ⟨hkind, hok⟩
  · exact Or.inl ⟨m, found, hold, hissuer, hkind, hok⟩

theorem startedUp_append {calls issued : List Call} {n : Nat}
    (hopen : ∀ call ∈ issued, call.result = none)
    (h : StartedUp (calls ++ issued) n) : StartedUp calls n := by
  obtain ⟨m, call, hcall, hissuer, hkind, hok⟩ := h
  rcases Nat.lt_or_ge m calls.length with hlt | hge
  · rw [List.getElem?_append_left hlt] at hcall
    exact ⟨m, call, hcall, hissuer, hkind, hok⟩
  · rw [List.getElem?_append_right hge] at hcall
    rw [hopen call (List.mem_of_getElem? hcall)] at hok
    cases hok

namespace WorkerSystem

variable {system after : WorkerSystem}

/-- What a step does to the calls, the ledger and the database. -/
inductive Acts (rows : TaskConversion) (config : WorkerConfig)
    (system : WorkerSystem) (event : WorkerEvent) (after : WorkerSystem) :
    Prop where
  | issued (issued : List Call)
      (hcalls : after.calls = system.calls ++ issued)
      (hdb : after.db = system.db) (hledger : after.ledger = system.ledger)
      (hfresh : ∀ call ∈ issued, call.result = none ∧
        (call.work = .release → event = .release) ∧
        (system.lease.retired = true → call.work = .release))
  | ran {n : Nat} {call : Call} (env : Nat → Env)
      (hcall : system.calls[n]? = some call)
      (hopen : call.isResolved = false) (hlease : after.lease = system.lease)
      (hcalls : after.calls = system.calls.set n (call.advance
        (system.execute rows (call.work.op config) env).outcome))
      (hdb : after.db = (system.execute rows (call.work.op config) env).view)
      (hledger : after.ledger = system.ledger ++ [⟨some n, call.work.op config,
        (system.execute rows (call.work.op config) env).outcome⟩])
  | failed {n : Nat} {call : Call} (disruption : Disruption)
      (hcall : system.calls[n]? = some call)
      (hopen : call.isResolved = false) (hlease : after.lease = system.lease)
      (hcalls : after.calls = system.calls.set n (call.fail disruption))
      (hdb : after.db = system.db) (hledger : after.ledger = system.ledger)
  | lost {n : Nat} {call : Call} (env : Nat → Env) (disruption : Disruption)
      (hcall : system.calls[n]? = some call)
      (hopen : call.isResolved = false) (hlease : after.lease = system.lease)
      (hcalls : after.calls = system.calls.set n (call.fail disruption))
      (hdb : after.db = (system.execute rows (call.work.op config) env).view)
      (hledger : after.ledger = system.ledger ++ [⟨some n, call.work.op config,
        (system.execute rows (call.work.op config) env).outcome⟩])
  | foreign (invocation : Invocation) (hevent : event = .other invocation)
      (hforeign : config.owns invocation.op = false)
      (hlease : after.lease = system.lease)
      (hcalls : after.calls = system.calls)
      (hdb : after.db =
        (system.execute rows invocation.op invocation.env).view)
      (hledger : after.ledger = system.ledger ++ [⟨none, invocation.op,
        (system.execute rows invocation.op invocation.env).outcome⟩])

theorem step_acts {event : WorkerEvent}
    (hstep : system.step rows config event = some after) :
    Acts rows config system event after := by
  have hsilent : ∀ {next : WorkerSystem}, next.calls = system.calls →
      next.db = system.db → next.ledger = system.ledger →
      Acts rows config system event next := by
    intro next hcalls hdb hledger
    exact .issued [] (by rw [hcalls, List.append_nil]) hdb hledger
      fun call hcall => by cases hcall
  cases step_stepped hstep with
  | openTask => exact hsilent rfl rfl rfl
  | openBeat => exact hsilent rfl rfl rfl
  | pollTask body meanwhile hstream hdropped =>
      rename_i n stream
      unfold WorkerSystem.pollTask
      split
      · exact hsilent rfl rfl rfl
      · rename_i hactive
        simp only [Bool.or_eq_true, not_or, Bool.not_eq_true] at hactive
        refine .issued _ rfl rfl rfl ?_
        intro call hcall
        have hissued := (Gate.poll_polls system.calls n body
          stream.inner).issued call hcall
        refine ⟨?_, ?_, fun hretired => ?_⟩
        · rcases hissued with rfl | ⟨⟨request, rfl⟩, _⟩ <;> rfl
        · rcases hissued with rfl | ⟨⟨request, rfl⟩, _⟩ <;>
            exact fun hwork => by cases hwork
        · rw [hactive.2] at hretired
          cases hretired
  | pollBeat poll meanwhile hstream hdropped =>
      rename_i n stream
      cases stream with
      | refused error answers dropped => exact hsilent rfl rfl rfl
      | leased outer inner =>
          simp only [WorkerSystem.pollBeat]
          split
          · exact hsilent rfl rfl rfl
          · rename_i hactive
            simp only [Bool.or_eq_true, not_or, Bool.not_eq_true] at hactive
            refine .issued _ rfl rfl rfl ?_
            intro call hcall
            have hissued := (Beats.poll_issued.1 call hcall).1
            refine ⟨?_, ?_, fun hretired => ?_⟩
            · rcases hissued with rfl | rfl <;> rfl
            · rcases hissued with rfl | rfl <;>
                exact fun hwork => by cases hwork
            · rw [hactive.2] at hretired
              cases hretired
  | dropTask _ _ => exact hsilent rfl rfl rfl
  | dropBeat hstream hdropped =>
      rename_i n stream
      cases stream with
      | refused error answers dropped => exact hsilent rfl rfl rfl
      | leased outer inner => exact hsilent rfl rfl rfl
  | retire => exact hsilent rfl rfl rfl
  | release =>
      refine .issued _ rfl rfl rfl ?_
      intro call hcall
      obtain rfl := List.mem_singleton.mp hcall
      exact ⟨rfl, fun _ => rfl, fun _ => rfl⟩
  | transact env hcall hopen => exact .ran env hcall hopen rfl rfl rfl rfl
  | disrupt disruption hcall hopen =>
      exact .failed disruption hcall hopen rfl rfl rfl rfl
  | lose env disruption hcall hopen =>
      exact .lost env disruption hcall hopen rfl rfl rfl rfl
  | other invocation hforeign =>
      exact .foreign invocation rfl hforeign rfl rfl rfl rfl

theorem step_retired (hbeats : system.BeatsRenew) {event : WorkerEvent}
    (hstep : system.step rows config event = some after)
    (hretired : system.lease.retired = true) : after.lease.retired = true := by
  refine (step_leaseSystem hbeats hstep).2.invariant
    (fun leases => leases.lease.retired = true) ?_ hretired
  intro state next event hstate hevent
  exact LeaseSystem.step_retired hevent hstate

/-- What the calls of a worker say while nobody else disturbs it. -/
structure Renewing (config : WorkerConfig) (system : WorkerSystem) : Prop where
  releases : ∀ call ∈ system.calls, call.work = .release →
    system.lease.retired = true
  carries : ∀ n, StartedUp system.calls n → system.lease.retired = true ∨
    Carries config system.db
  honest : ∀ call ∈ system.calls, call.work = .renewal →
    ∀ operation workerId queue hint, call.result =
      some (.error (.workerNotRegistered operation workerId queue hint)) →
    system.leaseSystem.Disclosed

theorem Renewing.carries_run (h : system.Renewing config) {n k : Nat}
    {call : Call} (hcall : system.calls[n]? = some call)
    (hstarted : StartedUp system.calls k) (env : Nat → Env) :
    system.lease.retired = true ∨ Carries config
      (system.execute rows (call.work.op config) env).view := by
  by_cases hrelease : call.work = .release
  · exact Or.inl (h.releases call (List.mem_of_getElem? hcall) hrelease)
  · rcases h.carries k hstarted with hretired | hcarries
    · exact Or.inl hretired
    · exact Or.inr (hcarries.execute (spares_work hrelease) env)

theorem Renewing.step (h : (machine rows config).Reachable system)
    (hrenewing : system.Renewing config) {event : WorkerEvent}
    (halone : config.leavesAlone event = true)
    (hstep : system.step rows config event = some after) :
    after.Renewing config := by
  have hbeats := (reachable_leaseSystem h).2
  have hretired := fun hold => step_retired hbeats hstep hold
  have hdisclosed : system.leaseSystem.Disclosed →
      after.leaseSystem.Disclosed :=
    fun hold => hold.follows (step_leaseSystem hbeats hstep).2
  cases step_acts hstep with
  | issued issued hcalls hdb hledger hfresh =>
      refine ⟨?_, ?_, ?_⟩
      · intro call hmem hwork
        rw [hcalls] at hmem
        rcases List.mem_append.mp hmem with hold | hnew
        · exact hretired (hrenewing.releases call hold hwork)
        · obtain rfl := (hfresh call hnew).2.1 hwork
          obtain rfl := Option.some.inj hstep
          rfl
      · intro n hstarted
        rw [hcalls] at hstarted
        rw [hdb]
        have hold := startedUp_append (fun call hcall => (hfresh call hcall).1)
          hstarted
        exact (hrenewing.carries n hold).imp_left hretired
      · intro call hmem hwork operation workerId queue hint hresult
        rw [hcalls] at hmem
        rcases List.mem_append.mp hmem with hold | hnew
        · exact hdisclosed (hrenewing.honest call hold hwork operation workerId
            queue hint hresult)
        · rw [(hfresh call hnew).1] at hresult
          cases hresult
  | ran env hcall hopen hlease hcalls hdb hledger =>
      rename_i n call
      have hgrows := Call.grows_advance hopen
        (system.execute rows (call.work.op config) env).outcome
      refine ⟨?_, ?_, ?_⟩
      · intro found hmem hwork
        rw [hcalls] at hmem
        obtain ⟨old, hold, heq⟩ := mem_set_work hcall hgrows rfl hmem hwork
        exact hretired (hrenewing.releases old hold heq)
      · intro k hstarted
        rw [hcalls] at hstarted
        rw [hdb, hlease]
        rcases startedUp_set hstarted with hold | ⟨hkind, hok⟩
        · exact hrenewing.carries_run hcall hold env
        · -- the registration that commits now carries the token
          right
          obtain ⟨hsecond, value, houtcome⟩ :=
            Call.advance_started hopen hkind hok
          have hcarries := execute_settled houtcome
          rw [hsecond] at hcarries ⊢
          exact hcarries
      · intro found hmem hwork operation workerId queue hint hresult
        rw [hcalls] at hmem
        rcases List.mem_or_eq_of_mem_set hmem with hold | rfl
        · exact hdisclosed (hrenewing.honest found hold hwork operation workerId
            queue hint hresult)
        · -- the renewal that ran now: it was announced, so the row is there
          obtain ⟨old, hold, heq⟩ := mem_set_work hcall hgrows rfl hmem hwork
          have hrenewal : call.work = .renewal := work_of_grows hgrows rfl hwork
          rcases reachable_beatOrder h (Or.inr ⟨old, hold, heq⟩) with
            ⟨k, hstarted⟩ | hdone
          · rcases hrenewing.carries k hstarted with hgone | hcarries
            · exact hdisclosed (Or.inl hgone)
            · have hrefused := Call.advance_refused hopen hresult
              rw [hrenewal] at hrefused
              exact absurd hrefused hcarries.renews
          · exact hdisclosed hdone
  | failed disruption hcall hopen hlease hcalls hdb hledger =>
      have hgrows := Call.grows_fail hopen disruption
      refine ⟨?_, ?_, ?_⟩
      · intro found hmem hwork
        rw [hcalls] at hmem
        obtain ⟨old, hold, heq⟩ := mem_set_work hcall hgrows rfl hmem hwork
        exact hretired (hrenewing.releases old hold heq)
      · intro k hstarted
        rw [hcalls] at hstarted
        rw [hdb, hlease]
        rcases startedUp_set hstarted with hold | ⟨_, hok⟩
        · exact hrenewing.carries k hold
        · cases hok
      · intro found hmem hwork operation workerId queue hint hresult
        rw [hcalls] at hmem
        rcases List.mem_or_eq_of_mem_set hmem with hold | rfl
        · exact hdisclosed (hrenewing.honest found hold hwork operation workerId
            queue hint hresult)
        · cases disruption <;> cases hresult
  | lost env disruption hcall hopen hlease hcalls hdb hledger =>
      have hgrows := Call.grows_fail hopen disruption
      refine ⟨?_, ?_, ?_⟩
      · intro found hmem hwork
        rw [hcalls] at hmem
        obtain ⟨old, hold, heq⟩ := mem_set_work hcall hgrows rfl hmem hwork
        exact hretired (hrenewing.releases old hold heq)
      · intro k hstarted
        rw [hcalls] at hstarted
        rw [hdb, hlease]
        rcases startedUp_set hstarted with hold | ⟨_, hok⟩
        · exact hrenewing.carries_run hcall hold env
        · cases hok
      · intro found hmem hwork operation workerId queue hint hresult
        rw [hcalls] at hmem
        rcases List.mem_or_eq_of_mem_set hmem with hold | rfl
        · exact hdisclosed (hrenewing.honest found hold hwork operation workerId
            queue hint hresult)
        · cases disruption <;> cases hresult
  | foreign invocation hevent hforeign hlease hcalls hdb hledger =>
      refine ⟨?_, ?_, ?_⟩
      · intro call hmem hwork
        rw [hcalls] at hmem
        exact hretired (hrenewing.releases call hmem hwork)
      · intro n hstarted
        rw [hcalls] at hstarted
        rw [hdb, hlease]
        subst hevent
        have hspares := spares_foreign hforeign (by
          simpa [WorkerConfig.leavesAlone] using halone)
        exact (hrenewing.carries n hstarted).imp_right
          fun hcarries => hcarries.execute hspares invocation.env
      · intro call hmem hwork operation workerId queue hint hresult
        rw [hcalls] at hmem
        exact hdisclosed (hrenewing.honest call hmem hwork operation workerId
          queue hint hresult)

/-- A renewal finds its registration.  In every run in which nobody else
registers the name or prunes its queue, a heartbeat reports that the worker is
not registered only if the name is retired or one of its registrations was
refused or given up: however long a registration takes, no renewal overtakes
it. -/
theorem renewals_find_registration {start : WorkerSystem}
    (hstart : (machine rows config).Initial start)
    (hruns : (machine rows config).FollowsBy
      (fun event => config.leavesAlone event = true) start system)
    {call : Call} (hcall : call ∈ system.calls)
    (hrenewal : call.work = .renewal)
    {operation workerId queue hint : String}
    (hresult : call.result =
      some (.error (.workerNotRegistered operation workerId queue hint))) :
    system.lease.retired = true ∨
      ∃ stream ∈ system.tasks, false ∈ settlements stream.outer.log := by
  have hboth : (machine rows config).Reachable system ∧
      system.Renewing config := by
    refine hruns.invariant (fun system =>
      (machine rows config).Reachable system ∧ system.Renewing config) ?_ ?_
    · rintro state next event ⟨hreachable, hrenewing⟩ halone hevent
      exact ⟨hreachable.step hevent, hrenewing.step hreachable halone hevent⟩
    · refine ⟨⟨start, hstart, Relation.ReflTransGen.refl⟩, ?_⟩
      obtain ⟨db, rfl⟩ := hstart
      refine ⟨by simp, ?_, by simp⟩
      rintro n ⟨m, found, hfound, _⟩
      cases hfound
  rcases hboth.2.honest call hcall hrenewal operation workerId queue hint
    hresult with hretired | ⟨outer, houter, hfalse⟩
  · exact Or.inl hretired
  · obtain ⟨stream, hstream, rfl⟩ := List.mem_map.mp houter
    exact Or.inr ⟨stream, hstream, hfalse⟩

/-- The task stream is dropped before its registration ran, and the heartbeat
that waited for it reports the missing row. -/
def givenUpEvents : List WorkerEvent :=
  [ .openBeat, .openTask, .pollBeat 0 ⟨false, true, false⟩ false,
    .pollTask 0 ⟨[], .pending⟩ false, .pollBeat 0 ⟨false, true, false⟩ false,
    .dropTask 0, .pollBeat 0 ⟨false, true, false⟩ false,
    .transact 1 quietEnv ]

def givenUp : WorkerSystem :=
  ((machine .copying startedConfig).run idleWorker givenUpEvents).getD
    idleWorker

theorem renewals_find_registration_givenUp :
    (givenUp.calls.map Call.work) = [.startup false, .renewal] ∧
      (givenUp.lease.retired = true ∨
        ∃ stream ∈ givenUp.tasks, false ∈ settlements stream.outer.log) := by
  have halone : (givenUpEvents.all startedConfig.leavesAlone) = true := by
    decide +kernel
  have hruns : (machine .copying startedConfig).FollowsBy
      (fun event => startedConfig.leavesAlone event = true) idleWorker givenUp :=
    Machine.followsBy_of_run givenUpEvents (List.all_eq_true.mp halone)
      (Machine.run_eq_getD idleWorker (by decide +kernel))
  have hrefused : (givenUp.calls[1]?.map fun call => (call.work, call.result)) =
      some (.renewal, some (.error (.workerNotRegistered
        "updating worker heartbeat" "worker" "queue"
        "the worker may not be registered for this queue, or another process has re-registered with a different lease token; recreate the worker stream"))) := by
    decide +kernel
  obtain ⟨call, hcall, hfacts⟩ := Option.map_eq_some_iff.mp hrefused
  obtain ⟨hwork, hresult⟩ := Prod.mk.inj hfacts
  exact ⟨by decide +kernel, renewals_find_registration ⟨.empty, rfl⟩ hruns
    (List.mem_of_getElem? hcall) hwork hresult⟩


end WorkerSystem

end Fetcher

end ApalisPostgres
