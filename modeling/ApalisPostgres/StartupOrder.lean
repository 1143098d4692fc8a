/-
The order in which a worker starts.  Its calls go on when the streams that
issued them are dropped, so the order is kept by the calls and by the ledger of
what they ran: a claim of a task stream follows the registration of that
stream, and the registration follows the sweep.
-/
import ApalisPostgres.WorkerStreams

namespace ApalisPostgres

open RowStore

namespace Fetcher

variable {rows : TaskConversion} {config : WorkerConfig}

theorem LeaseStream.register_settlements {T : Type} (lease : Lease)
    (stream : LeaseStream T) :
    settlements (LeaseStream.register lease stream).2.log =
        settlements stream.log ∧
      (LeaseStream.register lease stream).1.registered = lease.registered := by
  unfold LeaseStream.register
  split
  · exact ⟨by simp [LeaseStream.record, settlements], rfl⟩
  · exact ⟨rfl, rfl⟩

theorem LeaseStream.settle_settlements {T : Type} (lease : Lease)
    (stream : LeaseStream T) (inner : ItemPoll T) :
    ∃ noted, settlements (LeaseStream.settle lease stream inner).2.log =
        settlements stream.log ++ noted ∧
      (true ∈ noted → ∃ item, inner = .item (.ok item)) ∧
      ((LeaseStream.settle lease stream inner).1.registered = true →
        lease.registered = true ∨ true ∈ noted) := by
  unfold LeaseStream.settle
  split
  · split
    · rename_i succeeded hitem
      refine ⟨[succeeded], by simp [LeaseStream.record, settlements], ?_, ?_⟩
      · intro hnoted
        obtain rfl := List.mem_singleton.mp hnoted
        cases inner with
        | pending => cases hitem
        | ended => cases hitem
        | item result =>
            cases result with
            | error error => cases hitem
            | ok item => exact ⟨item, rfl⟩
      · intro hafter
        simpa [Lease.finishRegistration] using hafter
    · exact ⟨[], by simp, by simp, Or.inl⟩
  · exact ⟨[], by simp, by simp, Or.inl⟩

/-- A poll notes a success only for an `Ok` item of the stream inside. -/
theorem LeaseStream.pollNext_settlements {T : Type} (stream : LeaseStream T)
    (lease : Lease) (inner : ItemPoll T) (meanwhile : Bool) :
    ∃ noted, settlements (stream.pollNext lease inner meanwhile).2.log =
        settlements stream.log ++ noted ∧
      (true ∈ noted → ∃ item, inner = .item (.ok item)) ∧
      ((stream.pollNext lease inner meanwhile).1.registered = true →
        lease.registered = true ∨ true ∈ noted) := by
  have hrecord : ∀ (other : LeaseStream T) (entries : List (LeaseEntry T)),
      settlements (other.record entries).log =
        settlements other.log ++ settlements entries := by
    intro other entries
    simp [LeaseStream.record]
  have hretire : ∀ (retires : Bool) (other : Lease),
      (if retires then other.retire else other).registered =
        other.registered := by
    intro retires other
    cases retires <;> rfl
  unfold LeaseStream.pollNext
  split
  · exact ⟨[], by simp [LeaseStream.record, settlements], by simp, Or.inl⟩
  · split
    · exact ⟨[], by simp [LeaseStream.record, settlements], by simp, Or.inl⟩
    · obtain ⟨hbegun, hkept⟩ := LeaseStream.register_settlements lease
        (stream.record [.called (!lease.retired)])
      obtain ⟨noted, hlog, hitem, hregistered⟩ :=
        LeaseStream.settle_settlements
          (if meanwhile then (LeaseStream.register lease
            (stream.record [.called (!lease.retired)])).1.retire
            else (LeaseStream.register lease
              (stream.record [.called (!lease.retired)])).1)
          ((LeaseStream.register lease (stream.record
            [.called (!lease.retired)])).2.record [.polled]) inner
      refine ⟨noted, ?_, hitem, ?_⟩
      · rw [hrecord, hlog, hrecord, hbegun, hrecord]
        simp [settlements, List.filterMap_cons]
      · intro hafter
        rw [hretire] at hafter
        have hcases := hregistered hafter
        rw [hretire, hkept] at hcases
        exact hcases

/-- A drop refuses a pending registration and grants none. -/
theorem LeaseStream.drop_settlements {T : Type} (stream : LeaseStream T)
    (lease : Lease) :
    ∃ noted, settlements (stream.drop lease).2.log =
        settlements stream.log ++ noted ∧ true ∉ noted ∧
      (stream.drop lease).1.registered = lease.registered := by
  have hunguarded : (if stream.guarded then lease.retire
      else lease).registered = lease.registered := by
    cases stream.guarded <;> rfl
  by_cases hpending : stream.registration = .pending
  · simp only [LeaseStream.drop, if_pos hpending]
    refine ⟨[false], by simp [LeaseStream.record, settlements], by simp, ?_⟩
    simpa [Lease.finishRegistration] using hunguarded
  · simp only [LeaseStream.drop, if_neg hpending]
    exact ⟨[], by simp [LeaseStream.record, settlements], by simp, hunguarded⟩

namespace WorkerSystem

variable {system after : WorkerSystem}

/-- What a step may do, with the guards it passed. -/
inductive Stepped (rows : TaskConversion) (config : WorkerConfig)
    (system : WorkerSystem) : WorkerEvent → WorkerSystem → Prop where
  | openTask : Stepped rows config system .openTask
      { system with tasks := system.tasks ++ [⟨.new true, .unpolled⟩] }
  | openBeat : Stepped rows config system .openBeat
      { system with beats := system.beats ++ [.new config system.lease] }
  | pollTask {n : Nat} {stream : TaskStream} (body : BodyPoll)
      (meanwhile : Bool) (hstream : system.tasks[n]? = some stream)
      (hdropped : stream.outer.dropped = false) :
      Stepped rows config system (.pollTask n body meanwhile)
        (system.pollTask config n stream body meanwhile)
  | pollBeat {n : Nat} {stream : BeatStream} (poll : BeatPoll)
      (meanwhile : Bool) (hstream : system.beats[n]? = some stream)
      (hdropped : stream.dropped = false) :
      Stepped rows config system (.pollBeat n poll meanwhile)
        (system.pollBeat n stream poll meanwhile)
  | dropTask {n : Nat} {stream : TaskStream}
      (hstream : system.tasks[n]? = some stream)
      (hdropped : stream.outer.dropped = false) :
      Stepped rows config system (.dropTask n) (system.dropTask n stream)
  | dropBeat {n : Nat} {stream : BeatStream}
      (hstream : system.beats[n]? = some stream)
      (hdropped : stream.dropped = false) :
      Stepped rows config system (.dropBeat n) (system.dropBeat n stream)
  | retire : Stepped rows config system .retire
      { system with lease := system.lease.retire }
  | release : Stepped rows config system .release system.release
  | transact {n : Nat} {call : Call} (env : Nat → Env)
      (hcall : system.calls[n]? = some call) (hopen : call.isResolved = false) :
      Stepped rows config system (.transact n env)
        ((system.commit rows (some n) (call.work.op config) env).setCall n
          (call.advance
            (system.execute rows (call.work.op config) env).outcome))
  | disrupt {n : Nat} {call : Call} (disruption : Disruption)
      (hcall : system.calls[n]? = some call) (hopen : call.isResolved = false) :
      Stepped rows config system (.disrupt n disruption)
        (system.setCall n (call.fail disruption))
  | lose {n : Nat} {call : Call} (env : Nat → Env) (disruption : Disruption)
      (hcall : system.calls[n]? = some call) (hopen : call.isResolved = false) :
      Stepped rows config system (.lose n env disruption)
        ((system.commit rows (some n) (call.work.op config) env).setCall n
          (call.fail disruption))
  | other (invocation : Invocation)
      (hforeign : config.owns invocation.op = false) :
      Stepped rows config system (.other invocation)
        (system.commit rows none invocation.op invocation.env)

theorem onLive_eq_some {σ : Type} {entries : List σ} {n : Nat}
    {isOver : σ → Bool} {change : σ → WorkerSystem}
    (h : onLive entries n isOver change = some after) :
    ∃ entry, entries[n]? = some entry ∧ isOver entry = false ∧
      after = change entry := by
  unfold onLive at h
  cases hentry : entries[n]? with
  | none => simp [hentry] at h
  | some entry =>
      rw [hentry] at h
      cases hover : isOver entry with
      | true => simp [hover] at h
      | false =>
          simp only [hover, Bool.false_eq_true, if_false,
            Option.some.injEq] at h
          exact ⟨entry, rfl, hover, h.symm⟩

theorem step_stepped {event : WorkerEvent}
    (h : system.step rows config event = some after) :
    Stepped rows config system event after := by
  cases event with
  | openTask =>
      obtain rfl := Option.some.inj h
      exact .openTask
  | openBeat =>
      obtain rfl := Option.some.inj h
      exact .openBeat
  | pollTask n body meanwhile =>
      obtain ⟨stream, hstream, hdropped, rfl⟩ := onLive_eq_some h
      exact .pollTask body meanwhile hstream hdropped
  | pollBeat n poll meanwhile =>
      obtain ⟨stream, hstream, hdropped, rfl⟩ := onLive_eq_some h
      exact .pollBeat poll meanwhile hstream hdropped
  | dropTask n =>
      obtain ⟨stream, hstream, hdropped, rfl⟩ := onLive_eq_some h
      exact .dropTask hstream hdropped
  | dropBeat n =>
      obtain ⟨stream, hstream, hdropped, rfl⟩ := onLive_eq_some h
      exact .dropBeat hstream hdropped
  | retire =>
      obtain rfl := Option.some.inj h
      exact .retire
  | release =>
      obtain rfl := Option.some.inj h
      exact .release
  | transact n env =>
      obtain ⟨call, hcall, hopen, rfl⟩ := onLive_eq_some h
      exact .transact env hcall hopen
  | disrupt n disruption =>
      obtain ⟨call, hcall, hopen, rfl⟩ := onLive_eq_some h
      exact .disrupt disruption hcall hopen
  | lose n env disruption =>
      obtain ⟨call, hcall, hopen, rfl⟩ := onLive_eq_some h
      exact .lose env disruption hcall hopen
  | other invocation =>
      simp only [step] at h
      split at h
      · cases h
      · rename_i hforeign
        obtain rfl := Option.some.inj h
        exact .other invocation (by simpa using hforeign)

end WorkerSystem

def Work.isStartup : Work → Bool
  | .startup _ => true
  | _ => false

/-- What may become of a call: its startup goes on, or it gets its result. -/
structure Call.Grows (call next : Call) : Prop where
  issuer : next.issuer = call.issuer
  startup : next.work.isStartup = call.work.isStartup
  work : call.work.isStartup = false → next.work = call.work
  resolved : call.isResolved = true → next = call

theorem Call.Grows.refl (call : Call) : call.Grows call :=
  ⟨rfl, rfl, fun _ => rfl, fun _ => rfl⟩

theorem Call.grows_advance {call : Call} (hopen : call.isResolved = false)
    (outcome : Except Error Outcome) : call.Grows (call.advance outcome) := by
  obtain ⟨issuer, work, result⟩ := call
  cases work with
  | startup swept =>
      cases swept with
      | false =>
          cases outcome with
          | ok value => exact ⟨rfl, rfl, (fun h => by cases h), by simp_all⟩
          | error error => exact ⟨rfl, rfl, fun _ => rfl, by simp_all⟩
      | true => exact ⟨rfl, rfl, fun _ => rfl, by simp_all⟩
  | _ => exact ⟨rfl, rfl, fun _ => rfl, by simp_all⟩

/-- A startup succeeds by the registration, not by the sweep before it. -/
theorem Call.advance_started {call : Call} {outcome : Except Error Outcome}
    (hopen : call.isResolved = false)
    (hkind : (call.advance outcome).work.isStartup = true)
    (hok : (call.advance outcome).result = some (.ok ())) :
    call.work = .startup true ∧ ∃ value, outcome = .ok value := by
  obtain ⟨issuer, work, result⟩ := call
  have hnone : result = none := by simpa [Call.isResolved] using hopen
  subst hnone
  cases work with
  | startup swept =>
      cases outcome with
      | error error => cases swept <;> cases hok
      | ok value =>
          cases swept with
          | false => cases hok
          | true => exact ⟨rfl, value, rfl⟩
  | _ => cases hkind

/-- A call that ran reports the error of its transaction. -/
theorem Call.advance_refused {call : Call} {outcome : Except Error Outcome}
    {error : Error} (hopen : call.isResolved = false)
    (hresult : (call.advance outcome).result = some (.error error)) :
    outcome = .error error := by
  obtain ⟨issuer, work, result⟩ := call
  have hnone : result = none := by simpa [Call.isResolved] using hopen
  subst hnone
  cases outcome with
  | error other =>
      rw [Call.advance] at hresult
      · simpa [Except.map] using hresult
      · intro value _ heq
        cases heq
  | ok value =>
      cases work with
      | startup swept => cases swept <;> cases hresult
      | _ => cases hresult

theorem Call.grows_fail {call : Call} (hopen : call.isResolved = false)
    (disruption : Disruption) : call.Grows (call.fail disruption) :=
  ⟨rfl, rfl, fun _ => rfl, by simp_all⟩

/-- The calls of one state and of a later one. -/
def Grown (calls next : List Call) : Prop :=
  ∀ (m : Nat) (call : Call), calls[m]? = some call →
    ∃ later, next[m]? = some later ∧ call.Grows later

theorem Grown.refl (calls : List Call) : Grown calls calls :=
  fun _ call hcall => ⟨call, hcall, .refl call⟩

theorem Grown.append (calls issued : List Call) :
    Grown calls (calls ++ issued) := by
  intro m call hcall
  exact ⟨call, by rw [List.getElem?_append_left
    (List.getElem?_eq_some_iff.mp hcall).1, hcall], .refl call⟩

theorem Grown.set {calls : List Call} {n : Nat} {call next : Call}
    (hcall : calls[n]? = some call) (hgrows : call.Grows next) :
    Grown calls (calls.set n next) := by
  intro m other hother
  by_cases hsame : n = m
  · subst hsame
    rw [hcall] at hother
    obtain rfl := Option.some.inj hother
    exact ⟨next, List.getElem?_set_self (List.getElem?_eq_some_iff.mp hcall).1,
      hgrows⟩
  · exact ⟨other, (List.getElem?_set_ne hsame).trans hother, .refl other⟩

/-- A startup call of the task stream succeeded. -/
def StartedUp (calls : List Call) (n : Nat) : Prop :=
  ∃ (m : Nat) (call : Call), calls[m]? = some call ∧ call.issuer = .task n ∧
    call.work.isStartup = true ∧ call.result = some (.ok ())

theorem StartedUp.grown {calls next : List Call} {n : Nat}
    (h : StartedUp calls n) (hgrown : Grown calls next) : StartedUp next n := by
  obtain ⟨m, call, hcall, hissuer, hstartup, hresult⟩ := h
  obtain ⟨later, hlater, hgrows⟩ := hgrown m call hcall
  have hsame := hgrows.resolved (by simp [Call.isResolved, hresult])
  subst hsame
  exact ⟨m, later, hlater, hissuer, hstartup, hresult⟩

/-- What one poll of a gated stream does. -/
structure Gate.Polls (calls : List Call) (n : Nat) (gate : Gate)
    (polled : Polled Gate (Option Task)) : Prop where
  issued : ∀ call ∈ polled.issued,
    call = .issue (.task n) (.startup false) ∨
    (∃ request, call = .issue (.task n) (.claim request)) ∧ gate = .opened
  registering : ∀ m, polled.state = .registering m → gate = .registering m ∨
    m = calls.length ∧ polled.issued = [.issue (.task n) (.startup false)]
  opened : polled.state = .opened → gate = .opened ∨
    ∃ m, gate = .registering m ∧ resultOf calls m = some (.ok ())
  yields : ∀ item, polled.answer = .item (.ok item) → gate = .opened ∨
    ∃ m, gate = .registering m ∧ resultOf calls m = some (.ok ())

theorem Gate.poll_polls (calls : List Call) (n : Nat) (body : BodyPoll)
    (gate : Gate) : gate.Polls calls n (gate.poll config calls n body) := by
  cases gate with
  | unpolled =>
      simp only [Gate.poll]
      split
      · exact ⟨by simp, by simp, by simp, by simp⟩
      · exact ⟨by simp, by simp, by simp, by simp⟩
  | registering m =>
      simp only [Gate.poll]
      split
      · exact ⟨by simp, by simp, by simp, by simp⟩
      · rename_i hresult
        exact ⟨by simp, by simp, fun _ => Or.inr ⟨m, rfl, hresult⟩,
          fun _ _ => Or.inr ⟨m, rfl, hresult⟩⟩
      · exact ⟨by simp, by simp, by simp, by simp⟩
  | opened =>
      refine ⟨?_, ?_, fun _ => Or.inl rfl, fun _ _ => Or.inl rfl⟩
      · intro call hcall
        obtain ⟨request, _, rfl⟩ := List.mem_map.mp hcall
        exact Or.inr ⟨⟨request, rfl⟩, rfl⟩
      · intro m hstate
        simp only [Gate.poll] at hstate
        split at hstate <;> cases hstate
  | refused => exact ⟨by simp [Gate.poll], by simp [Gate.poll],
      by simp [Gate.poll], by simp [Gate.poll]⟩
  | ended => exact ⟨by simp [Gate.poll], by simp [Gate.poll],
      by simp [Gate.poll], by simp [Gate.poll]⟩

/-- The beats are past their wait. -/
def Beats.Begun (lease : Lease) (beats : Beats) : Prop :=
  (∃ renewal sweep, beats = .beating renewal sweep) ∨
    ∃ settledBefore, beats = .waiting settledBefore ∧
      lease.isSettled settledBefore = true

theorem Arm.poll_issued {calls : List Call} {n : Nat} {work : Work}
    {elapsed : Bool} {arm : Arm} {call : Call}
    (h : call ∈ (arm.poll calls n work elapsed).issued) :
    call = .issue (.beat n) work := by
  cases arm with
  | sleeping =>
      simp only [Arm.poll] at h
      split at h
      · exact List.mem_singleton.mp h
      · cases h
  | calling m =>
      simp only [Arm.poll] at h
      split at h <;> cases h

theorem pollArms_issued {calls : List Call} {n : Nat} {poll : BeatPoll}
    {renewal sweep : Arm} {call : Call}
    (h : call ∈ (pollArms calls n poll renewal sweep).issued) :
    call = .issue (.beat n) .renewal ∨ call = .issue (.beat n) .sweep := by
  unfold pollArms at h
  split at h
  · simp only at h
    split at h
    · rcases List.mem_append.mp h with hfirst | hsecond
      · exact Or.inr (Arm.poll_issued hfirst)
      · exact Or.inl (Arm.poll_issued hsecond)
    · exact Or.inr (Arm.poll_issued h)
  · simp only at h
    split at h
    · rcases List.mem_append.mp h with hfirst | hsecond
      · exact Or.inl (Arm.poll_issued hfirst)
      · exact Or.inr (Arm.poll_issued hsecond)
    · exact Or.inl (Arm.poll_issued h)

/-- Beats issue calls only past their wait. -/
theorem Beats.poll_issued {calls : List Call} {n : Nat} {lease : Lease}
    {poll : BeatPoll} {beats : Beats} :
    (∀ call ∈ (beats.poll calls n lease poll).issued,
      (call = .issue (.beat n) .renewal ∨ call = .issue (.beat n) .sweep) ∧
        beats.Begun lease) ∧
      (∀ renewal sweep, (beats.poll calls n lease poll).state =
        .beating renewal sweep → beats.Begun lease) := by
  cases beats with
  | waiting settledBefore =>
      simp only [Beats.poll]
      split
      · rename_i hsettled
        have hbegun : (Beats.waiting settledBefore).Begun lease :=
          Or.inr ⟨settledBefore, rfl, hsettled⟩
        exact ⟨fun call hcall => ⟨pollArms_issued hcall, hbegun⟩,
          fun _ _ _ => hbegun⟩
      · exact ⟨by simp, by simp⟩
  | beating renewal sweep =>
      have hbegun : (Beats.beating renewal sweep).Begun lease :=
        Or.inl ⟨renewal, sweep, rfl⟩
      exact ⟨fun call hcall => ⟨pollArms_issued hcall, hbegun⟩,
        fun _ _ _ => hbegun⟩

/-- The startup call swept and then registered the name. -/
def Registered (config : WorkerConfig) (ledger : List Transacted) (m : Nat) :
    Prop :=
  ∃ swept registered,
    [⟨some m, (Work.startup false).op config, .ok swept⟩,
      ⟨some m, (Work.startup true).op config, .ok registered⟩].Sublist ledger

theorem Registered.append {ledger : List Transacted} {m : Nat}
    (h : Registered config ledger m) (entries : List Transacted) :
    Registered config (ledger ++ entries) m := by
  obtain ⟨swept, registered, hsublist⟩ := h
  exact ⟨swept, registered, hsublist.trans (List.sublist_append_left _ _)⟩

/-- The calls of a name and the transactions they ran, in order. -/
structure CallOrder (config : WorkerConfig) (calls : List Call)
    (ledger : List Transacted) : Prop where
  callers : ∀ entry ∈ ledger, ∀ m, entry.call = some m →
    ∃ call, calls[m]? = some call
  swept : ∀ (m : Nat) (call : Call), calls[m]? = some call →
    call.work = .startup true →
    ∃ value, ⟨some m, (Work.startup false).op config, .ok value⟩ ∈ ledger
  started : ∀ (m : Nat) (call : Call), calls[m]? = some call →
    call.work.isStartup = true → call.result = some (.ok ()) →
    Registered config ledger m
  claims : ∀ (m : Nat) (call : Call) request, calls[m]? = some call →
    call.work = .claim request →
    ∃ n, call.issuer = .task n ∧ StartedUp calls n
  claimed : ∀ before entry rest (m : Nat) (call : Call) request,
    ledger = before ++ entry :: rest → entry.call = some m →
    calls[m]? = some call → call.work = .claim request →
    ∃ (start : Nat) (found : Call), Registered config before start ∧
      calls[start]? = some found ∧ found.issuer = call.issuer

/-- What stands in a list after one entry of it was replaced. -/
theorem getElem?_set_cases {α : Type} {entries : List α} {n m : Nat}
    {new found : α} (h : (entries.set n new)[m]? = some found) :
    (m = n ∧ found = new) ∨ entries[m]? = some found := by
  by_cases hsame : n = m
  · subst hsame
    have hlength : n < (entries.set n new).length :=
      (List.getElem?_eq_some_iff.mp h).1
    rw [List.length_set] at hlength
    rw [List.getElem?_set_self hlength] at h
    exact Or.inl ⟨rfl, (Option.some.inj h).symm⟩
  · rw [List.getElem?_set_ne hsame] at h
    exact Or.inr h

theorem Grown.old {calls next : List Call} (h : Grown calls next) {m : Nat}
    {old later : Call} (hold : calls[m]? = some old)
    (hlater : next[m]? = some later) : old.Grows later := by
  obtain ⟨found, hfound, hgrows⟩ := h m old hold
  rw [hlater] at hfound
  obtain rfl := Option.some.inj hfound
  exact hgrows

theorem Call.Grows.claim {call next : Call} {request : ClaimRequest}
    (h : call.Grows next) (hclaim : next.work = .claim request) :
    call.work = .claim request := by
  have hkind : call.work.isStartup = false := by
    rw [← h.startup, hclaim]
    rfl
  rw [← h.work hkind, hclaim]

/-- The claims that ran keep what came before them. -/
theorem CallOrder.claimed_grown {calls next : List Call}
    {ledger : List Transacted} (h : CallOrder config calls ledger)
    (hgrown : Grown calls next) {before rest : List Transacted}
    {entry : Transacted} {m : Nat} {call : Call} {request : ClaimRequest}
    (hsplit : ledger = before ++ entry :: rest) (hcaller : entry.call = some m)
    (hcall : next[m]? = some call) (hclaim : call.work = .claim request) :
    ∃ (start : Nat) (found : Call), Registered config before start ∧
      next[start]? = some found ∧ found.issuer = call.issuer := by
  obtain ⟨old, hold⟩ := h.callers entry (by simp [hsplit]) m hcaller
  have hgrows := hgrown.old hold hcall
  obtain ⟨start, found, hregistered, hfound, hissuer⟩ :=
    h.claimed before entry rest m old request hsplit hcaller hold
      (hgrows.claim hclaim)
  obtain ⟨later, hlater, hlaterGrows⟩ := hgrown start found hfound
  exact ⟨start, later, hregistered, hlater, by
    rw [hlaterGrows.issuer, hissuer, hgrows.issuer]⟩

/-- Where a list that grew by one entry was split. -/
theorem concat_split {α : Type} {entries before rest : List α} {last entry : α}
    (h : entries ++ [last] = before ++ entry :: rest) :
    (rest = [] ∧ entry = last ∧ before = entries) ∨
      ∃ fewer, rest = fewer ++ [last] ∧ entries = before ++ entry :: fewer := by
  rcases List.eq_nil_or_concat rest with rfl | ⟨fewer, other, rfl⟩
  · left
    have hlast := List.append_inj' h rfl
    refine ⟨rfl, ?_, hlast.1.symm⟩
    simpa using hlast.2.symm
  · right
    rw [List.concat_eq_append, ← List.cons_append, ← List.append_assoc] at h
    have hlast := List.append_inj' h rfl
    refine ⟨fewer, ?_, hlast.1⟩
    rw [List.concat_eq_append, List.singleton_inj.mp hlast.2]

/-- New calls that have not run keep the order. -/
theorem CallOrder.append {calls issued : List Call} {ledger : List Transacted}
    (h : CallOrder config calls ledger)
    (hfresh : ∀ call ∈ issued, call.result = none ∧
      call.work ≠ .startup true ∧
      ∀ request, call.work = .claim request →
        ∃ n, call.issuer = .task n ∧ StartedUp calls n) :
    CallOrder config (calls ++ issued) ledger := by
  have hgrown := Grown.append calls issued
  have hcases : ∀ (m : Nat) (call : Call), (calls ++ issued)[m]? = some call →
      calls[m]? = some call ∨ call ∈ issued := by
    intro m call hcall
    rcases Nat.lt_or_ge m calls.length with hlt | hge
    · rw [List.getElem?_append_left hlt] at hcall
      exact Or.inl hcall
    · rw [List.getElem?_append_right hge] at hcall
      exact Or.inr (List.mem_of_getElem? hcall)
  refine ⟨?_, ?_, ?_, ?_, ?_⟩
  · intro entry hentry m hcaller
    obtain ⟨call, hcall⟩ := h.callers entry hentry m hcaller
    obtain ⟨later, hlater, _⟩ := hgrown m call hcall
    exact ⟨later, hlater⟩
  · intro m call hcall hwork
    rcases hcases m call hcall with hold | hnew
    · exact h.swept m call hold hwork
    · exact absurd hwork (hfresh call hnew).2.1
  · intro m call hcall hstartup hresult
    rcases hcases m call hcall with hold | hnew
    · exact h.started m call hold hstartup hresult
    · rw [(hfresh call hnew).1] at hresult
      cases hresult
  · intro m call request hcall hwork
    rcases hcases m call hcall with hold | hnew
    · obtain ⟨n, hissuer, hstarted⟩ := h.claims m call request hold hwork
      exact ⟨n, hissuer, hstarted.grown hgrown⟩
    · obtain ⟨n, hissuer, hstarted⟩ := (hfresh call hnew).2.2 request hwork
      exact ⟨n, hissuer, hstarted.grown hgrown⟩
  · intro before entry rest m call request hsplit hcaller hcall hwork
    exact h.claimed_grown hgrown hsplit hcaller hcall hwork

/-- A transaction that ended keeps the order. -/
theorem CallOrder.logged {calls : List Call} {ledger : List Transacted}
    (h : CallOrder config calls ledger) {entry : Transacted}
    (hcaller : ∀ m, entry.call = some m → ∃ call, calls[m]? = some call) :
    CallOrder config calls (ledger ++ [entry]) := by
  refine ⟨?_, ?_, ?_, h.claims, ?_⟩
  · intro other hother m hfrom
    rcases List.mem_append.mp hother with hold | hnew
    · exact h.callers other hold m hfrom
    · rw [List.mem_singleton.mp hnew] at hfrom
      exact hcaller m hfrom
  · intro m call hcall hwork
    obtain ⟨value, hvalue⟩ := h.swept m call hcall hwork
    exact ⟨value, List.mem_append_left _ hvalue⟩
  · intro m call hcall hstartup hresult
    exact (h.started m call hcall hstartup hresult).append _
  · intro before other rest m call request hsplit hfrom hcall hwork
    rcases concat_split hsplit with ⟨_, _, rfl⟩ | ⟨fewer, _, hfewer⟩
    · -- the claim that runs now was issued by a stream that has started up
      obtain ⟨n, hissuer, start, found, hfound, hstart, hkind, hdone⟩ :=
        h.claims m call request hcall hwork
      exact ⟨start, found, h.started start found hfound hkind hdone, hfound,
        hstart.trans hissuer.symm⟩
    · exact h.claimed before other fewer m call request hfewer hfrom hcall
        hwork

/-- A call that goes on keeps the order, if the ledger bears it out. -/
theorem CallOrder.set {calls : List Call} {ledger : List Transacted} {n : Nat}
    {call next : Call} (h : CallOrder config calls ledger)
    (hcall : calls[n]? = some call) (hgrows : call.Grows next)
    (hswept : next.work = .startup true →
      ∃ value, ⟨some n, (Work.startup false).op config, .ok value⟩ ∈ ledger)
    (hstarted : next.work.isStartup = true → next.result = some (.ok ()) →
      Registered config ledger n) :
    CallOrder config (calls.set n next) ledger := by
  have hgrown := Grown.set hcall hgrows
  refine ⟨?_, ?_, ?_, ?_, ?_⟩
  · intro entry hentry m hcaller
    obtain ⟨old, hold⟩ := h.callers entry hentry m hcaller
    obtain ⟨later, hlater, _⟩ := hgrown m old hold
    exact ⟨later, hlater⟩
  · intro m other hother hwork
    rcases getElem?_set_cases hother with ⟨rfl, rfl⟩ | hold
    · exact hswept hwork
    · exact h.swept m other hold hwork
  · intro m other hother hstartup hok
    rcases getElem?_set_cases hother with ⟨rfl, rfl⟩ | hold
    · exact hstarted hstartup hok
    · exact h.started m other hold hstartup hok
  · intro m other request hother hwork
    have hold : ∃ old, calls[m]? = some old ∧ old.Grows other := by
      rcases getElem?_set_cases hother with ⟨rfl, rfl⟩ | hold
      · exact ⟨call, hcall, hgrows⟩
      · exact ⟨other, hold, .refl other⟩
    obtain ⟨old, hold, hgrowth⟩ := hold
    obtain ⟨k, hissuer, hstarted⟩ := h.claims m old request hold
      (hgrowth.claim hwork)
    exact ⟨k, hgrowth.issuer.trans hissuer, hstarted.grown hgrown⟩
  · intro before entry rest m other request hsplit hcaller hother hwork
    exact h.claimed_grown hgrown hsplit hcaller hother hwork

theorem CallOrder.failed {calls : List Call} {ledger : List Transacted}
    {n : Nat} {call : Call} (h : CallOrder config calls ledger)
    (hcall : calls[n]? = some call) (hopen : call.isResolved = false)
    (disruption : Disruption) :
    CallOrder config (calls.set n (call.fail disruption)) ledger := by
  apply h.set hcall (Call.grows_fail hopen disruption)
  · exact h.swept n call hcall
  · intro _ hok
    cases hok

/-- A call that runs its next transaction keeps the order. -/
theorem CallOrder.ran {calls : List Call} {ledger : List Transacted} {n : Nat}
    {call : Call} (h : CallOrder config calls ledger)
    (hcall : calls[n]? = some call) (hopen : call.isResolved = false)
    (outcome : Except Error Outcome) :
    CallOrder config (calls.set n (call.advance outcome))
      (ledger ++ [⟨some n, call.work.op config, outcome⟩]) := by
  have hlogged : CallOrder config calls
      (ledger ++ [⟨some n, call.work.op config, outcome⟩]) := by
    apply h.logged
    intro m hcaller
    obtain rfl := Option.some.inj hcaller
    exact ⟨call, hcall⟩
  apply hlogged.set hcall (Call.grows_advance hopen outcome)
  · intro hwork
    obtain ⟨issuer, work, result⟩ := call
    cases work with
    | startup swept =>
        cases swept with
        | true => exact hlogged.swept n _ hcall rfl
        | false =>
            cases outcome with
            | ok value =>
                exact ⟨value, List.mem_append_right _ List.mem_cons_self⟩
            | error error => cases hwork
    | _ => cases hwork
  · intro hkind hok
    obtain ⟨hsecond, value, rfl⟩ := Call.advance_started hopen hkind hok
    obtain ⟨first, hfirst⟩ := h.swept n call hcall hsecond
    rw [hsecond]
    exact ⟨first, value, List.Sublist.append
      (List.singleton_sublist.mpr hfirst) (List.Sublist.refl _)⟩

/-- What the states of the task streams say about the calls. -/
structure StreamOrder (calls : List Call) (tasks : List TaskStream) : Prop where
  registering : ∀ (n : Nat) (stream : TaskStream) m, tasks[n]? = some stream →
    stream.inner = .registering m → ∃ call, calls[m]? = some call ∧
      call.issuer = .task n ∧ call.work.isStartup = true
  opened : ∀ (n : Nat) (stream : TaskStream), tasks[n]? = some stream →
    stream.inner = .opened → StartedUp calls n
  settled : ∀ (n : Nat) (stream : TaskStream), tasks[n]? = some stream →
    true ∈ settlements stream.outer.log → StartedUp calls n

theorem StreamOrder.grown {calls next : List Call} {tasks : List TaskStream}
    (h : StreamOrder calls tasks) (hgrown : Grown calls next) :
    StreamOrder next tasks where
  registering := by
    intro n stream m hstream hinner
    obtain ⟨call, hcall, hissuer, hkind⟩ := h.registering n stream m hstream
      hinner
    obtain ⟨later, hlater, hgrows⟩ := hgrown m call hcall
    exact ⟨later, hlater, hgrows.issuer.trans hissuer,
      hgrows.startup.trans hkind⟩
  opened n stream hstream hinner := (h.opened n stream hstream hinner).grown
    hgrown
  settled n stream hstream htrue := (h.settled n stream hstream htrue).grown
    hgrown

/-- Replacing one stream keeps the others. -/
theorem StreamOrder.set {calls : List Call} {tasks : List TaskStream} {n : Nat}
    {changed : TaskStream} (h : StreamOrder calls tasks)
    (hregistering : ∀ m, changed.inner = .registering m →
      ∃ call, calls[m]? = some call ∧ call.issuer = .task n ∧
        call.work.isStartup = true)
    (hopened : changed.inner = .opened → StartedUp calls n)
    (hsettled : true ∈ settlements changed.outer.log → StartedUp calls n) :
    StreamOrder calls (tasks.set n changed) := by
  refine ⟨?_, ?_, ?_⟩
  · intro k stream m hstream hinner
    rcases getElem?_set_cases hstream with ⟨rfl, rfl⟩ | hold
    · exact hregistering m hinner
    · exact h.registering k stream m hold hinner
  · intro k stream hstream hinner
    rcases getElem?_set_cases hstream with ⟨rfl, rfl⟩ | hold
    · exact hopened hinner
    · exact h.opened k stream hold hinner
  · intro k stream hstream htrue
    rcases getElem?_set_cases hstream with ⟨rfl, rfl⟩ | hold
    · exact hsettled htrue
    · exact h.settled k stream hold htrue

namespace WorkerSystem

variable {system after : WorkerSystem}

/-- The calls and the streams of a state are in order. -/
structure StartupOrder (config : WorkerConfig) (system : WorkerSystem) :
    Prop where
  calls : CallOrder config system.calls system.ledger
  streams : StreamOrder system.calls system.tasks

theorem StartupOrder.pollTask (h : system.StartupOrder config) {n : Nat}
    {stream : TaskStream} (body : BodyPoll) (meanwhile : Bool)
    (hstream : system.tasks[n]? = some stream) :
    (system.pollTask config n stream body meanwhile).StartupOrder config := by
  unfold WorkerSystem.pollTask
  split
  · obtain ⟨noted, hlog, hitem, _⟩ := stream.outer.pollNext_settlements
      system.lease .pending meanwhile
    refine ⟨h.calls, h.streams.set ?_ ?_ ?_⟩
    · exact fun m hinner => h.streams.registering n stream m hstream hinner
    · exact h.streams.opened n stream hstream
    · intro htrue
      rw [hlog] at htrue
      rcases List.mem_append.mp htrue with hold | hnew
      · exact h.streams.settled n stream hstream hold
      · obtain ⟨item, hnone⟩ := hitem hnew
        cases hnone
  · have hpolls : stream.inner.Polls system.calls n
        (stream.inner.poll config system.calls n body) :=
      Gate.poll_polls system.calls n body stream.inner
    revert hpolls
    generalize stream.inner.poll config system.calls n body = polled
    intro hpolls
    have hgrown := Grown.append system.calls polled.issued
    -- a gate that is open, or opens now, has its startup behind it
    have hstarted : (stream.inner = .opened ∨ ∃ m,
        stream.inner = .registering m ∧
          resultOf system.calls m = some (.ok ())) →
        StartedUp system.calls n := by
      rintro (hopened | ⟨m, hregistering, hresult⟩)
      · exact h.streams.opened n stream hstream hopened
      · obtain ⟨call, hcall, hissuer, hkind⟩ :=
          h.streams.registering n stream m hstream hregistering
        refine ⟨m, call, hcall, hissuer, hkind, ?_⟩
        simpa [resultOf, hcall] using hresult
    obtain ⟨noted, hlog, hitem, _⟩ := stream.outer.pollNext_settlements
      system.lease polled.answer meanwhile
    refine ⟨h.calls.append ?_, (h.streams.grown hgrown).set ?_ ?_ ?_⟩
    · intro call hcall
      rcases hpolls.issued call hcall with rfl | ⟨⟨request, rfl⟩, hopened⟩
      · exact ⟨rfl, by simp [Call.issue], fun _ hwork => by cases hwork⟩
      · exact ⟨rfl, by simp [Call.issue],
          fun _ _ => ⟨n, rfl, hstarted (Or.inl hopened)⟩⟩
    · intro m hinner
      rcases hpolls.registering m hinner with hold | ⟨rfl, hissued⟩
      · obtain ⟨call, hcall, hissuer, hkind⟩ :=
          h.streams.registering n stream m hstream hold
        obtain ⟨later, hlater, hgrows⟩ := hgrown m call hcall
        exact ⟨later, hlater, hgrows.issuer.trans hissuer,
          hgrows.startup.trans hkind⟩
      · refine ⟨.issue (.task n) (.startup false), ?_, rfl, rfl⟩
        simp [hissued]
    · intro hopened
      exact (hstarted (hpolls.opened hopened)).grown hgrown
    · intro htrue
      change true ∈ settlements
        (stream.outer.pollNext system.lease polled.answer meanwhile).2.log
        at htrue
      rw [hlog] at htrue
      rcases List.mem_append.mp htrue with hold | hnew
      · exact (h.streams.settled n stream hstream hold).grown hgrown
      · obtain ⟨item, hanswer⟩ := hitem hnew
        exact (hstarted (hpolls.yields item hanswer)).grown hgrown

theorem StartupOrder.pollBeat (h : system.StartupOrder config) (n : Nat)
    (stream : BeatStream) (poll : BeatPoll) (meanwhile : Bool) :
    (system.pollBeat n stream poll meanwhile).StartupOrder config := by
  cases stream with
  | refused error answers dropped => exact ⟨h.calls, h.streams⟩
  | leased outer inner =>
      simp only [WorkerSystem.pollBeat]
      split
      · exact ⟨h.calls, h.streams⟩
      · refine ⟨h.calls.append ?_, h.streams.grown (Grown.append _ _)⟩
        intro call hcall
        rcases (Beats.poll_issued.1 call hcall).1 with rfl | rfl
        · exact ⟨rfl, by simp [Call.issue], fun _ hwork => by cases hwork⟩
        · exact ⟨rfl, by simp [Call.issue], fun _ hwork => by cases hwork⟩

theorem StartupOrder.step (h : system.StartupOrder config)
    {event : WorkerEvent}
    (hstep : system.step rows config event = some after) :
    after.StartupOrder config := by
  cases step_stepped hstep with
  | openTask =>
      refine ⟨h.calls, ?_, ?_, ?_⟩
      all_goals
        intro n stream
        rw [List.getElem?_append]
        split
      · exact h.streams.registering n stream
      · intro m hstream hinner
        obtain ⟨rfl⟩ := List.mem_singleton.mp (List.mem_of_getElem? hstream)
        cases hinner
      · exact h.streams.opened n stream
      · intro hstream hinner
        obtain ⟨rfl⟩ := List.mem_singleton.mp (List.mem_of_getElem? hstream)
        cases hinner
      · exact h.streams.settled n stream
      · intro hstream htrue
        obtain ⟨rfl⟩ := List.mem_singleton.mp (List.mem_of_getElem? hstream)
        cases htrue
  | openBeat => exact ⟨h.calls, h.streams⟩
  | pollTask body meanwhile hstream _ => exact h.pollTask body meanwhile hstream
  | pollBeat poll meanwhile _ _ => exact h.pollBeat _ _ poll meanwhile
  | dropTask hstream hdropped =>
      rename_i n stream
      obtain ⟨noted, hlog, hrefused, _⟩ :=
        stream.outer.drop_settlements system.lease
      refine ⟨h.calls, h.streams.set ?_ ?_ ?_⟩
      · exact fun m hinner => h.streams.registering n stream m hstream hinner
      · exact h.streams.opened n stream hstream
      · intro htrue
        rw [hlog] at htrue
        rcases List.mem_append.mp htrue with hold | hnew
        · exact h.streams.settled n stream hstream hold
        · exact absurd hnew hrefused
  | dropBeat hstream hdropped =>
      rename_i n stream
      cases stream with
      | refused error answers dropped => exact ⟨h.calls, h.streams⟩
      | leased outer inner => exact ⟨h.calls, h.streams⟩
  | retire => exact ⟨h.calls, h.streams⟩
  | release =>
      refine ⟨h.calls.append ?_, h.streams.grown (Grown.append _ _)⟩
      intro call hcall
      obtain rfl := List.mem_singleton.mp hcall
      exact ⟨rfl, by simp [Call.issue], fun _ hwork => by cases hwork⟩
  | transact env hcall hopen =>
      exact ⟨h.calls.ran hcall hopen _,
        h.streams.grown (.set hcall (Call.grows_advance hopen _))⟩
  | disrupt disruption hcall hopen =>
      exact ⟨h.calls.failed hcall hopen disruption,
        h.streams.grown (.set hcall (Call.grows_fail hopen disruption))⟩
  | lose env disruption hcall hopen =>
      refine ⟨CallOrder.failed (h.calls.logged ?_) hcall hopen disruption,
        h.streams.grown (.set hcall (Call.grows_fail hopen disruption))⟩
      intro m hcaller
      obtain rfl := Option.some.inj hcaller
      exact ⟨_, hcall⟩
  | other invocation _ =>
      exact ⟨h.calls.logged (fun _ hcaller => by cases hcaller), h.streams⟩

theorem reachable_startupOrder (h : (machine rows config).Reachable system) :
    system.StartupOrder config := by
  refine h.invariant (fun system => system.StartupOrder config) ?_ ?_
  · rintro start ⟨db, rfl⟩
    refine ⟨⟨?_, ?_, ?_, ?_, ?_⟩, ⟨?_, ?_, ?_⟩⟩
    all_goals simp
  · intro state next event hstate hevent
    exact hstate.step hevent

/-- Claims follow the registration of their stream.  In every run, each claim
transaction of a task stream comes after the startup call of that stream has
committed its sweep and then its registration under the token, whatever was
dropped, retired or lost in between. -/
theorem claims_follow_registration
    (h : (machine rows config).Reachable system)
    {before rest : List Transacted} {entry : Transacted} {m : Nat} {call : Call}
    {request : ClaimRequest}
    (hsplit : system.ledger = before ++ entry :: rest)
    (hcaller : entry.call = some m) (hcall : system.calls[m]? = some call)
    (hclaim : call.work = .claim request) :
    ∃ (start : Nat) (found : Call), system.calls[start]? = some found ∧
      found.issuer = call.issuer ∧ ∃ swept registered,
      [⟨some start, .reenqueueOrphaned config.queue
          config.reenqueueOrphanedAfter, .ok swept⟩,
        ⟨some start, .registerWorker config.worker config.queue
          config.storageName config.layers config.leaseToken
          config.reenqueueOrphanedAfter, .ok registered⟩].Sublist before := by
  obtain ⟨start, found, hregistered, hfound, hissuer⟩ :=
    (reachable_startupOrder h).calls.claimed before entry rest m call request
      hsplit hcaller hcall hclaim
  exact ⟨start, found, hfound, hissuer, hregistered⟩

/-- A worker that starts up and claims once. -/
def startedConfig : WorkerConfig :=
  ⟨"worker", "queue", storageName, "", "token", 30, 300⟩

def startedEvents : List WorkerEvent :=
  let quiet : BodyPoll := ⟨[], .pending⟩
  [ .openTask, .pollTask 0 quiet false, .transact 0 quietEnv,
    .pollTask 0 quiet false, .transact 0 quietEnv, .pollTask 0 quiet false,
    .pollTask 0 ⟨[.poll 10], .pending⟩ false, .transact 1 quietEnv ]

/-- No row, no stream and no call yet. -/
def idleWorker : WorkerSystem := ⟨.empty, .new "worker", [], [], [], []⟩

def startedWorker : WorkerSystem :=
  ((machine .copying startedConfig).run idleWorker startedEvents).getD
    idleWorker

theorem startedWorker_reachable :
    (machine .copying startedConfig).Reachable startedWorker :=
  ⟨idleWorker, ⟨.empty, rfl⟩, Machine.follows_of_run startedEvents
    (Machine.run_eq_getD idleWorker (by decide +kernel))⟩

theorem claims_follow_registration_started :
    ∃ before entry, startedWorker.ledger = before ++ [entry] ∧
      entry.call = some 1 ∧ ∃ start swept registered,
      [⟨some start, .reenqueueOrphaned "queue" 300, .ok swept⟩,
        ⟨some start, .registerWorker "worker" "queue" storageName "" "token" 300,
          .ok registered⟩].Sublist before := by
  have hcallers : startedWorker.ledger.map Transacted.call =
      [some 0, some 0, some 1] := by decide +kernel
  have hclaim : startedWorker.calls[1]?.map Call.work =
      some (.claim (.poll 10)) := by decide +kernel
  obtain ⟨call, hcall, hwork⟩ := Option.map_eq_some_iff.mp hclaim
  obtain ⟨first, later, hledger, _, hlater⟩ := List.map_eq_cons_iff.mp hcallers
  obtain ⟨second, last, rfl, _, hlast⟩ := List.map_eq_cons_iff.mp hlater
  obtain ⟨entry, none, rfl, hcaller, hnone⟩ := List.map_eq_cons_iff.mp hlast
  obtain rfl := List.map_eq_nil_iff.mp hnone
  obtain ⟨start, found, _, _, swept, registered, hsublist⟩ :=
    claims_follow_registration startedWorker_reachable
      (show startedWorker.ledger = [first, second] ++ entry :: [] from hledger)
      hcaller hcall hwork
  exact ⟨[first, second], entry, hledger, hcaller, start, swept, registered,
    hsublist⟩

end WorkerSystem

end Fetcher

end ApalisPostgres
