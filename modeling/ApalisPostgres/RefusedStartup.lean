/-
A startup that is refused.  The stream yields the refusal once and then only
the end, or the retirement of the name once; its body is never polled.  A
configuration that cannot keep a worker alive is refused before any call.
-/
import ApalisPostgres.StartupOrder

namespace ApalisPostgres

open RowStore

namespace Fetcher

variable {rows : TaskConversion} {config : WorkerConfig}

section

variable {T : Type}

@[simp] def ItemPoll.item? : ItemPoll T → Option (Except Error T)
  | .item result => some result
  | .pending | .ended => none

@[simp] def LeaseEntry.yielded? : LeaseEntry T → Option (Except Error T)
  | .returned poll => poll.item?
  | _ => none

/-- The items a stream yielded. -/
def items (log : List (LeaseEntry T)) : List (Except Error T) :=
  log.filterMap LeaseEntry.yielded?

@[simp] theorem items_append (log entries : List (LeaseEntry T)) :
    items (log ++ entries) = items log ++ items entries := by
  simp [items]

/-- What a stream that has told of the retirement said last. -/
def farewell (workerId : String) (stream : LeaseStream T) :
    List (Except Error T) :=
  if stream.ended then [.error (.workerRetired workerId)] else []

variable {lease : Lease} {stream : LeaseStream T}

theorem farewell_of_open {workerId : String} (h : stream.ended = false) :
    farewell workerId stream = [] := by
  rw [farewell, h]
  rfl

/-- A poll that reaches the stream inside yields what that answers. -/
theorem LeaseStream.pollNext_items (inner : ItemPoll T) (meanwhile : Bool)
    (hended : stream.ended = false) (hactive : lease.retired = false) :
    items (stream.pollNext lease inner meanwhile).2.log =
      items stream.log ++ inner.item?.toList := by
  have hpolled : LeaseStream.Polled lease stream inner _ :=
    LeaseStream.pollNext_polled inner meanwhile
  generalize (stream.pollNext lease inner meanwhile).2 = after at hpolled ⊢
  have hlast : ∀ entries : List (LeaseEntry T), items entries = [] →
      items (stream.log ++ (entries ++ [.returned inner])) =
        items stream.log ++ inner.item?.toList := by
    intro entries hentries
    rw [items_append, items_append, hentries, List.nil_append]
    cases inner <;> rfl
  cases hpolled with
  | finished hover =>
      rw [hended] at hover
      cases hover
  | retired _ hretired =>
      rw [hactive] at hretired
      cases hretired
  | first _ _ _ _ _ => exact hlast [.called true, .begun, .polled] rfl
  | firstSettled succeeded _ _ _ _ _ =>
      exact hlast [.called true, .begun, .polled, .settled succeeded] rfl
  | settled succeeded _ _ _ _ =>
      exact hlast [.called true, .polled, .settled succeeded] rfl
  | plain _ _ _ _ => exact hlast [.called true, .polled] rfl

/-- A poll that does not reach the stream inside tells of the retirement, once. -/
theorem LeaseStream.pollNext_farewell {workerId : String} (inner : ItemPoll T)
    (meanwhile : Bool) (hname : lease.workerId = workerId)
    (hover : (stream.ended || lease.retired) = true)
    {before : List (Except Error T)}
    (hitems : items stream.log = before ++ farewell workerId stream) :
    items (stream.pollNext lease inner meanwhile).2.log =
      before ++ farewell workerId
        (stream.pollNext lease inner meanwhile).2 := by
  have hended := @LeaseStream.pollNext_ended _ lease stream inner meanwhile
  have hpolled : LeaseStream.Polled lease stream inner _ :=
    LeaseStream.pollNext_polled inner meanwhile
  rw [farewell, hended, hover, if_pos rfl]
  generalize (stream.pollNext lease inner meanwhile).2 = after at hpolled ⊢
  cases hpolled with
  | finished hdone =>
      rw [farewell, hdone, if_pos rfl] at hitems
      simp only [LeaseStream.record, items_append, hitems]
      simp [items]
  | retired hopen _ =>
      rw [farewell_of_open hopen, List.append_nil] at hitems
      simp only [LeaseStream.record, items_append, hitems, hname]
      rfl
  | first hopen hactive _ _ _ => simp [hopen, hactive] at hover
  | firstSettled _ hopen hactive _ _ _ => simp [hopen, hactive] at hover
  | settled _ hopen hactive _ _ => simp [hopen, hactive] at hover
  | plain hopen hactive _ _ => simp [hopen, hactive] at hover

theorem LeaseStream.pollNext_extends (stream : LeaseStream T) (lease : Lease)
    (inner : ItemPoll T) (meanwhile : Bool) :
    ∃ entries, (stream.pollNext lease inner meanwhile).2.log =
      stream.log ++ entries := by
  have hpolled : LeaseStream.Polled lease stream inner _ :=
    LeaseStream.pollNext_polled inner meanwhile
  generalize (stream.pollNext lease inner meanwhile).2 = after at hpolled ⊢
  cases hpolled <;> exact ⟨_, rfl⟩

theorem LeaseStream.drop_items :
    items (stream.drop lease).2.log = items stream.log ∧
      (stream.drop lease).2.ended = stream.ended := by
  by_cases hpending : stream.registration = .pending
  · simp only [LeaseStream.drop, if_pos hpending]
    exact ⟨by simp [LeaseStream.record, items], rfl⟩
  · simp only [LeaseStream.drop, if_neg hpending]
    exact ⟨by simp [LeaseStream.record, items], rfl⟩

end

/-- What a task stream yielded so far, by the state of its gate. -/
def TaskStream.Yielded (workerId : String) (stream : TaskStream) : Prop :=
  match stream.inner with
  | .unpolled | .registering _ =>
      items stream.outer.log = farewell workerId stream.outer
  | .opened => ∃ rest, items stream.outer.log = .ok none :: rest
  | .refused =>
      ∃ error, items stream.outer.log =
        .error error :: farewell workerId stream.outer
  | .ended =>
      (∃ error, items stream.outer.log =
        .error error :: farewell workerId stream.outer) ∨
      ∃ rest, items stream.outer.log = .ok none :: rest

/-- The stream yielded its registration. -/
def TaskStream.Admitted (stream : TaskStream) : Prop :=
  ∃ rest, items stream.outer.log = .ok none :: rest

theorem TaskStream.Admitted.append {stream changed : TaskStream}
    (h : stream.Admitted) {more : List (Except Error (Option Task))}
    (hitems : items changed.outer.log = items stream.outer.log ++ more) :
    changed.Admitted := by
  obtain ⟨rest, hrest⟩ := h
  exact ⟨rest ++ more, by rw [hitems, hrest, List.cons_append]⟩

/-- A poll of the stream inside keeps the account. -/
theorem TaskStream.Yielded.poll {workerId : String} {stream : TaskStream}
    {outer : LeaseStream (Option Task)} {calls : List Call} {n : Nat}
    {body : BodyPoll} (h : stream.Yielded workerId)
    (hopen : stream.outer.ended = false) (hended : outer.ended = false)
    (hitems : items outer.log = items stream.outer.log ++
      (stream.inner.poll config calls n body).answer.item?.toList) :
    TaskStream.Yielded workerId
      ⟨outer, (stream.inner.poll config calls n body).state⟩ := by
  obtain ⟨before, gate⟩ := stream
  change before.ended = false at hopen
  have hbefore : farewell workerId before = [] := farewell_of_open hopen
  have hafter : farewell workerId outer = [] := farewell_of_open hended
  cases gate with
  | unpolled =>
      change items before.log = farewell workerId before at h
      rw [h, hbefore] at hitems
      simp only [Gate.poll] at hitems ⊢
      revert hitems
      cases validateLiveness config with
      | error error =>
          intro hitems
          exact ⟨error, by rw [hafter]; exact hitems⟩
      | ok value =>
          intro hitems
          exact hitems.trans hafter.symm
  | registering m =>
      change items before.log = farewell workerId before at h
      rw [h, hbefore] at hitems
      simp only [Gate.poll] at hitems ⊢
      revert hitems
      cases resultOf calls m with
      | none =>
          intro hitems
          exact hitems.trans hafter.symm
      | some result =>
          cases result with
          | ok value =>
              intro hitems
              exact ⟨[], hitems⟩
          | error error =>
              intro hitems
              exact ⟨error, by rw [hafter]; exact hitems⟩
  | opened =>
      obtain ⟨rest, hrest⟩ := h
      rw [hrest] at hitems
      simp only [Gate.poll]
      cases body.answer.isEnded with
      | true => exact Or.inr ⟨_, hitems⟩
      | false => exact ⟨_, hitems⟩
  | refused =>
      obtain ⟨error, herror⟩ := h
      rw [herror, hbefore] at hitems
      exact Or.inl ⟨error, by rw [hafter]; exact hitems⟩
  | ended =>
      rcases h with ⟨error, herror⟩ | ⟨rest, hrest⟩
      · rw [herror, hbefore] at hitems
        exact Or.inl ⟨error, by rw [hafter]; exact hitems⟩
      · rw [hrest] at hitems
        exact Or.inr ⟨_, hitems⟩

/-- A poll that does not reach it keeps the account as well. -/
theorem TaskStream.Yielded.told {workerId : String} {stream : TaskStream}
    {outer : LeaseStream (Option Task)} (h : stream.Yielded workerId)
    (hfarewell : ∀ before, items stream.outer.log =
      before ++ farewell workerId stream.outer →
      items outer.log = before ++ farewell workerId outer)
    {more : List (Except Error (Option Task))}
    (hmore : items outer.log = items stream.outer.log ++ more) :
    TaskStream.Yielded workerId ⟨outer, stream.inner⟩ := by
  obtain ⟨before, gate⟩ := stream
  cases gate with
  | unpolled => exact hfarewell [] h
  | registering m => exact hfarewell [] h
  | opened => exact TaskStream.Admitted.append h hmore
  | refused =>
      obtain ⟨error, herror⟩ := h
      exact ⟨error, hfarewell [.error error] herror⟩
  | ended =>
      rcases h with ⟨error, herror⟩ | hadmitted
      · exact Or.inl ⟨error, hfarewell [.error error] herror⟩
      · exact Or.inr (TaskStream.Admitted.append hadmitted hmore)

namespace WorkerSystem

variable {system after : WorkerSystem}

/-- What the task streams yielded, and that claims come from admitted ones. -/
structure YieldOrder (config : WorkerConfig) (system : WorkerSystem) :
    Prop where
  name : system.lease.workerId = config.worker
  yielded : ∀ stream ∈ system.tasks, stream.Yielded config.worker
  claims : ∀ call ∈ system.calls, ∀ request, call.work = .claim request →
    ∃ (n : Nat) (stream : TaskStream), call.issuer = .task n ∧
      system.tasks[n]? = some stream ∧ stream.Admitted

/-- Replacing one stream by what its poll or its drop left of it. -/
theorem YieldOrder.set (h : system.YieldOrder config) {n : Nat}
    {stream changed : TaskStream} {lease : Lease} {issued : List Call}
    (hstream : system.tasks[n]? = some stream)
    (hname : lease.workerId = system.lease.workerId)
    (hyielded : changed.Yielded config.worker)
    {more : List (Except Error (Option Task))}
    (hitems : items changed.outer.log = items stream.outer.log ++ more)
    (hissued : ∀ call ∈ issued, ∀ request, call.work = .claim request →
      call.issuer = .task n ∧ stream.Admitted) :
    YieldOrder config { system with
      lease := lease
      tasks := system.tasks.set n changed
      calls := system.calls ++ issued } where
  name := hname.trans h.name
  yielded := by
    intro other hother
    rcases List.mem_or_eq_of_mem_set hother with hold | rfl
    · exact h.yielded other hold
    · exact hyielded
  claims := by
    have hset : (system.tasks.set n changed)[n]? = some changed :=
      List.getElem?_set_self (List.getElem?_eq_some_iff.mp hstream).1
    intro call hcall request hclaim
    rcases List.mem_append.mp hcall with hold | hnew
    · obtain ⟨m, found, hissuer, hfound, hadmitted⟩ :=
        h.claims call hold request hclaim
      by_cases hsame : n = m
      · subst hsame
        rw [hstream] at hfound
        obtain rfl := Option.some.inj hfound
        exact ⟨n, changed, hissuer, hset, hadmitted.append hitems⟩
      · exact ⟨m, found, hissuer,
          (List.getElem?_set_ne hsame).trans hfound, hadmitted⟩
    · obtain ⟨hissuer, hadmitted⟩ := hissued call hnew request hclaim
      exact ⟨n, changed, hissuer, hset, hadmitted.append hitems⟩

theorem YieldOrder.pollTask (h : system.YieldOrder config) {n : Nat}
    {stream : TaskStream} (body : BodyPoll) (meanwhile : Bool)
    (hstream : system.tasks[n]? = some stream) :
    (system.pollTask config n stream body meanwhile).YieldOrder config := by
  have hyielded := h.yielded stream (List.mem_of_getElem? hstream)
  have hname : ∀ inner, (stream.outer.pollNext system.lease inner
      meanwhile).1.workerId = system.lease.workerId := by
    intro inner
    obtain ⟨retires, hmoves, _⟩ :=
      @LeaseStream.pollNext_lease _ system.lease stream.outer inner meanwhile
    exact hmoves.workerId
  unfold WorkerSystem.pollTask
  split
  · rename_i hover
    obtain ⟨entries, hentries⟩ := LeaseStream.pollNext_extends stream.outer
      system.lease .pending meanwhile
    have hmore : items (stream.outer.pollNext system.lease .pending
        meanwhile).2.log = items stream.outer.log ++ items entries := by
      rw [hentries, items_append]
    have htold := hyielded.told (fun before hitems =>
      LeaseStream.pollNext_farewell .pending meanwhile h.name hover hitems)
      hmore
    have hset := @YieldOrder.set config system h n stream _ _ [] hstream
      (hname .pending) htold _ hmore (by simp)
    simpa using hset
  · rename_i hactive
    simp only [Bool.or_eq_true, not_or, Bool.not_eq_true] at hactive
    have hitems := LeaseStream.pollNext_items
      (stream.inner.poll config system.calls n body).answer meanwhile
      hactive.1 hactive.2
    have hended : (stream.outer.pollNext system.lease
        (stream.inner.poll config system.calls n body).answer
          meanwhile).2.ended = false := by
      rw [LeaseStream.pollNext_ended, hactive.1, hactive.2]
      rfl
    refine h.set hstream (hname _)
      (hyielded.poll hactive.1 hended hitems) hitems ?_
    intro call hcall request hclaim
    rcases (Gate.poll_polls system.calls n body stream.inner).issued call
      hcall with rfl | ⟨⟨other, rfl⟩, hopened⟩
    · cases hclaim
    · refine ⟨rfl, ?_⟩
      rw [TaskStream.Yielded, hopened] at hyielded
      exact hyielded

theorem YieldOrder.step (h : system.YieldOrder config) {event : WorkerEvent}
    (hstep : system.step rows config event = some after) :
    after.YieldOrder config := by
  have hcalls : ∀ {m : Nat} {call next : Call},
      system.calls[m]? = some call → call.Grows next →
      ∀ found ∈ system.calls.set m next, ∀ request,
        found.work = .claim request →
        ∃ (n : Nat) (stream : TaskStream), found.issuer = .task n ∧
          system.tasks[n]? = some stream ∧ stream.Admitted := by
    intro m call next hcall hgrows found hfound request hclaim
    rcases List.mem_or_eq_of_mem_set hfound with hold | rfl
    · exact h.claims found hold request hclaim
    · obtain ⟨n, stream, hissuer, hstream, hadmitted⟩ := h.claims call
        (List.mem_of_getElem? hcall) request (hgrows.claim hclaim)
      exact ⟨n, stream, hgrows.issuer.trans hissuer, hstream, hadmitted⟩
  have hissued : ∀ issued : List Call,
      (∀ call ∈ issued, ∀ request, call.work ≠ .claim request) →
      ∀ call ∈ system.calls ++ issued, ∀ request, call.work = .claim request →
        ∃ (n : Nat) (stream : TaskStream), call.issuer = .task n ∧
          system.tasks[n]? = some stream ∧ stream.Admitted := by
    intro issued hnone call hcall request hclaim
    rcases List.mem_append.mp hcall with hold | hnew
    · exact h.claims call hold request hclaim
    · exact absurd hclaim (hnone call hnew request)
  cases step_stepped hstep with
  | openTask =>
      refine ⟨h.name, ?_, ?_⟩
      · intro stream hstream
        rcases List.mem_append.mp hstream with hold | hnew
        · exact h.yielded stream hold
        · obtain rfl := List.mem_singleton.mp hnew
          rfl
      · intro call hcall request hclaim
        obtain ⟨n, stream, hissuer, hstream, hadmitted⟩ :=
          h.claims call hcall request hclaim
        refine ⟨n, stream, hissuer, ?_, hadmitted⟩
        rw [List.getElem?_append_left (List.getElem?_eq_some_iff.mp hstream).1,
          hstream]
  | openBeat => exact ⟨h.name, h.yielded, h.claims⟩
  | pollTask body meanwhile hstream _ => exact h.pollTask body meanwhile hstream
  | pollBeat poll meanwhile hstream hdropped =>
      rename_i n stream
      cases stream with
      | refused error answers dropped => exact ⟨h.name, h.yielded, h.claims⟩
      | leased outer inner =>
          have hname : ∀ answer, (outer.pollNext system.lease answer
              meanwhile).1.workerId = config.worker := by
            intro answer
            obtain ⟨retires, hmoves, _⟩ := @LeaseStream.pollNext_lease _
              system.lease outer answer meanwhile
            exact hmoves.workerId.trans h.name
          simp only [WorkerSystem.pollBeat]
          split
          · exact ⟨hname _, h.yielded, h.claims⟩
          · refine ⟨hname _, h.yielded, hissued _ ?_⟩
            intro call hcall request
            rcases (Beats.poll_issued.1 call hcall).1 with rfl | rfl <;>
              exact fun hclaim => by cases hclaim
  | dropTask hstream hdropped =>
      rename_i n stream
      obtain ⟨hitems, hended⟩ :=
        @LeaseStream.drop_items _ system.lease stream.outer
      have hmore : items (stream.outer.drop system.lease).2.log =
          items stream.outer.log ++ [] := by rw [hitems, List.append_nil]
      have htold : TaskStream.Yielded config.worker
          ⟨(stream.outer.drop system.lease).2, stream.inner⟩ := by
        apply (h.yielded stream (List.mem_of_getElem? hstream)).told _ hmore
        intro before hbefore
        rw [hitems, hbefore, farewell, farewell, hended]
      have hset := @YieldOrder.set config system h n stream _
        (stream.outer.drop system.lease).1 [] hstream
        LeaseStream.drop_lease.workerId htold _ hmore (by simp)
      simpa [WorkerSystem.dropTask] using hset
  | dropBeat hstream hdropped =>
      rename_i n stream
      cases stream with
      | refused error answers dropped => exact ⟨h.name, h.yielded, h.claims⟩
      | leased outer inner =>
          exact ⟨LeaseStream.drop_lease.workerId.trans h.name, h.yielded,
            h.claims⟩
  | retire => exact ⟨h.name, h.yielded, h.claims⟩
  | release =>
      refine ⟨h.name, h.yielded, hissued _ ?_⟩
      intro call hcall request
      rw [List.mem_singleton.mp hcall]
      exact fun hclaim => by cases hclaim
  | transact env hcall hopen =>
      exact ⟨h.name, h.yielded, hcalls hcall (Call.grows_advance hopen _)⟩
  | disrupt disruption hcall hopen =>
      exact ⟨h.name, h.yielded, hcalls hcall (Call.grows_fail hopen disruption)⟩
  | lose env disruption hcall hopen =>
      exact ⟨h.name, h.yielded, hcalls hcall (Call.grows_fail hopen disruption)⟩
  | other invocation _ => exact ⟨h.name, h.yielded, h.claims⟩

/-- Nothing of a worker starts under a configuration that is refused. -/
structure Unstarted (config : WorkerConfig) (system : WorkerSystem) :
    Prop where
  calls : ∀ call ∈ system.calls, call.work = .release
  gates : ∀ stream ∈ system.tasks, stream.inner = .unpolled ∨
    stream.inner = .refused ∨ stream.inner = .ended
  beats : ∀ outer inner, BeatStream.leased outer inner ∉ system.beats

theorem Unstarted.step (h : system.Unstarted config) {error : Error}
    (hinvalid : validateLiveness config = .error error) {event : WorkerEvent}
    (hstep : system.step rows config event = some after) :
    after.Unstarted config := by
  have hcalls : ∀ {m : Nat} {call next : Call},
      system.calls[m]? = some call → call.Grows next →
      ∀ found ∈ system.calls.set m next, found.work = .release := by
    intro m call next hcall hgrows found hfound
    rcases List.mem_or_eq_of_mem_set hfound with hold | rfl
    · exact h.calls found hold
    · have hrelease := h.calls call (List.mem_of_getElem? hcall)
      rw [hgrows.work (by rw [hrelease]; rfl), hrelease]
  cases step_stepped hstep with
  | openTask =>
      refine ⟨h.calls, ?_, h.beats⟩
      intro stream hstream
      rcases List.mem_append.mp hstream with hold | hnew
      · exact h.gates stream hold
      · obtain rfl := List.mem_singleton.mp hnew
        exact Or.inl rfl
  | openBeat =>
      refine ⟨h.calls, h.gates, ?_⟩
      intro outer inner hmem
      rcases List.mem_append.mp hmem with hold | hnew
      · exact h.beats outer inner hold
      · have heq := List.mem_singleton.mp hnew
        rw [BeatStream.new, hinvalid] at heq
        cases heq
  | pollTask body meanwhile hstream hdropped =>
      rename_i n stream
      have hgate := h.gates stream (List.mem_of_getElem? hstream)
      unfold WorkerSystem.pollTask
      split
      · refine ⟨h.calls, ?_, h.beats⟩
        intro other hother
        rcases List.mem_or_eq_of_mem_set hother with hold | rfl
        · exact h.gates other hold
        · exact hgate
      · have hpolled : (stream.inner.poll config system.calls n body).issued =
            [] ∧ ((stream.inner.poll config system.calls n body).state =
              .refused ∨ (stream.inner.poll config system.calls n body).state =
              .ended) := by
          rcases hgate with hfresh | hrefused | hended
          · rw [hfresh, Gate.poll, hinvalid]
            exact ⟨rfl, Or.inl rfl⟩
          · rw [hrefused]
            exact ⟨rfl, Or.inr rfl⟩
          · rw [hended]
            exact ⟨rfl, Or.inr rfl⟩
        refine ⟨?_, ?_, h.beats⟩
        · intro call hcall
          rcases List.mem_append.mp hcall with hold | hnew
          · exact h.calls call hold
          · rw [hpolled.1] at hnew
            cases hnew
        · intro other hother
          rcases List.mem_or_eq_of_mem_set hother with hold | rfl
          · exact h.gates other hold
          · exact Or.inr hpolled.2
  | pollBeat poll meanwhile hstream hdropped =>
      rename_i n stream
      cases stream with
      | refused other answers dropped =>
          refine ⟨h.calls, h.gates, ?_⟩
          intro outer inner hmem
          rcases List.mem_or_eq_of_mem_set hmem with hold | heq
          · exact h.beats outer inner hold
          · cases heq
      | leased outer inner =>
          exact absurd (List.mem_of_getElem? hstream) (h.beats outer inner)
  | dropTask hstream hdropped =>
      rename_i n stream
      refine ⟨h.calls, ?_, h.beats⟩
      intro other hother
      rcases List.mem_or_eq_of_mem_set hother with hold | rfl
      · exact h.gates other hold
      · exact h.gates stream (List.mem_of_getElem? hstream)
  | dropBeat hstream hdropped =>
      rename_i n stream
      cases stream with
      | refused other answers dropped =>
          refine ⟨h.calls, h.gates, ?_⟩
          intro outer inner hmem
          rcases List.mem_or_eq_of_mem_set hmem with hold | heq
          · exact h.beats outer inner hold
          · cases heq
      | leased outer inner =>
          exact absurd (List.mem_of_getElem? hstream) (h.beats outer inner)
  | retire => exact ⟨h.calls, h.gates, h.beats⟩
  | release =>
      refine ⟨?_, h.gates, h.beats⟩
      intro call hcall
      rcases List.mem_append.mp hcall with hold | hnew
      · exact h.calls call hold
      · rw [List.mem_singleton.mp hnew]
        rfl
  | transact env hcall hopen =>
      exact ⟨hcalls hcall (Call.grows_advance hopen _), h.gates, h.beats⟩
  | disrupt disruption hcall hopen =>
      exact ⟨hcalls hcall (Call.grows_fail hopen disruption), h.gates, h.beats⟩
  | lose env disruption hcall hopen =>
      exact ⟨hcalls hcall (Call.grows_fail hopen disruption), h.gates, h.beats⟩
  | other invocation _ => exact ⟨h.calls, h.gates, h.beats⟩

end WorkerSystem

end Fetcher

end ApalisPostgres
