/-
Refusals that reach an acknowledger.  An acknowledger outside the middleware
is handed the refusal of a dispatch like a result; it tells the two apart by
the markers of the claim record, which belong to the claim and not to the
dispatch.
-/
import ApalisPostgres.MiddlewareSteps
import ApalisPostgres.DispatchAdmission

namespace ApalisPostgres

open RowStore

namespace ServiceCall

/-- The claim was tried: a start of it was attempted, or its acknowledgement
is recorded; a request without a task id cannot be tried. -/
def Tried (memory : Memory) (request : Request) : Prop :=
  request.parts.taskId = none ∨
    memory.startAttempted request.record = true ∨
    memory.isAcknowledged request.record = true

/-- What the record of a preclaimed dispatch says in each of its stages. -/
def StageMarked (memory : Memory) (call : ServiceCall) : Prop :=
  match call.stage with
  | .activating _ | .starting _ _ =>
      memory.startAttempted call.request.record = true
  | .locking _ _ _ => False
  | .refusing _ | .settling (.refused _) | .retiring (.refused _)
  | .finished (.refused _) => Tried memory call.request
  | _ => True

/-- A request with a record carries the snapshot of that record. -/
def Carries (memory : Memory) (request : Request) : Prop :=
  ∀ id, request.record = some id → ∃ record,
    memory.records id = some record ∧
      request.parts.claim = some record.claim

structure Marked (memory : Memory) (call : ServiceCall) : Prop where
  carries : Carries memory call.request
  stage : call.kind = .dispatch → call.request.preclaimed = true →
    call.request.record.isSome = true → StageMarked memory call

section

variable {memory after : Memory} {call next : ServiceCall}

theorem Tried.grows {request : Request} (h : Tried memory request)
    (hgrows : memory.Grows after) : Tried after request := by
  rcases h with h | h | h
  · exact Or.inl h
  · exact Or.inr (Or.inl (hgrows.startAttempted h))
  · exact Or.inr (Or.inr (hgrows.isAcknowledged h))

theorem Carries.grows {request : Request} (h : Carries memory request)
    (hgrows : memory.Grows after) : Carries after request := by
  intro id hid
  obtain ⟨record, hrecord, hclaim⟩ := h id hid
  obtain ⟨later, hlater, hgrown⟩ := hgrows.records id record hrecord
  exact ⟨later, hlater, hclaim.trans (congrArg some hgrown.claim.symm)⟩

theorem StageMarked.grows (h : StageMarked memory call)
    (hgrows : memory.Grows after) : StageMarked after call := by
  unfold StageMarked at h ⊢
  split at h
  · exact hgrows.startAttempted h
  · exact hgrows.startAttempted h
  · exact h
  · exact h.grows hgrows
  · exact h.grows hgrows
  · exact h.grows hgrows
  · exact h.grows hgrows
  · trivial

theorem Marked.grows (h : Marked memory call) (hgrows : memory.Grows after) :
    Marked after call where
  carries := h.carries.grows hgrows
  stage hkind hpreclaimed hrecord :=
    (h.stage hkind hpreclaimed hrecord).grows hgrows

/-- A preclaimed request names its worker. -/
theorem preclaimed_worker {request : Request}
    (h : request.preclaimed = true) : ∃ worker,
    request.worker = some worker ∧
      request.parts.ctx.lockBy = some worker := by
  unfold Request.preclaimed isPreclaimed at h
  cases hlockBy : request.parts.ctx.lockBy with
  | none => simp [hlockBy] at h
  | some stored =>
      cases hworker : request.worker with
      | none => simp [hlockBy, hworker] at h
      | some current =>
          simp only [hlockBy, hworker, Bool.and_eq_true,
            decide_eq_true_eq] at h
          exact ⟨current, rfl, congrArg some h.1⟩

/-- The refusal of a preclaimed dispatch tried its claim. -/
theorem Refuses.tried {error : Error} (h : Refuses memory call error)
    (hpreclaimed : call.request.preclaimed = true)
    (hmarked : StageMarked memory call) : Tried memory call.request := by
  cases h with
  | noWorker _ hworker =>
      obtain ⟨worker, hsome, _⟩ := preclaimed_worker hpreclaimed
      rw [hworker] at hsome
      cases hsome
  | noTask _ _ htask => exact Or.inl htask
  | acknowledged _ hdone => exact Or.inr (Or.inr hdone)
  | unlocked _ hfree =>
      rw [hpreclaimed] at hfree
      cases hfree
  | retired hstage | incomplete hstage | notStarted hstage _ =>
      simp only [StageMarked, hstage] at hmarked
      exact Or.inr (Or.inl hmarked)
  | notLocked hstage => simp only [StageMarked, hstage] at hmarked

theorem refuse_stageMarked (error : Error) (guard : LeaseObligation)
    (h : Tried memory call.request) :
    StageMarked memory ({ call with guard := guard }.refuse error) := by
  cases hkind : call.kind with
  | dispatch =>
      simp only [StageMarked, refuse]
      exact h
  | start =>
      simp only [StageMarked, refuse]
      exact h

theorem markStartAttempted_startAttempted {id : Nat} {record : ClaimRecord}
    (h : memory.records id = some record) :
    (memory.markStartAttempted (some id)).startAttempted (some id) = true := by
  simp [Memory.startAttempted, Memory.markStartAttempted, Memory.mark, h]

/-- The step lemma of a preclaimed dispatch. -/
theorem Advances.stageMarked {n fresh : Nat}
    (h : Advances n fresh memory call after next)
    (hcarries : Carries memory call.request)
    (hpreclaimed : call.request.preclaimed = true)
    (hrecord : call.request.record.isSome = true)
    (hmarked : StageMarked memory call) : StageMarked after next := by
  cases h with
  | refuses hrefuses _ =>
      exact refuse_stageMarked _ _ (hrefuses.tried hpreclaimed hmarked)
  | locks _ _ _ hfree =>
      rw [hpreclaimed] at hfree
      cases hfree
  | attempts _ =>
      obtain ⟨id, hid⟩ := Option.isSome_iff_exists.mp hrecord
      obtain ⟨record, hfound, _⟩ := hcarries id hid
      simp only [StageMarked, hid]
      exact markStartAttempted_startAttempted hfound
  | issues hstage _ =>
      simp only [StageMarked, hstage] at hmarked
      exact hmarked
  | relocks hstage _ => simp only [StageMarked, hstage] at hmarked
  | counts hstage =>
      simp only [StageMarked, hstage] at hmarked
      exact hmarked.grows (.of_records rfl rfl)
  | @settles result hstage =>
      simp only [StageMarked, hstage] at hmarked ⊢
      cases hguard : (call.guard.settle memory).armed.isSome <;>
        cases result <;> simp_all
  | @retires result hstage =>
      have hsame := Memory.grows_elim_retire memory call.guard.armed
      simp only [StageMarked, hstage] at hmarked ⊢
      cases result with
      | refused error => exact Tried.grows hmarked hsame
      | _ => trivial
  | _ => trivial

theorem Advances.marked {n fresh : Nat} (h : Marked memory call)
    (hadvances : Advances n fresh memory call after next) :
    Marked after next := by
  have hsame := hadvances.same
  constructor
  · rw [hsame.request]
    exact h.carries.grows hadvances.grows
  · intro hkind hpreclaimed hrecord
    rw [hsame.kind] at hkind
    rw [hsame.request] at hpreclaimed hrecord
    exact hadvances.stageMarked h.carries hpreclaimed hrecord
      (h.stage hkind hpreclaimed hrecord)

theorem Marked.moved (h : Marked memory call) (hsame : call.SameCall next)
    (hstage : StageMarked memory call → StageMarked memory next) :
    Marked memory next := by
  constructor
  · rw [hsame.request]
    exact h.carries
  · intro hkind hpreclaimed hrecord
    rw [hsame.kind] at hkind
    rw [hsame.request] at hpreclaimed hrecord
    exact hstage (h.stage hkind hpreclaimed hrecord)

theorem replied_stageMarked {db : Db} {outcome : Except Error Outcome}
    (hreplied : call.replied db outcome = some next)
    (hmarked : StageMarked memory call) : StageMarked memory next := by
  unfold replied at hreplied
  dsimp only at hreplied
  split at hreplied
  · rename_i claim hstage
    simp only [StageMarked, hstage] at hmarked
    split at hreplied
    · cases hreplied
      exact hmarked
    · cases hreplied
      exact hmarked
    · cases hreplied
  · rename_i taskId worker hstage
    simp only [StageMarked, hstage] at hmarked
  · cases hreplied
    exact hmarked

theorem cancel_stageMarked (hcancel : call.cancel = some next) :
    StageMarked memory next := by
  unfold cancel at hcancel
  split at hcancel
  · cases hcancel
    trivial
  · cases hcancel
    trivial
  · split at hcancel <;> cases hcancel
    trivial
  · cases hcancel
    trivial
  · cases hcancel
    trivial
  · cases hcancel

theorem carries_of_memory {request : Request}
    (h : memory.carries request.parts request.record = true) :
    Carries memory request := by
  intro id hid
  rw [hid] at h
  simp only [Memory.carries, Option.any_eq_true, decide_eq_true_eq] at h
  exact h

end

end ServiceCall

namespace Process

/-- The outcome an acknowledgement was given is the refusal of a dispatch of
a recorded claim. -/
def Refusal (process : Process) (ack : AckCall) : Prop :=
  ∃ n call error, ack.outcomeOf = some n ∧ process.calls n = some call ∧
    call.stage = .finished (.refused error) ∧ ack.record.isSome = true

/-- Where an acknowledgement of a refusal may stand. -/
def Harmless (memory : Memory) (ack : AckCall) : Prop :=
  ack.detached = false ∧
  match ack.stage with
  | .waiting | .locked => ack.parts.taskId = none ∨
      memory.isAcknowledged ack.record = true
  | .issuing _ => False
  | _ => True

/-- The acknowledgement was given the outcome of the dispatch. -/
structure Given (call : ServiceCall) (ack : AckCall) : Prop where
  kind : call.kind = .dispatch
  finished : ∃ result, call.stage = .finished result
  record : ack.record = call.request.record
  taskId : ack.parts.taskId = call.request.parts.taskId

/-- The record may be looked at for the outcome of the call: it is no
refusal of a recorded claim, or its flags say that the claim was tried and is
not started, or that it is acknowledged, or the dispatch had come to the
claim's own worker and no start of the claim is marked as started. -/
def unstarted (memory : Memory) (record : Option Nat) (call : ServiceCall) :
    Bool :=
  match call.stage with
  | .finished (.refused _) => record.isNone || memory.startRefused record ||
      memory.isAcknowledged record ||
      (call.request.preclaimed && !memory.hasStarted record)
  | _ => true

/-- The condition on a run: an acknowledgement of a dispatch's outcome looks
at the record only where it may. -/
def refusalsUnstarted (process : Process) : ProcessEvent → Bool
  | .advanceAck k => (process.acks k).all fun ack =>
      match ack.stage, ack.outcomeOf with
      | .created, some n =>
          (process.calls n).all (unstarted process.memory ack.record)
      | _, _ => true
  | _ => true

/-- The invariant of the acknowledgements outside the middleware. -/
structure Refusals (process : Process) : Prop where
  marked : ∀ n call, process.calls n = some call →
    call.Marked process.memory
  given : ∀ k ack n, process.acks k = some ack → ack.outcomeOf = some n →
    ∃ call, process.calls n = some call ∧ Given call ack
  harmless : ∀ k ack, process.acks k = some ack → process.Refusal ack →
    Harmless process.memory ack
  known : ∀ write ∈ process.writes, (process.acks write.call).isSome = true
  silent : ∀ write ∈ process.writes, ∀ ack,
    process.acks write.call = some ack → ¬ process.Refusal ack

section

variable {rows : TaskConversion} {process after : Process}
  {event : ProcessEvent}

theorem refusals_initial : Refusals .initial where
  marked _ _ hcall := by cases hcall
  given _ _ _ hack := by cases hack
  harmless _ _ hack := by cases hack
  known _ hwrite := by cases hwrite
  silent _ hwrite := by cases hwrite

theorem Refusals.marked_step (h : Refusals process)
    (hmoves : process.Moves rows event after) :
    ∀ n call, after.calls n = some call → call.Marked after.memory := by
  refine hmoves.forall_calls (P := fun _ memory call => call.Marked memory)
    (fun hgrows hmarked => hmarked.grows hgrows)
    ?_ ?_ (fun hmarked hadvances => hadvances.marked hmarked) ?_ ?_ ?_ h.marked
  · intro n binding request _ hcarries _
    exact ⟨ServiceCall.carries_of_memory hcarries, fun _ _ _ => trivial⟩
  · intro n binding parts record counter _ hcarries _
    unfold ServiceCall.start
    cases hworker : parts.ctx.lockBy with
    | none => exact ⟨ServiceCall.carries_of_memory hcarries, nofun⟩
    | some worker => exact ⟨ServiceCall.carries_of_memory hcarries, nofun⟩
  · intro n db outcome call next hmarked hreplied
    exact hmarked.moved (ServiceCall.replied_same hreplied)
      (ServiceCall.replied_stageMarked hreplied)
  · intro n res call hmarked _
    exact hmarked.moved ⟨rfl, rfl, rfl⟩ fun _ => trivial
  · intro n call next hmarked hcancel
    exact hmarked.moved (ServiceCall.cancel_same hcancel)
      fun _ => ServiceCall.cancel_stageMarked hcancel

/-- Every acknowledgement of an outcome was given it by a dispatch that had
finished before the step. -/
theorem Refusals.given_before (h : Refusals process)
    (hmoves : process.Moves rows event after) :
    ∀ k ack, after.acks k = some ack → ∀ n, ack.outcomeOf = some n →
      ∃ call, process.calls n = some call ∧ Given call ack := by
  have hsame : ∀ {ack next : AckCall}, ack.SameAck next →
      (∀ n, ack.outcomeOf = some n →
        ∃ call, process.calls n = some call ∧ Given call ack) →
      ∀ n, next.outcomeOf = some n →
        ∃ call, process.calls n = some call ∧ Given call next := by
    intro ack next hnext hgiven n hn
    rw [hnext.outcomeOf] at hn
    obtain ⟨call, hcall, hkind, hfinished, hrecord, htask⟩ := hgiven n hn
    exact ⟨call, hcall, hkind, hfinished, hnext.record.trans hrecord,
      by rw [hnext.parts, htask]⟩
  refine hmoves.forall_acks (P := fun _ _ ack => ∀ n, ack.outcomeOf = some n →
      ∃ call, process.calls n = some call ∧ Given call ack)
    (fun _ hgiven => hgiven) (fun _ _ _ _ _ _ => nofun) ?_
    (fun _ _ hgiven hadvances => hsame hadvances.same hgiven)
    (fun hgiven _ => hsame AckCall.replied_same hgiven)
    (fun hgiven hcancel => hsame (AckCall.cancel_same hcancel) hgiven)
    (fun k ack hack n hn => h.given k ack n hack hn)
  intro n call message res k binding attempt hcall houtcome m hm
  cases hm
  obtain ⟨hkind, hfinished⟩ := outcomeOf_finished houtcome
  exact ⟨call, hcall, hkind, hfinished, rfl, rfl⟩

/-- A refusal after the step was one before it. -/
theorem Refusals.refusal_before (h : Refusals process)
    (hmoves : process.Moves rows event after) {k : Nat} {ack : AckCall}
    (hack : after.acks k = some ack) (hrefusal : after.Refusal ack) :
    process.Refusal ack := by
  obtain ⟨n, later, error, hn, hlater, hstage, hrecord⟩ := hrefusal
  obtain ⟨call, hcall, hgiven⟩ := h.given_before hmoves k ack hack n hn
  obtain ⟨result, hfinished⟩ := hgiven.finished
  obtain ⟨found, hfound, _, hkept⟩ := hmoves.finished hcall hfinished
  cases hlater.symm.trans hfound
  cases hstage.symm.trans hkept
  exact ⟨n, call, error, hn, hcall, hfinished, hrecord⟩

/-- An acknowledgement of a refusal that looks at the record under the
condition is turned away there, or will find its marker. -/
theorem Refusals.turned_away (h : Refusals process) {k : Nat} {ack : AckCall}
    (hack : process.acks k = some ack) (hstage : ack.stage = .created)
    (hcondition : process.refusalsUnstarted (.advanceAck k) = true)
    (hrefusal : process.Refusal ack)
    (hopen : process.memory.startRefused ack.record = false) :
    ack.parts.taskId = none ∨
      process.memory.isAcknowledged ack.record = true := by
  obtain ⟨n, call, error, hn, hcall, hfinished, hrecord⟩ := hrefusal
  have hlook : unstarted process.memory ack.record call = true := by
    simpa [refusalsUnstarted, hack, hstage, hn, hcall] using hcondition
  have hcases : process.memory.isAcknowledged ack.record = true ∨
      (call.request.preclaimed = true ∧
        process.memory.hasStarted ack.record = false) := by
    obtain ⟨id, hid⟩ := Option.isSome_iff_exists.mp hrecord
    rw [hid] at hopen hlook ⊢
    simpa [unstarted, hfinished, hopen] using hlook
  rcases hcases with hdone | ⟨hpreclaimed, hunstarted⟩
  · exact Or.inr hdone
  obtain ⟨found, hfound, hgiven⟩ := h.given k ack n hack hn
  cases hcall.symm.trans hfound
  have hmarked := (h.marked n call hcall).stage hgiven.kind hpreclaimed
    (hgiven.record ▸ hrecord)
  simp only [ServiceCall.StageMarked, hfinished] at hmarked
  rcases hmarked with htask | hattempted | hdone
  · exact Or.inl (hgiven.taskId.trans htask)
  · -- attempted and not started is refused, which the look denied
    rw [← hgiven.record] at hattempted
    obtain ⟨id, record, hid, hget, hset⟩ :=
      Memory.any_records_iff.mp hattempted
    simp only [Memory.startRefused, Memory.hasStarted, hid,
      Option.bind_some, hget, Option.any_some, ClaimRecord.startRefused,
      hset] at hopen hunstarted
    rw [hunstarted] at hopen
    cases hopen
  · exact Or.inr (hgiven.record ▸ hdone)

theorem Harmless.grows {memory later : Memory} {ack : AckCall}
    (h : Harmless memory ack) (hgrows : memory.Grows later) :
    Harmless later ack := by
  refine ⟨h.1, ?_⟩
  have hstage := h.2
  split at hstage
  · exact hstage.imp_right hgrows.isAcknowledged
  · exact hstage.imp_right hgrows.isAcknowledged
  · exact hstage
  · trivial

theorem Harmless.not_pending {memory : Memory} {ack : AckCall}
    (h : Harmless memory ack) : ack.pending = false := by
  obtain ⟨hdetached, hstage⟩ := h
  unfold AckCall.pending
  split
  · rename_i hissuing
    rw [hissuing] at hstage
    exact hstage.elim
  · exact hdetached

/-- The step lemma of an acknowledgement of a refusal. -/
theorem Harmless.advances {k : Nat} {memory later : Memory}
    {ack next : AckCall} (h : Harmless memory ack)
    (hadvances : ack.Advances k memory later next)
    (hturned : ack.stage = .created →
      memory.startRefused ack.record = false → ack.parts.taskId = none ∨
        memory.isAcknowledged ack.record = true) :
    Harmless later next := by
  obtain ⟨hdetached, hstage⟩ := h
  cases hadvances with
  | waits hcreated hopen => exact ⟨hdetached, hturned hcreated hopen⟩
  | bare hwaiting _ =>
      rw [hwaiting] at hstage
      exact ⟨hdetached, hstage⟩
  | locks hwaiting _ _ =>
      rw [hwaiting] at hstage
      exact ⟨hdetached, hstage⟩
  | issues hlocked hopen hupdate =>
      -- the marker is not set, so the task has no id and no update is issued
      rw [hlocked] at hstage
      rcases hstage with htask | hdone
      · have hid := (ackUpdate_ok hupdate).taskId
        rw [htask] at hid
        cases hid
      · rw [hopen] at hdone
        cases hdone
  | settles _ =>
      refine ⟨hdetached, ?_⟩
      dsimp only
      cases (ack.guard.settle memory).armed.isSome with
      | true => trivial
      | false => trivial
  | _ => exact ⟨hdetached, trivial⟩

theorem Harmless.cancel {memory : Memory} {ack next : AckCall}
    (h : Harmless memory ack) (hcancel : ack.cancel = some next) :
    Harmless memory next := by
  have hpending := h.not_pending
  unfold AckCall.cancel at hcancel
  split at hcancel <;> cases hcancel <;> exact ⟨hpending, trivial⟩

/-- The step lemma. -/
theorem Refusals.step (h : Refusals process)
    (hcondition : process.refusalsUnstarted event = true)
    (hstep : process.step rows event = some after) : Refusals after := by
  have hmoves := step_cases hstep
  have hharmless : ∀ k ack, after.acks k = some ack →
      process.Refusal ack → Harmless after.memory ack := by
    refine hmoves.forall_acks
      (P := fun _ memory ack => process.Refusal ack → Harmless memory ack)
      (fun hgrows hold hrefusal => (hold hrefusal).grows hgrows)
      (fun _ _ _ _ _ _ _ => ⟨rfl, trivial⟩)
      (fun _ _ _ _ _ _ => ⟨rfl, trivial⟩) ?_ ?_ ?_ h.harmless
    · intro k memory ack next hevent hack hold hadvances hrefusal
      have hsame := hadvances.same
      have hrefused : process.Refusal ack := by
        rw [Refusal, ← hsame.outcomeOf, ← hsame.record]
        exact hrefusal
      subst hevent
      exact (hold hrefused).advances hadvances fun hcreated hopen =>
        h.turned_away hack hcreated hcondition hrefused hopen
    · intro k ack outcome hold hpending hrefusal
      have hsame : ack.SameAck (ack.replied outcome) := AckCall.replied_same
      have hrefused : process.Refusal ack := by
        rw [Refusal, ← hsame.outcomeOf, ← hsame.record]
        exact hrefusal
      rw [(hold hrefused).not_pending] at hpending
      cases hpending
    · intro k ack next hold hcancel hrefusal
      have hsame := AckCall.cancel_same hcancel
      refine (hold ?_).cancel hcancel
      rw [Refusal, ← hsame.outcomeOf, ← hsame.record]
      exact hrefusal
  exact {
    marked := h.marked_step hmoves
    given := by
      intro k ack n hack hn
      obtain ⟨call, hcall, hgiven⟩ := h.given_before hmoves k ack hack n hn
      obtain ⟨result, hfinished⟩ := hgiven.finished
      obtain ⟨later, hlater, hsame, hkept⟩ := hmoves.finished hcall hfinished
      exact ⟨later, hlater, hsame.kind.trans hgiven.kind, ⟨result, hkept⟩,
        by rw [hsame.request, hgiven.record],
        by rw [hsame.request, hgiven.taskId]⟩
    harmless := fun k ack hack hrefusal =>
      hharmless k ack hack (h.refusal_before hmoves hack hrefusal)
    known := by
      have hkept : ∀ {k}, (process.acks k).isSome = true →
          (after.acks k).isSome = true := by
        intro k hsome
        obtain ⟨ack, hack⟩ := Option.isSome_iff_exists.mp hsome
        obtain ⟨later, hlater, _⟩ := hmoves.acked hack
        exact Option.isSome_iff_exists.mpr ⟨later, hlater⟩
      intro write hwrite
      rcases hmoves.writes with
        hsame | ⟨k, ack, _, _, _, hack, _, _, _, hadded⟩
      · exact hkept (h.known write (hsame ▸ hwrite))
      · rw [hadded, List.mem_append, List.mem_singleton] at hwrite
        rcases hwrite with hold | rfl
        · exact hkept (h.known write hold)
        · exact hkept (Option.isSome_iff_exists.mpr ⟨ack, hack⟩)
    silent := by
      intro write hwrite later hlater hrefusal
      have hrefused := h.refusal_before hmoves hlater hrefusal
      have hbefore : ∀ {ack}, process.acks write.call = some ack →
          process.Refusal ack := by
        intro ack hack
        obtain ⟨found, hfound, hsame⟩ := hmoves.acked hack
        cases hlater.symm.trans hfound
        rw [Refusal, ← hsame.outcomeOf, ← hsame.record]
        exact hrefused
      rcases hmoves.writes with
        hsame | ⟨k, ack, _, _, _, hack, hpending, _, _, hadded⟩
      · rw [hsame] at hwrite
        obtain ⟨ack, hack⟩ :=
          Option.isSome_iff_exists.mp (h.known write hwrite)
        exact h.silent write hwrite ack hack (hbefore hack)
      · rw [hadded, List.mem_append, List.mem_singleton] at hwrite
        rcases hwrite with hold | rfl
        · obtain ⟨old, hfound⟩ :=
            Option.isSome_iff_exists.mp (h.known write hold)
          exact h.silent write hold old hfound (hbefore hfound)
        · have hidle := (h.harmless k ack hack (hbefore hack)).not_pending
          rw [hpending] at hidle
          cases hidle }

end

/-- In every run in which each acknowledgement of a refusal looks at the
record while no start of the claim is marked as started, or its
acknowledgement is recorded, the acknowledgement of a refusal writes
nothing. -/
theorem refused_outcomes_write_nothing {rows : TaskConversion}
    {process : Process}
    (h : (machine rows).FollowsWhere
      (fun state event => refusalsUnstarted state event = true)
      .initial process) :
    ∀ write ∈ process.writes, ∀ ack n call error,
      process.acks write.call = some ack → ack.outcomeOf = some n →
      process.calls n = some call → call.stage = .finished (.refused error) →
      ack.record.isSome = true → write.effects = [] := by
  have hrefusals : Refusals process := h.invariant Refusals
    (fun hold hadmits hevent => hold.step hadmits hevent) refusals_initial
  intro write hwrite ack n call error hack hn hcall hstage hrecord
  exact absurd ⟨n, call, error, hn, hcall, hstage, hrecord⟩
    (hrefusals.silent write hwrite ack hack)

/-- The first dispatch runs its handler and is acknowledged; the second
dispatch of the claim is refused, and its refusal is acknowledged. -/
theorem refused_outcomes_write_nothing_repeated :
    let steps : List ProcessEvent := [.advance 0 1, .advance 0 1,
      .advance 0 1, .advance 0 1, .advance 0 1,
      .statement 0 quietEnv .answered, .advance 0 1, .advance 0 1,
      .returned 0 (.ok (.ok .null)), .advance 0 1]
    let acknowledge (k : Nat) : List ProcessEvent :=
      [.advanceAck k, .advanceAck k, .advanceAck k]
    let events : List ProcessEvent := List.flatten [sampleSetup,
      [.dispatch 0 ⟨true, some "token"⟩ sampleClaim], steps,
      [.ackOutcome 0 0 ⟨true, some "token"⟩ 1 ""], acknowledge 0,
      [.ackStatement 0 quietEnv .answered], acknowledge 0,
      [.dispatch 1 ⟨true, some "token"⟩ sampleClaim, .advance 1 1,
        .advance 1 1, .advance 1 1,
        .ackOutcome 1 1 ⟨true, some "token"⟩ 2 "already acknowledged"],
      acknowledge 1]
    let process := ((machine TaskConversion.copying).runWhere
      refusalsUnstarted .initial events).getD .initial
    process.writes.map AckWrite.call = [0] ∧
      ∀ write ∈ process.writes, write.call = 1 → write.effects = [] := by
  intro steps acknowledge events process
  have hrun : (machine TaskConversion.copying).runWhere refusalsUnstarted
    .initial events = some process := rfl
  refine ⟨rfl, ?_⟩
  intro write hwrite hcall
  obtain ⟨ack, hack, hgiven, hrecord⟩ : ∃ ack, process.acks 1 = some ack ∧
    ack.outcomeOf = some 1 ∧ ack.record.isSome = true := ⟨_, rfl, rfl, rfl⟩
  obtain ⟨call, hfound, error, hstage⟩ : ∃ call, process.calls 1 = some call ∧
    ∃ error, call.stage = .finished (.refused error) := ⟨_, rfl, _, rfl⟩
  exact refused_outcomes_write_nothing (Machine.followsWhere_of_run events hrun)
    write hwrite ack 1 call error (hcall ▸ hack) hgiven hfound hstage hrecord

/-- Two dispatches of one claim at once: the second read that nothing was
started before the first one started the row, so its start matches nothing.
Its refusal is acknowledged while the first handler still runs, the record
says that the claim was started, and the row is failed with the refusal. -/
theorem concurrent_refusal_recorded :
    let first : List ProcessEvent := [.advance 0 1, .advance 0 1,
      .advance 0 1, .advance 0 1, .advance 0 1,
      .statement 0 quietEnv .answered, .advance 0 1, .advance 0 1]
    let second : List ProcessEvent := [.advance 1 1, .advance 1 1,
      .advance 1 1, .statement 1 quietEnv .answered, .advance 1 1,
      .advance 1 1, .advance 1 1]
    let events : List ProcessEvent := List.flatten [sampleSetup,
      [.dispatch 0 ⟨true, some "token"⟩ sampleClaim,
        .dispatch 1 ⟨true, some "token"⟩ sampleClaim,
        .advance 1 1, .advance 1 1], first, second,
      [.ackOutcome 0 1 ⟨true, some "token"⟩ 1 "claim lost",
        .advanceAck 0, .advanceAck 0, .advanceAck 0,
        .ackStatement 0 quietEnv .answered]]
    ∃ process call write,
      (machine TaskConversion.copying).run .initial events = some process ∧
      process.calls 1 = some call ∧
      call.stage = .finished (.refused
        (.claimLost sampleId "queue" "worker")) ∧
      process.acks 0 = some ⟨⟨true, some "token"⟩, .err "claim lost",
        { sampleClaim.parts with attempt := 1 }, some 0, some 1,
        ⟨some "worker", some 0⟩, .issuing (some (.ok ())), true, false⟩ ∧
      process.writes = [write] ∧ write.call = 0 ∧
      (process.system.db.jobs.get? sampleId).map JobRow.status =
        some .failed := by
  intro first second events
  exact ⟨_, _, _, rfl, rfl, rfl, rfl, rfl, rfl, rfl⟩

end Process

end ApalisPostgres
