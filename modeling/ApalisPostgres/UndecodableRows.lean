/-
The rows that do not decode, over every run of the decode stage.  Each round
of the stage ends with one item, after at most six calls for its own claim;
from a lost claim on only the retirement of the name is delivered.
-/
import ApalisPostgres.DecodeStream

namespace ApalisPostgres

open RowStore

namespace Fetcher

variable {Args : Type}

namespace Round

/-- The item a round yields unless its release is exhausted. -/
def expected (round : Round Args) : Except Error (Option (DecodedTask Args)) :=
  match round.item with
  | .error error => .error error
  | .ok none => .ok none
  | .ok (some task) =>
      match round.decoding.result with
      | .ok args => .ok (some ⟨args, task.parts⟩)
      | .error message => .error (.decode message)

/-- Every call names the claim of the round's own row. -/
def Own (round : Round Args) : Prop :=
  ∀ call ∈ round.calls, ∃ task, round.item = .ok (some task) ∧
    claimIdentity task.parts = some (call.taskId, call.lockAt, call.attempts)

/-- Every call failed. -/
def Failed (round : Round Args) : Prop :=
  ∀ call ∈ round.calls, ∃ error, call.outcome = .error error

/-- A release matched no row, or all of the calls failed. -/
def Lost (round : Round Args) : Prop :=
  (∃ call ∈ round.calls, call.outcome = .ok 0) ∨
    (round.calls ≠ [] ∧ round.Failed)

theorem not_lost_of_calls {round : Round Args} (h : round.calls = []) :
    ¬ round.Lost := by
  rintro (⟨call, hcall, -⟩ | ⟨hcalls, -⟩)
  · simp [h] at hcall
  · exact hcalls h

end Round

/-- What holds of a round that is over. -/
structure Answered.Sound (workerId : String) (answered : Answered Args) :
    Prop where
  own : answered.Own
  bounded : answered.calls.length ≤ releaseRetryLimit + 1
  answer : answered.answer = answered.expected ∨
    (answered.Lost ∧ ∃ error, answered.answer = .error error)
  lost : answered.Lost → answered.retired = true
  released : ∀ task message, answered.item = .ok (some task) →
    answered.decoding.result = .error message →
    answered.retired = true ∨ ∃ call ∈ answered.calls, ∃ row,
      ReleasesClaim call.taskId workerId call.lockAt call.attempts
        call.before call.after row

/-- What holds of the round whose claim is being released. -/
structure Releasing (round : Round Args) (obligation : ReleaseObligation) :
    Prop where
  own : round.Own
  failed : round.Failed
  calls : round.calls.length = obligation.failures
  bounded : obligation.failures ≤ releaseRetryLimit
  row : ∃ task, round.item = .ok (some task) ∧
    claimIdentity task.parts =
      some (obligation.taskId, obligation.lockAt, obligation.attempts)
  undecoded : round.decoding.result = .error obligation.decodeError

/-- The round that tells of the retirement. -/
def Answered.Tells (workerId : String) (answered : Answered Args) : Prop :=
  answered.item = .error (.workerRetired workerId) ∧
    answered.answer = .error (.workerRetired workerId) ∧ answered.calls = []

namespace DecodeSystem

variable {workerId : String} {token : Option String}
variable {system after : DecodeSystem Args}

/-- How far the delivery has come: no claim is lost, or one is and the name is
retired, or the stage has told so. -/
inductive Delivery (workerId : String) (system : DecodeSystem Args) : Prop where
  | delivering (hkept : ∀ answered ∈ system.answered, ¬ answered.Lost)
  | stopped (before : List (Answered Args)) (lost : Answered Args)
      (hanswered : system.answered = before ++ [lost])
      (hbefore : ∀ answered ∈ before, ¬ answered.Lost)
      (hretired : system.lease.retired = true) (hopened : system.opened = none)
      (hcompact : system.stream.compact.ended = false)
      (hended : system.stream.ended = false)
  | told (before : List (Answered Args)) (lost told : Answered Args)
      (hanswered : system.answered = before ++ [lost, told])
      (hbefore : ∀ answered ∈ before, ¬ answered.Lost)
      (htold : told.Tells workerId) (hopened : system.opened = none)
      (hcompact : system.stream.compact.ended = true)

/-- The round whose claim is being released, if there is one. -/
def Opened (system : DecodeSystem Args) : Prop :=
  match system.opened, system.stream.release with
  | none, none => True
  | some round, some obligation => Releasing round obligation ∧
      system.stream.compact.ended = false ∧ system.stream.ended = false
  | _, _ => False

/-- The items the lease stream handed to the stage. -/
def handed (workerId : String) (system : DecodeSystem Args) :
    List (Except Error (Option Task)) :=
  system.delivered ++ if system.stream.compact.ended then
    [.error (.workerRetired workerId)] else []

/-- The invariant of the stage. -/
structure Sound (workerId : String) (system : DecodeSystem Args) : Prop where
  worker : system.lease.workerId = workerId
  opened : system.Opened
  answered : ∀ answered ∈ system.answered, answered.Sound workerId
  items : system.answered.map (fun answered => answered.item) ++
    system.opened.toList.map Round.item = system.handed workerId
  told : system.stream.compact.ended = true → system.lease.retired = true
  delivery : system.Delivery workerId

theorem Sound.opened_none (h : system.Sound workerId)
    (hrelease : system.stream.release = none) : system.opened = none := by
  have hopened := h.opened
  unfold Opened at hopened
  rw [hrelease] at hopened
  cases hround : system.opened with
  | none => rfl
  | some round =>
      rw [hround] at hopened
      exact hopened.elim

theorem Sound.releasing (h : system.Sound workerId) {round : Round Args}
    {obligation : ReleaseObligation} (hround : system.opened = some round)
    (hrelease : system.stream.release = some obligation) :
    Releasing round obligation ∧ system.stream.compact.ended = false ∧
      system.stream.ended = false := by
  have hopened := h.opened
  unfold Opened at hopened
  rw [hround, hrelease] at hopened
  exact hopened

theorem Sound.kept_of_opened (h : system.Sound workerId) {round : Round Args}
    (hround : system.opened = some round) :
    ∀ answered ∈ system.answered, ¬ answered.Lost := by
  cases h.delivery with
  | delivering hkept => exact hkept
  | stopped _ _ _ _ _ hopened _ _ => simp [hround] at hopened
  | told _ _ _ _ _ _ hopened _ => simp [hround] at hopened

theorem Sound.kept_of_active (h : system.Sound workerId)
    (hactive : system.lease.retired = false) :
    ∀ answered ∈ system.answered, ¬ answered.Lost := by
  cases h.delivery with
  | delivering hkept => exact hkept
  | stopped _ _ _ _ hretired _ _ _ => simp [hactive] at hretired
  | told _ _ _ _ _ _ _ hcompact => simp [h.told hcompact] at hactive

/-- A round ends with its item. -/
theorem sound_yieldItem {round : Round Args}
    {answer : Except Error (Option (DecodedTask Args))}
    (hworker : system.lease.workerId = workerId)
    (hanswered : ∀ answered ∈ system.answered, answered.Sound workerId)
    (hround : Answered.Sound workerId ⟨round, answer, system.lease.retired⟩)
    (hitems : system.answered.map (fun answered => answered.item) ++
      [round.item] = system.handed workerId)
    (htold : system.stream.compact.ended = true → system.lease.retired = true)
    (hdelivery : (system.yieldItem round answer).Delivery workerId) :
    (system.yieldItem round answer).Sound workerId where
  worker := hworker
  opened := trivial
  answered := by
    intro answered hmem
    rcases List.mem_append.mp hmem with hmem | hmem
    · exact hanswered answered hmem
    · obtain rfl := List.mem_singleton.mp hmem
      exact hround
  items := by
    show (system.answered ++ [_]).map _ ++ [] = system.handed workerId
    rw [List.map_append, List.append_nil]
    exact hitems
  told := htold
  delivery := hdelivery

/-- A round without calls that yields what its item says. -/
theorem sound_of_expected {round : Round Args} {retired : Bool}
    (hcalls : round.calls = [])
    (hdecoded : retired = true ∨ ∀ task, round.item = .ok (some task) →
      ∃ args, round.decoding.result = .ok args) :
    Answered.Sound workerId ⟨round, round.expected, retired⟩ where
  own := by simp [Round.Own, hcalls]
  bounded := by simp [hcalls]
  answer := .inl rfl
  lost := fun hlost => absurd hlost (Round.not_lost_of_calls hcalls)
  released := by
    intro task message hitem hresult
    rcases hdecoded with hretired | hdecoded
    · exact .inl hretired
    · obtain ⟨args, hargs⟩ := hdecoded task hitem
      simp [hargs] at hresult

/-- The stage takes an item while no claim is lost. -/
theorem sound_take {item : Except Error (Option Task)}
    {decoding : Decoding Args}
    (hworker : system.lease.workerId = workerId)
    (hanswered : ∀ answered ∈ system.answered, answered.Sound workerId)
    (hkept : ∀ answered ∈ system.answered, ¬ answered.Lost)
    (hitems : system.answered.map (fun answered => answered.item) ++ [item] =
      system.handed workerId)
    (hcompact : system.stream.compact.ended = false)
    (hended : system.stream.ended = false)
    (hclaimed : ∀ task, item = .ok (some task) →
      (claimIdentity task.parts).isSome = true) :
    (system.take item decoding).Sound workerId := by
  have hyield (answer : Except Error (Option (DecodedTask Args)))
      (hexpected : answer = Round.expected ⟨item, decoding, []⟩)
      (hdecoded : ∀ task, item = .ok (some task) →
        ∃ args, decoding.result = .ok args) :
      (system.yieldItem ⟨item, decoding, []⟩ answer).Sound workerId := by
    subst hexpected
    refine sound_yieldItem hworker hanswered
      (sound_of_expected rfl (.inr hdecoded)) hitems (by simp [hcompact]) ?_
    refine .delivering ?_
    intro answered hmem
    rcases List.mem_append.mp hmem with hmem | hmem
    · exact hkept answered hmem
    · obtain rfl := List.mem_singleton.mp hmem
      exact Round.not_lost_of_calls rfl
  cases item with
  | error error => exact hyield _ rfl (by simp)
  | ok marker =>
      cases marker with
      | none => exact hyield _ rfl (by simp)
      | some task =>
          simp only [take]
          cases hresult : decoding.result with
          | ok args =>
              exact hyield _ (by simp [Round.expected, hresult])
                fun _ _ => ⟨args, hresult⟩
          | error message =>
              obtain ⟨⟨taskId, lockAt, attempts⟩, hidentity⟩ :=
                Option.isSome_iff_exists.mp (hclaimed task rfl)
              simp only [hidentity]
              refine ⟨hworker, ⟨⟨?_, ?_, rfl, ?_, ?_, hresult⟩, hcompact,
                hended⟩, hanswered, hitems, by simp [hcompact], ?_⟩
              · simp [Round.Own]
              · simp [Round.Failed]
              · simp
              · exact ⟨task, rfl, hidentity⟩
              · exact .delivering hkept

/-- The stage after a poll of the stream inside that handed it nothing. -/
def polled (system : DecodeSystem Args) (inner : ItemPoll (Option Task))
    (meanwhile : Bool) : DecodeSystem Args :=
  { system with
    lease := (system.stream.compact.pollNext system.lease inner meanwhile).1
    stream := { system.stream with
      compact :=
        (system.stream.compact.pollNext system.lease inner meanwhile).2 } }

section

variable (inner : ItemPoll (Option Task)) (meanwhile : Bool)

theorem polled_worker :
    (system.polled inner meanwhile).lease.workerId = system.lease.workerId := by
  obtain ⟨retires, hmoves, -⟩ := @LeaseStream.pollNext_lease _ system.lease
    system.stream.compact inner meanwhile
  exact hmoves.workerId

theorem polled_retired (hretired : system.lease.retired = true) :
    (system.polled inner meanwhile).lease.retired = true := by
  obtain ⟨retires, hmoves, -⟩ := @LeaseStream.pollNext_lease _ system.lease
    system.stream.compact inner meanwhile
  simp [polled, hmoves.retired, hretired]

theorem polled_ended : (system.polled inner meanwhile).stream.compact.ended =
    (system.stream.compact.ended || system.lease.retired) :=
  LeaseStream.pollNext_ended inner meanwhile

variable (decoding : Decoding Args)

theorem pollCompact_of_ended (hcompact : system.stream.compact.ended = true) :
    system.pollCompact inner meanwhile decoding =
      { system.polled inner meanwhile with
        stream := { (system.polled inner meanwhile).stream with
          ended := true } } := by
  have hpassed : system.passed inner = [] := by
    cases inner <;> simp [passed, hcompact]
  simp [pollCompact, LeaseStream.answer, hcompact, hpassed, polled]

theorem pollCompact_of_retired (hcompact : system.stream.compact.ended = false)
    (hretired : system.lease.retired = true) :
    system.pollCompact inner meanwhile decoding =
      (system.polled inner meanwhile).yieldItem
        ⟨.error (.workerRetired system.lease.workerId), decoding, []⟩
        (.error (.workerRetired system.lease.workerId)) := by
  have hpassed : system.passed inner = [] := by
    cases inner <;> simp [passed, hretired]
  simp [pollCompact, LeaseStream.answer, Lease.ensureActive, hcompact, hretired,
    hpassed, polled, take]

/-- Under an active lease the stage takes what the stream inside answers. -/
theorem pollCompact_of_active (hcompact : system.stream.compact.ended = false)
    (hactive : system.lease.retired = false) :
    system.pollCompact inner meanwhile decoding =
      match inner with
      | .pending => system.polled inner meanwhile
      | .ended => { system.polled inner meanwhile with
          stream := { (system.polled inner meanwhile).stream with
            ended := true } }
      | .item item => { system.polled inner meanwhile with
          delivered := system.delivered ++ [item] }.take item decoding := by
  cases inner with
  | pending =>
      simp [pollCompact, LeaseStream.answer, Lease.ensureActive, hcompact,
        hactive, passed, polled]
  | ended =>
      simp [pollCompact, LeaseStream.answer, Lease.ensureActive, hcompact,
        hactive, passed, polled]
  | item item =>
      simp [pollCompact, LeaseStream.answer, Lease.ensureActive, hcompact,
        hactive, passed, polled]

end

/-- Nothing was taken: the rounds are those of before. -/
theorem Sound.untaken (h : system.Sound workerId)
    (hrelease : system.stream.release = none)
    (hworker : after.lease.workerId = workerId)
    (hsame : after.answered = system.answered ∧ after.opened = system.opened ∧
      after.delivered = system.delivered ∧ after.stream.release = none)
    (hcompact : after.stream.compact.ended = system.stream.compact.ended)
    (hretired : system.lease.retired = true → after.lease.retired = true)
    (hended : after.stream.ended = false ∨
      system.stream.compact.ended = true ∨ system.lease.retired = false) :
    after.Sound workerId := by
  obtain ⟨hanswered, hopened, hdelivered, hreleased⟩ := hsame
  have hnone := h.opened_none hrelease
  refine ⟨hworker, ?_, ?_, ?_, ?_, ?_⟩
  · simp [Opened, hopened, hnone, hreleased]
  · rw [hanswered]
    exact h.answered
  · rw [hanswered, hopened, handed, hdelivered, hcompact]
    exact h.items
  · rw [hcompact]
    exact fun hover => hretired (h.told hover)
  · cases h.delivery with
    | delivering hkept => exact .delivering (hanswered ▸ hkept)
    | stopped before lost heq hbefore hstopped _ hopen _ =>
        refine .stopped before lost (hanswered.trans heq) hbefore
          (hretired hstopped) (hopened.trans hnone) (hcompact.trans hopen) ?_
        rcases hended with hended | hover | hactive
        · exact hended
        · simp [hopen] at hover
        · simp [hstopped] at hactive
    | told before lost told heq hbefore htold _ hover =>
        exact .told before lost told (hanswered.trans heq) hbefore htold
          (hopened.trans hnone) (hcompact.trans hover)

/-- A poll of the stream inside keeps the invariant. -/
theorem Sound.pollCompact (h : system.Sound workerId)
    (hended : system.stream.ended = false)
    (hrelease : system.stream.release = none)
    {inner : ItemPoll (Option Task)} (meanwhile : Bool)
    (decoding : Decoding Args)
    (hclaimed : ∀ task, inner = .item (.ok (some task)) →
      (claimIdentity task.parts).isSome = true) :
    (system.pollCompact inner meanwhile decoding).Sound workerId := by
  have hopened := h.opened_none hrelease
  have hitems := h.items
  rw [hopened, Option.toList_none, List.map_nil, List.append_nil] at hitems
  have hworker := (polled_worker inner meanwhile).trans h.worker
  have hover := @polled_ended _ system inner meanwhile
  cases hcompact : system.stream.compact.ended with
  | true =>
      have hretired := polled_retired inner meanwhile (h.told hcompact)
      rw [pollCompact_of_ended inner meanwhile decoding hcompact]
      refine h.untaken hrelease hworker ⟨rfl, rfl, rfl, hrelease⟩ ?_
        (fun _ => hretired) (.inr (.inl hcompact))
      exact hover.trans (by simp [hcompact])
  | false =>
      cases hactive : system.lease.retired with
      | true =>
          have hretired := polled_retired inner meanwhile hactive
          rw [hcompact, hactive] at hover
          rw [pollCompact_of_retired inner meanwhile decoding hcompact hactive,
            h.worker]
          refine sound_yieldItem hworker h.answered
            (sound_of_expected rfl (.inl hretired)) ?_ (fun _ => hretired) ?_
          · show system.answered.map _ ++ _ = system.delivered ++ _
            simp only [handed, hcompact] at hitems
            simpa [hover] using hitems
          · cases h.delivery with
            | delivering hkept =>
                refine .delivering ?_
                intro answered hmem
                rcases List.mem_append.mp hmem with hmem | hmem
                · exact hkept answered hmem
                · obtain rfl := List.mem_singleton.mp hmem
                  exact Round.not_lost_of_calls rfl
            | stopped before lost heq hbefore _ _ _ _ =>
                refine .told before lost
                  ⟨⟨.error (.workerRetired workerId), decoding, []⟩,
                    .error (.workerRetired workerId),
                    (system.polled inner meanwhile).lease.retired⟩
                  ?_ hbefore ⟨rfl, rfl, rfl⟩ rfl hover
                show system.answered ++ _ = _
                rw [heq, List.append_assoc]
                rfl
            | told _ _ _ _ _ _ _ htold => simp [hcompact] at htold
      | false =>
          rw [hcompact, hactive] at hover
          rw [pollCompact_of_active inner meanwhile decoding hcompact hactive]
          have huntaken (ended : Bool) : ({ system.polled inner meanwhile with
              stream := { (system.polled inner meanwhile).stream with
                ended := ended } }).Sound workerId :=
            h.untaken hrelease hworker ⟨rfl, rfl, rfl, hrelease⟩
              (hover.trans hcompact.symm) (by simp [hactive])
              (.inr (.inr hactive))
          cases inner with
          | pending => exact huntaken system.stream.ended
          | ended => exact huntaken true
          | item item =>
              refine sound_take hworker h.answered (h.kept_of_active hactive)
                ?_ hover hended ?_
              · show system.answered.map _ ++ _ =
                  system.delivered ++ [item] ++ _
                simp only [handed, hcompact] at hitems
                simp [hitems, hover]
              · intro task hitem
                exact hclaimed task (by rw [hitem])

end DecodeSystem

/-- The round with one more call. -/
def Round.called (round : Round Args) (call : ReleaseCall) : Round Args :=
  { round with calls := round.calls ++ [call] }

namespace Releasing

variable {round : Round Args} {obligation : ReleaseObligation}
variable {call : ReleaseCall}

/-- The call names the claim of the row. -/
def Names (obligation : ReleaseObligation) (call : ReleaseCall) : Prop :=
  call.taskId = obligation.taskId ∧ call.lockAt = obligation.lockAt ∧
    call.attempts = obligation.attempts

theorem own_called (h : Releasing round obligation)
    (hcall : Names obligation call) : (round.called call).Own := by
  intro other hmem
  rcases List.mem_append.mp hmem with hmem | hmem
  · exact h.own other hmem
  · obtain rfl := List.mem_singleton.mp hmem
    obtain ⟨htask, hlockAt, hattempts⟩ := hcall
    rw [htask, hlockAt, hattempts]
    exact h.row

theorem bounded_called (h : Releasing round obligation) :
    (round.called call).calls.length ≤ releaseRetryLimit + 1 := by
  have := h.bounded
  simp only [Round.called, List.length_append, List.length_singleton, h.calls]
  omega

theorem failed_called (h : Releasing round obligation) {error : Error}
    (houtcome : call.outcome = .error error) : (round.called call).Failed := by
  intro other hmem
  rcases List.mem_append.mp hmem with hmem | hmem
  · exact h.failed other hmem
  · obtain rfl := List.mem_singleton.mp hmem
    exact ⟨error, houtcome⟩

/-- A call that counted a row loses no claim. -/
theorem kept_called (h : Releasing round obligation) {released : Nat}
    (houtcome : call.outcome = .ok released) (hreleased : released ≠ 0) :
    ¬ (round.called call).Lost := by
  rintro (⟨other, hmem, hzero⟩ | ⟨-, hfailed⟩)
  · rcases List.mem_append.mp hmem with hmem | hmem
    · obtain ⟨error, herror⟩ := h.failed other hmem
      simp [herror] at hzero
    · obtain rfl := List.mem_singleton.mp hmem
      rw [houtcome] at hzero
      exact hreleased (Except.ok.inj hzero)
  · obtain ⟨error, herror⟩ := hfailed call
      (List.mem_append_right _ List.mem_cons_self)
    simp [houtcome] at herror

theorem expected_called (h : Releasing round obligation) :
    (round.called call).expected = .error (.decode obligation.decodeError) := by
  obtain ⟨task, hitem, -⟩ := h.row
  simp [Round.called, Round.expected, hitem, h.undecoded]

/-- A failure that leaves retries keeps the round open. -/
theorem called (h : Releasing round obligation)
    (hcall : Names obligation call) {error : Error}
    (houtcome : call.outcome = .error error) {failedAt checkedAt : Nat}
    (hleft : (obligation.failed failedAt).exhausted checkedAt = false) :
    Releasing (round.called call) (obligation.failed failedAt) where
  own := h.own_called hcall
  failed := h.failed_called houtcome
  calls := by simp [Round.called, ReleaseObligation.failed, h.calls]
  bounded := by
    simp only [ReleaseObligation.exhausted, releaseExhausted,
      Bool.or_eq_false_iff, decide_eq_false_iff_not] at hleft
    omega
  row := h.row
  undecoded := h.undecoded

end Releasing

namespace DecodeSystem

variable {workerId : String} {token : Option String}
variable {system after : DecodeSystem Args}

/-- A round that ends with a call.  A lost claim stops the delivery. -/
theorem sound_yieldCalled {round : Round Args} {call : ReleaseCall}
    {obligation : ReleaseObligation}
    {answer : Except Error (Option (DecodedTask Args))}
    (hworker : system.lease.workerId = workerId)
    (hanswered : ∀ answered ∈ system.answered, answered.Sound workerId)
    (hkept : ∀ answered ∈ system.answered, ¬ answered.Lost)
    (hitems : system.answered.map (fun answered => answered.item) ++
      [round.item] = system.handed workerId)
    (hcompact : system.stream.compact.ended = false)
    (hended : system.stream.ended = false)
    (hreleasing : Releasing round obligation)
    (hcall : Releasing.Names obligation call)
    (hanswer : answer = .error (.decode obligation.decodeError) ∨
      ((round.called call).Lost ∧ ∃ error, answer = .error error))
    (hsettled : system.lease.retired = true ∨
      ((∃ released, call.outcome = .ok released ∧ released ≠ 0) ∧ ∃ row,
        ReleasesClaim call.taskId workerId call.lockAt call.attempts
          call.before call.after row)) :
    (system.yieldItem (round.called call) answer).Sound workerId := by
  have hlost : (round.called call).Lost → system.lease.retired = true := by
    intro hlost
    rcases hsettled with hretired | ⟨⟨released, hok, hne⟩, -⟩
    · exact hretired
    · exact absurd hlost (hreleasing.kept_called hok hne)
  refine sound_yieldItem hworker hanswered ⟨hreleasing.own_called hcall,
    hreleasing.bounded_called, ?_, hlost, ?_⟩ hitems (by simp [hcompact]) ?_
  · rw [hreleasing.expected_called]
    exact hanswer
  · intro task message _ _
    rcases hsettled with hretired | ⟨-, hrow⟩
    · exact .inl hretired
    · exact .inr ⟨call, List.mem_append_right _ List.mem_cons_self, hrow⟩
  · by_cases hround : (round.called call).Lost
    · exact .stopped system.answered _ rfl hkept (hlost hround) rfl hcompact
        hended
    · refine .delivering ?_
      intro answered hmem
      rcases List.mem_append.mp hmem with hmem | hmem
      · exact hkept answered hmem
      · obtain rfl := List.mem_singleton.mp hmem
        exact hround

/-- A release call keeps the invariant. -/
theorem Sound.releaseRow (h : system.Sound workerId) {round : Round Args}
    {obligation : ReleaseObligation} (hround : system.opened = some round)
    (hrelease : system.stream.release = some obligation) (fault : ClaimFault)
    (env : FaultyEnv) (failedAt checkedAt : Nat) :
    (system.releaseRow token obligation round fault env failedAt
      checkedAt).Sound workerId := by
  obtain ⟨hreleasing, hcompact, hended⟩ := h.releasing hround hrelease
  have hkept := h.kept_of_opened hround
  have hitems := h.items
  rw [hround] at hitems
  unfold DecodeSystem.releaseRow DecodeSystem.settleRelease
  generalize hcalled : withConn (failUndecodableTask obligation.taskId
    system.lease.workerId obligation.lockAt obligation.attempts
    (decodeErrorText obligation.decodeError) token) fault env system.db = call
  obtain ⟨db, effects, result⟩ := call
  have hnames : Releasing.Names obligation ⟨obligation.delay,
    obligation.taskId, obligation.lockAt, obligation.attempts, system.db,
    db, result⟩ := ⟨rfl, rfl, rfl⟩
  cases result with
  | ok released =>
      by_cases hzero : released = 0
      · simp only [if_pos hzero]
        exact sound_yieldCalled h.worker h.answered hkept hitems hcompact
          hended hreleasing hnames (.inl rfl) (.inl rfl)
      · simp only [if_neg hzero]
        refine sound_yieldCalled h.worker h.answered hkept hitems hcompact
          hended hreleasing hnames (.inl rfl) (.inr ⟨⟨released, rfl, hzero⟩, ?_⟩)
        have hrow := releasesClaim_of_withConn
          (congrArg ClaimCall.result hcalled) hzero
        rw [hcalled, h.worker] at hrow
        exact hrow
  | error error =>
      dsimp only
      cases hleft : (obligation.failed failedAt).exhausted checkedAt with
      | true =>
          refine sound_yieldCalled h.worker h.answered hkept hitems hcompact
            hended hreleasing hnames (.inr ⟨.inr ⟨?_, ?_⟩, error, rfl⟩)
            (.inl rfl)
          · simp [Round.called]
          · exact hreleasing.failed_called rfl
      | false =>
          refine ⟨h.worker, ⟨hreleasing.called hnames rfl hleft, hcompact,
            hended⟩, h.answered, hitems, h.told, .delivering hkept⟩

/-- The rows of the compact stream carry their claim. -/
def Claimed : DecodeEvent Args → Prop
  | .compact (.item (.ok (some task))) _ _ =>
      (claimIdentity task.parts).isSome = true
  | _ => True

theorem Sound.step (h : system.Sound workerId) {event : DecodeEvent Args}
    (hclaimed : Claimed event)
    (hstep : system.step token event = some after) : after.Sound workerId := by
  cases event with
  | compact inner meanwhile decoding =>
      simp only [DecodeSystem.step] at hstep
      split at hstep
      · cases hstep
      · rename_i hwaits
        obtain rfl := Option.some.inj hstep
        simp only [Bool.or_eq_true, not_or, Bool.not_eq_true,
          Option.isSome_eq_false_iff, Option.isNone_iff_eq_none] at hwaits
        refine h.pollCompact hwaits.1 hwaits.2 meanwhile decoding ?_
        rintro task rfl
        exact hclaimed
  | release fault env failedAt checkedAt =>
      simp only [DecodeSystem.step] at hstep
      split at hstep
      · rename_i obligation round hrelease hround
        obtain rfl := Option.some.inj hstep
        exact h.releaseRow hround hrelease fault env failedAt checkedAt
      · cases hstep
  | retire =>
      obtain rfl := Option.some.inj hstep
      refine ⟨h.worker, h.opened, h.answered, h.items, fun _ => rfl, ?_⟩
      cases h.delivery with
      | delivering hkept => exact .delivering hkept
      | stopped before lost heq hbefore _ hopened hcompact hended =>
          exact .stopped before lost heq hbefore rfl hopened hcompact hended
      | told before lost told heq hbefore htold hopened hcompact =>
          exact .told before lost told heq hbefore htold hopened hcompact
  | others db =>
      obtain rfl := Option.some.inj hstep
      refine ⟨h.worker, h.opened, h.answered, h.items, h.told, ?_⟩
      cases h.delivery with
      | delivering hkept => exact .delivering hkept
      | stopped before lost heq hbefore hretired hopened hcompact hended =>
          exact .stopped before lost heq hbefore hretired hopened hcompact
            hended
      | told before lost told heq hbefore htold hopened hcompact =>
          exact .told before lost told heq hbefore htold hopened hcompact

/-- The stages reached by runs over rows that carry their claim. -/
def Reached (workerId : String) (token : Option String)
    (system : DecodeSystem Args) : Prop :=
  ∃ start, Fresh workerId start ∧
    (machine workerId token).FollowsBy Claimed start system

theorem Reached.sound (h : system.Reached workerId token) :
    system.Sound workerId := by
  obtain ⟨start, ⟨hworker, hstream, hanswered, hopened, hdelivered⟩, hrun⟩ := h
  refine hrun.invariant (fun system => system.Sound workerId) ?_ ?_
  · intro state next event hstate hclaimed hevent
    exact hstate.step hclaimed hevent
  · refine ⟨hworker, ?_, ?_, ?_, ?_, ?_⟩
    · simp [Opened, hopened, hstream]
    · simp [hanswered]
    · simp [hanswered, hopened, handed, hdelivered, hstream, LeaseStream.new]
    · simp [hstream, LeaseStream.new]
    · exact .delivering (by simp [hanswered])

theorem eq_last_of_not_mem {α : Type} {before rest earlier : List α}
    {entry last : α} (h : before ++ entry :: rest = earlier ++ [last])
    (hnot : entry ∉ earlier) : rest = [] ∧ entry = last := by
  rcases List.eq_nil_or_concat rest with rfl | ⟨rest, final, rfl⟩
  · have hlast := (List.append_inj' h rfl).2
    exact ⟨rfl, (List.cons.inj hlast).1⟩
  · rw [List.concat_eq_append, ← List.cons_append, ← List.append_assoc] at h
    have hearlier := (List.append_inj' h rfl).1
    exact absurd (hearlier ▸ by simp) hnot

/-- A round after which the delivery stopped is the last one, or the last one
before the retirement was told. -/
theorem Sound.lost_split (h : system.Sound workerId)
    {before rest : List (Answered Args)} {lost : Answered Args}
    (hanswered : system.answered = before ++ lost :: rest)
    (hlost : lost.Lost) :
    system.lease.retired = true ∧ system.opened = none ∧
      ((rest = [] ∧ system.stream.compact.ended = false ∧
          system.stream.ended = false) ∨
        ((∃ told, rest = [told] ∧ told.Tells workerId) ∧
          system.stream.compact.ended = true)) := by
  cases h.delivery with
  | delivering hkept =>
      exact absurd hlost (hkept lost (by simp [hanswered]))
  | stopped earlier last heq hearlier hretired hopened hcompact hended =>
      have hnot : lost ∉ earlier := fun hmem => hearlier lost hmem hlost
      have hrest := (eq_last_of_not_mem (hanswered.symm.trans heq) hnot).1
      exact ⟨hretired, hopened, .inl ⟨hrest, hcompact, hended⟩⟩
  | told earlier last told heq hearlier htold hopened hcompact =>
      refine ⟨h.told hcompact, hopened, .inr ⟨?_, hcompact⟩⟩
      have hnot : lost ∉ earlier := fun hmem => hearlier lost hmem hlost
      have hsplit : before ++ lost :: rest = (earlier ++ [last]) ++ [told] := by
        rw [← hanswered, heq, List.append_assoc]
        rfl
      rcases List.eq_nil_or_concat rest with rfl | ⟨rest, final, rfl⟩
      · have hlast := (List.append_inj' hsplit rfl).2
        rw [(List.cons.inj hlast).1] at hlost
        exact absurd hlost (Round.not_lost_of_calls htold.2.2)
      · rw [List.concat_eq_append, ← List.cons_append, ← List.append_assoc]
          at hsplit
        obtain ⟨hfront, hlast⟩ := List.append_inj' hsplit rfl
        have hrest := (eq_last_of_not_mem hfront hnot).1
        obtain rfl := (List.cons.inj hlast).1
        exact ⟨final, by simp [hrest], htold⟩

/-- The decode stage over every run: one item for each item of the compact
stream, every undecodable row released or left to recovery. -/
theorem undecodable_rows_settled (hreached : system.Reached workerId token) :
    -- Without a retirement the items are those of the compact stream, in
    -- order, each with the answer its row decodes to.
    (system.lease.retired = false →
      system.answered.map (fun answered => answered.item) ++
          system.opened.toList.map Round.item = system.delivered ∧
        ∀ answered ∈ system.answered,
          answered.answer = answered.expected) ∧
    -- A release changed the row of the exact claim, or the name is retired.
      (∀ answered ∈ system.answered, ∀ task message,
        answered.item = .ok (some task) →
        answered.decoding.result = .error message →
        answered.retired = true ∨ ∃ call ∈ answered.calls, ∃ row,
          ReleasesClaim call.taskId workerId call.lockAt call.attempts
            call.before call.after row) ∧
    -- The calls are bounded and name the claim of their own row.
      (∀ answered ∈ system.answered, answered.Own ∧
        answered.calls.length ≤ releaseRetryLimit + 1) ∧
      (∀ round, system.opened = some round →
        round.Own ∧ round.calls.length ≤ releaseRetryLimit) ∧
    -- After a lost claim the stage tells of the retirement and ends.
      (∀ before lost rest, system.answered = before ++ lost :: rest →
        lost.Lost → lost.retired = true ∧ system.opened = none ∧
          (rest = [] ∧ system.stream.ended = false ∨
            ∃ told, rest = [told] ∧ told.Tells workerId) ∧
          ∀ inner meanwhile decoding after,
            system.step token (.compact inner meanwhile decoding) =
              some after →
            (rest = [] → after.stream.ended = false ∧ ∃ told,
              after.answered = system.answered ++ [told] ∧
                told.Tells workerId) ∧
            (rest ≠ [] → after.stream.ended = true ∧
              after.answered = system.answered)) := by
  have h := hreached.sound
  refine ⟨?_, fun answered hmem => (h.answered answered hmem).released,
    fun answered hmem => ⟨(h.answered answered hmem).own,
      (h.answered answered hmem).bounded⟩, ?_, ?_⟩
  · intro hactive
    have hcompact : system.stream.compact.ended = false := by
      rw [← Bool.not_eq_true]
      intro hover
      simp [h.told hover] at hactive
    refine ⟨?_, ?_⟩
    · rw [h.items, handed, hcompact]
      simp
    · intro answered hmem
      rcases (h.answered answered hmem).answer with hanswer | ⟨hlost, -⟩
      · exact hanswer
      · exact absurd hlost (h.kept_of_active hactive answered hmem)
  · intro round hround
    cases hrelease : system.stream.release with
    | none => simp [h.opened_none hrelease] at hround
    | some obligation =>
        have hreleasing := (h.releasing hround hrelease).1
        exact ⟨hreleasing.own, hreleasing.calls ▸ hreleasing.bounded⟩
  · intro before lost rest hanswered hlost
    obtain ⟨hretired, hopened, hphase⟩ := h.lost_split hanswered hlost
    have hmem : lost ∈ system.answered := by simp [hanswered]
    refine ⟨(h.answered lost hmem).lost hlost, hopened, ?_, ?_⟩
    · rcases hphase with ⟨hrest, -, hended⟩ | ⟨htold, -⟩
      · exact .inl ⟨hrest, hended⟩
      · exact .inr htold
    · intro inner meanwhile decoding after hstep
      simp only [step] at hstep
      split at hstep
      · cases hstep
      · obtain rfl := Option.some.inj hstep
        rcases hphase with ⟨hrest, hcompact, hended⟩ | ⟨⟨told, hrest, -⟩, hcompact⟩
        · refine ⟨fun _ => ?_, fun hne => absurd hrest hne⟩
          rw [pollCompact_of_retired inner meanwhile decoding hcompact hretired,
            h.worker]
          exact ⟨hended, _, rfl, rfl, rfl, rfl⟩
        · rw [pollCompact_of_ended inner meanwhile decoding hcompact]
          refine ⟨fun hnil => ?_, fun _ => ⟨rfl, rfl⟩⟩
          simp [hrest] at hnil

/-- A claimed row of the samples. -/
def sampleClaim : Task :=
  ⟨[], ⟨some sampleId, ⟨2, some 1, some "worker", some "queue"⟩, 0, none⟩⟩

/-- A row that was swept before its release: the release matches nothing. -/
theorem undecodable_rows_settled_swept :
    ∃ (system : DecodeSystem Unit) (lost told : Answered Unit),
      system.Reached "worker" none ∧ system.answered = [lost, told] ∧
      lost.Lost ∧ lost.retired = true ∧ told.Tells "worker" := by
  let start : DecodeSystem Unit :=
    ⟨.new "worker", .empty, ⟨.new true, none, false⟩, [], none, []⟩
  let events : List (DecodeEvent Unit) :=
    [.compact (.item (.ok (some sampleClaim))) false (.error "no payload"),
      .release .none (fun n => (quietEnv n, none)) 0 0,
      .compact .pending false (.value ())]
  have hclaimed : ∀ event ∈ events, Claimed event := by
    simp only [events, List.forall_mem_cons]
    exact ⟨rfl, trivial, trivial, by simp⟩
  obtain ⟨system, hrun⟩ : ∃ system,
      (machine "worker" none).run start events = some system := ⟨_, rfl⟩
  have hreached : system.Reached "worker" none :=
    ⟨start, ⟨rfl, rfl, rfl, rfl, rfl⟩,
      Machine.followsBy_of_run events hclaimed hrun⟩
  obtain ⟨lost, told, hanswered, hcalls⟩ : ∃ lost told : Answered Unit,
      ((machine "worker" none).run start events).map answered =
          some [lost, told] ∧
        lost.calls.map ReleaseCall.outcome = [.ok 0] := ⟨_, _, rfl, rfl⟩
  rw [hrun] at hanswered
  replace hanswered := Option.some.inj hanswered
  have hlost : lost.Lost := by
    have hmem : Except.ok 0 ∈ lost.calls.map ReleaseCall.outcome := by
      simp [hcalls]
    obtain ⟨call, hcall, houtcome⟩ := List.mem_map.mp hmem
    exact .inl ⟨call, hcall, houtcome⟩
  obtain ⟨hretired, -, htold, -⟩ := (undecodable_rows_settled
    hreached).2.2.2.2 [] lost [told] hanswered hlost
  refine ⟨_, lost, told, hreached, hanswered, hlost, hretired, ?_⟩
  rcases htold with ⟨hnil, -⟩ | ⟨other, hother, htells⟩
  · cases hnil
  · obtain rfl := (List.cons.inj hother).1
    exact htells

end DecodeSystem

end Fetcher

end ApalisPostgres
