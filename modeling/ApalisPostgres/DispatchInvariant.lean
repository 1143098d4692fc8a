/-
What is known of the dispatches of a name that is not retired.  A `Running`
row has a dispatch that still answers for it; a dispatch that answers for a
claim has its obligation armed; and a record that is acknowledged speaks for a
claim whose row was left.
-/
import ApalisPostgres.Dispatch

namespace ApalisPostgres

namespace DispatchSystem

/-- The row is active under the claim. -/
def Under (system : DispatchSystem) (epoch : Epoch) : Prop :=
  ∃ row, system.rows epoch.taskId = some row ∧ row.epoch epoch.taskId = epoch

/-- The row is `Running` under the claim. -/
def Running (system : DispatchSystem) (epoch : Epoch) : Prop :=
  ∃ row, system.rows epoch.taskId = some row ∧
    row.epoch epoch.taskId = epoch ∧ row.running = true

theorem Running.under {system : DispatchSystem} {epoch : Epoch}
    (h : system.Running epoch) : system.Under epoch := by
  obtain ⟨row, hrow, hepoch, _⟩ := h
  exact ⟨row, hrow, hepoch⟩

/-- A dispatch in this stage answers for the claim it holds. -/
def answers : Stage → Bool
  | .starting _ (some .matched) => true
  | .starting _ (some .failed) => true
  | .locking _ (some (.locked _ _)) => true
  | .locking _ (some .unknown) => true
  | .handling => true
  | .serializing _ _ => true
  | .acknowledging _ _ _ => true
  | _ => false

/-- The start matches no row but one that is active under the claim. -/
def PinnedTo (claim : StartClaim) (epoch : Epoch) : Prop :=
  claim.taskId = epoch.taskId ∧ claim.lockAt = epoch.lockAt ∧
    claim.attempts = some (epoch.attempts : Int)

variable (worker : String) (queueOf : String → String)

/-- The record a dispatch carries is the record of the claim it holds. -/
def Recorded (shared : Shared) (dispatch : Dispatch) : Prop :=
  ∀ record, dispatch.record = some record →
    ∃ markers, shared.records record = some markers ∧
      markers.owner = worker ∧ dispatch.held = some markers.epoch

/-- The record of a dispatch that got past its start says so. -/
def Started (shared : Shared) (dispatch : Dispatch) : Prop :=
  ∀ record, dispatch.record = some record →
    ∃ markers, shared.records record = some markers ∧
      markers.owner = worker ∧ dispatch.held = some markers.epoch ∧
      markers.started = true

/-- A dispatch whose handler may run: both obligations speak for its claim. -/
structure Handling (shared : Shared) (dispatch : Dispatch) : Prop where
  guard : dispatch.guard = ⟨true, dispatch.record⟩
  lockBy : dispatch.parts.ctx.lockBy = some worker
  started : Started worker shared dispatch

/-- A claim the dispatch no longer answers for is run by another one. -/
def Settled (system : DispatchSystem) (dispatch : Dispatch) : Prop :=
  ∀ epoch, dispatch.held = some epoch → system.Under epoch →
    system.Running epoch

/-- What a request that was claimed before brings along. -/
structure Preclaimed (shared : Shared) (dispatch : Dispatch) : Prop where
  armed : dispatch.guard.armed = true ∨ dispatch.isAcknowledged shared = true
  queue : ∀ taskId queue, dispatch.parts.taskId = some taskId →
    dispatch.parts.ctx.queue = some queue → queue = queueOf taskId
  record : ∀ record, dispatch.record = some record →
    ∃ markers, shared.records record = some markers ∧
      markers.owner = worker ∧ dispatch.held = some markers.epoch ∧
      dispatch.parts.claim = some ⟨some markers.epoch.taskId,
        some markers.epoch.lockAt, markers.epoch.attempts⟩
  bare : dispatch.record = none → dispatch.parts.claim = none ∧
    ∀ epoch, dispatch.held = some epoch →
      dispatch.parts.ctx.lockAt = some epoch.lockAt

/-- A request before its first poll; without a claim it holds nothing. -/
structure Requested (shared : Shared) (dispatch : Dispatch) : Prop where
  guard : dispatch.guard.claim = dispatch.record
  preclaimed : dispatch.preclaimed worker = true →
    Preclaimed worker queueOf shared dispatch
  free : dispatch.preclaimed worker = false → dispatch.held = none

/-- A dispatch that waits for its start: the statement is pinned to the claim
of its record; without a record it starts what the owner and the timestamp
name. -/
structure Starting (shared : Shared) (dispatch : Dispatch)
    (claim : StartClaim) : Prop where
  guard : dispatch.guard = ⟨true, dispatch.record⟩
  lockBy : dispatch.parts.ctx.lockBy = some worker
  recorded : Recorded worker shared dispatch
  taskId : dispatch.parts.taskId = some claim.taskId
  queue : claim.queue = queueOf claim.taskId
  lockAt : ∀ epoch, dispatch.held = some epoch → claim.lockAt = epoch.lockAt
  pinned : ∀ record, dispatch.record = some record →
    ∀ epoch, dispatch.held = some epoch →
      claim.attempts = some (epoch.attempts : Int)
  bare : dispatch.record = none →
    claim.attempts = none ∧ claim.restart = true

/-- A dispatch that waits for its lock. -/
structure Locking (dispatch : Dispatch) (taskId : String)
    (reply : Option LockReply) : Prop where
  guard : dispatch.guard = ⟨true, dispatch.record⟩
  task : dispatch.parts.taskId = some taskId
  free : reply = none ∨ reply = some .refused → dispatch.held = none
  locked : ∀ ctx attempt, reply = some (.locked ctx attempt) →
    ctx.lockBy = some worker ∧ ∃ lockAt, ctx.lockAt = some lockAt ∧
      dispatch.held = some ⟨taskId, lockAt, attempt⟩

/-- What is known of a dispatch in each stage, while the name is live. -/
def Sound (system : DispatchSystem) (dispatch : Dispatch) : Prop :=
  match dispatch.stage with
  | .created => Requested worker queueOf system.shared dispatch
  | .starting claim reply =>
      Starting worker queueOf system.shared dispatch claim ∧
      (reply = some .unmatched → Settled system dispatch)
  | .locking taskId reply => Locking worker dispatch taskId reply
  | .handling => Handling worker system.shared dispatch
  | .serializing ackGuard _ => Handling worker system.shared dispatch ∧
      ackGuard = ⟨true, dispatch.record⟩
  | .acknowledging ackGuard update reply =>
      Handling worker system.shared dispatch ∧
      ackGuard = ⟨true, dispatch.record⟩ ∧
      dispatch.parts.taskId = some update.taskId ∧
      (reply = some .acknowledged →
        ∀ epoch, dispatch.held = some epoch → ¬ system.Under epoch)
  | .ended (some (.start claim)) => Settled system dispatch ∧
      ∃ epoch ∈ system.used, PinnedTo claim epoch ∧ ¬ system.Under epoch
  | .ended (some (.lock _)) => False
  | .ended _ => Settled system dispatch

/-- The invariant of a live name. -/
structure Live (system : DispatchSystem) : Prop where
  acknowledged : ∀ record markers, system.shared.records record = some markers →
    markers.owner = worker → markers.done = true →
    ¬ system.Under markers.epoch
  recorded : ∀ record markers, system.shared.records record = some markers →
    markers.owner = worker → markers.epoch ∈ system.used
  owned : ∀ taskId row, system.rows taskId = some row →
    row.epoch taskId ∈ system.used
  held : ∀ n dispatch epoch, system.dispatches n = some dispatch →
    dispatch.held = some epoch →
    epoch ∈ system.used ∧ dispatch.parts.taskId = some epoch.taskId
  sound : ∀ n dispatch, system.dispatches n = some dispatch →
    Sound worker queueOf system dispatch
  running : ∀ epoch, system.Running epoch →
    ∃ n dispatch, system.dispatches n = some dispatch ∧
      dispatch.held = some epoch ∧ answers dispatch.stage = true

/-- A record keeps its claim, and what is marked stays marked. -/
structure Grows (markers later : ClaimMarkers) : Prop where
  owner : later.owner = markers.owner
  epoch : later.epoch = markers.epoch
  started : markers.started = true → later.started = true
  done : markers.done = true → later.done = true

theorem Grows.refl (markers : ClaimMarkers) : Grows markers markers :=
  ⟨rfl, rfl, id, id⟩

/-- No record disappears and none loses a marker. -/
def Keeps (before after : Shared) : Prop :=
  ∀ record markers, before.records record = some markers →
    ∃ later, after.records record = some later ∧ Grows markers later

theorem Keeps.refl (shared : Shared) : Keeps shared shared :=
  fun _ markers h => ⟨markers, h, .refl markers⟩

/-- What every event of a live name keeps for everybody else: records keep
their claim and their markers, an epoch that was used does not come back, and
a `Running` row stays `Running` for as long as its claim lasts. -/
structure Extends (before after : DispatchSystem) : Prop where
  records : Keeps before.shared after.shared
  used : ∀ epoch ∈ before.used, epoch ∈ after.used
  under : ∀ epoch ∈ before.used, after.Under epoch → before.Under epoch
  running : ∀ epoch, before.Running epoch → after.Under epoch →
    after.Running epoch

theorem extends_setDispatch (system : DispatchSystem) (n : Nat)
    (next : Dispatch) : Extends system (system.setDispatch n next) :=
  ⟨.refl _, fun _ h => h, fun _ _ h => h, fun _ h _ => h⟩

theorem Extends.acknowledged {before after : DispatchSystem}
    (h : Extends before after) {record : Option Nat}
    (hacked : record.any before.shared.isAcknowledged = true) :
    record.any after.shared.isAcknowledged = true := by
  obtain ⟨id, rfl, hdone⟩ := (Option.any_eq_true _ _).mp hacked
  obtain ⟨markers, hmarkers, hmarked⟩ := (Option.any_eq_true _ _).mp hdone
  obtain ⟨later, hlater, hgrows⟩ := h.records id markers hmarkers
  simp [Shared.isAcknowledged, hlater, hgrows.done hmarked]

variable {worker queueOf}

theorem Extends.started {before after : DispatchSystem}
    (h : Extends before after) {dispatch : Dispatch}
    (hstarted : Started worker before.shared dispatch) :
    Started worker after.shared dispatch := by
  intro record hrecord
  obtain ⟨markers, hmarkers, howner, hheld, hmarked⟩ := hstarted record hrecord
  obtain ⟨later, hlater, hgrows⟩ := h.records record markers hmarkers
  exact ⟨later, hlater, hgrows.owner.trans howner, by rw [hheld, hgrows.epoch],
    hgrows.started hmarked⟩

theorem Extends.handling {before after : DispatchSystem}
    (h : Extends before after) {dispatch : Dispatch}
    (hhandling : Handling worker before.shared dispatch) :
    Handling worker after.shared dispatch :=
  ⟨hhandling.guard, hhandling.lockBy, h.started hhandling.started⟩

theorem Keeps.recorded {before after : Shared} (h : Keeps before after)
    {dispatch : Dispatch} (hrecorded : Recorded worker before dispatch) :
    Recorded worker after dispatch := by
  intro record hrecord
  obtain ⟨markers, hmarkers, howner, hheld⟩ := hrecorded record hrecord
  obtain ⟨later, hlater, hgrows⟩ := h record markers hmarkers
  exact ⟨later, hlater, hgrows.owner.trans howner, by rw [hheld, hgrows.epoch]⟩

theorem Extends.starting {before after : DispatchSystem}
    (h : Extends before after) {dispatch : Dispatch} {claim : StartClaim}
    (hstarting : Starting worker queueOf before.shared dispatch claim) :
    Starting worker queueOf after.shared dispatch claim :=
  { hstarting with recorded := h.records.recorded hstarting.recorded }

theorem Extends.preclaimed {before after : DispatchSystem}
    (h : Extends before after) {dispatch : Dispatch}
    (hpreclaimed : Preclaimed worker queueOf before.shared dispatch) :
    Preclaimed worker queueOf after.shared dispatch := by
  refine ⟨?_, hpreclaimed.queue, ?_, hpreclaimed.bare⟩
  · rcases hpreclaimed.armed with harmed | hacked
    · exact Or.inl harmed
    · exact Or.inr (h.acknowledged hacked)
  · intro record hrecord
    obtain ⟨markers, hmarkers, howner, hheld, hclaim⟩ :=
      hpreclaimed.record record hrecord
    obtain ⟨later, hlater, hgrows⟩ := h.records record markers hmarkers
    refine ⟨later, hlater, hgrows.owner.trans howner, ?_, ?_⟩
    · rw [hgrows.epoch]
      exact hheld
    · rw [hgrows.epoch]
      exact hclaim

theorem Extends.settled {before after : DispatchSystem}
    (h : Extends before after) {dispatch : Dispatch}
    (hused : ∀ epoch, dispatch.held = some epoch → epoch ∈ before.used)
    (hsettled : Settled before dispatch) : Settled after dispatch := by
  intro epoch hheld hunder
  have hbefore := h.under epoch (hused epoch hheld) hunder
  exact h.running epoch (hsettled epoch hheld hbefore) hunder

/-- A dispatch an event does not touch stays as it is known. -/
theorem Extends.sound {before after : DispatchSystem}
    (h : Extends before after) {dispatch : Dispatch}
    (hused : ∀ epoch, dispatch.held = some epoch → epoch ∈ before.used)
    (hsound : Sound worker queueOf before dispatch) : Sound worker queueOf after dispatch := by
  unfold Sound at hsound ⊢
  split
  · rename_i hstage
    rw [hstage] at hsound
    exact ⟨hsound.guard, fun hpreclaimed =>
      h.preclaimed (hsound.preclaimed hpreclaimed), hsound.free⟩
  · rename_i claim reply hstage
    rw [hstage] at hsound
    obtain ⟨hstarting, hsettled⟩ := hsound
    exact ⟨h.starting hstarting, fun hreply => h.settled hused (hsettled hreply)⟩
  · rename_i hstage
    rw [hstage] at hsound
    exact hsound
  · rename_i hstage
    rw [hstage] at hsound
    exact h.handling hsound
  · rename_i hstage
    rw [hstage] at hsound
    exact ⟨h.handling hsound.1, hsound.2⟩
  · rename_i hstage
    rw [hstage] at hsound
    obtain ⟨hhandling, hack, htask, hreplied⟩ := hsound
    refine ⟨h.handling hhandling, hack, htask, ?_⟩
    intro hreply epoch hheld hunder
    exact hreplied hreply epoch hheld
      (h.under epoch (hused epoch hheld) hunder)
  · rename_i hstage
    rw [hstage] at hsound
    obtain ⟨hsettled, epoch, hepoch, hpinned, hnot⟩ := hsound
    exact ⟨h.settled hused hsettled, epoch, h.used epoch hepoch, hpinned,
      fun hunder => hnot (h.under epoch hepoch hunder)⟩
  · rename_i hstage
    rw [hstage] at hsound
    exact hsound
  · rename_i hstart hlock hstage
    rw [hstage] at hsound
    split at hsound
    all_goals first
      | exact h.settled hused hsound
      | simp_all

theorem insert_cases {shared : Shared} {record other : Nat}
    {markers found : ClaimMarkers}
    (h : (shared.insert record markers).records other = some found) :
    found = markers ∨ shared.records other = some found := by
  by_cases hother : other = record
  · simp only [Shared.insert, hother, if_true, Option.some.injEq] at h
    exact Or.inl h.symm
  · simp only [Shared.insert, hother, if_false] at h
    exact Or.inr h

theorem keeps_insert {shared : Shared} {record : Nat} {markers : ClaimMarkers}
    (hfree : shared.records record = none) :
    Keeps shared (shared.insert record markers) := by
  intro other old hold
  have hother : other ≠ record := by
    rintro rfl
    simp [hfree] at hold
  exact ⟨old, by simp [Shared.insert, hother, hold], .refl old⟩

/-- A segment marks a record of the system and makes none. -/
structure Marks (before after : Shared) : Prop where
  kept : Keeps before after
  known : ∀ record later, after.records record = some later →
    ∃ markers, before.records record = some markers ∧ Grows markers later

theorem Marks.refl (shared : Shared) : Marks shared shared :=
  ⟨.refl shared, fun _ markers h => ⟨markers, h, .refl markers⟩⟩

theorem Marks.of_mark {shared : Shared} {record : Option Nat}
    {change : ClaimMarkers → ClaimMarkers}
    (hchange : ∀ markers, Grows markers (change markers)) :
    Marks shared (shared.mark change record) := by
  constructor
  · intro id markers hmarkers
    by_cases hrecord : record = some id
    · exact ⟨change markers, by simp [Shared.mark, hrecord, hmarkers],
        hchange markers⟩
    · exact ⟨markers, by simp [Shared.mark, hrecord, hmarkers], .refl markers⟩
  · intro id later hlater
    by_cases hrecord : record = some id
    · simp only [Shared.mark, hrecord, if_true, Option.map_eq_some_iff] at hlater
      obtain ⟨markers, hmarkers, rfl⟩ := hlater
      exact ⟨markers, hmarkers, hchange markers⟩
    · simp only [Shared.mark, hrecord, if_false] at hlater
      exact ⟨later, hlater, .refl later⟩

theorem marks_started (shared : Shared) (record : Option Nat) :
    Marks shared (shared.markStarted record) :=
  .of_mark fun _ => ⟨rfl, rfl, fun _ => rfl, fun h => h⟩

theorem marks_startAttempted (shared : Shared) (record : Option Nat) :
    Marks shared (shared.markStartAttempted record) :=
  .of_mark fun _ => ⟨rfl, rfl, fun h => h, fun h => h⟩

theorem marks_acknowledged (shared : Shared) (record : Option Nat) :
    Marks shared (shared.markAcknowledged record) :=
  .of_mark fun _ => ⟨rfl, rfl, fun h => h, fun _ => rfl⟩

/-- A marker of the start acknowledges nothing. -/
theorem mark_isAcknowledged {change : ClaimMarkers → ClaimMarkers}
    (hdone : ∀ markers, (change markers).done = markers.done)
    (shared : Shared) (record : Option Nat) (other : Nat) :
    (shared.mark change record).isAcknowledged other =
      shared.isAcknowledged other := by
  unfold Shared.isAcknowledged Shared.mark
  by_cases hrecord : record = some other
  · cases hmarkers : shared.records other with
    | none => simp [hmarkers]
    | some markers => simp [hrecord, hmarkers, hdone]
  · simp [hrecord]

@[simp]
theorem markStarted_isAcknowledged (shared : Shared) (record : Option Nat)
    (other : Nat) : (shared.markStarted record).isAcknowledged other =
      shared.isAcknowledged other := by
  unfold Shared.markStarted
  rw [mark_isAcknowledged]
  exact fun _ => rfl

@[simp]
theorem markStartAttempted_isAcknowledged (shared : Shared)
    (record : Option Nat) (other : Nat) :
    (shared.markStartAttempted record).isAcknowledged other =
      shared.isAcknowledged other := by
  unfold Shared.markStartAttempted
  rw [mark_isAcknowledged]
  exact fun _ => rfl

/-- Whoever drops an obligation without retiring the name had disarmed it, or
its record is acknowledged. -/
theorem drop_cases (guard : ClaimObligation) (shared : Shared) :
    (guard.drop shared).retired = true ∨
      (guard.drop shared = shared ∧
        (guard.armed = false ∨
          guard.claim.any shared.isAcknowledged = true)) := by
  unfold ClaimObligation.drop
  by_cases hacked : guard.claim.any shared.isAcknowledged = true
  · exact Or.inr ⟨by simp [hacked, ClaimObligation.disarm], Or.inr hacked⟩
  · by_cases harmed : guard.armed = true
    · left
      simp [hacked, harmed, Shared.retire]
    · right
      exact ⟨by simp [hacked, harmed], Or.inl (by simpa using harmed)⟩

theorem drop_retired {guard : ClaimObligation} {shared : Shared}
    (h : shared.retired = true) : (guard.drop shared).retired = true := by
  rcases drop_cases guard shared with hretired | ⟨hsame, _⟩
  · exact hretired
  · rw [hsame]
    exact h

/-- The invariant of a name: retired, or live and sound. -/
def Guarded (worker : String) (queueOf : String → String)
    (system : DispatchSystem) : Prop :=
  system.shared.retired = true ∨ Live worker queueOf system

section

variable {system : DispatchSystem}

/-- An event that touches no dispatch. -/
theorem Live.extend {after : DispatchSystem}
    (h : Live worker queueOf system) (hextends : Extends system after)
    (hdispatches : after.dispatches = system.dispatches)
    (hacknowledged : ∀ record markers,
      after.shared.records record = some markers → markers.owner = worker →
      markers.done = true → ¬ after.Under markers.epoch)
    (hrecorded : ∀ record markers,
      after.shared.records record = some markers → markers.owner = worker →
      markers.epoch ∈ after.used)
    (howned : ∀ taskId row, after.rows taskId = some row →
      row.epoch taskId ∈ after.used)
    (hrunning : ∀ epoch, after.Running epoch → system.Running epoch) :
    Live worker queueOf after := by
  refine ⟨hacknowledged, hrecorded, howned, ?_, ?_, ?_⟩
  · intro n dispatch epoch hdispatch hheld
    rw [hdispatches] at hdispatch
    obtain ⟨hused, htask⟩ := h.held n dispatch epoch hdispatch hheld
    exact ⟨hextends.used epoch hused, htask⟩
  · intro n dispatch hdispatch
    rw [hdispatches] at hdispatch
    exact hextends.sound (fun epoch hheld => (h.held n dispatch epoch hdispatch
      hheld).1) (h.sound n dispatch hdispatch)
  · intro epoch hepoch
    rw [hdispatches]
    exact h.running epoch (hrunning epoch hepoch)

variable (n : Nat) (next : Dispatch)

theorem setDispatch_cases {m : Nat} {other : Dispatch}
    (h : (system.setDispatch n next).dispatches m = some other) :
    (m = n ∧ other = next) ∨ (m ≠ n ∧ system.dispatches m = some other) := by
  by_cases hm : m = n
  · left
    simp only [setDispatch, hm, if_true, Option.some.injEq] at h
    exact ⟨hm, h.symm⟩
  · right
    simp only [setDispatch, hm, if_false] at h
    exact ⟨hm, h⟩

theorem setDispatch_other {m : Nat} {other : Dispatch} (hm : m ≠ n)
    (h : system.dispatches m = some other) :
    (system.setDispatch n next).dispatches m = some other := by
  simp [setDispatch, hm, h]

theorem setDispatch_self :
    (system.setDispatch n next).dispatches n = some next := by
  simp [setDispatch]

/-- An event that moves one dispatch, without leaving a `Running` row the
dispatch answered for. -/
theorem Live.update {after : DispatchSystem} (h : Live worker queueOf system)
    (hextends : Extends system after)
    (hdispatches : after.dispatches = (system.setDispatch n next).dispatches)
    (hacknowledged : ∀ record markers,
      after.shared.records record = some markers → markers.owner = worker →
      markers.done = true → ¬ after.Under markers.epoch)
    (hrecorded : ∀ record markers,
      after.shared.records record = some markers → markers.owner = worker →
      markers.epoch ∈ after.used)
    (howned : ∀ taskId row, after.rows taskId = some row →
      row.epoch taskId ∈ after.used)
    (hheld : ∀ epoch, next.held = some epoch →
      epoch ∈ after.used ∧ next.parts.taskId = some epoch.taskId)
    (hsound : Sound worker queueOf after next)
    (hrunning : ∀ epoch, after.Running epoch →
      (next.held = some epoch ∧ answers next.stage = true) ∨
      (system.Running epoch ∧ ∀ dispatch, system.dispatches n = some dispatch →
        dispatch.held = some epoch → answers dispatch.stage = false)) :
    Live worker queueOf after := by
  refine ⟨hacknowledged, hrecorded, howned, ?_, ?_, ?_⟩
  · intro m other epoch hother hepoch
    rw [hdispatches] at hother
    rcases setDispatch_cases n next hother with ⟨_, rfl⟩ | ⟨_, hold⟩
    · exact hheld epoch hepoch
    · obtain ⟨hused, htask⟩ := h.held m other epoch hold hepoch
      exact ⟨hextends.used epoch hused, htask⟩
  · intro m other hother
    rw [hdispatches] at hother
    rcases setDispatch_cases n next hother with ⟨_, rfl⟩ | ⟨_, hold⟩
    · exact hsound
    · exact hextends.sound (fun epoch hepoch => (h.held m other epoch hold
        hepoch).1) (h.sound m other hold)
  · intro epoch hepoch
    rw [hdispatches]
    rcases hrunning epoch hepoch with ⟨hholds, hanswers⟩ | ⟨hbefore, hother⟩
    · exact ⟨n, next, setDispatch_self n next, hholds, hanswers⟩
    · obtain ⟨m, answerer, hanswerer, hholds, hanswers⟩ :=
        h.running epoch hbefore
      have hm : m ≠ n := by
        rintro rfl
        have hsilent := hother answerer hanswerer hholds
        simp [hsilent] at hanswers
      exact ⟨m, answerer, setDispatch_other n next hm hanswerer, hholds,
        hanswers⟩

variable {n next} {dispatch : Dispatch}

@[simp]
theorem setRow_self (taskId : String) (row : Option OwnedRow) :
    (system.setRow taskId row).rows taskId = row := by
  simp [setRow]

@[simp]
theorem setRow_other {taskId other : String} (row : Option OwnedRow)
    (h : other ≠ taskId) :
    (system.setRow taskId row).rows other = system.rows other := by
  simp [setRow, h]

theorem setRow_under {taskId : String} {row : Option OwnedRow} {epoch : Epoch}
    (h : (system.setRow taskId row).Under epoch) :
    (epoch.taskId = taskId ∧ ∃ owned, row = some owned ∧
      owned.epoch taskId = epoch) ∨
    (epoch.taskId ≠ taskId ∧ system.Under epoch) := by
  obtain ⟨owned, howned, hepoch⟩ := h
  by_cases htask : epoch.taskId = taskId
  · rw [htask, setRow_self] at howned
    rw [htask] at hepoch
    exact Or.inl ⟨htask, owned, howned, hepoch⟩
  · rw [setRow_other row htask] at howned
    exact Or.inr ⟨htask, owned, howned, hepoch⟩

theorem setRow_running {taskId : String} {row : Option OwnedRow}
    {epoch : Epoch} (h : (system.setRow taskId row).Running epoch) :
    (∃ owned, row = some owned ∧ owned.running = true ∧
      owned.epoch taskId = epoch) ∨
    (epoch.taskId ≠ taskId ∧ system.Running epoch) := by
  obtain ⟨owned, howned, hepoch, hrunning⟩ := h
  by_cases htask : epoch.taskId = taskId
  · rw [htask, setRow_self] at howned
    rw [htask] at hepoch
    exact Or.inl ⟨owned, howned, hrunning, hepoch⟩
  · rw [setRow_other row htask] at howned
    exact Or.inr ⟨htask, owned, howned, hepoch, hrunning⟩

theorem setRow_used {taskId : String} {row : Option OwnedRow} {epoch : Epoch}
    (h : epoch ∈ system.used) : epoch ∈ (system.setRow taskId row).used := by
  cases row with
  | none => exact h
  | some owned => exact List.mem_cons_of_mem _ h

/-- A row is left, taken under an epoch nobody had, or kept under its epoch
and not stopped. -/
theorem setRow_extends {taskId : String} {row : Option OwnedRow}
    (hunder : ∀ owned, row = some owned →
      owned.epoch taskId ∈ system.used → system.Under (owned.epoch taskId))
    (hrunning : ∀ owned old, row = some owned →
      system.rows taskId = some old → old.running = true →
      owned.running = true) :
    Extends system (system.setRow taskId row) := by
  refine ⟨.refl _, fun _ hused => setRow_used hused, ?_, ?_⟩
  · intro epoch hused hafter
    rcases setRow_under hafter with ⟨_, owned, howned, rfl⟩ | ⟨_, hbefore⟩
    · exact hunder owned howned hused
    · exact hbefore
  · rintro epoch ⟨old, hold, hepoch, hran⟩ ⟨owned, howned, hafter⟩
    refine ⟨owned, howned, hafter, ?_⟩
    by_cases htask : epoch.taskId = taskId
    · rw [htask, setRow_self] at howned
      rw [htask] at hold
      exact hrunning owned old howned hold hran
    · rw [setRow_other row htask, hold] at howned
      cases howned
      exact hran

theorem Live.owned_setRow {taskId : String} {row : Option OwnedRow}
    (h : Live worker queueOf system) :
    ∀ other owned, (system.setRow taskId row).rows other = some owned →
      owned.epoch other ∈ (system.setRow taskId row).used := by
  intro other owned howned
  by_cases htask : other = taskId
  · subst htask
    rw [setRow_self] at howned
    subst howned
    simp [DispatchSystem.setRow]
  · rw [setRow_other row htask] at howned
    exact setRow_used (h.owned other owned howned)

/-- An event that changes a row and moves one dispatch. -/
theorem Live.setRow {taskId : String} {row : Option OwnedRow}
    (h : Live worker queueOf system)
    (hextends : Extends system (system.setRow taskId row))
    (hheld : ∀ epoch, next.held = some epoch →
      epoch ∈ (system.setRow taskId row).used ∧
        next.parts.taskId = some epoch.taskId)
    (hsound : Sound worker queueOf (system.setRow taskId row) next)
    (hrunning : ∀ epoch, (system.setRow taskId row).Running epoch →
      (next.held = some epoch ∧ answers next.stage = true) ∨
      (system.Running epoch ∧ ∀ dispatch, system.dispatches n = some dispatch →
        dispatch.held = some epoch → answers dispatch.stage = false)) :
    Live worker queueOf ((system.setRow taskId row).setDispatch n next) := by
  refine h.update n next
    ⟨hextends.records, hextends.used, hextends.under, hextends.running⟩ rfl
    ?_ ?_ ?_ hheld hsound hrunning
  · intro record markers hmarkers howner hdone hunder
    exact h.acknowledged record markers hmarkers howner hdone
      (hextends.under _ (h.recorded record markers hmarkers howner) hunder)
  · intro record markers hmarkers howner
    exact setRow_used (h.recorded record markers hmarkers howner)
  · exact h.owned_setRow

/-- A segment between two awaits: it touches no row. -/
theorem Live.resume {shared : Shared} (h : Live worker queueOf system)
    (hdispatch : system.dispatches n = some dispatch)
    (hkeeps : Keeps system.shared shared)
    (hknown : ∀ record markers, shared.records record = some markers →
      markers.owner = worker → markers.epoch ∈ system.used)
    (hdone : ∀ record markers, shared.records record = some markers →
      markers.owner = worker → markers.done = true →
      ¬ system.Under markers.epoch)
    (hheld : next.held = dispatch.held)
    (htask : next.parts.taskId = dispatch.parts.taskId)
    (hsound : Sound worker queueOf { system with shared := shared } next)
    (hanswers : ∀ epoch, system.Running epoch → dispatch.held = some epoch →
      answers dispatch.stage = true → answers next.stage = true) :
    Live worker queueOf (system.resume n (shared, next)) := by
  refine h.update n next ?_ rfl hdone hknown h.owned ?_ hsound ?_
  · exact ⟨hkeeps, fun _ hused => hused, fun _ _ hunder => hunder,
      fun _ hrunning _ => hrunning⟩
  · intro epoch hepoch
    rw [hheld] at hepoch
    rw [htask]
    exact h.held n dispatch epoch hdispatch hepoch
  · intro epoch hrunning
    by_cases hholder : dispatch.held = some epoch ∧
        answers dispatch.stage = true
    · left
      exact ⟨hheld.trans hholder.1, hanswers epoch hrunning hholder.1
        hholder.2⟩
    · right
      refine ⟨hrunning, ?_⟩
      intro other hother hepoch
      rw [hdispatch] at hother
      cases hother
      exact Bool.eq_false_iff.mpr fun hstage => hholder ⟨hepoch, hstage⟩

theorem Live.known_of_marks {shared : Shared} (h : Live worker queueOf system)
    (hmarks : Marks system.shared shared) :
    ∀ record markers, shared.records record = some markers →
      markers.owner = worker → markers.epoch ∈ system.used := by
  intro record markers hmarkers howner
  obtain ⟨old, hold, hgrows⟩ := hmarks.known record markers hmarkers
  rw [hgrows.epoch]
  exact h.recorded record old hold (hgrows.owner.symm.trans howner)

/-- Without a new acknowledgement the acknowledged claims stay the same. -/
theorem Live.done_of_marks {shared : Shared} (h : Live worker queueOf system)
    (hmarks : Marks system.shared shared)
    (hsame : ∀ record, shared.isAcknowledged record =
      system.shared.isAcknowledged record) :
    ∀ record markers, shared.records record = some markers →
      markers.owner = worker → markers.done = true →
      ¬ system.Under markers.epoch := by
  intro record markers hmarkers howner hdone
  obtain ⟨old, hold, hgrows⟩ := hmarks.known record markers hmarkers
  have hacked : old.done = true := by
    have hrecord := hsame record
    simp only [Shared.isAcknowledged, hmarkers, hold, Option.any_some,
      hdone] at hrecord
    exact hrecord.symm
  rw [hgrows.epoch]
  exact h.acknowledged record old hold (hgrows.owner.symm.trans howner) hacked

/-- Nobody has to answer for the claim of this dispatch: it ended, or another
dispatch runs it. -/
def Quiet (system : DispatchSystem) (dispatch : Dispatch) : Prop :=
  ∀ epoch, dispatch.held = some epoch → system.Under epoch →
    system.Running epoch ∧ answers dispatch.stage = false

theorem Quiet.of_not_held (h : dispatch.held = none) :
    Quiet system dispatch := by
  intro epoch hheld
  simp [h] at hheld

/-- The record of an acknowledged claim speaks for a row that was left. -/
theorem Live.not_under_of_acknowledged (h : Live worker queueOf system)
    (hrecorded : Recorded worker system.shared dispatch)
    (hacked : dispatch.isAcknowledged system.shared = true) :
    ∃ epoch ∈ system.used, dispatch.held = some epoch ∧
      ¬ system.Under epoch := by
  obtain ⟨record, hrecord, hdone⟩ := (Option.any_eq_true _ _).mp hacked
  obtain ⟨markers, hmarkers, hmarked⟩ := (Option.any_eq_true _ _).mp hdone
  obtain ⟨same, hsame, howner, hheld⟩ := hrecorded record hrecord
  cases hmarkers.symm.trans hsame
  exact ⟨markers.epoch, h.recorded record markers hmarkers howner, hheld,
    h.acknowledged record markers hmarkers howner hmarked⟩

theorem Live.quiet_of_acknowledged (h : Live worker queueOf system)
    (hrecorded : Recorded worker system.shared dispatch)
    (hacked : dispatch.isAcknowledged system.shared = true) :
    Quiet system dispatch := by
  obtain ⟨epoch, _, hheld, hnot⟩ := h.not_under_of_acknowledged hrecorded hacked
  intro other hother hunder
  cases hheld.symm.trans hother
  exact absurd hunder hnot

/-- The dispatch ends here with its obligation dropped: the name is retired
unless the claim needs no answer. -/
theorem Live.ended {shared : Shared} {guard : ClaimObligation}
    {detached : Option Detached} (h : Live worker queueOf system)
    (hdispatch : system.dispatches n = some dispatch)
    (hmarks : Marks system.shared shared)
    (hdone : ∀ record markers, shared.records record = some markers →
      markers.owner = worker → markers.done = true →
      ¬ system.Under markers.epoch)
    (hquiet : guard.armed = false ∨
      guard.claim.any shared.isAcknowledged = true → Quiet system dispatch)
    (hdetached : guard.armed = false ∨
      guard.claim.any shared.isAcknowledged = true →
      ∀ next : Dispatch, next.stage = .ended detached → Settled system next →
        Sound worker queueOf { system with shared := shared } next)
    (hnext : next.held = dispatch.held ∧
      next.parts.taskId = dispatch.parts.taskId ∧
      next.stage = .ended detached) :
    Guarded worker queueOf (system.resume n (guard.drop shared, next)) := by
  rcases drop_cases guard shared with hretired | ⟨hsame, hdropped⟩
  · exact Or.inl hretired
  · right
    rw [hsame]
    have hsilent := hquiet hdropped
    refine h.resume hdispatch hmarks.kept (h.known_of_marks hmarks) hdone
      hnext.1 hnext.2.1 ?_ ?_
    · refine hdetached hdropped next hnext.2.2 ?_
      intro epoch hheld hunder
      rw [hnext.1] at hheld
      exact (hsilent epoch hheld hunder).1
    · intro epoch hrunning hheld hanswers
      have hstage := (hsilent epoch hheld hrunning.under).2
      simp [hanswers] at hstage

end

end DispatchSystem

end ApalisPostgres
