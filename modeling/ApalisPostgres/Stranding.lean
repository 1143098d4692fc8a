/-
No claim is stranded behind a live local lease.  Every event of a dispatch,
and every place where its future can be dropped, keeps what is known of a live
name, or retires the name.
-/
import ApalisPostgres.DispatchInvariant
import ApalisPostgres.Operations

namespace ApalisPostgres

namespace DispatchSystem

variable {worker token : String} {queueOf : String → String}

section

variable {system : DispatchSystem} {n : Nat} {dispatch : Dispatch}

theorem sound_ended_none {next : Dispatch} (hstage : next.stage = .ended none)
    (hsettled : Settled system next) : Sound worker queueOf system next := by
  unfold Sound
  rw [hstage]
  exact hsettled

theorem Live.finish {shared : Shared} {guard : ClaimObligation}
    (h : Live worker queueOf system)
    (hdispatch : system.dispatches n = some dispatch)
    (hmarks : Marks system.shared shared)
    (hdone : ∀ record markers, shared.records record = some markers →
      markers.owner = worker → markers.done = true →
      ¬ system.Under markers.epoch)
    (hquiet : guard.armed = false ∨
      guard.claim.any shared.isAcknowledged = true → Quiet system dispatch) :
    Guarded worker queueOf (system.resume n (dispatch.finish shared guard)) :=
  h.ended hdispatch hmarks hdone hquiet
    (fun _ _ hstage hsettled => sound_ended_none hstage hsettled)
    ⟨rfl, rfl, rfl⟩

theorem Live.finish_here {guard : ClaimObligation}
    (h : Live worker queueOf system)
    (hdispatch : system.dispatches n = some dispatch)
    (hquiet : guard.armed = false ∨
      guard.claim.any system.shared.isAcknowledged = true →
      Quiet system dispatch) :
    Guarded worker queueOf
      (system.resume n (dispatch.finish system.shared guard)) :=
  h.finish hdispatch (.refl _) h.acknowledged hquiet

theorem Live.finishAck {shared : Shared} {ackGuard : ClaimObligation}
    (h : Live worker queueOf system)
    (hdispatch : system.dispatches n = some dispatch)
    (hmarks : Marks system.shared shared)
    (hdone : ∀ record markers, shared.records record = some markers →
      markers.owner = worker → markers.done = true →
      ¬ system.Under markers.epoch)
    (hquiet : ackGuard.armed = false ∨
      ackGuard.claim.any shared.isAcknowledged = true →
      Quiet system dispatch) :
    Guarded worker queueOf
      (system.resume n (dispatch.finishAck shared ackGuard)) := by
  unfold Dispatch.finishAck
  rcases drop_cases ackGuard shared with hretired | ⟨hsame, hdropped⟩
  · exact Or.inl (drop_retired hretired)
  · rw [hsame]
    exact h.finish hdispatch hmarks hdone (fun _ => hquiet hdropped)

theorem Started.recorded {shared : Shared}
    (h : Started worker shared dispatch) : Recorded worker shared dispatch := by
  intro record hrecord
  obtain ⟨markers, hmarkers, howner, hheld, _⟩ := h record hrecord
  exact ⟨markers, hmarkers, howner, hheld⟩

theorem Preclaimed.recorded {shared : Shared}
    (h : Preclaimed worker queueOf shared dispatch) :
    Recorded worker shared dispatch := by
  intro record hrecord
  obtain ⟨markers, hmarkers, howner, hheld, _⟩ := h.record record hrecord
  exact ⟨markers, hmarkers, howner, hheld⟩

/-- A request whose obligation can be dropped quietly. -/
theorem Live.quiet_of_requested (h : Live worker queueOf system)
    (hrequested : Requested worker queueOf system.shared dispatch)
    (hdropped : dispatch.guard.armed = false ∨
      dispatch.guard.claim.any system.shared.isAcknowledged = true) :
    Quiet system dispatch := by
  cases hpreclaimed : dispatch.preclaimed worker with
  | false => exact .of_not_held (hrequested.free hpreclaimed)
  | true =>
      have hclaimed := hrequested.preclaimed hpreclaimed
      have hacked : dispatch.isAcknowledged system.shared = true := by
        rcases hdropped with hdisarmed | hacked
        · rcases hclaimed.armed with harmed | hacked
          · simp [hdisarmed] at harmed
          · exact hacked
        · rw [hrequested.guard] at hacked
          exact hacked
      exact h.quiet_of_acknowledged hclaimed.recorded hacked

/-- An armed obligation for the dispatch's own record. -/
theorem Live.quiet_of_guard {guard : ClaimObligation}
    (h : Live worker queueOf system)
    (hguard : guard = ⟨true, dispatch.record⟩)
    (hrecorded : Recorded worker system.shared dispatch)
    (hdropped : guard.armed = false ∨
      guard.claim.any system.shared.isAcknowledged = true) :
    Quiet system dispatch := by
  subst hguard
  rcases hdropped with hdisarmed | hacked
  · cases hdisarmed
  · exact h.quiet_of_acknowledged hrecorded hacked

theorem Dispatch.lockBy_of_preclaimed
    (h : dispatch.preclaimed worker = true) :
    dispatch.parts.ctx.lockBy = some worker := by
  unfold Dispatch.preclaimed isPreclaimed at h
  cases hlockBy : dispatch.parts.ctx.lockBy with
  | none => simp [hlockBy] at h
  | some owner => simp_all

/-- The start of a request is pinned to the claim the request holds. -/
theorem Preclaimed.starting {shared after : Shared} {started : Bool}
    {claim : StartClaim} {stage : Stage}
    (h : Preclaimed worker queueOf shared dispatch)
    (hmarks : Marks shared after)
    (harmed : dispatch.guard = ⟨true, dispatch.record⟩)
    (hlockBy : dispatch.parts.ctx.lockBy = some worker)
    (hstarts : claim.Starts started dispatch.parts) :
    Starting worker queueOf after { dispatch with stage := stage } claim where
  guard := harmed
  lockBy := hlockBy
  recorded := hmarks.kept.recorded h.recorded
  taskId := hstarts.taskId
  queue := h.queue _ _ hstarts.taskId hstarts.queue
  lockAt := by
    intro epoch hheld
    have hlockAt := hstarts.lockAt
    unfold startLockAt at hlockAt
    cases hrecord : dispatch.record with
    | none =>
        obtain ⟨hclaim, hctx⟩ := h.bare hrecord
        have hepoch := hctx epoch hheld
        simp_all
    | some record =>
        obtain ⟨markers, _, _, hepoch, hclaim⟩ := h.record record hrecord
        simp_all
  pinned := by
    intro record hrecord epoch hheld
    obtain ⟨markers, _, _, hepoch, hclaim⟩ := h.record record hrecord
    obtain ⟨hattempts, _⟩ := hstarts.recorded _ hclaim
    simp_all
  bare := by
    intro hrecord
    exact hstarts.bare (h.bare hrecord).1

theorem beginStart_guarded (h : Live worker queueOf system)
    (hretired : system.shared.retired = false)
    (hdispatch : system.dispatches n = some dispatch)
    (hstage : dispatch.stage = .created)
    (hrequested : Requested worker queueOf system.shared dispatch)
    (hpreclaimed : dispatch.preclaimed worker = true) :
    Guarded worker queueOf
      (system.resume n (dispatch.beginStart worker token system.shared)) := by
  have hclaimed := hrequested.preclaimed hpreclaimed
  have hrecorded := hclaimed.recorded
  unfold Dispatch.beginStart
  by_cases hacked : dispatch.isAcknowledged system.shared = true
  · rw [if_pos hacked]
    exact h.finish_here hdispatch
      (fun _ => h.quiet_of_acknowledged hrecorded hacked)
  · have hattempted := marks_startAttempted system.shared dispatch.record
    have harmed : dispatch.guard = ⟨true, dispatch.record⟩ := by
      have hclaim := hrequested.guard
      rcases hclaimed.armed with harmed | hdone
      · cases hguard : dispatch.guard
        simp_all
      · exact absurd hdone hacked
    have hsame := markStartAttempted_isAcknowledged system.shared dispatch.record
    have hdone := h.done_of_marks hattempted hsame
    have hactive :
        (system.shared.markStartAttempted dispatch.record).retired = false :=
      hretired
    simp only [hacked, hactive, Bool.false_eq_true, if_false]
    cases hclaim : startClaim (some token) worker
        (dispatch.record.any system.shared.hasStarted) dispatch.parts with
    | error error =>
        refine h.finish hdispatch hattempted hdone ?_
        rw [harmed]
        rintro (hdisarmed | hagain)
        · cases hdisarmed
        · simp only [hsame, Option.any_eq_true] at hagain
          exact absurd ((Option.any_eq_true _ _).mpr hagain) hacked
    | ok claim =>
        right
        have hstarts := startClaim_ok hclaim
        refine h.resume hdispatch hattempted.kept (h.known_of_marks hattempted)
          hdone rfl rfl ⟨?_, fun hreply => by cases hreply⟩ ?_
        · exact hclaimed.starting hattempted harmed
            (Dispatch.lockBy_of_preclaimed hpreclaimed) hstarts
        · intro epoch _ _ hanswers
          simp [hstage, answers] at hanswers

theorem admission_guarded (h : Live worker queueOf system)
    (hretired : system.shared.retired = false)
    (hdispatch : system.dispatches n = some dispatch)
    (hstage : dispatch.stage = .created) :
    Guarded worker queueOf
      (system.resume n (dispatch.admission worker token system.shared)) := by
  have hrequested : Requested worker queueOf system.shared dispatch := by
    have hsound := h.sound n dispatch hdispatch
    unfold Sound at hsound
    rw [hstage] at hsound
    exact hsound
  unfold Dispatch.admission
  cases htask : dispatch.parts.taskId with
  | none => exact h.finish_here hdispatch (h.quiet_of_requested hrequested)
  | some taskId =>
      cases hpreclaimed : dispatch.preclaimed worker with
      | true =>
          by_cases hacked : dispatch.isAcknowledged system.shared = true
          · simp only [hacked, Bool.and_self, if_true]
            exact h.finish_here hdispatch (fun _ => h.quiet_of_acknowledged
              (hrequested.preclaimed hpreclaimed).recorded hacked)
          · simp only [hacked, Bool.and_false, Bool.false_eq_true, if_false,
              if_true]
            exact beginStart_guarded h hretired hdispatch hstage hrequested
              hpreclaimed
      | false =>
          simp only [hretired, Bool.false_and, Bool.false_eq_true, if_false]
          right
          have hfree := hrequested.free hpreclaimed
          refine h.resume hdispatch (.refl _) h.recorded h.acknowledged rfl rfl
            ⟨?_, htask, fun _ => hfree, fun _ _ hreply => by cases hreply⟩ ?_
          · simp [hrequested.guard]
          · intro epoch _ hheld
            simp [hfree] at hheld

theorem startReplied_guarded {claim : StartClaim} {reply : StartReply}
    (h : Live worker queueOf system)
    (hdispatch : system.dispatches n = some dispatch)
    (hstage : dispatch.stage = .starting claim (some reply)) :
    Guarded worker queueOf
      (system.resume n (dispatch.startReplied system.shared reply)) := by
  have hsound := h.sound n dispatch hdispatch
  unfold Sound at hsound
  rw [hstage] at hsound
  obtain ⟨hstarting, hsettled⟩ := hsound
  unfold Dispatch.startReplied
  cases reply with
  | failed =>
      exact h.finish_here hdispatch
        (h.quiet_of_guard hstarting.guard hstarting.recorded)
  | unmatched =>
      refine h.finish_here hdispatch (fun _ => ?_)
      intro epoch hheld hunder
      exact ⟨hsettled rfl epoch hheld hunder, by simp [hstage, answers]⟩
  | matched =>
      right
      have hmarks := marks_started system.shared dispatch.record
      have hdone := h.done_of_marks hmarks
        (markStarted_isAcknowledged system.shared dispatch.record)
      refine h.resume hdispatch hmarks.kept (h.known_of_marks hmarks) hdone rfl
        rfl ⟨hstarting.guard, hstarting.lockBy, ?_⟩ (fun _ _ _ _ => rfl)
      intro record hrecord
      obtain ⟨markers, hmarkers, howner, hheld⟩ :=
        hstarting.recorded record hrecord
      refine ⟨{ markers with started := true }, ?_, howner, hheld, rfl⟩
      simp only at hrecord
      simp [Shared.markStarted, Shared.mark, hrecord, hmarkers]

theorem lockReplied_guarded {taskId : String} {reply : LockReply} {fresh : Nat}
    (h : Live worker queueOf system)
    (hdispatch : system.dispatches n = some dispatch)
    (hstage : dispatch.stage = .locking taskId (some reply))
    (hfresh : system.shared.records fresh = none)
    (hcovered : reply = .unknown →
      dispatch.isAcknowledged system.shared = false) :
    Guarded worker queueOf
      (system.resume n
        (dispatch.lockReplied worker system.shared fresh reply)) := by
  have hlocking : Locking worker dispatch taskId (some reply) := by
    have hsound := h.sound n dispatch hdispatch
    unfold Sound at hsound
    rw [hstage] at hsound
    exact hsound
  unfold Dispatch.lockReplied
  cases reply with
  | refused =>
      exact h.finish_here hdispatch
        (fun _ => .of_not_held (hlocking.free (Or.inr rfl)))
  | unknown =>
      refine h.finish_here hdispatch ?_
      rw [hlocking.guard]
      rintro (hdisarmed | hacked)
      · cases hdisarmed
      · exact absurd hacked (Bool.eq_false_iff.mp (hcovered rfl))
  | locked ctx attempt =>
      right
      obtain ⟨hlockBy, lockAt, hlockAt, hheld⟩ := hlocking.locked ctx attempt rfl
      obtain ⟨hused, htask⟩ := h.held n dispatch _ hdispatch hheld
      refine h.resume hdispatch (keeps_insert hfresh) ?_ ?_ rfl rfl
        ⟨?_, hlockBy, ?_⟩ (fun _ _ _ _ => rfl)
      · intro record markers hmarkers howner
        rcases insert_cases hmarkers with rfl | hmarkers
        · simpa [ClaimMarkers.fresh, recordClaim, htask, hlockAt] using hused
        · exact h.recorded record markers hmarkers howner
      · intro record markers hmarkers howner hdone
        rcases insert_cases hmarkers with rfl | hmarkers
        · simp [ClaimMarkers.fresh] at hdone
        · exact h.acknowledged record markers hmarkers howner hdone
      · simp [hlocking.guard]
      · intro record hrecord
        cases hrecord
        refine ⟨_, by simp [Shared.insert]; rfl, rfl, ?_, rfl⟩
        simpa [ClaimMarkers.fresh, recordClaim, htask, hlockAt] using hheld

theorem handled_guarded {res : HandlerResult} (h : Live worker queueOf system)
    (hdispatch : system.dispatches n = some dispatch)
    (hstage : dispatch.stage = .handling) :
    Guarded worker queueOf
      (system.resume n (dispatch.handled worker system.shared res)) := by
  have hhandling : Handling worker system.shared dispatch := by
    have hsound := h.sound n dispatch hdispatch
    unfold Sound at hsound
    rw [hstage] at hsound
    exact hsound
  have hstarted : dispatch.record.any system.shared.startRefused = false := by
    cases hrecord : dispatch.record with
    | none => rfl
    | some record =>
        obtain ⟨markers, hmarkers, _, _, hmarked⟩ :=
          hhandling.started record hrecord
        simp [Shared.startRefused, ClaimMarkers.startRefused, hmarkers, hmarked]
  unfold Dispatch.handled
  simp only [hstarted, Bool.false_eq_true, if_false]
  right
  refine h.resume hdispatch (.refl _) h.recorded h.acknowledged rfl rfl
    ⟨⟨hhandling.guard, hhandling.lockBy, hhandling.started⟩, ?_⟩
    (fun _ _ _ _ => rfl)
  simp [hhandling.lockBy]

theorem serialized_guarded {ackGuard : ClaimObligation} {res : HandlerResult}
    (h : Live worker queueOf system)
    (hdispatch : system.dispatches n = some dispatch)
    (hstage : dispatch.stage = .serializing ackGuard res) :
    Guarded worker queueOf (system.resume n
      (dispatch.serialized token system.shared ackGuard res)) := by
  have hsound := h.sound n dispatch hdispatch
  unfold Sound at hsound
  rw [hstage] at hsound
  obtain ⟨hhandling, hguard⟩ := hsound
  have hrecorded := hhandling.started.recorded
  unfold Dispatch.serialized
  by_cases hacked : dispatch.isAcknowledged system.shared = true
  · rw [if_pos hacked]
    exact h.finishAck hdispatch (.refl _) h.acknowledged
      (fun _ => h.quiet_of_acknowledged hrecorded hacked)
  · rw [if_neg hacked]
    cases hupdate : ackUpdate (some token) res dispatch.parts with
    | error error =>
        exact h.finishAck hdispatch (.refl _) h.acknowledged
          (h.quiet_of_guard hguard hrecorded)
    | ok update =>
        right
        exact h.resume hdispatch (.refl _) h.recorded h.acknowledged rfl rfl
          ⟨⟨hhandling.guard, hhandling.lockBy, hhandling.started⟩, hguard,
            (ackUpdate_ok hupdate).taskId, fun hreply => by cases hreply⟩
          (fun _ _ _ _ => rfl)

theorem ackReplied_guarded {ackGuard : ClaimObligation}
    {update : AckTaskUpdate} {reply : AckReply}
    (h : Live worker queueOf system)
    (hdispatch : system.dispatches n = some dispatch)
    (hstage : dispatch.stage = .acknowledging ackGuard update (some reply)) :
    Guarded worker queueOf (system.resume n
      (dispatch.ackReplied system.shared ackGuard reply)) := by
  have hsound := h.sound n dispatch hdispatch
  unfold Sound at hsound
  rw [hstage] at hsound
  obtain ⟨hhandling, hguard, _, hleft⟩ := hsound
  have hrecorded := hhandling.started.recorded
  unfold Dispatch.ackReplied
  cases reply with
  | failed =>
      exact h.finishAck hdispatch (.refl _) h.acknowledged
        (h.quiet_of_guard hguard hrecorded)
  | acknowledged =>
      refine h.finishAck hdispatch (marks_acknowledged _ _) ?_ (fun _ => ?_)
      · intro record markers hmarkers howner hdone
        by_cases hrecord : dispatch.record = some record
        · obtain ⟨old, hold, _, hheld⟩ := hrecorded record hrecord
          simp only [Shared.markAcknowledged, Shared.mark, hrecord, if_true,
            hold, Option.map_some, Option.some.injEq] at hmarkers
          subst hmarkers
          exact hleft rfl old.epoch hheld
        · simp only [Shared.markAcknowledged, Shared.mark, hrecord,
            if_false] at hmarkers
          exact h.acknowledged record markers hmarkers howner hdone
      · intro epoch hheld hunder
        exact absurd hunder (hleft rfl epoch hheld)

/-- A dispatch that can be dropped without retiring the name. -/
theorem Live.quiet_of_dropped (h : Live worker queueOf system)
    (hdispatch : system.dispatches n = some dispatch)
    (hrunning : dispatch.isOver = false)
    (hcovered : ∀ taskId reply, dispatch.stage = .locking taskId reply →
      reply ≠ some .refused → dispatch.isAcknowledged system.shared = false)
    (hdropped : dispatch.guard.armed = false ∨
      dispatch.guard.claim.any system.shared.isAcknowledged = true) :
    Quiet system dispatch := by
  have hsound := h.sound n dispatch hdispatch
  unfold Sound at hsound
  cases hstage : dispatch.stage with
  | created =>
      rw [hstage] at hsound
      exact h.quiet_of_requested hsound hdropped
  | starting claim reply =>
      rw [hstage] at hsound
      exact h.quiet_of_guard hsound.1.guard hsound.1.recorded hdropped
  | locking taskId reply =>
      rw [hstage] at hsound
      by_cases hrefused : reply = some .refused
      · exact .of_not_held (hsound.free (Or.inr hrefused))
      · rw [hsound.guard] at hdropped
        rcases hdropped with hdisarmed | hacked
        · cases hdisarmed
        · have hnot := hcovered taskId reply hstage hrefused
          exact absurd hacked (Bool.eq_false_iff.mp hnot)
  | handling =>
      rw [hstage] at hsound
      exact h.quiet_of_guard hsound.guard hsound.started.recorded hdropped
  | serializing ackGuard res =>
      rw [hstage] at hsound
      exact h.quiet_of_guard hsound.1.guard hsound.1.started.recorded hdropped
  | acknowledging ackGuard update reply =>
      rw [hstage] at hsound
      exact h.quiet_of_guard hsound.1.guard hsound.1.started.recorded hdropped
  | ended detached => simp [Dispatch.isOver, hstage] at hrunning

/-- What a dropped dispatch leaves behind starts nothing. -/
theorem Live.sound_of_detached (h : Live worker queueOf system)
    (hdispatch : system.dispatches n = some dispatch)
    (hcovered : ∀ taskId reply, dispatch.stage = .locking taskId reply →
      reply ≠ some .refused → dispatch.isAcknowledged system.shared = false)
    (hdropped : dispatch.guard.armed = false ∨
      dispatch.guard.claim.any system.shared.isAcknowledged = true)
    {next : Dispatch} (hover : next.stage = .ended dispatch.detached)
    (hsettled : Settled system next) : Sound worker queueOf system next := by
  have hsound := h.sound n dispatch hdispatch
  unfold Sound at hsound
  cases hdetached : dispatch.detached with
  | none => exact sound_ended_none (hover.trans (by rw [hdetached])) hsettled
  | some statement =>
      unfold Sound
      rw [hover, hdetached]
      unfold Dispatch.detached at hdetached
      split at hdetached
      · rename_i claim hstage
        cases hdetached
        rw [hstage] at hsound
        obtain ⟨hstarting, _⟩ := hsound
        rw [hstarting.guard] at hdropped
        rcases hdropped with hdisarmed | hacked
        · cases hdisarmed
        · obtain ⟨epoch, hused, hepoch, hnot⟩ :=
            h.not_under_of_acknowledged hstarting.recorded hacked
          obtain ⟨record, hrecord, _⟩ := (Option.any_eq_true _ _).mp hacked
          have htask := hstarting.taskId.symm.trans
            (h.held n dispatch epoch hdispatch hepoch).2
          exact ⟨hsettled, epoch, hused, ⟨Option.some.inj htask,
            hstarting.lockAt epoch hepoch,
            hstarting.pinned record hrecord epoch hepoch⟩, hnot⟩
      · rename_i taskId hstage
        rw [hstage] at hsound
        rw [hsound.guard] at hdropped
        have hnot := hcovered taskId none hstage (by simp)
        rcases hdropped with hdisarmed | hacked
        · cases hdisarmed
        · exact absurd hacked (Bool.eq_false_iff.mp hnot)
      · cases hdetached
        exact hsettled
      · cases hdetached

theorem cancel_guarded (h : Live worker queueOf system)
    (hdispatch : system.dispatches n = some dispatch)
    (hrunning : dispatch.isOver = false)
    (hcovered : ∀ taskId reply, dispatch.stage = .locking taskId reply →
      reply ≠ some .refused → dispatch.isAcknowledged system.shared = false) :
    Guarded worker queueOf
      (system.resume n (dispatch.cancel system.shared)) := by
  unfold Dispatch.cancel
  rcases drop_cases dispatch.ackGuard system.shared with
    hretired | ⟨hsame, _⟩
  · exact Or.inl (drop_retired hretired)
  · rw [hsame]
    exact h.ended hdispatch (.refl _) h.acknowledged
      (h.quiet_of_dropped hdispatch hrunning hcovered)
      (fun hdropped next hover hsettled =>
        h.sound_of_detached hdispatch hcovered hdropped hover hsettled)
      ⟨rfl, rfl, rfl⟩

theorem setRow_none_extends (taskId : String) :
    Extends system (system.setRow taskId none) :=
  setRow_extends (by simp) (by simp)

theorem setRow_none_running {taskId : String} {epoch : Epoch}
    (h : (system.setRow taskId none).Running epoch) : system.Running epoch := by
  rcases setRow_running h with ⟨owned, howned, _⟩ | ⟨_, hbefore⟩
  · cases howned
  · exact hbefore

theorem lost_live (h : Live worker queueOf system) (taskId : String) :
    Live worker queueOf (system.setRow taskId none) := by
  refine h.extend (setRow_none_extends taskId) rfl ?_ h.recorded h.owned_setRow
    (fun _ => setRow_none_running)
  intro record markers hmarkers howner hdone hunder
  exact h.acknowledged record markers hmarkers howner hdone
    ((setRow_none_extends taskId).under _
      (h.recorded record markers hmarkers howner) hunder)

theorem claimed_live {taskId : String} {row : OwnedRow} {record : Nat}
    (h : Live worker queueOf system) (hfree : system.rows taskId = none)
    (hfresh : row.epoch taskId ∉ system.used)
    (hrecord : system.shared.records record = none) :
    Live worker queueOf
      { system.setRow taskId (some { row with running := false }) with
        shared := system.shared.insert record
          (.fresh worker (row.epoch taskId)) } := by
  have hextends : Extends system
      (system.setRow taskId (some { row with running := false })) := by
    refine setRow_extends ?_ ?_
    · rintro owned ⟨rfl⟩ hused
      exact absurd hused hfresh
    · intro owned old _ hold
      simp [hfree] at hold
  refine h.extend ⟨keeps_insert hrecord, hextends.used, hextends.under,
    hextends.running⟩ rfl ?_ ?_ h.owned_setRow ?_
  · intro other markers hmarkers howner hdone hunder
    rcases insert_cases hmarkers with rfl | hmarkers
    · simp [ClaimMarkers.fresh] at hdone
    · exact h.acknowledged other markers hmarkers howner hdone
        (hextends.under _ (h.recorded other markers hmarkers howner) hunder)
  · intro other markers hmarkers howner
    rcases insert_cases hmarkers with rfl | hmarkers
    · exact List.mem_cons_self
    · exact hextends.used _ (h.recorded other markers hmarkers howner)
  · intro epoch hrunning
    rcases setRow_running hrunning with ⟨owned, ⟨rfl⟩, hran, _⟩ | ⟨_, hbefore⟩
    · cases hran
    · exact hbefore

theorem foreign_live {record : Nat} {markers : ClaimMarkers}
    (h : Live worker queueOf system)
    (hmarks : system.foreignMarks worker record markers = true) :
    Live worker queueOf
      { system with shared := system.shared.insert record markers } := by
  simp only [foreignMarks, Bool.and_eq_true, decide_eq_true_eq] at hmarks
  obtain ⟨hforeign, hold⟩ := hmarks
  have hkeeps : Keeps system.shared (system.shared.insert record markers) := by
    intro other old hother
    by_cases hsame : other = record
    · subst hsame
      simp only [hother, Option.all_some, Bool.and_eq_true, Bool.or_eq_true,
        Bool.not_eq_true', decide_eq_true_eq] at hold
      obtain ⟨⟨⟨howner, hepoch⟩, hdone⟩, hstarted⟩ := hold
      refine ⟨markers, by simp [Shared.insert], howner.symm, hepoch.symm, ?_, ?_⟩
      · intro hset
        simpa [hset] using hstarted
      · intro hset
        simpa [hset] using hdone
    · exact ⟨old, by simp [Shared.insert, hsame, hother], .refl old⟩
  refine h.extend ⟨hkeeps, fun _ hused => hused, fun _ _ hunder => hunder,
    fun _ hrunning _ => hrunning⟩ rfl ?_ ?_ h.owned (fun _ hrunning => hrunning)
  · intro other found hfound howner
    rcases insert_cases hfound with rfl | hfound
    · exact absurd howner hforeign
    · exact h.acknowledged other found hfound howner
  · intro other found hfound howner
    rcases insert_cases hfound with rfl | hfound
    · exact absurd howner hforeign
    · exact h.recorded other found hfound howner

/-- A preclaimed request names a claim the system has seen. -/
theorem preclaimed_of_ownParts {parts : Parts} {record : Option Nat}
    {held : Option Epoch} {guard : ClaimObligation} {stage : Stage}
    (hown : system.ownParts worker queueOf parts record = true)
    (hpreclaimed : isPreclaimed parts.ctx.lockBy (some worker)
      parts.ctx.lockAt.isSome = true)
    (hheld : held = system.heldBy worker parts record)
    (harmed : guard.armed = true ∨
      record.any system.shared.isAcknowledged = true) :
    Preclaimed worker queueOf system.shared
      ⟨parts, record, held, guard, stage⟩ := by
  simp only [ownParts, hpreclaimed, Bool.not_true, Bool.false_or,
    Bool.and_eq_true] at hown
  obtain ⟨hqueue, hrecord⟩ := hown
  simp only [heldBy, hpreclaimed, if_true] at hheld
  refine ⟨harmed, ?_, ?_, ?_⟩
  · intro taskId queue htask hctx
    dsimp only at htask hctx
    simpa [htask, hctx] using hqueue
  · intro id hid
    dsimp only at hid
    subst hid
    obtain ⟨markers, hmarkers, hsame⟩ := (Option.any_eq_true _ _).mp hrecord
    simp only [Bool.and_eq_true, decide_eq_true_eq] at hsame
    exact ⟨markers, hmarkers, hsame.1.1, by simp [hheld, hmarkers], hsame.2⟩
  · intro hnone
    dsimp only at hnone
    subst hnone
    refine ⟨by simpa using hrecord, ?_⟩
    intro epoch hepoch
    dsimp only at hepoch
    rw [hheld] at hepoch
    simp only [Option.bind_eq_bind, Option.bind_eq_some_iff] at hepoch
    obtain ⟨taskId, _, row, _, hnamed⟩ := hepoch
    split at hnamed
    · rename_i hlockAt
      cases hnamed
      exact hlockAt
    · cases hnamed

theorem heldBy_used {parts : Parts} {record : Option Nat} {epoch : Epoch}
    (h : Live worker queueOf system)
    (hown : system.ownParts worker queueOf parts record = true)
    (hheld : system.heldBy worker parts record = some epoch) :
    epoch ∈ system.used ∧ parts.taskId = some epoch.taskId := by
  unfold heldBy at hheld
  split at hheld
  · rename_i hpreclaimed
    cases record with
    | none =>
        simp only [Option.bind_eq_bind, Option.bind_eq_some_iff] at hheld
        obtain ⟨taskId, htask, row, hrow, hepoch⟩ := hheld
        split at hepoch
        · cases hepoch
          exact ⟨h.owned taskId row hrow, htask⟩
        · cases hepoch
    | some id =>
        simp only [Option.map_eq_some_iff] at hheld
        obtain ⟨markers, hmarkers, rfl⟩ := hheld
        simp only [ownParts, hpreclaimed, hmarkers, Option.any_some,
          Bool.not_true, Bool.false_or, Bool.and_eq_true,
          decide_eq_true_eq] at hown
        obtain ⟨_, ⟨howner, htask⟩, _⟩ := hown
        exact ⟨h.recorded id markers hmarkers howner, htask⟩
  · cases hheld

theorem call_live {parts : Parts} {record : Option Nat}
    (h : Live worker queueOf system) (hfree : system.dispatches n = none)
    (hown : system.ownParts worker queueOf parts record = true) :
    Live worker queueOf (system.setDispatch n (Dispatch.call worker
      system.shared (system.heldBy worker parts record) parts record)) := by
  refine h.update n _ (extends_setDispatch system n _) rfl h.acknowledged
    h.recorded h.owned (fun epoch => heldBy_used h hown) ⟨rfl, ?_, ?_⟩ ?_
  · intro hpreclaimed
    refine preclaimed_of_ownParts hown hpreclaimed rfl ?_
    simp only [Dispatch.preclaimed, Dispatch.call] at hpreclaimed
    by_cases hacked : record.any system.shared.isAcknowledged = true
    · exact Or.inr hacked
    · exact Or.inl (by simp [hpreclaimed, hacked])
  · intro hpreclaimed
    simp only [Dispatch.preclaimed, Dispatch.call] at hpreclaimed
    simp [Dispatch.call, heldBy, hpreclaimed]
  · intro epoch hrunning
    exact Or.inr ⟨hrunning, by simp [hfree]⟩

variable (queueOf) in
/-- A start that is applied makes the row of its claim `Running`; one that
reports no match found no row to start. -/
theorem runStart_cases (claim : StartClaim) (stop : StatementEnd) :
    (∃ row reply, system.rows claim.taskId = some row ∧
      row.starts claim = true ∧ (reply = .matched ∨ reply = .failed) ∧
      system.runStart queueOf claim stop =
        (system.setRow claim.taskId (some { row with running := true }), reply,
          some (row.epoch claim.taskId))) ∨
    (∃ reply, system.runStart queueOf claim stop = (system, reply, none) ∧
      (reply = .failed ∨ reply = .unmatched ∧
        ∀ row, system.rows claim.taskId = some row →
          claim.queue = queueOf claim.taskId → row.starts claim = false)) := by
  unfold runStart
  cases hrow : system.rows claim.taskId with
  | none =>
      right
      by_cases hstop : stop = .answered
      · exact ⟨.unmatched, by simp [hstop], Or.inr ⟨rfl, by simp⟩⟩
      · exact ⟨.failed, by simp [hstop], Or.inl rfl⟩
  | some row =>
      by_cases hmatched : row.starts claim = true ∧
          claim.queue = queueOf claim.taskId
      · cases stop with
        | answered => exact Or.inl ⟨row, .matched, rfl, hmatched.1, Or.inl rfl,
            by simp [hmatched]⟩
        | failed applied =>
            cases applied with
            | true => exact Or.inl ⟨row, .failed, rfl, hmatched.1, Or.inr rfl,
                by simp [hmatched]⟩
            | false => exact Or.inr ⟨.failed, by simp, Or.inl rfl⟩
      · right
        have hunmatched : (row.starts claim && decide (claim.queue =
            queueOf claim.taskId)) = false := by
          simpa using hmatched
        by_cases hstop : stop = .answered
        · refine ⟨.unmatched, by simp [hunmatched, hstop], Or.inr ⟨rfl, ?_⟩⟩
          rintro _ ⟨rfl⟩ hqueue
          simpa [hqueue] using hmatched
        · exact ⟨.failed, by simp [hunmatched, hstop], Or.inl rfl⟩

theorem PinnedTo.epoch_eq {claim : StartClaim} {epoch : Epoch} {row : OwnedRow}
    (h : PinnedTo claim epoch) (hstarts : row.starts claim = true) :
    row.epoch claim.taskId = epoch := by
  obtain ⟨htask, hlockAt, hattempts⟩ := h
  simp only [OwnedRow.starts, hattempts, hlockAt, Option.isNone_some,
    Bool.false_or, Option.some.injEq, Int.natCast_inj, Bool.and_eq_true,
    decide_eq_true_eq] at hstarts
  obtain ⟨⟨hsame, hcount⟩, _⟩ := hstarts
  rw [OwnedRow.epoch, htask, hsame, ← hcount]

theorem setRow_started_extends {taskId : String} {row : OwnedRow}
    (hrow : system.rows taskId = some row) :
    Extends system (system.setRow taskId (some { row with running := true })) := by
  refine setRow_extends ?_ ?_
  · rintro owned ⟨rfl⟩ _
    exact ⟨row, hrow, rfl⟩
  · rintro owned old ⟨rfl⟩ _ _
    rfl

/-- A row of the claim that its start does not match runs already. -/
theorem Starting.running_of_unstarted {shared : Shared} {claim : StartClaim}
    {epoch : Epoch} {row : OwnedRow}
    (h : Starting worker queueOf shared dispatch claim)
    (hheld : dispatch.held = some epoch)
    (hepoch : row.epoch epoch.taskId = epoch)
    (hunstarted : row.starts claim = false) : row.running = true := by
  have hlockAt : row.lockAt = claim.lockAt :=
    (congrArg Epoch.lockAt hepoch).trans (h.lockAt epoch hheld).symm
  have hattempts : row.attempts = epoch.attempts :=
    congrArg Epoch.attempts hepoch
  unfold OwnedRow.starts at hunstarted
  cases hrecord : dispatch.record with
  | none =>
      obtain ⟨hany, hrestart⟩ := h.bare hrecord
      simp [hlockAt, hany, hrestart] at hunstarted
  | some record =>
      have hcount := h.pinned record hrecord epoch hheld
      simp only [hlockAt, hcount, hattempts, decide_true, Option.isNone_some,
        Bool.false_or, Bool.true_and, Bool.or_eq_false_iff,
        Bool.not_eq_false'] at hunstarted
      exact hunstarted.1

theorem startRan_live {claim : StartClaim} {stop : StatementEnd}
    {after : DispatchSystem} {reply : StartReply} {epoch : Option Epoch}
    (h : Live worker queueOf system)
    (hdispatch : system.dispatches n = some dispatch)
    (hstage : dispatch.stage = .starting claim none)
    (hrun : system.runStart queueOf claim stop = (after, reply, epoch)) :
    Live worker queueOf (after.setDispatch n { dispatch with
      held := epoch.or dispatch.held
      stage := .starting claim (some reply) }) := by
  have hsound := h.sound n dispatch hdispatch
  unfold Sound at hsound
  rw [hstage] at hsound
  obtain ⟨hstarting, _⟩ := hsound
  have hsilent : ∀ other, system.dispatches n = some other →
      answers other.stage = false := by
    intro other hother
    cases hdispatch.symm.trans hother
    rw [hstage]
    rfl
  have hpinned : ∀ record, dispatch.record = some record →
      ∀ held, dispatch.held = some held → PinnedTo claim held := by
    intro record hrecord held hheld
    have htask := hstarting.taskId.symm.trans
      (h.held n dispatch held hdispatch hheld).2
    exact ⟨Option.some.inj htask, hstarting.lockAt held hheld,
      hstarting.pinned record hrecord held hheld⟩
  rcases runStart_cases queueOf claim stop with
    ⟨row, answer, hrow, hstarts, hanswer, heq⟩ | ⟨answer, heq, hanswer⟩
  · cases heq.symm.trans hrun
    have hsame : ∀ record, dispatch.record = some record →
        ∀ held, dispatch.held = some held →
          row.epoch claim.taskId = held := by
      intro record hrecord held hheld
      exact (hpinned record hrecord held hheld).epoch_eq hstarts
    refine h.setRow (setRow_started_extends hrow) ?_ ⟨?_, ?_⟩ ?_
    · rintro held ⟨rfl⟩
      exact ⟨List.mem_cons_self, hstarting.taskId⟩
    · refine ⟨hstarting.guard, hstarting.lockBy, ?_, hstarting.taskId,
        hstarting.queue, ?_, ?_, hstarting.bare⟩
      · intro record hrecord
        obtain ⟨markers, hmarkers, howner, hheld⟩ :=
          hstarting.recorded record hrecord
        exact ⟨markers, hmarkers, howner,
          congrArg some (hsame record hrecord _ hheld)⟩
      · rintro held ⟨rfl⟩
        simp only [OwnedRow.starts, Bool.and_eq_true, decide_eq_true_eq] at hstarts
        exact hstarts.1.1.symm
      · rintro record hrecord held ⟨rfl⟩
        obtain ⟨markers, _, _, hheld⟩ := hstarting.recorded record hrecord
        rw [hsame record hrecord _ hheld]
        exact hstarting.pinned record hrecord _ hheld
    · rcases hanswer with rfl | rfl <;> simp
    · intro held hrunning
      rcases setRow_running hrunning with ⟨owned, ⟨rfl⟩, _, rfl⟩ | ⟨_, hbefore⟩
      · left
        rcases hanswer with rfl | rfl <;> exact ⟨rfl, rfl⟩
      · exact Or.inr ⟨hbefore, fun other hother _ => hsilent other hother⟩
  · cases heq.symm.trans hrun
    refine h.update n _ (extends_setDispatch system n _) rfl h.acknowledged
      h.recorded h.owned (fun held => h.held n dispatch held hdispatch)
      ⟨⟨hstarting.guard, hstarting.lockBy, hstarting.recorded, hstarting.taskId,
        hstarting.queue, hstarting.lockAt, hstarting.pinned, hstarting.bare⟩, ?_⟩
      (fun held hrunning =>
        Or.inr ⟨hrunning, fun other hother _ => hsilent other hother⟩)
    -- a start that found no row left its claim to the dispatch that runs it
    rintro ⟨rfl⟩
    intro held hheld hunder
    rcases hanswer with hfailed | ⟨_, hnone⟩
    · cases hfailed
    obtain ⟨row, hrow, hepoch⟩ := hunder
    have htask : claim.taskId = held.taskId := Option.some.inj
      (hstarting.taskId.symm.trans (h.held n dispatch held hdispatch hheld).2)
    have hunstarted := hnone row (htask ▸ hrow) hstarting.queue
    refine ⟨row, hrow, hepoch, ?_⟩
    exact hstarting.running_of_unstarted hheld hepoch hunstarted

/-- A dispatch that is over stays over, whatever its statement did. -/
theorem Live.setDispatch_over {statement : Detached}
    (h : Live worker queueOf system)
    (hdispatch : system.dispatches n = some dispatch)
    (hstage : dispatch.stage = .ended (some statement))
    (hsettled : Settled system dispatch) :
    Live worker queueOf
      (system.setDispatch n { dispatch with stage := .ended none }) := by
  refine h.update n _ (extends_setDispatch system n _) rfl h.acknowledged
    h.recorded h.owned (fun held => h.held n dispatch held hdispatch)
    (sound_ended_none rfl hsettled) ?_
  intro epoch hrunning
  refine Or.inr ⟨hrunning, ?_⟩
  intro other hother _
  cases hdispatch.symm.trans hother
  rw [hstage]
  rfl

/-- A start nobody waits for finds no row. -/
theorem detachedStart_live {claim : StartClaim} {stop : StatementEnd}
    {after : DispatchSystem} {reply : StartReply} {epoch : Option Epoch}
    (h : Live worker queueOf system)
    (hdispatch : system.dispatches n = some dispatch)
    (hstage : dispatch.stage = .ended (some (.start claim)))
    (hrun : system.runStart queueOf claim stop = (after, reply, epoch)) :
    Live worker queueOf
      (after.setDispatch n { dispatch with stage := .ended none }) := by
  have hsound := h.sound n dispatch hdispatch
  unfold Sound at hsound
  rw [hstage] at hsound
  obtain ⟨hsettled, held, _, hpinned, hnot⟩ := hsound
  rcases runStart_cases queueOf claim stop with
    ⟨row, answer, hrow, hstarts, _, _⟩ | ⟨answer, heq, _⟩
  · have hepoch := hpinned.epoch_eq hstarts
    refine absurd ⟨row, ?_, ?_⟩ hnot
    · rw [← hpinned.1]
      exact hrow
    · rw [← hpinned.1]
      exact hepoch
  · cases heq.symm.trans hrun
    exact h.setDispatch_over hdispatch hstage hsettled

theorem lockedRow_extends {taskId : String} {row : OwnedRow}
    (hfresh : (system.rows taskId).isSome = true ∨
      row.epoch taskId ∉ system.used) :
    Extends system
      (system.setRow taskId (some (system.lockedRow taskId row))) := by
  cases hrow : system.rows taskId with
  | some old =>
      simp only [lockedRow, hrow, Option.getD_some]
      exact setRow_started_extends hrow
  | none =>
      refine setRow_extends ?_ ?_
      · rintro owned ⟨rfl⟩ hused
        simp only [lockedRow, hrow, Option.getD_none] at hused
        rcases hfresh with hsome | hunused
        · simp [hrow] at hsome
        · exact absurd hused hunused
      · simp [hrow]

theorem locking_silent {taskId : String}
    (hdispatch : system.dispatches n = some dispatch)
    (hstage : dispatch.stage = .locking taskId none) :
    ∀ other, system.dispatches n = some other →
      answers other.stage = false := by
  intro other hother
  cases hdispatch.symm.trans hother
  rw [hstage]
  rfl

/-- The lock committed: the row is `Running` under the claim of the
dispatch, whether or not the answer says so. -/
theorem lockApplied_live {taskId : String} {row : OwnedRow}
    {reply : LockReply} (h : Live worker queueOf system)
    (hdispatch : system.dispatches n = some dispatch)
    (hstage : dispatch.stage = .locking taskId none)
    (hfresh : (system.rows taskId).isSome = true ∨
      row.epoch taskId ∉ system.used)
    (hreply : (∃ maxAttempts, reply = .locked ⟨maxAttempts,
        some (system.lockedRow taskId row).lockAt, some worker,
        some (queueOf taskId)⟩ (system.lockedRow taskId row).attempts) ∨
      reply = .unknown) :
    Live worker queueOf
      ((system.setRow taskId (some (system.lockedRow taskId row))).setDispatch n
        { dispatch with
          stage := .locking taskId (some reply)
          held := some ((system.lockedRow taskId row).epoch taskId) }) := by
  have hlocking : Locking worker dispatch taskId none := by
    have hsound := h.sound n dispatch hdispatch
    unfold Sound at hsound
    rw [hstage] at hsound
    exact hsound
  have hanswers : answers (.locking taskId (some reply)) = true := by
    rcases hreply with ⟨maxAttempts, rfl⟩ | rfl <;> rfl
  refine h.setRow (lockedRow_extends hfresh) ?_
    ⟨hlocking.guard, hlocking.task, ?_, ?_⟩ ?_
  · rintro held ⟨rfl⟩
    exact ⟨List.mem_cons_self, hlocking.task⟩
  · rcases hreply with ⟨maxAttempts, rfl⟩ | rfl <;> simp
  · rintro ctx attempt ⟨rfl⟩
    rcases hreply with ⟨maxAttempts, hlocked⟩ | hunknown
    · cases hlocked
      exact ⟨rfl, _, rfl, rfl⟩
    · cases hunknown
  · intro epoch hrunning
    rcases setRow_running hrunning with ⟨owned, ⟨rfl⟩, _, rfl⟩ | ⟨_, hbefore⟩
    · exact Or.inl ⟨rfl, hanswers⟩
    · exact Or.inr ⟨hbefore, fun other hother _ =>
        locking_silent hdispatch hstage other hother⟩

/-- The lock applied nothing. -/
theorem lockRejected_live {taskId : String} {reply : LockReply}
    (h : Live worker queueOf system)
    (hdispatch : system.dispatches n = some dispatch)
    (hstage : dispatch.stage = .locking taskId none)
    (hreply : reply = .unknown ∨ reply = .refused) :
    Live worker queueOf (system.setDispatch n
      { dispatch with stage := .locking taskId (some reply) }) := by
  have hlocking : Locking worker dispatch taskId none := by
    have hsound := h.sound n dispatch hdispatch
    unfold Sound at hsound
    rw [hstage] at hsound
    exact hsound
  have hfree := hlocking.free (Or.inl rfl)
  refine h.update n _ (extends_setDispatch system n _) rfl h.acknowledged
    h.recorded h.owned (fun held => h.held n dispatch held hdispatch)
    ⟨hlocking.guard, hlocking.task, fun _ => hfree, ?_⟩
    (fun held hrunning => Or.inr ⟨hrunning, fun other hother _ =>
      locking_silent hdispatch hstage other hother⟩)
  rcases hreply with rfl | rfl <;> simp

variable (queueOf system) in
/-- An acknowledgement leaves every row but the one it acknowledges. -/
theorem runAck_cases (update : AckTaskUpdate) (stop : StatementEnd) :
    (∃ reply, system.runAck queueOf update stop =
      (system.setRow update.taskId none, reply)) ∨
    system.runAck queueOf update stop = (system, .failed) := by
  unfold runAck
  cases hrow : system.rows update.taskId with
  | none => exact Or.inr rfl
  | some row =>
      by_cases hmatched : (row.acknowledgedBy update &&
          decide (update.queue = queueOf update.taskId)) = true
      · by_cases hstop : stop = .failed false
        · exact Or.inr (by simp [hstop])
        · left
          dsimp only
          rw [hmatched, decide_eq_true hstop]
          exact ⟨_, rfl⟩
      · right
        dsimp only
        rw [Bool.eq_false_iff.mpr hmatched]
        rfl

theorem ackRan_live {ackGuard : ClaimObligation} {update : AckTaskUpdate}
    {stop : StatementEnd} {after : DispatchSystem} {reply : AckReply}
    (h : Live worker queueOf system)
    (hdispatch : system.dispatches n = some dispatch)
    (hstage : dispatch.stage = .acknowledging ackGuard update none)
    (hrun : system.runAck queueOf update stop = (after, reply)) :
    Live worker queueOf (after.setDispatch n { dispatch with
      stage := .acknowledging ackGuard update (some reply) }) := by
  have hsound := h.sound n dispatch hdispatch
  unfold Sound at hsound
  rw [hstage] at hsound
  obtain ⟨hhandling, hguard, htask, _⟩ := hsound
  have hstill : Handling worker system.shared { dispatch with
      stage := .acknowledging ackGuard update (some reply) } :=
    ⟨hhandling.guard, hhandling.lockBy, hhandling.started⟩
  have hanswers : ∀ epoch, system.Running epoch →
      (dispatch.held = some epoch ∧
        answers (.acknowledging ackGuard update (some reply)) = true) ∨
      (system.Running epoch ∧ ∀ other, system.dispatches n = some other →
        other.held = some epoch → answers other.stage = false) := by
    intro epoch hrunning
    by_cases hheld : dispatch.held = some epoch
    · exact Or.inl ⟨hheld, rfl⟩
    · refine Or.inr ⟨hrunning, ?_⟩
      intro other hother hepoch
      cases hdispatch.symm.trans hother
      exact absurd hepoch hheld
  rcases runAck_cases queueOf system update stop with
    ⟨answer, heq⟩ | heq
  · cases heq.symm.trans hrun
    refine h.setRow (setRow_none_extends update.taskId)
      (fun held => h.held n dispatch held hdispatch)
      ⟨hstill, hguard, htask, ?_⟩
      (fun epoch hrunning => hanswers epoch (setRow_none_running hrunning))
    intro _ epoch hheld hunder
    have hsame := htask.symm.trans (h.held n dispatch epoch hdispatch hheld).2
    rcases setRow_under hunder with ⟨_, owned, howned, _⟩ | ⟨hother, _⟩
    · cases howned
    · exact hother (Option.some.inj hsame).symm
  · cases heq.symm.trans hrun
    exact h.update n _ (extends_setDispatch system n _) rfl h.acknowledged
      h.recorded h.owned (fun held => h.held n dispatch held hdispatch)
      ⟨hstill, hguard, htask, fun hreply => by cases hreply⟩ hanswers

/-- An acknowledgement nobody waits for can only end a claim. -/
theorem detachedAck_live {update : AckTaskUpdate} {stop : StatementEnd}
    {after : DispatchSystem} {reply : AckReply}
    (h : Live worker queueOf system)
    (hdispatch : system.dispatches n = some dispatch)
    (hstage : dispatch.stage = .ended (some (.ack update)))
    (hrun : system.runAck queueOf update stop = (after, reply)) :
    Live worker queueOf
      (after.setDispatch n { dispatch with stage := .ended none }) := by
  have hsettled : ∀ live : DispatchSystem, Live worker queueOf live →
      live.dispatches n = some dispatch → Settled live dispatch := by
    intro live hlive hsame
    have hsound := hlive.sound n dispatch hsame
    unfold Sound at hsound
    rw [hstage] at hsound
    exact hsound
  rcases runAck_cases queueOf system update stop with
    ⟨answer, heq⟩ | heq
  · cases heq.symm.trans hrun
    have hlive := lost_live h update.taskId
    exact hlive.setDispatch_over hdispatch hstage
      (hsettled _ hlive hdispatch)
  · cases heq.symm.trans hrun
    exact h.setDispatch_over hdispatch hstage (hsettled _ h hdispatch)

end

/-- The event does not give up a lock whose commit is open while the record
the request came with is acknowledged.  The obligation of a lock in flight
still speaks for that record, not for the claim the lock may have made. -/
def Covered (system : DispatchSystem) : DispatchEvent → Prop
  | .cancel n => ∀ dispatch taskId reply, system.dispatches n = some dispatch →
      dispatch.stage = .locking taskId reply → reply ≠ some .refused →
      dispatch.isAcknowledged system.shared = false
  | .lockReplied n _ => ∀ dispatch taskId,
      system.dispatches n = some dispatch →
      dispatch.stage = .locking taskId (some .unknown) →
      dispatch.isAcknowledged system.shared = false
  | _ => True

section

variable {system after : DispatchSystem} {event : DispatchEvent}

theorem finish_retired {shared : Shared} {dispatch : Dispatch}
    {guard : ClaimObligation} (h : shared.retired = true) :
    (dispatch.finish shared guard).1.retired = true :=
  drop_retired h

theorem finishAck_retired {shared : Shared} {dispatch : Dispatch}
    {ackGuard : ClaimObligation} (h : shared.retired = true) :
    (dispatch.finishAck shared ackGuard).1.retired = true :=
  finish_retired (drop_retired h)

theorem admission_retired {shared : Shared} {dispatch : Dispatch}
    (h : shared.retired = true) :
    (dispatch.admission worker token shared).1.retired = true := by
  unfold Dispatch.admission Dispatch.beginStart
  split
  · exact finish_retired h
  · split
    · exact finish_retired h
    · split
      · split
        · exact finish_retired h
        · have hstill : (shared.markStartAttempted dispatch.record).retired =
              true := h
          rw [if_pos hstill]
          exact finish_retired h
      · exact finish_retired h

theorem startReplied_retired {shared : Shared} {dispatch : Dispatch}
    (reply : StartReply) (h : shared.retired = true) :
    (dispatch.startReplied shared reply).1.retired = true := by
  cases reply with
  | matched => exact h
  | unmatched => exact finish_retired h
  | failed => exact finish_retired h

theorem lockReplied_retired {shared : Shared} {dispatch : Dispatch}
    (fresh : Nat) (reply : LockReply) (h : shared.retired = true) :
    (dispatch.lockReplied worker shared fresh reply).1.retired = true := by
  cases reply with
  | locked ctx attempt => exact h
  | unknown => exact finish_retired h
  | refused => exact finish_retired h

theorem handled_retired {shared : Shared} {dispatch : Dispatch}
    (res : HandlerResult) (h : shared.retired = true) :
    (dispatch.handled worker shared res).1.retired = true := by
  unfold Dispatch.handled
  dsimp only
  split
  · exact finishAck_retired h
  · exact h

theorem serialized_retired {shared : Shared} {dispatch : Dispatch}
    (ackGuard : ClaimObligation) (res : HandlerResult)
    (h : shared.retired = true) :
    (dispatch.serialized token shared ackGuard res).1.retired = true := by
  unfold Dispatch.serialized
  split
  · exact finishAck_retired h
  · split
    · exact finishAck_retired h
    · exact h

theorem ackReplied_retired {shared : Shared} {dispatch : Dispatch}
    (ackGuard : ClaimObligation) (reply : AckReply)
    (h : shared.retired = true) :
    (dispatch.ackReplied shared ackGuard reply).1.retired = true := by
  cases reply with
  | acknowledged => exact finishAck_retired h
  | failed => exact finishAck_retired h

theorem cancel_retired {shared : Shared} {dispatch : Dispatch}
    (h : shared.retired = true) :
    (dispatch.cancel shared).1.retired = true :=
  drop_retired (drop_retired h)

theorem runStart_shared (claim : StartClaim) (stop : StatementEnd) :
    (system.runStart queueOf claim stop).1.shared = system.shared := by
  rcases runStart_cases queueOf claim stop with
    ⟨_, _, _, _, _, heq⟩ | ⟨_, heq, _⟩
  · rw [heq]
    rfl
  · rw [heq]

theorem runAck_shared (update : AckTaskUpdate) (stop : StatementEnd) :
    (system.runAck queueOf update stop).1.shared = system.shared := by
  rcases runAck_cases queueOf system update stop with
    ⟨_, heq⟩ | heq
  · rw [heq]
    rfl
  · rw [heq]

/-- Nothing makes a retired name live again. -/
theorem step_retired (h : system.shared.retired = true)
    (hstep : step worker token queueOf system event = some after) :
    after.shared.retired = true := by
  cases event <;>
    simp only [step, Option.bind_eq_bind, Option.bind_eq_some_iff] at hstep
  case claimed taskId row record =>
    split at hstep <;> cases hstep
    exact h
  case lost taskId =>
    cases hstep
    exact h
  case retired =>
    cases hstep
    rfl
  case foreign record markers =>
    split at hstep <;> cases hstep
    exact h
  case call n parts record =>
    split at hstep <;> cases hstep
    exact h
  case polled n =>
    obtain ⟨dispatch, _, hstep⟩ := hstep
    split at hstep <;> cases hstep
    exact admission_retired h
  case startRan n stop =>
    obtain ⟨dispatch, _, hstep⟩ := hstep
    split at hstep <;> cases hstep
    all_goals
      rw [← runStart_shared] at h
      exact h
  case startReplied n =>
    obtain ⟨dispatch, _, hstep⟩ := hstep
    split at hstep <;> cases hstep
    exact startReplied_retired _ h
  case lockRan n stop row maxAttempts =>
    obtain ⟨dispatch, _, hstep⟩ := hstep
    split at hstep
    · split at hstep
      · split at hstep <;> cases hstep
        exact h
      · cases hstep
        exact h
    · split at hstep
      · split at hstep <;> cases hstep
        exact h
      · cases hstep
        exact h
    · cases hstep
  case lockReplied n fresh =>
    obtain ⟨dispatch, _, hstep⟩ := hstep
    split at hstep
    · split at hstep <;> cases hstep
      exact lockReplied_retired fresh _ h
    · cases hstep
  case handled n res =>
    obtain ⟨dispatch, _, hstep⟩ := hstep
    split at hstep <;> cases hstep
    exact handled_retired res h
  case serialized n =>
    obtain ⟨dispatch, _, hstep⟩ := hstep
    split at hstep <;> cases hstep
    exact serialized_retired _ _ h
  case ackRan n stop =>
    obtain ⟨dispatch, _, hstep⟩ := hstep
    split at hstep <;> cases hstep
    all_goals
      rw [← runAck_shared] at h
      exact h
  case ackReplied n =>
    obtain ⟨dispatch, _, hstep⟩ := hstep
    split at hstep <;> cases hstep
    exact ackReplied_retired _ _ h
  case cancel n =>
    obtain ⟨dispatch, _, hstep⟩ := hstep
    split at hstep <;> cases hstep
    exact cancel_retired h

theorem step_live (h : Live worker queueOf system)
    (hretired : system.shared.retired = false)
    (hcovered : Covered system event)
    (hstep : step worker token queueOf system event = some after) :
    Guarded worker queueOf after := by
  cases event with
  | claimed taskId row record =>
      simp only [step] at hstep
      split at hstep
      · rename_i hallowed
        cases hstep
        simp only [Bool.and_eq_true, Option.isNone_iff_eq_none, freshEpoch,
          hretired, Bool.false_or, decide_eq_true_eq] at hallowed
        exact Or.inr (claimed_live h hallowed.1.1 hallowed.1.2 hallowed.2)
      · cases hstep
  | lost taskId =>
      cases hstep
      exact Or.inr (lost_live h taskId)
  | retired =>
      cases hstep
      exact Or.inl rfl
  | foreign record markers =>
      simp only [step] at hstep
      split at hstep
      · rename_i hmarks
        cases hstep
        exact Or.inr (foreign_live h hmarks)
      · cases hstep
  | call n parts record =>
      simp only [step] at hstep
      split at hstep
      · rename_i hallowed
        cases hstep
        simp only [Bool.and_eq_true, Option.isNone_iff_eq_none] at hallowed
        exact Or.inr (call_live h hallowed.1 hallowed.2)
      · cases hstep
  | polled n =>
      simp only [step, Option.bind_eq_bind, Option.bind_eq_some_iff] at hstep
      obtain ⟨dispatch, hdispatch, hstep⟩ := hstep
      split at hstep
      · rename_i hstage
        cases hstep
        exact admission_guarded h hretired hdispatch hstage
      · cases hstep
  | startRan n stop =>
      simp only [step, Option.bind_eq_bind, Option.bind_eq_some_iff] at hstep
      obtain ⟨dispatch, hdispatch, hstep⟩ := hstep
      split at hstep
      · rename_i hstage
        cases hstep
        exact Or.inr (startRan_live h hdispatch hstage rfl)
      · rename_i hstage
        cases hstep
        exact Or.inr (detachedStart_live h hdispatch hstage rfl)
      · cases hstep
  | startReplied n =>
      simp only [step, Option.bind_eq_bind, Option.bind_eq_some_iff] at hstep
      obtain ⟨dispatch, hdispatch, hstep⟩ := hstep
      split at hstep
      · rename_i hstage
        cases hstep
        exact startReplied_guarded h hdispatch hstage
      · cases hstep
  | lockRan n stop row maxAttempts =>
      simp only [step, Option.bind_eq_bind, Option.bind_eq_some_iff] at hstep
      obtain ⟨dispatch, hdispatch, hstep⟩ := hstep
      split at hstep
      · rename_i taskId hstage
        split at hstep
        · rename_i happlied
          split at hstep
          · rename_i hallowed
            cases hstep
            simp only [Bool.or_eq_true, freshEpoch, hretired, Bool.false_or,
              decide_eq_true_eq] at hallowed
            refine Or.inr (lockApplied_live h hdispatch hstage hallowed ?_)
            cases stop with
            | committed => exact Or.inl ⟨maxAttempts, rfl⟩
            | unknown applied => exact Or.inr rfl
            | refused => exact absurd rfl happlied.1
          · cases hstep
        · rename_i hrejected
          cases hstep
          refine Or.inr (lockRejected_live h hdispatch hstage ?_)
          cases stop with
          | committed => simp at hrejected
          | unknown applied => exact Or.inl rfl
          | refused => exact Or.inr rfl
      · rename_i taskId hstage
        have hsound := h.sound n dispatch hdispatch
        unfold Sound at hsound
        rw [hstage] at hsound
        exact hsound.elim
      · cases hstep
  | lockReplied n fresh =>
      simp only [step, Option.bind_eq_bind, Option.bind_eq_some_iff] at hstep
      obtain ⟨dispatch, hdispatch, hstep⟩ := hstep
      split at hstep
      · rename_i taskId reply hstage
        split at hstep
        · rename_i hfresh
          cases hstep
          refine lockReplied_guarded h hdispatch hstage
            (Option.isNone_iff_eq_none.mp hfresh) ?_
          rintro rfl
          exact hcovered dispatch taskId hdispatch hstage
        · cases hstep
      · cases hstep
  | handled n res =>
      simp only [step, Option.bind_eq_bind, Option.bind_eq_some_iff] at hstep
      obtain ⟨dispatch, hdispatch, hstep⟩ := hstep
      split at hstep
      · rename_i hstage
        cases hstep
        exact handled_guarded h hdispatch hstage
      · cases hstep
  | serialized n =>
      simp only [step, Option.bind_eq_bind, Option.bind_eq_some_iff] at hstep
      obtain ⟨dispatch, hdispatch, hstep⟩ := hstep
      split at hstep
      · rename_i hstage
        cases hstep
        exact serialized_guarded h hdispatch hstage
      · cases hstep
  | ackRan n stop =>
      simp only [step, Option.bind_eq_bind, Option.bind_eq_some_iff] at hstep
      obtain ⟨dispatch, hdispatch, hstep⟩ := hstep
      split at hstep
      · rename_i hstage
        cases hstep
        exact Or.inr (ackRan_live h hdispatch hstage rfl)
      · rename_i hstage
        cases hstep
        exact Or.inr (detachedAck_live h hdispatch hstage rfl)
      · cases hstep
  | ackReplied n =>
      simp only [step, Option.bind_eq_bind, Option.bind_eq_some_iff] at hstep
      obtain ⟨dispatch, hdispatch, hstep⟩ := hstep
      split at hstep
      · rename_i hstage
        cases hstep
        exact ackReplied_guarded h hdispatch hstage
      · cases hstep
  | cancel n =>
      simp only [step, Option.bind_eq_bind, Option.bind_eq_some_iff] at hstep
      obtain ⟨dispatch, hdispatch, hstep⟩ := hstep
      split at hstep
      · cases hstep
      · rename_i hover
        cases hstep
        exact cancel_guarded h hdispatch (Bool.eq_false_iff.mpr hover)
          (fun taskId reply => hcovered dispatch taskId reply hdispatch)

theorem step_guarded (h : Guarded worker queueOf system)
    (hcovered : Covered system event)
    (hstep : step worker token queueOf system event = some after) :
    Guarded worker queueOf after := by
  by_cases hretired : system.shared.retired = true
  · exact Or.inl (step_retired hretired hstep)
  · rcases h with hgone | hlive
    · exact absurd hgone hretired
    · exact step_live hlive (Bool.eq_false_iff.mpr hretired) hcovered hstep

end

variable (worker token queueOf) in
/-- The systems a name can get into by events that are all admitted. -/
inductive Run (admits : DispatchSystem → DispatchEvent → Prop) :
    DispatchSystem → Prop
  | initial : Run admits .initial
  | step {system after : DispatchSystem} (event : DispatchEvent) :
      Run admits system → admits system event →
      DispatchSystem.step worker token queueOf system event = some after →
      Run admits after

theorem Run.guarded {system : DispatchSystem}
    (h : Run worker token queueOf Covered system) :
    Guarded worker queueOf system := by
  induction h with
  | initial =>
      right
      refine ⟨?_, ?_, ?_, ?_, ?_, ?_⟩
      · intro record markers hmarkers
        cases hmarkers
      · intro record markers hmarkers
        cases hmarkers
      · intro taskId row hrow
        cases hrow
      · intro n dispatch epoch hdispatch
        cases hdispatch
      · intro n dispatch hdispatch
        cases hdispatch
      · rintro epoch ⟨row, hrow, _⟩
        cases hrow
  | step event _ hcovered hstep ih => exact step_guarded ih hcovered hstep

/-- The dispatch is over, its row is still active under the claim it held, and
no other dispatch of the claim is in progress.  A committed acknowledgement
takes the row out of the claim, so none has committed. -/
structure Abandoned (system : DispatchSystem) (n : Nat) (epoch : Epoch) :
    Prop where
  ended : ∃ dispatch, system.dispatches n = some dispatch ∧
    dispatch.isOver = true ∧ dispatch.held = some epoch
  under : system.Under epoch
  alone : ∀ m other, m ≠ n → system.dispatches m = some other →
    other.held = some epoch → other.isOver = true

theorem answers_of_isOver {dispatch : Dispatch}
    (h : dispatch.isOver = true) : answers dispatch.stage = false := by
  unfold Dispatch.isOver at h
  split at h
  · rename_i hstage
    rw [hstage]
    rfl
  · cases h

/-- A live name abandons no claim. -/
theorem Live.not_abandoned {system : DispatchSystem} {n : Nat} {epoch : Epoch}
    (h : Live worker queueOf system) : ¬ system.Abandoned n epoch := by
  intro habandoned
  obtain ⟨dispatch, hdispatch, hover, hheld⟩ := habandoned.ended
  have hsettled : Settled system dispatch := by
    have hsound := h.sound n dispatch hdispatch
    unfold Sound at hsound
    unfold Dispatch.isOver at hover
    split at hover
    · rename_i hstage
      rw [hstage] at hsound
      split at hsound
      all_goals first
        | exact hsound.1
        | exact hsound
        | exact hsound.elim
        | simp_all
    · cases hover
  have hrunning := hsettled epoch hheld habandoned.under
  obtain ⟨m, answerer, hanswerer, hholds, hanswers⟩ := h.running epoch hrunning
  have hquiet : answerer.isOver = true := by
    by_cases hm : m = n
    · subst hm
      cases hdispatch.symm.trans hanswerer
      exact hover
    · exact habandoned.alone m answerer hm hanswerer hholds
  simp [answers_of_isOver hquiet] at hanswers

/-- In every run in which no dropped or unanswered lock hides behind an
acknowledged record of its request, a claim that a dispatch abandons has its
name retired. -/
theorem abandoned_claim_retires {system : DispatchSystem}
    (hrun : Run worker token queueOf Covered system) {n : Nat} {epoch : Epoch}
    (habandoned : system.Abandoned n epoch) : system.shared.retired = true := by
  rcases hrun.guarded with hretired | hlive
  · exact hretired
  · exact absurd habandoned hlive.not_abandoned

/-- A lock whose commit stays unknown retires the name. -/
theorem abandoned_claim_retires_unknown_lock :
    ∃ system, Run "w" "t" (fun _ => "q") Covered system ∧
      system.Abandoned 0 ⟨sampleId, 20, 1⟩ ∧ system.shared.retired = true := by
  obtain ⟨system, hrun, habandoned⟩ : ∃ system,
      Run "w" "t" (fun _ => "q") Covered system ∧
        system.Abandoned 0 ⟨sampleId, 20, 1⟩ := by
    refine ⟨_, .step (.lockReplied 0 0)
      (.step (.lockRan 0 (.unknown true) ⟨20, 1, false⟩ 5)
        (.step (.polled 0)
          (.step (.call 0 ⟨some sampleId, ⟨5, none, none, some "q"⟩, 1, none⟩ none)
            .initial trivial rfl)
          trivial rfl)
        trivial rfl) ?_ rfl, ⟨_, rfl, rfl, rfl⟩, ⟨_, rfl, rfl⟩, ?_⟩
    · intro dispatch taskId hdispatch _
      cases hdispatch
      rfl
    · intro m other hm hother
      simp [resume, setDispatch, setRow, initial, hm] at hother
  exact ⟨system, hrun, habandoned, abandoned_claim_retires hrun habandoned⟩

/-- The request arrives with the record of a claim that another name ran and
acknowledged.  Its lock commits, the answer says that the commit is unknown,
and the obligation is dropped on behalf of the old record. -/
theorem acknowledged_record_hides_lock :
    ∃ system, Run "w" "t" (fun _ => "q") (fun _ _ => True) system ∧
      system.Abandoned 0 ⟨sampleId, 20, 1⟩ ∧ system.shared.retired = false := by
  refine ⟨_, .step (.lockReplied 0 1)
    (.step (.lockRan 0 (.unknown true) ⟨20, 1, false⟩ 5)
      (.step (.polled 0)
        (.step (.call 0 ⟨some sampleId, ⟨5, some 10, some "v", some "q"⟩, 1,
            some ⟨some sampleId, some 10, 0⟩⟩ (some 0))
          (.step (.foreign 0 ⟨"v", ⟨sampleId, 10, 0⟩, true, true, true⟩)
            .initial trivial rfl)
          trivial rfl)
        trivial rfl)
      trivial rfl)
    trivial rfl, ⟨⟨_, rfl, rfl, rfl⟩, ⟨_, rfl, rfl⟩, ?_⟩, rfl⟩
  intro m other hm hother
  simp [resume, setDispatch, setRow, initial, hm] at hother

end DispatchSystem

end ApalisPostgres
