/-
Notified ids into tasks.  Ids that are ready together are claimed by one
query.  A listener error ends its batch; it is yielded first, the ids that
came before it are still queried, and so is all that comes after it.
-/
import ApalisPostgres.Errors
import Mathlib.Data.List.Induction

namespace ApalisPostgres

/-- What the id stream answers when it is polled. -/
inductive SourcePoll (Id : Type) where
  | pending
  | ready (item : Except Error Id)
  | ended

def SourcePoll.item? {Id : Type} : SourcePoll Id → Option (Except Error Id)
  | .ready item => some item
  | _ => none

/-- What `try_ready_chunks` answers; `failed` is `TryReadyChunksError`. -/
inductive ChunkPoll (Id : Type) where
  | pending
  | chunk (ids : List Id)
  | failed (ids : List Id) (error : Error)
  | ended

/-- The items that the first `used` polls of a source returned. -/
def itemsTaken {Id : Type} (answers : Nat → SourcePoll Id) (used : Nat) :
    List (Except Error Id) :=
  (List.range used).filterMap fun k => (answers k).item?

/-- What the adaptor promises of one poll that polled its source `used`
times: it hands out all that it took, ids first and the error that stopped it
last, and it gives up only where its source did. -/
def ChunkPoll.Faithful {Id : Type} (cap : Nat) (answers : Nat → SourcePoll Id)
    (used : Nat) : ChunkPoll Id → Prop
  | .pending => itemsTaken answers used = [] ∧
      ∃ k < used, (answers k) = .pending
  | .chunk ids => itemsTaken answers used = ids.map .ok ∧ ids ≠ [] ∧
      ids.length ≤ cap
  | .failed ids error => itemsTaken answers used =
      ids.map .ok ++ [.error error] ∧ ids.length ≤ cap
  | .ended => itemsTaken answers used = [] ∧ ∃ k < used, (answers k) = .ended

/-- The adaptor of the futures crate.  One poll takes the answers of its
source in turn and says how many it took. -/
structure TryReadyChunks (Id : Type) where
  pollNext : Nat → (Nat → SourcePoll Id) → ChunkPoll Id × Nat
  faithful : ∀ cap answers, 0 < cap →
    (pollNext cap answers).1.Faithful cap answers (pollNext cap answers).2

namespace TryReadyChunks

variable {Id : Type}

/-- The loop of the adaptor: it polls until it has no room, its source has
nothing ready, or an error comes. -/
def collect (answers : Nat → SourcePoll Id) :
    Nat → List Id → Nat → ChunkPoll Id × Nat
  | 0, ids, used => (.chunk ids, used)
  | room + 1, ids, used =>
      match answers used with
      | .pending => (if ids.isEmpty then .pending else .chunk ids, used + 1)
      | .ready (.ok id) => collect answers room (ids ++ [id]) (used + 1)
      | .ready (.error error) => (.failed ids error, used + 1)
      | .ended => (if ids.isEmpty then .ended else .chunk ids, used + 1)

theorem itemsTaken_succ (answers : Nat → SourcePoll Id) (used : Nat) :
    itemsTaken answers (used + 1) =
      itemsTaken answers used ++ (answers used).item?.toList := by
  rw [itemsTaken, itemsTaken, List.range_succ, List.filterMap_append]
  cases h : (answers used).item? with
  | none => simp [h]
  | some item => simp [h]

theorem collect_faithful {cap : Nat} {answers : Nat → SourcePoll Id}
    (room : Nat) {ids : List Id} {used : Nat}
    (htaken : itemsTaken answers used = ids.map .ok)
    (hroom : ids.length + room = cap) (hopen : ids = [] → 0 < room) :
    (collect answers room ids used).1.Faithful cap answers
      (collect answers room ids used).2 := by
  induction room generalizing ids used with
  | zero =>
      exact ⟨htaken, fun hnil => Nat.lt_irrefl 0 (hopen hnil), hroom.le⟩
  | succ room ih =>
      have hsucc := itemsTaken_succ answers used
      rw [collect]
      cases hanswer : answers used with
      | pending =>
          rw [hanswer] at hsucc
          have hsame : itemsTaken answers (used + 1) = ids.map .ok :=
            hsucc.trans (by rw [htaken]; exact List.append_nil _)
          cases ids with
          | nil => exact ⟨hsame, used, Nat.lt_succ_self used, hanswer⟩
          | cons id ids =>
              refine ⟨hsame, List.cons_ne_nil id ids, ?_⟩
              omega
      | ended =>
          rw [hanswer] at hsucc
          have hsame : itemsTaken answers (used + 1) = ids.map .ok :=
            hsucc.trans (by rw [htaken]; exact List.append_nil _)
          cases ids with
          | nil => exact ⟨hsame, used, Nat.lt_succ_self used, hanswer⟩
          | cons id ids =>
              refine ⟨hsame, List.cons_ne_nil id ids, ?_⟩
              omega
      | ready item =>
          rw [hanswer, htaken] at hsucc
          cases item with
          | ok id =>
              refine ih ?_ ?_ ?_
              · rw [hsucc, List.map_append]
                rfl
              · rw [List.length_append, List.length_singleton]
                omega
              · intro hnil
                simp at hnil
          | error error =>
              refine ⟨hsucc, ?_⟩
              omega

/-- The adaptor as the crate has it. -/
def futures (Id : Type) : TryReadyChunks Id where
  pollNext cap answers := collect answers cap [] 0
  faithful cap _ hcap :=
    collect_faithful cap rfl (Nat.zero_add cap) fun _ => hcap

end TryReadyChunks

/-- Where the stream of one chunk stands: `failures.chain(tasks)`. -/
inductive ChunkStage (Id T : Type) where
  | failures (failure : Option Error) (ids : List Id)
  | query (ids : List Id)
  | items (rest : List (Except Error (Option T)))

/-- The stream, with a record of what it took, asked and yielded. -/
structure BatchRun (Id T : Type) where
  stage : Option (ChunkStage Id T)
  ended : Bool
  taken : List (Except Error Id)
  calls : List (List String)
  results : List (Except Error (List T))
  yields : List (Except Error (Option T))

/-- What the world has to say at one step: the polls of the source, and
whether the query that runs is answered. -/
structure BatchEvent (Id T : Type) where
  answers : Nat → SourcePoll Id
  answer : Option (Except Error (List T))

/-- The items of an answered query. -/
def resultItems {T : Type} :
    Except Error (List T) → List (Except Error (Option T))
  | .ok tasks => tasks.map fun task => .ok (some task)
  | .error error => [.error error]

namespace BatchRun

variable {Id T : Type}

def initial : BatchRun Id T := ⟨none, false, [], [], [], []⟩

section

variable (chunks : TryReadyChunks Id) (toText : Id → String) (chunkSize : Nat)

/-- The next thing `batch_ids_into_tasks` does.  A poll of the stream is some
of these steps. -/
def step (run : BatchRun Id T) (event : BatchEvent Id T) : BatchRun Id T :=
  if run.ended then run
  else match run.stage with
  | none =>
      let (poll, used) := chunks.pollNext (max chunkSize 1) event.answers
      let taken := run.taken ++ itemsTaken event.answers used
      match poll with
      | .pending => { run with taken := taken }
      | .chunk ids =>
          { run with taken := taken, stage := some (.failures none ids) }
      | .failed ids error =>
          { run with
            taken := taken, stage := some (.failures (some error) ids) }
      | .ended => { run with taken := taken, ended := true }
  | some (.failures (some error) ids) =>
      { run with
        yields := run.yields ++ [.error error]
        stage := some (.failures none ids) }
  | some (.failures none ids) =>
      if ids.isEmpty then { run with stage := some (.items []) }
      else
        { run with
          calls := run.calls ++ [ids.map toText]
          stage := some (.query ids) }
  | some (.query _) =>
      match event.answer with
      | none => run
      | some result =>
          { run with
            results := run.results ++ [result]
            stage := some (.items (resultItems result)) }
  | some (.items (item :: rest)) =>
      { run with
        yields := run.yields ++ [item], stage := some (.items rest) }
  | some (.items []) => { run with stage := none }

def steps (events : List (BatchEvent Id T)) : BatchRun Id T :=
  events.foldl (step chunks toText chunkSize) .initial

/-- The first `n` steps of an endless feed. -/
def follow (run : BatchRun Id T) (feed : Nat → BatchEvent Id T) :
    Nat → BatchRun Id T
  | 0 => run
  | n + 1 =>
      follow (step chunks toText chunkSize run (feed 0))
        (fun k => feed (k + 1)) n

end

end BatchRun

/-- One chunk, and the answer of its query once there is one. -/
structure IdBatch (Id T : Type) where
  ids : List Id
  failure : Option Error
  answer : Option (Except Error (List T))

namespace IdBatch

variable {Id T : Type}

/-- The items of the source it was cut from. -/
def source (batch : IdBatch Id T) : List (Except Error Id) :=
  batch.ids.map .ok ++ batch.failure.toList.map .error

/-- The query it makes, if any. -/
def call (toText : Id → String) (batch : IdBatch Id T) :
    Option (List String) :=
  if batch.ids.isEmpty then none else some (batch.ids.map toText)

/-- What it yields: its error, then its tasks or the error of its query. -/
def output (batch : IdBatch Id T) : List (Except Error (Option T)) :=
  batch.failure.toList.map .error ++ batch.answer.elim [] resultItems

/-- It holds something, no more than the cap, and it is answered only if it
asks. -/
structure Sized (cap : Nat) (batch : IdBatch Id T) : Prop where
  some : batch.ids ≠ [] ∨ batch.failure.isSome = true
  cap : batch.ids.length ≤ cap
  asks : batch.ids = [] → batch.answer = none

/-- Nothing is left to ask. -/
def Answered (batch : IdBatch Id T) : Prop :=
  batch.ids = [] ∨ batch.answer.isSome = true

end IdBatch

namespace BatchRun

variable {Id T : Type}

/-- The query that is still to be made. -/
def uncalled (toText : Id → String) (run : BatchRun Id T) :
    List (List String) :=
  match run.stage with
  | some (.failures _ ids) => if ids.isEmpty then [] else [ids.map toText]
  | _ => []

/-- What is known already and still to be yielded. -/
def owed (run : BatchRun Id T) : List (Except Error (Option T)) :=
  match run.stage with
  | some (.failures failure _) => failure.toList.map .error
  | some (.items rest) => rest
  | _ => []

/-- Only the batch in work may wait for its answer. -/
def Stands (run : BatchRun Id T) (batches : List (IdBatch Id T)) : Prop :=
  match run.stage with
  | none | some (.items _) => ∀ batch ∈ batches, batch.Answered
  | some (.failures _ ids) => ∃ before current,
      batches = before ++ [current] ∧ (∀ batch ∈ before, batch.Answered) ∧
        current.ids = ids ∧ current.answer = none
  | some (.query ids) => ids ≠ [] ∧ ∃ before current,
      batches = before ++ [current] ∧ (∀ batch ∈ before, batch.Answered) ∧
        current.ids = ids ∧ current.answer = none

/-- The batches account for all that was taken, asked and yielded. -/
structure Explained (toText : Id → String) (cap : Nat) (run : BatchRun Id T)
    (batches : List (IdBatch Id T)) : Prop where
  taken : run.taken = batches.flatMap IdBatch.source
  calls : run.calls ++ run.uncalled toText =
    batches.filterMap (IdBatch.call toText)
  results : run.results = batches.filterMap IdBatch.answer
  yields : run.yields ++ run.owed = batches.flatMap IdBatch.output
  sized : ∀ batch ∈ batches, batch.Sized cap
  stands : run.Stands batches
  idle : run.ended = true → run.stage = none

theorem explained_initial (toText : Id → String) (cap : Nat) :
    (initial : BatchRun Id T).Explained toText cap [] := by
  refine ⟨rfl, rfl, rfl, rfl, ?_, ?_, ?_⟩
  · intro batch hbatch
    cases hbatch
  · intro batch hbatch
    cases hbatch
  · intro hended
    cases hended

section

variable {toText : Id → String} {cap : Nat} {run : BatchRun Id T}
  {batches : List (IdBatch Id T)}

/-- A chunk is taken up. -/
theorem Explained.take (h : run.Explained toText cap batches)
    (hstage : run.stage = none) (hlive : run.ended = false)
    {ids : List Id} {failure : Option Error} {items : List (Except Error Id)}
    (hitems : items = ids.map .ok ++ failure.toList.map .error)
    (hsome : ids ≠ [] ∨ failure.isSome = true) (hcap : ids.length ≤ cap) :
    ({ run with
      taken := run.taken ++ items
      stage := some (.failures failure ids) } : BatchRun Id T).Explained
        toText cap (batches ++ [⟨ids, failure, none⟩]) := by
  have hcalls := h.calls
  have hyields := h.yields
  have hstands := h.stands
  simp only [uncalled, owed, Stands, hstage, List.append_nil]
    at hcalls hyields hstands
  refine ⟨?_, ?_, ?_, ?_, ?_, ?_, ?_⟩
  · simp [h.taken, hitems, IdBatch.source]
  · cases ids with
    | nil => simp [uncalled, hcalls, IdBatch.call]
    | cons id rest => simp [uncalled, hcalls, IdBatch.call]
  · simp [h.results]
  · simp [owed, hyields, IdBatch.output]
  · intro batch hbatch
    rcases List.mem_append.mp hbatch with hold | hnew
    · exact h.sized batch hold
    · cases List.mem_singleton.mp hnew
      exact ⟨hsome, hcap, fun _ => rfl⟩
  · exact ⟨batches, _, rfl, hstands, rfl, rfl⟩
  · intro hended
    rw [hlive] at hended
    cases hended

/-- The running query is answered. -/
theorem Explained.answered (h : run.Explained toText cap batches)
    {ids : List Id} (hstage : run.stage = some (.query ids))
    (result : Except Error (List T)) :
    ∃ batches : List (IdBatch Id T), ({ run with
      results := run.results ++ [result]
      stage := some (.items (resultItems result)) } :
        BatchRun Id T).Explained toText cap batches := by
  have hcalls := h.calls
  have hyields := h.yields
  have hstands := h.stands
  simp only [uncalled, owed, Stands, hstage, List.append_nil]
    at hcalls hyields hstands
  obtain ⟨hsome, before, current, rfl, hbefore, rfl, hnone⟩ := hstands
  refine ⟨before ++ [{ current with answer := some result }], ?_, ?_, ?_, ?_,
    ?_, ?_, ?_⟩
  · simp [h.taken, IdBatch.source]
  · simp only [uncalled, List.append_nil, hcalls, List.filterMap_append]
    rfl
  · simp [h.results, hnone]
  · simp [owed, hyields, IdBatch.output, hnone]
  · intro batch hbatch
    rcases List.mem_append.mp hbatch with hold | hnew
    · exact h.sized batch (List.mem_append_left _ hold)
    · cases List.mem_singleton.mp hnew
      have hsized := h.sized current (by simp)
      exact ⟨hsized.some, hsized.cap, fun hempty => absurd hempty hsome⟩
  · intro batch hbatch
    rcases List.mem_append.mp hbatch with hold | hnew
    · exact hbefore batch hold
    · cases List.mem_singleton.mp hnew
      exact Or.inr rfl
  · intro hended
    have hidle := h.idle hended
    rw [hstage] at hidle
    cases hidle

/-- A stage that is over, or a part of it. -/
theorem Explained.onward (h : run.Explained toText cap batches)
    (hlive : run.ended = false) {next : BatchRun Id T}
    (htaken : next.taken = run.taken) (hresults : next.results = run.results)
    (hended : next.ended = run.ended)
    (hcalls : next.calls ++ next.uncalled toText =
      run.calls ++ run.uncalled toText)
    (hyields : next.yields ++ next.owed = run.yields ++ run.owed)
    (hstands : next.Stands batches) :
    next.Explained toText cap batches := by
  refine ⟨htaken.trans h.taken, hcalls.trans h.calls,
    hresults.trans h.results, hyields.trans h.yields, h.sized, hstands, ?_⟩
  intro hover
  rw [hended, hlive] at hover
  cases hover

end

section

variable {chunks : TryReadyChunks Id} {toText : Id → String} {chunkSize : Nat}
  {run : BatchRun Id T} {batches : List (IdBatch Id T)}

theorem not_ready_of_itemsTaken {answers : Nat → SourcePoll Id} {used k : Nat}
    (hnothing : itemsTaken answers used = []) (hused : k < used)
    (item : Except Error Id) : answers 0 ≠ .ready item := by
  intro hready
  have hzero : 0 ∈ List.range used :=
    List.mem_range.mpr (Nat.lt_of_le_of_lt (Nat.zero_le k) hused)
  have hmem : item ∈ itemsTaken answers used :=
    List.mem_filterMap.mpr ⟨0, hzero, by rw [hready]; rfl⟩
  rw [hnothing] at hmem
  cases hmem

/-- All that a poll of the adaptor can do between two chunks. -/
theorem step_idle (hlive : run.ended = false) (hstage : run.stage = none)
    (event : BatchEvent Id T) :
    (step chunks toText chunkSize run event = run ∧
      ∀ item, event.answers 0 ≠ .ready item) ∨
    (∃ ids failure, (ids ≠ [] ∨ failure.isSome = true) ∧
      ids.length ≤ max chunkSize 1 ∧
      step chunks toText chunkSize run event =
        { run with
          taken := run.taken ++ (ids.map .ok ++ failure.toList.map .error)
          stage := some (.failures failure ids) }) ∨
    (step chunks toText chunkSize run event = { run with ended := true } ∧
      (∀ item, event.answers 0 ≠ .ready item) ∧
      ∃ k, event.answers k = .ended) := by
  have hpoll := chunks.faithful (max chunkSize 1) event.answers
    (Nat.lt_of_lt_of_le Nat.zero_lt_one (Nat.le_max_right _ _))
  rcases hanswer : chunks.pollNext (max chunkSize 1) event.answers with
    ⟨poll, used⟩
  rw [hanswer] at hpoll
  cases poll with
  | pending =>
      obtain ⟨hnothing, k, hused, -⟩ := hpoll
      refine Or.inl ⟨?_, not_ready_of_itemsTaken hnothing hused⟩
      cases run
      simp_all [step]
  | chunk ids =>
      obtain ⟨htaken, hsome, hcap⟩ := hpoll
      refine Or.inr (Or.inl ⟨ids, none, Or.inl hsome, hcap, ?_⟩)
      simp [step, hlive, hstage, hanswer, htaken]
  | failed ids error =>
      obtain ⟨htaken, hcap⟩ := hpoll
      refine Or.inr (Or.inl ⟨ids, some error, Or.inr rfl, hcap, ?_⟩)
      simp [step, hlive, hstage, hanswer, htaken]
  | ended =>
      obtain ⟨hnothing, k, hused, hended⟩ := hpoll
      refine Or.inr (Or.inr ⟨?_, not_ready_of_itemsTaken hnothing hused,
        k, hended⟩)
      simp [step, hlive, hstage, hanswer, hnothing]

theorem step_ended (hended : run.ended = true) (event : BatchEvent Id T) :
    step chunks toText chunkSize run event = run := by
  simp [step, hended]

theorem step_failure (hlive : run.ended = false) {error : Error}
    {ids : List Id} (hstage : run.stage = some (.failures (some error) ids))
    (event : BatchEvent Id T) :
    step chunks toText chunkSize run event =
      { run with
        yields := run.yields ++ [.error error]
        stage := some (.failures none ids) } := by
  simp [step, hlive, hstage]

theorem step_ask (hlive : run.ended = false) {ids : List Id}
    (hstage : run.stage = some (.failures none ids)) (hsome : ids ≠ [])
    (event : BatchEvent Id T) :
    step chunks toText chunkSize run event =
      { run with
        calls := run.calls ++ [ids.map toText]
        stage := some (.query ids) } := by
  simp [step, hlive, hstage, hsome]

theorem step_askNothing (hlive : run.ended = false)
    (hstage : run.stage = some (.failures none [])) (event : BatchEvent Id T) :
    step chunks toText chunkSize run event =
      { run with stage := some (.items []) } := by
  simp [step, hlive, hstage]

theorem step_unanswered {ids : List Id}
    (hstage : run.stage = some (.query ids)) {event : BatchEvent Id T}
    (hanswer : event.answer = none) :
    step chunks toText chunkSize run event = run := by
  simp [step, hstage, hanswer]

theorem step_answered (hlive : run.ended = false) {ids : List Id}
    (hstage : run.stage = some (.query ids)) {event : BatchEvent Id T}
    {result : Except Error (List T)} (hanswer : event.answer = some result) :
    step chunks toText chunkSize run event =
      { run with
        results := run.results ++ [result]
        stage := some (.items (resultItems result)) } := by
  simp [step, hlive, hstage, hanswer]

theorem step_item (hlive : run.ended = false)
    {item : Except Error (Option T)} {rest : List (Except Error (Option T))}
    (hstage : run.stage = some (.items (item :: rest)))
    (event : BatchEvent Id T) :
    step chunks toText chunkSize run event =
      { run with
        yields := run.yields ++ [item], stage := some (.items rest) } := by
  simp [step, hlive, hstage]

theorem step_drained (hlive : run.ended = false)
    (hstage : run.stage = some (.items [])) (event : BatchEvent Id T) :
    step chunks toText chunkSize run event = { run with stage := none } := by
  simp [step, hlive, hstage]

/-- The adaptor is polled between two chunks. -/
theorem Explained.poll (h : run.Explained toText (max chunkSize 1) batches)
    (hlive : run.ended = false) (hstage : run.stage = none)
    (event : BatchEvent Id T) :
    ∃ batches, (step chunks toText chunkSize run event).Explained toText
      (max chunkSize 1) batches := by
  rcases step_idle hlive hstage event with
    ⟨hstep, -⟩ | ⟨ids, failure, hsome, hcap, hstep⟩ | ⟨hstep, -⟩
  · rw [hstep]
    exact ⟨batches, h⟩
  · rw [hstep]
    exact ⟨_, h.take hstage hlive rfl hsome hcap⟩
  · rw [hstep]
    exact ⟨batches, h.taken, h.calls, h.results, h.yields, h.sized, h.stands,
      fun _ => hstage⟩

/-- The error of a chunk is out, and its ids are asked for. -/
theorem Explained.ask (h : run.Explained toText (max chunkSize 1) batches)
    (hlive : run.ended = false) {ids : List Id}
    (hstage : run.stage = some (.failures none ids))
    (event : BatchEvent Id T) :
    (step chunks toText chunkSize run event).Explained toText
      (max chunkSize 1) batches := by
  have hstands := h.stands
  simp only [Stands, hstage] at hstands
  cases ids with
  | nil =>
      rw [step_askNothing hlive hstage]
      refine h.onward hlive rfl rfl rfl ?_ ?_ ?_
      · simp [uncalled, hstage]
      · simp [owed, hstage]
      · obtain ⟨before, current, rfl, hbefore, hids, -⟩ := hstands
        intro batch hbatch
        rcases List.mem_append.mp hbatch with hold | hnew
        · exact hbefore batch hold
        · cases List.mem_singleton.mp hnew
          exact Or.inl hids
  | cons id rest =>
      rw [step_ask hlive hstage (List.cons_ne_nil id rest)]
      refine h.onward hlive rfl rfl rfl ?_ ?_ ?_
      · simp [uncalled, hstage]
      · simp [owed, hstage]
      · exact ⟨List.cons_ne_nil id rest, hstands⟩

theorem Explained.step (h : run.Explained toText (max chunkSize 1) batches)
    (event : BatchEvent Id T) :
    ∃ batches, (step chunks toText chunkSize run event).Explained toText
      (max chunkSize 1) batches := by
  cases hlive : run.ended with
  | true =>
      rw [step_ended hlive]
      exact ⟨batches, h⟩
  | false =>
      have hstands := h.stands
      match hstage : run.stage with
      | none => exact h.poll hlive hstage event
      | some (.failures (some error) ids) =>
          rw [step_failure hlive hstage]
          simp only [Stands, hstage] at hstands
          refine ⟨batches, h.onward hlive rfl rfl rfl ?_ ?_ hstands⟩
          · simp [uncalled, hstage]
          · simp [owed, hstage]
      | some (.failures none ids) =>
          exact ⟨batches, h.ask hlive hstage event⟩
      | some (.query ids) =>
          cases hanswer : event.answer with
          | none =>
              rw [step_unanswered hstage hanswer]
              exact ⟨batches, h⟩
          | some result =>
              rw [step_answered hlive hstage hanswer]
              exact h.answered hstage result
      | some (.items (item :: rest)) =>
          rw [step_item hlive hstage]
          simp only [Stands, hstage] at hstands
          refine ⟨batches, h.onward hlive rfl rfl rfl ?_ ?_ hstands⟩
          · simp [uncalled, hstage]
          · simp [owed, hstage]
      | some (.items []) =>
          rw [step_drained hlive hstage]
          simp only [Stands, hstage] at hstands
          refine ⟨batches, h.onward hlive rfl rfl rfl ?_ ?_ hstands⟩
          · simp [uncalled, hstage]
          · simp [owed, hstage]

theorem explained_steps (events : List (BatchEvent Id T)) :
    ∃ batches, (steps chunks toText chunkSize events).Explained toText
      (max chunkSize 1) batches := by
  induction events using List.reverseRecOn with
  | nil => exact ⟨[], explained_initial toText _⟩
  | append_singleton events event ih =>
      obtain ⟨batches, h⟩ := ih
      rw [steps, List.foldl_append]
      exact h.step event

/-- A poll between two chunks takes what is ready. -/
theorem step_takes (hlive : run.ended = false) (hstage : run.stage = none)
    {event : BatchEvent Id T} {item : Except Error Id}
    (hready : event.answers 0 = .ready item) :
    run.taken.length <
      (step chunks toText chunkSize run event).taken.length := by
  rcases step_idle hlive hstage event with
    ⟨-, hnot⟩ | ⟨ids, failure, hsome, -, hstep⟩ | ⟨-, hnot, -⟩
  · exact absurd hready (hnot item)
  · rw [hstep]
    cases hsome with
    | inl hids =>
        have := List.length_pos_of_ne_nil hids
        simp only [List.length_append, List.length_map]
        omega
    | inr hfailure =>
        obtain ⟨error, rfl⟩ := Option.isSome_iff_exists.mp hfailure
        simp
  · exact absurd hready (hnot item)

/-- The stream ends where its source does and nowhere else. -/
theorem step_ends (hlive : run.ended = false) {event : BatchEvent Id T}
    (hended : (step chunks toText chunkSize run event).ended = true) :
    run.stage = none ∧ ∃ k, event.answers k = .ended := by
  have hstill (hsame : (step chunks toText chunkSize run event).ended =
      run.ended) : run.stage = none ∧ ∃ k, event.answers k = .ended := by
    rw [hsame, hlive] at hended
    cases hended
  match hstage : run.stage with
  | none =>
      rcases step_idle hlive hstage event with
        ⟨hstep, -⟩ | ⟨ids, failure, -, -, hstep⟩ | ⟨-, -, hover⟩
      · exact hstage ▸ hstill (by rw [hstep])
      · exact hstage ▸ hstill (by rw [hstep])
      · exact ⟨rfl, hover⟩
  | some (.failures (some error) ids) =>
      exact hstage ▸ hstill (by rw [step_failure hlive hstage])
  | some (.failures none []) =>
      exact hstage ▸ hstill (by rw [step_askNothing hlive hstage])
  | some (.failures none (id :: ids)) =>
      exact hstage ▸ hstill
        (by rw [step_ask hlive hstage (List.cons_ne_nil id ids)])
  | some (.query ids) =>
      cases hanswer : event.answer with
      | none => exact hstage ▸ hstill (by rw [step_unanswered hstage hanswer])
      | some result =>
          exact hstage ▸ hstill (by rw [step_answered hlive hstage hanswer])
  | some (.items (item :: rest)) =>
      exact hstage ▸ hstill (by rw [step_item hlive hstage])
  | some (.items []) =>
      exact hstage ▸ hstill (by rw [step_drained hlive hstage])

theorem follow_step {run' : BatchRun Id T} {feed : Nat → BatchEvent Id T}
    (hstep : step chunks toText chunkSize run (feed 0) = run')
    (hrest : ∃ n, (follow chunks toText chunkSize run'
      (fun k => feed (k + 1)) n).stage = none) :
    ∃ n, (follow chunks toText chunkSize run feed n).stage = none := by
  obtain ⟨n, hn⟩ := hrest
  refine ⟨n + 1, ?_⟩
  rw [follow, hstep]
  exact hn

theorem follow_items (rest : List (Except Error (Option T)))
    {run : BatchRun Id T} (hlive : run.ended = false)
    (hstage : run.stage = some (.items rest))
    (feed : Nat → BatchEvent Id T) :
    ∃ n, (follow chunks toText chunkSize run feed n).stage = none := by
  induction rest generalizing run feed with
  | nil => exact follow_step (step_drained hlive hstage _) ⟨0, rfl⟩
  | cons item rest ih =>
      exact follow_step (step_item hlive hstage _) (ih (by exact hlive) rfl _)

theorem follow_query (hlive : run.ended = false) {ids : List Id}
    (hstage : run.stage = some (.query ids)) {feed : Nat → BatchEvent Id T}
    (hanswers : ∀ k, (feed k).answer.isSome = true) :
    ∃ n, (follow chunks toText chunkSize run feed n).stage = none := by
  obtain ⟨result, hresult⟩ := Option.isSome_iff_exists.mp (hanswers 0)
  exact follow_step (step_answered hlive hstage hresult)
    (follow_items _ (by exact hlive) rfl _)

theorem follow_ask (hlive : run.ended = false) {ids : List Id}
    (hstage : run.stage = some (.failures none ids))
    {feed : Nat → BatchEvent Id T}
    (hanswers : ∀ k, (feed k).answer.isSome = true) :
    ∃ n, (follow chunks toText chunkSize run feed n).stage = none := by
  cases ids with
  | nil =>
      exact follow_step (step_askNothing hlive hstage _)
        (follow_items _ (by exact hlive) rfl _)
  | cons id ids =>
      exact follow_step
        (step_ask hlive hstage (List.cons_ne_nil id ids) _)
        (follow_query (by exact hlive) rfl fun k => hanswers (k + 1))

/-- The chunk in work is done with once its query is answered. -/
theorem follow_drains (hlive : run.ended = false)
    {feed : Nat → BatchEvent Id T}
    (hanswers : ∀ k, (feed k).answer.isSome = true) :
    ∃ n, (follow chunks toText chunkSize run feed n).stage = none := by
  match hstage : run.stage with
  | none => exact ⟨0, hstage⟩
  | some (.failures (some error) ids) =>
      exact follow_step (step_failure hlive hstage _)
        (follow_ask (by exact hlive) rfl fun k => hanswers (k + 1))
  | some (.failures none ids) => exact follow_ask hlive hstage hanswers
  | some (.query ids) => exact follow_query hlive hstage hanswers
  | some (.items rest) => exact follow_items rest hlive hstage feed

/-- The ids of the queries are the ids of the source. -/
theorem flatten_calls (toText : Id → String) (batches : List (IdBatch Id T)) :
    (batches.filterMap (IdBatch.call toText)).flatten =
      (batches.flatMap IdBatch.source).filterMap fun item =>
        item.toOption.map toText := by
  induction batches with
  | nil => rfl
  | cons batch rest ih =>
      have hids : (batch.ids.map (.ok : Id → Except Error Id)).filterMap
          (fun item => item.toOption.map toText) = batch.ids.map toText := by
        rw [List.filterMap_map]
        exact congrFun List.filterMap_eq_map batch.ids
      have herrors : (batch.failure.toList.map
          (.error : Error → Except Error Id)).filterMap
            (fun item => item.toOption.map toText) = [] := by
        cases batch.failure <;> rfl
      rw [List.flatMap_cons, List.filterMap_append, ← ih, IdBatch.source,
        List.filterMap_append, hids, herrors, List.append_nil]
      cases hempty : batch.ids with
      | nil => simp [IdBatch.call, hempty]
      | cons id ids => simp [IdBatch.call, hempty]

theorem Explained.call_sized {cap : Nat}
    (h : run.Explained toText cap batches) {texts : List String}
    (hcall : texts ∈ run.calls) : 1 ≤ texts.length ∧ texts.length ≤ cap := by
  have hmem : texts ∈ batches.filterMap (IdBatch.call toText) := by
    rw [← h.calls]
    exact List.mem_append_left _ hcall
  obtain ⟨batch, hbatch, hcall⟩ := List.mem_filterMap.mp hmem
  rw [IdBatch.call] at hcall
  split at hcall
  · cases hcall
  · rename_i hsome
    cases hcall
    rw [List.length_map]
    have hne : batch.ids ≠ [] := fun hnil => hsome (by rw [hnil]; rfl)
    exact ⟨List.length_pos_of_ne_nil hne, (h.sized batch hbatch).cap⟩

/-- In every run the source is cut into batches that lose nothing.  Each id
is in one query, in order; each error of the listener is yielded once, before
the tasks of its batch; each answer is yielded whole.  The batch in work comes
to its end, what is ready is then taken, also after an error, and the stream
ends only with its source. -/
theorem id_batches_lose_nothing (chunks : TryReadyChunks Id)
    (toText : Id → String) (chunkSize : Nat)
    (events : List (BatchEvent Id T)) :
    let run := steps chunks toText chunkSize events
    (∃ batches : List (IdBatch Id T),
      run.taken = batches.flatMap IdBatch.source ∧
      run.calls ++ run.uncalled toText =
        batches.filterMap (IdBatch.call toText) ∧
      run.results = batches.filterMap IdBatch.answer ∧
      run.yields ++ run.owed = batches.flatMap IdBatch.output ∧
      (∀ batch ∈ batches, batch.Sized (max chunkSize 1)) ∧
      run.Stands batches) ∧
    (run.calls ++ run.uncalled toText).flatten =
      run.taken.filterMap (fun item => item.toOption.map toText) ∧
    (∀ texts ∈ run.calls, 1 ≤ texts.length ∧
      texts.length ≤ max chunkSize 1) ∧
    (run.ended = false →
      (∀ feed : Nat → BatchEvent Id T,
        (∀ k, (feed k).answer.isSome = true) →
        ∃ n, (follow chunks toText chunkSize run feed n).stage = none) ∧
      (∀ (event : BatchEvent Id T) item, run.stage = none →
        event.answers 0 = .ready item →
        run.taken.length <
          (step chunks toText chunkSize run event).taken.length) ∧
      ∀ event : BatchEvent Id T,
        (step chunks toText chunkSize run event).ended = true →
        run.stage = none ∧ ∃ k, event.answers k = .ended) := by
  obtain ⟨batches, h⟩ := explained_steps events
  refine ⟨⟨batches, h.taken, h.calls, h.results, h.yields, h.sized, h.stands⟩,
    ?_, fun texts => h.call_sized, fun hlive => ⟨?_, ?_, ?_⟩⟩
  · rw [h.calls, h.taken, flatten_calls]
  · intro feed hanswers
    exact follow_drains hlive hanswers
  · intro event item hstage hready
    exact step_takes hlive hstage hready
  · intro event hended
    exact step_ends hlive hended

/-- Two ids and an error, then another id, with one task for the first
query. -/
def mixedFeed (error : Error) : List (BatchEvent Nat Nat) :=
  let first : Nat → SourcePoll Nat
    | 0 => .ready (.ok 1)
    | 1 => .ready (.ok 2)
    | _ => .ready (.error error)
  let later : Nat → SourcePoll Nat
    | 0 => .ready (.ok 3)
    | _ => .pending
  [⟨first, none⟩, ⟨first, none⟩, ⟨first, none⟩, ⟨first, some (.ok [7])⟩,
    ⟨first, none⟩, ⟨first, none⟩, ⟨later, none⟩, ⟨later, none⟩]

theorem id_batches_lose_nothing_mixed :
    let run := steps (.futures Nat) toString 5 (mixedFeed (.pool "closed"))
    run.calls = [["1", "2"], ["3"]] ∧
      run.yields = [.error (.pool "closed"), .ok (some 7)] ∧
      (∀ texts ∈ run.calls, 1 ≤ texts.length ∧ texts.length ≤ 5) ∧
      ∀ feed : Nat → BatchEvent Nat Nat,
        (∀ k, (feed k).answer.isSome = true) →
        ∃ n, (follow (.futures Nat) toString 5 run feed n).stage = none := by
  have h := id_batches_lose_nothing (.futures Nat) toString 5
    (mixedFeed (.pool "closed"))
  obtain ⟨-, -, hsized, hlive⟩ := h
  exact ⟨rfl, rfl, hsized, (hlive rfl).1⟩

end

end BatchRun

end ApalisPostgres
