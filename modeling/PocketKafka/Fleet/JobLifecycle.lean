import PocketKafka.Fleet.Jobs

namespace PocketKafka.Fleet

open Bytes Runs

inductive JobStatus.Moves : JobStatus → JobStatus → Prop where
  | start : Moves .queued .running
  | complete {status : JobStatus} (ends : status.terminal = true) : Moves .running status
  | cancel : Moves .queued .failed

theorem JobStatus.Moves.unfinished {status status' : JobStatus} (moves : status.Moves status') :
    status.terminal = false := by
  cases moves <;> rfl

theorem JobStatus.Moves.known {status status' : JobStatus} (moves : status.Moves status') :
    status' = .queued ∨ status' = .running ∨ status'.terminal = true := by
  cases moves with
  | start => exact .inr (.inl rfl)
  | complete ends => exact .inr (.inr ends)
  | cancel => exact .inr (.inr rfl)

def Job.Evolves (job job' : Job) : Prop :=
  (job'.status = job.status ∨ job.status.Moves job'.status) ∧ (job.status.terminal = true → job' = job)

theorem Job.Evolves.refl (job : Job) : job.Evolves job := ⟨.inl rfl, fun _ => rfl⟩

theorem Job.Evolves.move {job job' : Job} (moves : job.status.Moves job'.status) : job.Evolves job' := by
  refine ⟨.inr moves, fun ended => ?_⟩
  rw [moves.unfinished] at ended
  cases ended

theorem Job.Evolves.write {job job' : Job} (status : job'.status = job.status)
    (same : job.status.terminal = true → job' = job) : job.Evolves job' := ⟨.inl status, same⟩

namespace Jobs

structure Sound (j : Jobs) : Prop where
  keyed : ∀ id job, j.jobs id = some job → job.id = id
  known : ∀ id job, j.jobs id = some job → job.status = .queued ∨ job.status = .running ∨ job.status.terminal = true

def Advances (j j' : Jobs) : Prop :=
  j'.Sound ∧ ∀ id job, j.jobs id = some job → ∃ job', j'.jobs id = some job' ∧ job.Evolves job'

variable {j : Jobs} {job job' : Job} {id : Bytes} {now : Time}

theorem Sound.advances (sound : j.Sound) : j.Advances j := ⟨sound, fun _ job held => ⟨job, held, .refl job⟩⟩

theorem Sound.set (sound : j.Sound)
    (known : job.status = .queued ∨ job.status = .running ∨ job.status.terminal = true) : (j.set job).Sound := by
  constructor <;> intro id found held <;> by_cases same : id = job.id
  · subst same
    rw [set_self] at held
    cases held
    rfl
  · exact sound.keyed id found (by rwa [set_of_ne j same] at held)
  · subst same
    rw [set_self] at held
    cases held
    exact known
  · exact sound.known id found (by rwa [set_of_ne j same] at held)

theorem Sound.advances_set (sound : j.Sound) (held : j.jobs id = some job) (named : job'.id = job.id)
    (evolves : job.Evolves job') : j.Advances (j.set job') := by
  have known : job'.status = .queued ∨ job'.status = .running ∨ job'.status.terminal = true := by
    rcases evolves.1 with stays | moves
    · rw [stays]
      exact sound.known id job held
    · exact moves.known
  refine ⟨sound.set known, fun other old found => ?_⟩
  by_cases same : other = job'.id
  · have here : id = other := by rw [same, named, sound.keyed id job held]
    subst here
    cases held.symm.trans found
    exact ⟨job', by rw [same, set_self], evolves⟩
  · exact ⟨old, by rw [set_of_ne j same, found], .refl old⟩

theorem Sound.advances_put (sound : j.Sound) (fresh : j.jobs job.id = none) (queued : job.status = .queued) :
    j.Advances (j.put job) := by
  refine ⟨⟨(sound.set (.inl queued)).keyed, (sound.set (.inl queued)).known⟩, fun id old held => ⟨old, ?_, .refl old⟩⟩
  have other : id ≠ job.id := by
    rintro rfl
    cases fresh.symm.trans held
  exact (set_of_ne j other).trans held

theorem start_ok (done : j.start now id = .ok job') :
    ∃ job, j.jobs id = some job ∧ job.status = .queued ∧ job' = { job with status := .running, startedAt := now } := by
  unfold Jobs.start at done
  split at done
  · cases done
  · rename_i job held
    split at done
    · cases done
    · rename_i queued
      cases done
      exact ⟨job, held, not_not.mp queued, rfl⟩

theorem complete_ok {status : JobStatus} {errMsg : Option Bytes} (done : j.complete now id status errMsg = .ok job') :
    ∃ job, j.jobs id = some job ∧ status.terminal = true ∧ job.status ≠ .queued ∧ job.status.terminal ≠ true ∧
      ∃ text, job' = { job with status := status, completedAt := now, error := text } := by
  unfold Jobs.complete at done
  split at done
  · cases done
  · rename_i job held
    split at done
    · cases done
    · rename_i ends
      split at done
      · cases done
      · rename_i queued
        split at done
        · cases done
        · rename_i unfinished
          cases done
          exact ⟨job, held, by simpa using ends, queued, unfinished, _, rfl⟩

theorem setResult_ok {result : Bytes} (done : j.setResult id result = .ok job') :
    ∃ job, j.jobs id = some job ∧ job' = { job with result := result } := by
  unfold Jobs.setResult at done
  split at done
  · cases done
  · rename_i job held
    cases done
    exact ⟨job, held, rfl⟩

theorem cancel_ok {errMsg : Bytes} (done : j.cancel now id errMsg = .ok job') :
    ∃ job, j.jobs id = some job ∧ job.status = .queued ∧
      job' = { job with status := .failed, completedAt := now, error := errMsg } := by
  unfold Jobs.cancel at done
  split at done
  · cases done
  · rename_i job held
    split at done
    · cases done
    · rename_i queued
      cases done
      exact ⟨job, held, not_not.mp queued, rfl⟩

theorem start_evolves (done : j.start now id = .ok job') : ∃ job, j.jobs id = some job ∧ job'.id = job.id ∧
    job.Evolves job' := by
  obtain ⟨job, held, queued, rfl⟩ := start_ok done
  refine ⟨job, held, rfl, .move ?_⟩
  rw [queued]
  exact .start

theorem Sound.complete_evolves (sound : j.Sound) {status : JobStatus} {errMsg : Option Bytes}
    (done : j.complete now id status errMsg = .ok job') :
    ∃ job, j.jobs id = some job ∧ job'.id = job.id ∧ job.Evolves job' := by
  obtain ⟨job, held, ends, queued, unfinished, text, rfl⟩ := complete_ok done
  refine ⟨job, held, rfl, .move ?_⟩
  rcases sound.known id job held with waits | runs | ended
  · exact absurd waits queued
  · rw [runs]
    exact .complete ends
  · exact absurd ended unfinished

theorem timedOut_evolves (marked : j.timedOut now job = some job') :
    job'.id = job.id ∧ job.status = .running ∧ job'.status = .failed := by
  unfold Jobs.timedOut at marked
  split at marked
  · rename_i late
    cases marked
    exact ⟨rfl, late.1, rfl⟩
  · cases marked

def Expires (j j' : Jobs) : Prop :=
  j'.Sound ∧ ∀ id job, j.jobs id = some job →
    ∃ job', j'.jobs id = some job' ∧ (job' = job ∨ job.status = .running ∧ job'.status = .failed)

theorem Expires.advances {j' : Jobs} (expires : j.Expires j') : j.Advances j' := by
  refine ⟨expires.1, fun id job held => ?_⟩
  obtain ⟨job', found, same | ⟨runs, fails⟩⟩ := expires.2 id job held
  · exact ⟨job', found, same ▸ .refl job'⟩
  · refine ⟨job', found, .move ?_⟩
    rw [runs, fails]
    exact .complete rfl

theorem Sound.expires_checkTimeout (sound : j.Sound) (now : Time) (id : Bytes) : j.Expires (j.checkTimeout now id) := by
  unfold Jobs.checkTimeout
  split
  · rename_i job' marked
    obtain ⟨job, held, marked⟩ := Option.bind_eq_some_iff.mp marked
    obtain ⟨named, runs, fails⟩ := timedOut_evolves marked
    refine ⟨sound.set (.inr (.inr (by rw [fails]; rfl))), fun other old found => ?_⟩
    by_cases same : other = job'.id
    · have here : id = other := by rw [same, named, sound.keyed id job held]
      subst here
      cases held.symm.trans found
      exact ⟨job', by rw [same, set_self], .inr ⟨runs, fails⟩⟩
    · exact ⟨old, by rw [set_of_ne j same, found], .inl rfl⟩
  · exact ⟨sound, fun _ job held => ⟨job, held, .inl rfl⟩⟩

theorem Expires.trans {j' j'' : Jobs} (first : j.Expires j') (second : j'.Expires j'') : j.Expires j'' := by
  refine ⟨second.1, fun id job held => ?_⟩
  obtain ⟨job', found, same⟩ := first.2 id job held
  obtain ⟨job'', found', same'⟩ := second.2 id job' found
  refine ⟨job'', found', ?_⟩
  rcases same with rfl | ⟨runs, fails⟩
  · exact same'
  · rcases same' with rfl | ⟨runs', -⟩
    · exact .inr ⟨runs, fails⟩
    · rw [fails] at runs'
      cases runs'

theorem Sound.expires_foldl (sound : j.Sound) {f : Jobs → Bytes → Jobs} (ids : List Bytes)
    (each : ∀ (j : Jobs) id, j.Sound → j.Expires (f j id)) : j.Expires (ids.foldl f j) := by
  apply foldl_invariant
  · exact ⟨sound, fun _ job held => ⟨job, held, .inl rfl⟩⟩
  · exact fun middle id _ reached => reached.trans (each middle id reached.1)

theorem Sound.advances_commit (sound : j.Sound) (written : Bool) (held : j.jobs id = some job) (named : job'.id = job.id)
    (evolves : job.Evolves job') : j.Advances (j.commit written job') := by
  unfold Jobs.commit
  split
  · exact sound.advances_set held named evolves
  · exact sound.advances

end Jobs

def JobsCall.submission : JobsCall → Option Submission
  | .request (.submit sub) | .request (.submitForce sub _) | .request (.submitWithTail sub _) => some sub
  | _ => none

/-- The field that a call writes whatever the status is: the job, and whether its field has the value already. -/
def JobsCall.write : JobsCall → Option (Bytes × (Job → Bool))
  | .setForce id force => some (id, fun job => job.force = force)
  | .setTail id tail => some (id, fun job => job.tailLines = tail)
  | .setResult id result | .request (.setResult id result) => some (id, fun job => job.result = result)
  | _ => none

namespace JobsSystem

def FreshIds (s : JobsSystem) : JobsEvent → Prop
  | .advance i _ => ∀ call ∈ s.calls[i]?, ∀ sub ∈ call.submission, s.jobs.jobs sub.id = none
  | _ => True

/-- The flag, the number of lines or the result that is written to a finished job is the one it has. -/
def SparesFinished (s : JobsSystem) : JobsEvent → Prop
  | .advance i _ => ∀ call ∈ s.calls[i]?, ∀ write ∈ call.write, ∀ job ∈ s.jobs.jobs write.1,
      job.status.terminal = true → write.2 job = true
  | _ => True

instance (s : JobsSystem) (e : JobsEvent) : Decidable (FreshIds s e) := by
  unfold FreshIds
  split <;> infer_instance

instance (s : JobsSystem) (e : JobsEvent) : Decidable (SparesFinished s e) := by
  unfold SparesFinished
  split <;> infer_instance

variable {s s' : JobsSystem} {written : Bool} {id : Bytes}

theorem submitted_advances (sound : s.jobs.Sound) {sub : Submission} (fresh : s.jobs.jobs sub.id = none) :
    s.jobs.Advances (s.submitted written sub).2 := by
  unfold submitted
  split
  · exact sound.advances
  · exact sound.advances
  · rename_i job added
    have shape : job.id = sub.id ∧ job.status = .queued := by
      unfold Jobs.submit at added
      split at added
      · cases added
      · split at added
        · cases added
        · cases added
          exact ⟨rfl, rfl⟩
    split
    · exact sound.advances_put (by rw [shape.1, fresh]) shape.2
    · exact sound.advances

theorem update_advances (sound : s.jobs.Sound) {commit : Job → Jobs} {result : Except JobError Job}
    (commits : ∀ job, result = .ok job → s.jobs.Advances (commit job)) : s.jobs.Advances (s.update commit result) := by
  cases result with
  | error _ => exact sound.advances
  | ok job => exact commits job rfl

theorem commit_advances (sound : s.jobs.Sound) {result : Except JobError Job}
    (evolves : ∀ job', result = .ok job' → ∃ job, s.jobs.jobs id = some job ∧ job'.id = job.id ∧ job.Evolves job') :
    s.jobs.Advances (s.update (s.jobs.commit written) result) := by
  apply update_advances sound
  intro job' done
  obtain ⟨job, held, named, evolves⟩ := evolves job' done
  exact sound.advances_commit written held named evolves

theorem cancel_advances (sound : s.jobs.Sound) {errMsg : Bytes} :
    s.jobs.Advances (s.update (s.jobs.commitCancel written) (s.jobs.cancel s.now id errMsg)) := by
  apply update_advances sound
  intro job' done
  obtain ⟨job, held, queued, rfl⟩ := Jobs.cancel_ok done
  have named := sound.keyed id job held
  unfold Jobs.commitCancel
  split
  · refine sound.advances_set held (by rfl) (.move ?_)
    rw [queued]
    exact .cancel
  · simp only [named, held]
    refine sound.advances_set held named.symm (.write rfl fun ended => ?_)
    rw [queued] at ended
    cases ended

theorem write_advances (sound : s.jobs.Sound) {job job' : Job} (held : s.jobs.jobs id = some job) (named : job'.id = job.id)
    (status : job'.status = job.status) (spares : job.status.terminal = true → job' = job) :
    s.jobs.Advances (s.jobs.set job') := sound.advances_set held named (.write status spares)

theorem setResult_advances (sound : s.jobs.Sound) {result : Bytes}
    (spares : ∀ job ∈ s.jobs.jobs id, job.status.terminal = true → decide (job.result = result) = true) :
    s.jobs.Advances (s.update s.jobs.set (s.jobs.setResult id result)) := by
  apply update_advances sound
  intro job' done
  obtain ⟨job, held, rfl⟩ := Jobs.setResult_ok done
  refine write_advances sound held (by rfl) rfl fun ended => ?_
  rw [← of_decide_eq_true (spares job held ended)]

theorem serve_advances (sound : s.jobs.Sound) (call : JobsCall)
    (fresh : ∀ sub ∈ call.submission, s.jobs.jobs sub.id = none)
    (spares : ∀ write ∈ call.write, ∀ job ∈ s.jobs.jobs write.1, job.status.terminal = true → write.2 job = true) :
    s.jobs.Advances (s.serve written call).1 := by
  cases call with
  | request request =>
    cases request with
    | submit sub => exact submitted_advances sound (fresh sub rfl)
    | submitForce sub force => exact submitted_advances sound (fresh sub rfl)
    | submitWithTail sub tail => exact submitted_advances sound (fresh sub rfl)
    | start id => exact commit_advances sound fun _ => Jobs.start_evolves
    | complete id status errMsg => exact commit_advances sound fun _ => sound.complete_evolves
    | setResult id result => exact setResult_advances sound (spares _ rfl)
    | cancel id errMsg => exact cancel_advances sound
    | get id => exact (sound.expires_checkTimeout s.now id).advances
    | list => exact (sound.expires_foldl _ fun j id sound => sound.expires_checkTimeout s.now id).advances
    | listByServer serverID =>
      apply Jobs.Expires.advances
      apply sound.expires_foldl
      intro j id sound
      split
      · exact sound.expires_checkTimeout s.now id
      · exact ⟨sound, fun _ job held => ⟨job, held, .inl rfl⟩⟩
    | jobRunning serverID res => exact (sound.expires_checkTimeout s.now res.jobID).advances
    | jobResult serverID res => exact (sound.expires_checkTimeout s.now res.jobID).advances
  | setForce id force =>
    simp only [serve]
    split
    · rename_i job held
      refine write_advances sound held (by rfl) rfl fun ended => ?_
      rw [← of_decide_eq_true (spares _ rfl job held ended)]
    · exact sound.advances
  | setTail id tail =>
    simp only [serve]
    split
    · rename_i job held
      refine write_advances sound held (by rfl) rfl fun ended => ?_
      rw [← of_decide_eq_true (spares _ rfl job held ended)]
    · exact sound.advances
  | start id => exact commit_advances sound fun _ => Jobs.start_evolves
  | setResult id result => exact setResult_advances sound (spares _ rfl)
  | complete id status errMsg => exact commit_advances sound fun _ => sound.complete_evolves

theorem step_advances (sound : s.jobs.Sound) {e : JobsEvent} (fresh : FreshIds s e) (spares : SparesFinished s e)
    (step : Steps s e s') : s.jobs.Advances s'.jobs := by
  cases e with
  | tick passed =>
    cases step
    exact sound.advances
  | call request =>
    cases step
    exact sound.advances
  | advance i written =>
    simp only [Steps, perform] at step
    split at step
    · cases step
    · rename_i call found
      cases step
      exact serve_advances sound call (fresh call found) (spares call found)

def Orderly (s : JobsSystem) (e : JobsEvent) : Prop := FreshIds s e ∧ SparesFinished s e

instance (s : JobsSystem) (e : JobsEvent) : Decidable (Orderly s e) := inferInstanceAs (Decidable (_ ∧ _))

theorem initial_sound (timeout : Time) (timeoutError : Bytes) (maxActiveJobs : Int) (now : Time) :
    (initial timeout timeoutError maxActiveJobs now).jobs.Sound := by
  constructor <;> intro id job held <;> cases held

theorem sound_of_reaches (sound : s.jobs.Sound) (run : Reaches Orderly Steps s s') : s'.jobs.Sound :=
  run.invariant sound fun _ _ _ sound orderly step =>
    (step_advances sound orderly.1 orderly.2 step).1

/-- From any state of an orderly run, one step takes every job at most one step of the lifecycle further, and whatever
follows leaves a finished job as it is. -/
theorem job_lifecycle (timeout : Time) (timeoutError : Bytes) (maxActiveJobs : Int) (now : Time) {s : JobsSystem}
    (run : Reaches Orderly Steps (initial timeout timeoutError maxActiveJobs now) s) {id : Bytes} {job : Job}
    (held : s.jobs.jobs id = some job) :
    (∀ e s', Orderly s e → Steps s e s' → ∃ job', s'.jobs.jobs id = some job' ∧
      (job'.status = job.status ∨ job.status.Moves job'.status)) ∧
    (job.status.terminal = true → ∀ t, Reaches Orderly Steps s t → t.jobs.jobs id = some job) := by
  have sound := sound_of_reaches (initial_sound timeout timeoutError maxActiveJobs now) run
  constructor
  · intro e s' orderly step
    obtain ⟨job', found, evolves⟩ := (step_advances sound orderly.1 orderly.2 step).2 id job held
    exact ⟨job', found, evolves.1⟩
  · intro ended t later
    have both : t.jobs.Sound ∧ t.jobs.jobs id = some job := by
      apply later.invariant ⟨sound, held⟩
      rintro s e t ⟨sound, held⟩ orderly step
      have advances := step_advances sound orderly.1 orderly.2 step
      obtain ⟨job', found, evolves⟩ := advances.2 id job held
      exact ⟨advances.1, by rw [found, evolves.2 ended]⟩
    exact both.2

private def restart (id : Bytes) : Submission := ⟨id, ascii "s", ascii "restart", ascii "c", ascii "root", ascii "key"⟩

private def restarted : Job :=
  ⟨ascii "j1", ascii "s", ascii "restart", ascii "c", ascii "root", ascii "key", false, [], 0, .succeeded, [], 0, 0, 0⟩

private def restarting : List JobsEvent :=
  [.call (.submitForce (restart (ascii "j1")) false), .advance 0 true, .advance 0 true, .call (.start (ascii "j1")),
    .advance 0 true, .call (.complete (ascii "j1") .succeeded none), .advance 0 true]

private def again : List JobsEvent :=
  [.call (.submitForce (restart (ascii "j2")) true), .advance 0 true, .advance 0 true]

theorem job_lifecycle_restart : ∃ s, Reaches Orderly Steps (initial 0 [] 1000 0) s ∧
    s.jobs.jobs (ascii "j1") = some restarted ∧
    ∀ t, Reaches Orderly Steps s t → t.jobs.jobs (ascii "j1") = some restarted := by
  obtain ⟨s, run, held⟩ : ∃ s, Reaches Orderly Steps (initial 0 [] 1000 0) s ∧ s.jobs.jobs (ascii "j1") = some restarted :=
    exists_reaches restarting (fun _ _ _ step => step) (by decide +kernel)
  exact ⟨s, run, held, (job_lifecycle 0 [] 1000 0 run held).2 rfl⟩

/-- The second submission is answered with the finished job, and its flag is written into it. -/
theorem finished_job_rewritten : ∃ s t, Reaches FreshIds Steps (initial 0 [] 1000 0) s ∧ Reaches FreshIds Steps s t ∧
    s.jobs.jobs (ascii "j1") = some restarted ∧ t.jobs.jobs (ascii "j1") = some { restarted with force := true } := by
  obtain ⟨s, run, held, later⟩ : ∃ s, Reaches FreshIds Steps (initial 0 [] 1000 0) s ∧
      s.jobs.jobs (ascii "j1") = some restarted ∧
      (follow FreshIds perform s again).map
        (fun t => decide (t.jobs.jobs (ascii "j1") = some { restarted with force := true })) =
        some true :=
    exists_reaches restarting (fun _ _ _ step => step) (by decide +kernel)
  obtain ⟨t, run', changed⟩ : ∃ t, Reaches FreshIds Steps s t ∧
      t.jobs.jobs (ascii "j1") = some { restarted with force := true } :=
    exists_reaches again (fun _ _ _ step => step) later
  exact ⟨s, t, run, run', held, changed⟩

end JobsSystem

end PocketKafka.Fleet
