import Mathlib.Data.List.Basic
import Mathlib.Data.List.Count
import Desugar.Watch.Runner

/-!
# Steps of a runner

A runner moves by steps of its parts in any order: the loop that takes events in counts one and lets it
join a call before it takes the next one, calls look, run their handlers, decide and are forgotten, and
all may be cancelled at any time. What a step does to one path is told by that path's progress and by
which event is about to join, so the steps of a run are followed path by path.
-/
namespace Desugar.Watch

inductive Action where
  | count (path : String)
  | join
  | look (path : String)
  /-- The handler of a path starts. -/
  | run (path : String)
  /-- The handler of a path returns. -/
  | leave (path : String)
  | decide (path : String)
  | forget (path : String)
  | cancel
  deriving DecidableEq, Repr

/-- The path whose call takes a step. -/
def Action.caller : Action → Option String
  | .look path | .run path | .leave path | .decide path | .forget path => some path
  | .count _ | .join | .cancel => none

namespace Runs

/-- A step, where it can be taken. -/
def step? (r : Runs) : Action → Option Runs
  | .count path => if r.joining = none then some (r.count path) else none
  | .join => if r.joining = none then none else some r.join
  | .look path => r.look? path
  | .run path => r.run? path
  | .leave path => r.leave? path
  | .decide path => r.decide? path
  | .forget path => r.forget? path
  | .cancel => some { r with cancelled := true }

/-- Nothing is under way: no event is about to join a call, and there are no calls. -/
def Complete (r : Runs) : Prop := r.joining = none ∧ ∀ path, (r.progress path).call = .idle

end Runs

/-- Steps one after the other. -/
inductive Steps : Runs → List Action → Runs → Prop where
  | nil (r : Runs) : Steps r [] r
  | cons {r s t : Runs} {a : Action} {as : List Action} (step : r.step? a = some s) :
      Steps s as t → Steps r (a :: as) t

theorem Steps.append_iff {r t : Runs} {as bs : List Action} :
    Steps r (as ++ bs) t ↔ ∃ s, Steps r as s ∧ Steps s bs t := by
  constructor
  · intro path
    induction as generalizing r with
    | nil => exact ⟨r, .nil r, path⟩
    | cons a as ih =>
      cases path with
      | cons step rest =>
        obtain ⟨s, first, second⟩ := ih rest
        exact ⟨s, .cons step first, second⟩
  · rintro ⟨s, first, second⟩
    induction first with
    | nil => exact second
    | cons step _ ih => exact .cons step (ih second)

/-- A runner and its steps determine how the runner ends. -/
theorem Steps.unique {r s t : Runs} {as : List Action} (first : Steps r as s)
    (second : Steps r as t) : s = t := by
  induction first with
  | nil =>
    cases second
    rfl
  | cons step _ ih =>
    cases second with
    | cons other rest =>
      rw [step] at other
      cases other
      exact ih rest

/-! What a step leaves as it is -/

namespace Runs

theorem lookup_replace (paths : List (String × Progress)) (path q : String) (p : Progress) :
    (paths.map fun (q, old) => (q, if q = path then p else old)).lookup q =
      (paths.lookup q).map fun old => if q = path then p else old := by
  induction paths with
  | nil => rfl
  | cons entry paths ih =>
    obtain ⟨name, old⟩ := entry
    by_cases same : q = name
    · simp [same]
    · have other : (q == name) = false := by simpa using same
      simp only [List.map_cons, List.lookup_cons, other]
      exact ih

theorem lookup_of_listed {paths : List (String × Progress)} {path : String}
    (listed : paths.any (·.1 = path) = true) : ∃ old, paths.lookup path = some old := by
  induction paths with
  | nil => cases listed
  | cons entry paths ih =>
    obtain ⟨name, old⟩ := entry
    by_cases same : path = name
    · exact ⟨old, by simp [same]⟩
    · have later : paths.any (·.1 = path) = true := by simpa [Ne.symm same] using listed
      have other : (path == name) = false := by simpa using same
      simpa only [List.lookup_cons, other] using ih later

theorem lookup_of_unlisted {paths : List (String × Progress)} {path : String}
    (listed : ¬ paths.any (·.1 = path) = true) : paths.lookup path = none := by
  induction paths with
  | nil => rfl
  | cons entry paths ih =>
    obtain ⟨name, old⟩ := entry
    have parts : name ≠ path ∧ ¬ paths.any (·.1 = path) = true := by simpa using listed
    have other : (path == name) = false := by simpa using Ne.symm parts.1
    simpa only [List.lookup_cons, other] using ih parts.2

theorem progress_set (r : Runs) (path q : String) (p : Progress) :
    (r.set path p).progress q = if q = path then p else r.progress q := by
  unfold set progress
  by_cases listed : r.paths.any (·.1 = path) = true
  · rw [if_pos listed]
    dsimp only
    rw [lookup_replace]
    by_cases same : q = path
    · obtain ⟨old, found⟩ := lookup_of_listed listed
      rw [same, found]
      simp
    · cases r.paths.lookup q <;> simp [same]
  · rw [if_neg listed]
    dsimp only
    rw [List.lookup_append]
    by_cases same : q = path
    · rw [same, lookup_of_unlisted listed]
      simp
    · have other : (q == path) = false := by simpa using same
      have alone : [(path, p)].lookup q = none := by
        simp only [List.lookup_cons, other]
        rfl
      rw [if_neg same, alone]
      cases r.paths.lookup q <;> rfl

@[simp] theorem joining_set (r : Runs) (path : String) (p : Progress) :
    (r.set path p).joining = r.joining := by
  unfold set
  split <;> rfl

@[simp] theorem cancelled_set (r : Runs) (path : String) (p : Progress) :
    (r.set path p).cancelled = r.cancelled := by
  unfold set
  split <;> rfl

@[simp] theorem joining_move (r : Runs) (path : String) (call : Call) :
    (r.move path call).joining = r.joining := joining_set ..

@[simp] theorem cancelled_move (r : Runs) (path : String) (call : Call) :
    (r.move path call).cancelled = r.cancelled := cancelled_set ..

theorem progress_move (r : Runs) (path q : String) (call : Call) : (r.move path call).progress q =
    if q = path then { r.progress path with call } else r.progress q := progress_set ..

end Runs

/-- What is followed of one path: its progress, and which event is about to join a call. -/
structure Local where
  progress : Progress
  joining : Option String

/-- What a step does to one path. -/
inductive Moves (path : String) (cancelled : Bool) : Action → Local → Local → Prop where
  | count (n : Nat) (call : Call) :
      Moves path cancelled (.count path) ⟨⟨n, call⟩, none⟩ ⟨⟨n + 1, call⟩, some path⟩
  | begins (n : Nat) : Moves path cancelled .join ⟨⟨n, .idle⟩, some path⟩ ⟨⟨n, .ready⟩, none⟩
  | join {p : Progress} (busy : p.call ≠ .idle) :
      Moves path cancelled .join ⟨p, some path⟩ ⟨p, none⟩
  | look (n : Nat) (j : Option String) :
      Moves path cancelled (.look path) ⟨⟨n, .ready⟩, j⟩ ⟨⟨n, .looked n⟩, j⟩
  | run (n seen : Nat) (j : Option String) :
      Moves path cancelled (.run path) ⟨⟨n, .looked seen⟩, j⟩ ⟨⟨n, .running seen⟩, j⟩
  | leave (n seen : Nat) (j : Option String) :
      Moves path cancelled (.leave path) ⟨⟨n, .running seen⟩, j⟩ ⟨⟨n, .returned seen⟩, j⟩
  | again {n seen : Nat} (j : Option String) (more : n ≠ seen) (goesOn : cancelled = false) :
      Moves path cancelled (.decide path) ⟨⟨n, .returned seen⟩, j⟩ ⟨⟨n, .ready⟩, j⟩
  | stop {n seen : Nat} (j : Option String) (done : n = seen ∨ cancelled = true) :
      Moves path cancelled (.decide path) ⟨⟨n, .returned seen⟩, j⟩ ⟨⟨n, .stopped⟩, j⟩
  | forget (n : Nat) (j : Option String) :
      Moves path cancelled (.forget path) ⟨⟨n, .stopped⟩, j⟩ ⟨⟨n, .idle⟩, j⟩
  | otherCount {q : String} (p : Progress) (other : q ≠ path) :
      Moves path cancelled (.count q) ⟨p, none⟩ ⟨p, some q⟩
  | otherJoin {q : String} (p : Progress) (other : q ≠ path) :
      Moves path cancelled .join ⟨p, some q⟩ ⟨p, none⟩
  | otherCall {q : String} {a : Action} (s : Local) (other : q ≠ path)
      (about : a.caller = some q) :
      Moves path cancelled a s s
  | cancel (s : Local) : Moves path cancelled .cancel s s

def Runs.view (r : Runs) (path : String) : Local := ⟨r.progress path, r.joining⟩

theorem view_move (r : Runs) (path q : String) (call : Call) : (r.move q call).view path =
    ⟨if path = q then { r.progress q with call } else r.progress path, r.joining⟩ := by
  unfold Runs.view
  rw [Runs.progress_move, Runs.joining_move]

theorem view_count (r : Runs) (path q : String) : (r.count q).view path =
    ⟨if path = q then ⟨(r.progress q).events + 1, (r.progress q).call⟩ else r.progress path,
      some q⟩ :=
  congrArg (Local.mk · (some q)) (Runs.progress_set r q path _)

theorem view_join {r : Runs} {q : String} (waits : r.joining = some q) (path : String) :
    r.join.view path =
      ⟨if path = q ∧ (r.progress path).call = .idle then ⟨(r.progress path).events, .ready⟩
        else r.progress path, none⟩ := by
  unfold Runs.join
  rw [waits]
  dsimp only
  by_cases idle : (r.progress q).call = .idle
  · have starts : (Runs.progress { r with joining := none } q).call = .idle := idle
    rw [if_pos starts, view_move]
    by_cases own : path = q
    · subst own
      rw [if_pos rfl, if_pos ⟨rfl, idle⟩]
      rfl
    · rw [if_neg own, if_neg (own ·.1)]
      rfl
  · have busy : ¬ (Runs.progress { r with joining := none } q).call = .idle := idle
    have stays : ¬ (path = q ∧ (r.progress path).call = .idle) := by
      rintro ⟨rfl, starts⟩
      exact idle starts
    rw [if_neg busy, if_neg stays]
    rfl

theorem progress_of_call {r : Runs} {path : String} {call : Call}
    (same : (r.progress path).call = call) : r.progress path = ⟨(r.progress path).events, call⟩ := by
  rw [← same]

/-- A step on one path's call leaves the other paths as they are. -/
theorem moves_of_call {r s : Runs} {path q : String} {a : Action} {call : Call}
    (about : a.caller = some q) (moved : s = r.move q call)
    (same : q = path → Moves path r.cancelled a ⟨r.progress path, r.joining⟩
      ⟨{ r.progress path with call }, r.joining⟩) :
    Moves path r.cancelled a (r.view path) (s.view path) := by
  rw [moved, view_move]
  by_cases own : path = q
  · rw [if_pos own, ← own]
    exact same own.symm
  · rw [if_neg own]
    exact .otherCall _ (Ne.symm own) about

theorem moves_count {r : Runs} (free : r.joining = none) (path q : String) :
    Moves path r.cancelled (.count q) (r.view path) ((r.count q).view path) := by
  rw [view_count]
  unfold Runs.view
  rw [free]
  by_cases own : path = q
  · subst own
    rw [if_pos rfl]
    exact .count ..
  · rw [if_neg own]
    exact .otherCount _ (Ne.symm own)

theorem moves_join {r : Runs} {q : String} (waits : r.joining = some q) (path : String) :
    Moves path r.cancelled .join (r.view path) (r.join.view path) := by
  rw [view_join waits]
  unfold Runs.view
  rw [waits]
  by_cases own : path = q
  · subst own
    by_cases idle : (r.progress path).call = .idle
    · rw [if_pos ⟨rfl, idle⟩, progress_of_call idle]
      exact .begins _
    · rw [if_neg (idle ·.2)]
      exact .join idle
  · rw [if_neg (own ·.1)]
    exact .otherJoin _ (Ne.symm own)

theorem moves_decide {path : String} {cancelled : Bool} (n seen : Nat) (j : Option String) :
    Moves path cancelled (.decide path) ⟨⟨n, .returned seen⟩, j⟩
      ⟨⟨n, if n = seen || cancelled then .stopped else .ready⟩, j⟩ := by
  by_cases halted : n = seen ∨ cancelled = true
  · have stops : (decide (n = seen) || cancelled) = true := by simpa using halted
    rw [if_pos stops]
    exact .stop _ halted
  · have goesOn : ¬ (decide (n = seen) || cancelled) = true := by simpa using halted
    rw [if_neg goesOn]
    rw [not_or, Bool.not_eq_true] at halted
    exact .again _ halted.1 halted.2

/-- All that a step can do to a path. -/
theorem moves_of_step {r s : Runs} {a : Action} (step : r.step? a = some s) (path : String) :
    Moves path r.cancelled a (r.view path) (s.view path) := by
  cases a with
  | count q =>
    simp only [Runs.step?] at step
    split at step
    · rename_i free
      cases step
      exact moves_count free path q
    · cases step
  | join =>
    simp only [Runs.step?] at step
    split at step
    · cases step
    · rename_i waiting
      cases step
      obtain ⟨q, waits⟩ := Option.ne_none_iff_exists'.mp waiting
      exact moves_join waits path
  | look q =>
    simp only [Runs.step?, Runs.look?] at step
    split at step
    · rename_i ready
      cases step
      refine moves_of_call rfl rfl ?_
      rintro rfl
      rw [progress_of_call ready]
      exact .look ..
    · cases step
  | run q =>
    simp only [Runs.step?, Runs.run?] at step
    split at step
    · rename_i seen looked
      cases step
      refine moves_of_call rfl rfl ?_
      rintro rfl
      rw [progress_of_call looked]
      exact .run ..
    · cases step
  | leave q =>
    simp only [Runs.step?, Runs.leave?] at step
    split at step
    · rename_i seen running
      cases step
      refine moves_of_call rfl rfl ?_
      rintro rfl
      rw [progress_of_call running]
      exact .leave ..
    · cases step
  | decide q =>
    simp only [Runs.step?, Runs.decide?] at step
    split at step
    · rename_i seen returned
      cases step
      refine moves_of_call rfl rfl ?_
      rintro rfl
      rw [progress_of_call returned]
      exact moves_decide ..
    · cases step
  | forget q =>
    simp only [Runs.step?, Runs.forget?] at step
    split at step
    · rename_i stopped
      cases step
      refine moves_of_call rfl rfl ?_
      rintro rfl
      rw [progress_of_call stopped]
      exact .forget ..
    · cases step
  | cancel =>
    cases step
    exact .cancel _

theorem cancelled_join (r : Runs) : r.join.cancelled = r.cancelled := by
  unfold Runs.join
  split
  · rfl
  · dsimp only
    split
    · exact Runs.cancelled_move ..
    · rfl

theorem cancelled_of_step {r s : Runs} {a : Action} (step : r.step? a = some s)
    (other : a ≠ .cancel) : s.cancelled = r.cancelled := by
  cases a with
  | count q =>
    simp only [Runs.step?] at step
    split at step
    · cases step
      exact Runs.cancelled_set ..
    · cases step
  | join =>
    simp only [Runs.step?] at step
    split at step
    · cases step
    · cases step
      exact cancelled_join r
  | look q | run q | leave q | decide q | forget q =>
    simp only [Runs.step?, Runs.look?, Runs.run?, Runs.leave?, Runs.decide?, Runs.forget?] at step
    split at step
    · cases step
      exact Runs.cancelled_move ..
    · cases step
  | cancel => exact absurd rfl other

/-! ## How often a handler runs

An event lets the handler of its path run at most twice: it starts a call or keeps one going, and a call
that it starts may find it counted before. The first event starts the first call, so one run is saved.
What is left to run is followed along the steps: a call that has looked may go on only for events that
were counted since, and an event that has not joined yet may still start a call.
-/

/-- So many runs of the handler can have been made when a path is in this state. -/
def Local.Spent (path : String) (s : Local) (runs : Nat) : Prop :=
  let n := s.progress.events
  let due := runs + if s.joining = some path then 1 else 0
  match s.progress.call with
  | .idle | .stopped => due ≤ 2 * n - 1
  | .ready => due + 2 ≤ 2 * n
  | .looked seen => 0 < seen ∧ seen ≤ n ∧ due + 2 ≤ n + seen
  | .running seen | .returned seen => 0 < seen ∧ seen ≤ n ∧ due + 1 ≤ n + seen

variable {path : String} {a : Action} {cancelled : Bool}

theorem spent_start (path : String) : (Runs.start.view path).Spent path 0 := Nat.le_refl 0

theorem Local.Spent.le {s : Local} {runs : Nat} (spent : s.Spent path runs) :
    runs ≤ 2 * s.progress.events - 1 := by
  simp only [Local.Spent] at spent
  split at spent <;> omega

/-- A step lets a path spend no more than the run that it starts. -/
theorem spent_step {s t : Local} {runs : Nat} (moves : Moves path cancelled a s t)
    (spent : s.Spent path runs) : t.Spent path (runs + if a = .run path then 1 else 0) := by
  cases moves with
  | count n call =>
    cases call <;> simp [Local.Spent] at spent ⊢ <;> omega
  | begins n =>
    simp [Local.Spent] at spent ⊢
    omega
  | @join p busy =>
    obtain ⟨n, call⟩ := p
    cases call <;> simp [Local.Spent] at spent ⊢ <;> omega
  | look n j =>
    simp [Local.Spent] at spent ⊢
    omega
  | run n seen j =>
    simp [Local.Spent] at spent ⊢
    omega
  | leave n seen j => exact spent
  | again j more goesOn =>
    -- The call goes on for an event that it has not seen.
    simp [Local.Spent] at spent ⊢
    omega
  | stop j done =>
    simp [Local.Spent] at spent ⊢
    omega
  | forget n j => exact spent
  | @otherCount q p other =>
    simpa [Local.Spent, other] using spent
  | @otherJoin q p other =>
    simpa [Local.Spent, other] using spent
  | @otherCall q a s other about =>
    have elsewhere : a ≠ .run path := by
      rintro rfl
      exact other (Option.some.inj about).symm
    simpa [elsewhere] using spent
  | cancel s => exact spent

theorem Steps.spent {r u : Runs} {as : List Action} (run : Steps r as u) {runs : Nat}
    (spent : (r.view path).Spent path runs) :
    (u.view path).Spent path (runs + as.count (.run path)) := by
  induction run generalizing runs with
  | nil r => exact spent
  | @cons r s u a as step rest ih =>
    have next := ih (spent_step (moves_of_step step path) spent)
    rw [List.count_cons]
    simpa [Nat.add_assoc, Nat.add_comm, Nat.add_left_comm] using next

theorem events_step {s t : Local} (moves : Moves path cancelled a s t) :
    t.progress.events = s.progress.events + if a = .count path then 1 else 0 := by
  cases moves with
  | count n call => simp
  | @otherCount q p other => simp [other]
  | @otherCall q a s other about =>
    have elsewhere : a ≠ .count path := by
      rintro rfl
      cases about
    simp [elsewhere]
  | begins | join | look | run | leave | again | stop | forget | otherJoin | cancel => rfl

theorem Steps.events {r u : Runs} {as : List Action} (run : Steps r as u) (path : String) :
    (u.progress path).events = (r.progress path).events + as.count (.count path) := by
  induction run with
  | nil r => rfl
  | @cons r s u a as step rest ih =>
    have counted : (s.progress path).events =
        (r.progress path).events + if a = .count path then 1 else 0 :=
      events_step (moves_of_step step path)
    rw [ih, counted, List.count_cons, Nat.add_assoc, Nat.add_comm (List.count _ _)]
    simp

/-- The handler of a path that had events runs less than twice for each of them, and never without
one. -/
theorem runs_le {as : List Action} {r : Runs} (run : Steps .start as r) (path : String) :
    as.count (.run path) ≤ 2 * as.count (.count path) - 1 := by
  have spent := (run.spent (spent_start path)).le
  have counted := run.events path
  have zero : (Runs.start.progress path).events = 0 := rfl
  rw [Nat.zero_add] at spent
  rw [zero, Nat.zero_add] at counted
  rwa [← counted]

end Desugar.Watch
