import Mathlib.Logic.Function.Basic
import Desugar.Proofs.Watch.Steps

/-!
# Calls as they run side by side

Every call that was ever started is told apart here, and so is everyone who waits for its result. A
table of shared calls says which call of a path an event joins. That no two handlers of one path run at
a time, and that none runs once the loop has returned, is a matter of how the loop, the calls and the
table work together: the calls under way are exactly those in the table, and each of them is waited for.
Errors, and directories that are added, touch none of this and are left out.

Seen path by path such a crew is a runner, so it starts no more handlers than a runner does.
-/
namespace Desugar.Watch

/-- A table of calls that are shared by key: while a call of a key is in flight, others join it. -/
structure Sharing where
  State : Type
  empty : State
  /-- The call that is in flight for a key. -/
  inFlight : State → (key : String) → Option Nat
  start : State → (key : String) → (call : Nat) → State
  forget : State → (key : String) → State
  inFlight_empty (key : String) : inFlight empty key = none
  inFlight_start (t : State) (key : String) (call : Nat) (other : String) :
    inFlight (start t key call) other = if other = key then some call else inFlight t other
  inFlight_forget (t : State) (key other : String) :
    inFlight (forget t key) other = if other = key then none else inFlight t other

/-- A call that was started, for good: it is idle once it has been forgotten. -/
structure Flight where
  path : String
  call : Call
  deriving DecidableEq, Repr

def Flight.IsRunning (f : Flight) : Prop := ∃ seen, f.call = .running seen

/-- What the loop that takes events in is at. -/
inductive Loop where
  | taking
  /-- The event of a path has been counted and is about to join a call. -/
  | joining (path : String)
  /-- Nothing more is taken in, and the results are waited for. -/
  | closed
  | returned
  deriving DecidableEq, Repr

def Loop.joining? : Loop → Option String
  | .joining path => some path
  | .taking | .closed | .returned => none

structure Crew (g : Sharing) where
  /-- How many events were counted for a path. -/
  events : String → Nat
  table : g.State
  flights : List Flight
  /-- The calls whose results are waited for, one entry for each who waits. -/
  waiting : List Nat
  loop : Loop
  cancelled : Bool

/-- What a call does when it takes a turn. -/
inductive Turn where
  | look | run | leave | decide | forget
  deriving DecidableEq, Repr

def Turn.action (path : String) : Turn → Action
  | .look => .look path
  | .run => .run path
  | .leave => .leave path
  | .decide => .decide path
  | .forget => .forget path

/-- How far a turn takes a call. -/
def Call.turn? (events : Nat) (cancelled : Bool) : Call → Turn → Option Call
  | .ready, .look => some (.looked events)
  | .looked seen, .run => some (.running seen)
  | .running seen, .leave => some (.returned seen)
  | .returned seen, .decide => some (if events = seen || cancelled then .stopped else .ready)
  | .stopped, .forget => some .idle
  | _, _ => none

/-- The path that an event asks to be handled. -/
def Setup.asks (s : Setup) (e : Event) : Option String := (s.dispatch .start e).2.2

/-- A file was created or written, no directory was created, and the path is accepted. -/
def Setup.Admits (s : Setup) (e : Event) : Prop :=
  (e.changes.contains .created ∨ e.changes.contains .written) ∧
    ¬ (e.changes.contains .created ∧ ∃ entry, s.tree.find e.path = .ok entry ∧ entry.isDirectory) ∧
    s.accepts e.path

/-- A step of a crew: of its loop, of one of its calls, or of one who waits. -/
inductive Move where
  /-- The loop takes an event in, which finds the files as they are then. -/
  | event (tree : FileTree) (e : Event)
  | join
  | turn (flight : Nat) (path : String) (t : Turn)
  /-- The result of a call gets to one who waits for it. -/
  | receive (flight : Nat)
  | cancel
  | close
  | finish

namespace Move

/-- The path that is asked to be handled. -/
def asks (s : Setup) : Move → Option String
  | .event tree e => { s with tree }.asks e
  | .join | .turn .. | .receive _ | .cancel | .close | .finish => none

/-- The path whose handler starts. -/
def starts : Move → Option String
  | .turn _ path .run => some path
  | _ => none

/-- The step of a runner that is made. -/
def action? (s : Setup) : Move → Option Action
  | .event tree e => ({ s with tree }.asks e).map .count
  | .join => some .join
  | .turn _ path t => some (t.action path)
  | .cancel => some .cancel
  | .receive _ | .close | .finish => none

end Move

namespace Crew

variable {g : Sharing}

def start : Crew g :=
  { events := fun _ => 0, table := g.empty, flights := [], waiting := [], loop := .taking
    cancelled := false }

/-- Lets an event wait for a call, so that the next one can be taken in. -/
def await (c : Crew g) (i : Nat) : Crew g := { c with waiting := i :: c.waiting, loop := .taking }

/-- Starts a call. -/
def begin (c : Crew g) (path : String) : Crew g :=
  { c with
    table := g.start c.table path c.flights.length, flights := c.flights ++ [⟨path, .ready⟩] }

/-- Lets an event join the call of its path that is in flight, or start one. -/
def join (c : Crew g) (path : String) : Crew g :=
  match g.inFlight c.table path with
  | some i => c.await i
  | none => (c.begin path).await c.flights.length

/-- Lets a call get as far as that. -/
def advance (c : Crew g) (i : Nat) (path : String) (call : Call) : Crew g :=
  { c with
    flights := c.flights.set i ⟨path, call⟩
    table := if call = .idle then g.forget c.table path else c.table }

/-- A step, where it can be taken. -/
def move? (s : Setup) (c : Crew g) : Move → Option (Crew g)
  | .event tree e =>
    if c.loop = .taking then
      match { s with tree }.asks e with
      | some path =>
        some { c with
          events := Function.update c.events path (c.events path + 1), loop := .joining path }
      | none => some c
    else none
  | .join => c.loop.joining?.map c.join
  | .turn i path t =>
    match c.flights[i]? with
    | some f =>
      if f.path = path then
        (f.call.turn? (c.events path) c.cancelled t).map (c.advance i path)
      else none
    | none => none
  | .receive i =>
    if i ∈ c.waiting ∧ c.flights[i]?.map Flight.call = some .idle then
      some { c with waiting := c.waiting.erase i }
    else none
  | .cancel => some { c with cancelled := true }
  | .close => if c.loop = .taking then some { c with loop := .closed } else none
  | .finish =>
    if c.loop = .closed ∧ c.waiting = [] then some { c with loop := .returned } else none

/-- Takes steps one after the other, if they can be taken. -/
def moves? (s : Setup) (c : Crew g) (ms : List Move) : Option (Crew g) := ms.foldlM (·.move? s) c

/-- Steps one after the other. -/
inductive Goes (s : Setup) : Crew g → List Move → Crew g → Prop where
  | nil (c : Crew g) : Goes s c [] c
  | cons {c d e : Crew g} {m : Move} {ms : List Move} (step : c.move? s m = some d) :
      Goes s d ms e → Goes s c (m :: ms) e

end Crew

/-! Events -/

theorem asks_eq_some_iff {s : Setup} {e : Event} {path : String} :
    s.asks e = some path ↔ e.path = path ∧ s.Admits e := by
  have relevant : e.changes.contains .created ∨ e.changes.contains .written ↔
      Setup.isRelevant e = true := by
    simp [Setup.isRelevant]
  unfold Setup.asks Setup.dispatch Setup.Admits
  rw [relevant]
  cases Setup.isRelevant e with
  | false => simp
  | true =>
    cases s.tree.find e.path with
    | error cause => by_cases accepts : s.accepts e.path = true <;> simp [accepts]
    | ok entry =>
      by_cases made : e.changes.contains .created = true ∧ entry.isDirectory = true
      · simp [made]
      · by_cases accepts : s.accepts e.path = true <;> simp [made, accepts]

/-- A turn of a call is a runner's step. -/
theorem step?_turn (r : Runs) (path : String) (t : Turn) : r.step? (t.action path) =
    ((r.progress path).call.turn? (r.progress path).events r.cancelled t).map (r.move path) := by
  cases t <;>
    simp only [Turn.action, Runs.step?, Runs.look?, Runs.run?, Runs.leave?, Runs.decide?,
      Runs.forget?] <;>
    cases (r.progress path).call <;> rfl

/-! One step -/

namespace Crew

variable {g : Sharing} {s : Setup} {c d : Crew g} {m : Move}

/-- How far the call of a path is, if one is in flight. -/
def call (c : Crew g) (path : String) : Call :=
  match g.inFlight c.table path with
  | some i => (c.flights[i]?.map Flight.call).getD .idle
  | none => .idle

/-- A call is in flight. -/
def Lives (c : Crew g) (i : Nat) (path : String) (call : Call) : Prop :=
  c.flights[i]? = some ⟨path, call⟩ ∧ call ≠ .idle

/-- All that a step can do to a crew. -/
inductive Shifts (s : Setup) (c : Crew g) : Move → Crew g → Prop where
  | count {tree : FileTree} {e : Event} {path : String} (taking : c.loop = .taking)
      (asks : { s with tree }.asks e = some path) :
      Shifts s c (.event tree e)
        { c with
          events := Function.update c.events path (c.events path + 1), loop := .joining path }
  | pass {tree : FileTree} {e : Event} (silent : { s with tree }.asks e = none) :
      Shifts s c (.event tree e) c
  | joins {path : String} {i : Nat} (joining : c.loop = .joining path)
      (found : g.inFlight c.table path = some i) :
      Shifts s c .join (c.await i)
  | begins {path : String} (joining : c.loop = .joining path)
      (free : g.inFlight c.table path = none) :
      Shifts s c .join ((c.begin path).await c.flights.length)
  | turn {i : Nat} {path : String} {t : Turn} {call next : Call} (lives : c.Lives i path call)
      (goes : call.turn? (c.events path) c.cancelled t = some next) :
      Shifts s c (.turn i path t) (c.advance i path next)
  | receive {i : Nat} {path : String} (ended : c.flights[i]? = some ⟨path, .idle⟩) :
      Shifts s c (.receive i) { c with waiting := c.waiting.erase i }
  | cancel : Shifts s c .cancel { c with cancelled := true }
  | close (taking : c.loop = .taking) : Shifts s c .close { c with loop := .closed }
  | finish (closed : c.loop = .closed) (done : c.waiting = []) :
      Shifts s c .finish { c with loop := .returned }

theorem turn?_idle (events : Nat) (cancelled : Bool) (t : Turn) :
    Call.idle.turn? events cancelled t = none := by
  cases t <;> rfl

theorem shifts_of_move (step : c.move? s m = some d) : Shifts s c m d := by
  cases m with
  | event tree e =>
    simp only [move?] at step
    split at step
    · rename_i taking
      split at step
      · rename_i path asks
        cases step
        exact .count taking asks
      · rename_i silent
        cases step
        exact .pass silent
    · cases step
  | join =>
    simp only [move?, Option.map_eq_some_iff] at step
    obtain ⟨path, waits, rfl⟩ := step
    have joining : c.loop = .joining path := by
      cases stage : c.loop <;> simp_all [Loop.joining?]
    unfold join
    split
    · rename_i i found
      exact .joins joining found
    · rename_i free
      exact .begins joining free
  | turn i path t =>
    simp only [move?] at step
    split at step
    · rename_i f found
      split at step
      · rename_i own
        obtain ⟨next, goes, rfl⟩ := Option.map_eq_some_iff.mp step
        obtain ⟨name, call⟩ := f
        cases own
        refine .turn ⟨found, ?_⟩ goes
        rintro rfl
        rw [turn?_idle] at goes
        cases goes
      · cases step
    · cases step
  | receive i =>
    simp only [move?] at step
    split at step
    · rename_i ended
      cases step
      obtain ⟨⟨path, call⟩, found, idle⟩ := Option.map_eq_some_iff.mp ended.2
      cases idle
      exact .receive found
    · cases step
  | cancel =>
    cases step
    exact .cancel
  | close =>
    simp only [move?] at step
    split at step
    · rename_i taking
      cases step
      exact .close taking
    · cases step
  | finish =>
    simp only [move?] at step
    split at step
    · rename_i done
      cases step
      exact .finish done.1 done.2
    · cases step

/-- The calls that are under way are exactly those of the table; each is waited for, so there are none
once the loop has returned. -/
structure Sound (c : Crew g) : Prop where
  inFlight_iff (path : String) (i : Nat) :
    g.inFlight c.table path = some i ↔ ∃ call, c.Lives i path call
  awaited {i : Nat} {path : String} {call : Call} : c.Lives i path call → i ∈ c.waiting
  drained : c.loop = .returned → c.waiting = []

theorem sound_start : (start : Crew g).Sound where
  inFlight_iff path i := by
    simp [start, g.inFlight_empty, Lives]
  awaited lives := by
    cases lives.1
  drained returned := by
    cases returned

theorem lives_advance {i j : Nat} {path other : String} {was next call : Call}
    (lives : c.Lives i path was) : (c.advance i path next).Lives j other call ↔
      if j = i then other = path ∧ call = next ∧ next ≠ .idle else c.Lives j other call := by
  have bound : i < c.flights.length := (List.getElem?_eq_some_iff.mp lives.1).1
  unfold Lives advance
  dsimp only
  rw [List.getElem?_set]
  by_cases same : j = i
  · subst same
    rw [if_pos rfl, if_pos rfl, if_pos bound]
    constructor
    · rintro ⟨shape, busy⟩
      cases shape
      exact ⟨rfl, rfl, busy⟩
    · rintro ⟨rfl, rfl, busy⟩
      exact ⟨rfl, busy⟩
  · rw [if_neg same, if_neg (Ne.symm same)]

theorem lives_begin {path other : String} {j : Nat} {call : Call} :
    (c.begin path).Lives j other call ↔
      c.Lives j other call ∨ j = c.flights.length ∧ other = path ∧ call = .ready := by
  unfold Lives begin
  dsimp only
  rw [List.getElem?_append]
  by_cases old : j < c.flights.length
  · have apart : j ≠ c.flights.length := Nat.ne_of_lt old
    simp [old, apart]
  · have gone : c.flights[j]? = none := List.getElem?_eq_none (Nat.le_of_not_lt old)
    rw [if_neg old, gone]
    by_cases last : j = c.flights.length
    · subst last
      simp only [Nat.sub_self, List.getElem?_cons_zero, Option.some.injEq, Flight.mk.injEq]
      grind
    · have beyond : j - c.flights.length ≠ 0 := by omega
      simp [last, beyond]

theorem Sound.begin (sound : c.Sound) {path : String} (free : g.inFlight c.table path = none) :
    ((c.begin path).await c.flights.length).Sound := by
  refine ⟨fun other j => ?_, fun {j other call} lives => ?_, nofun⟩
  · change g.inFlight (g.start c.table path c.flights.length) other = some j ↔
      ∃ call, (c.begin path).Lives j other call
    simp only [g.inFlight_start, lives_begin]
    by_cases own : other = path
    · subst own
      have unlisted (call : Call) : ¬ c.Lives j other call := by
        intro listed
        have found := (sound.inFlight_iff other j).mpr ⟨call, listed⟩
        rw [free] at found
        cases found
      simp [unlisted, eq_comm]
    · simp [own, sound.inFlight_iff]
  · have lives : (c.begin path).Lives j other call := lives
    rcases lives_begin.mp lives with listed | ⟨rfl, -, -⟩
    · exact List.mem_cons_of_mem _ (sound.awaited listed)
    · exact List.mem_cons_self

theorem Sound.unique (sound : c.Sound) {i j : Nat} {path : String} {call other : Call}
    (lives : c.Lives i path call) (again : c.Lives j path other) : i = j := by
  have first := (sound.inFlight_iff path i).mpr ⟨call, lives⟩
  have second := (sound.inFlight_iff path j).mpr ⟨other, again⟩
  rw [first] at second
  exact Option.some.inj second

theorem Sound.advance (sound : c.Sound) {i : Nat} {path : String} {was next : Call}
    (lives : c.Lives i path was) : (c.advance i path next).Sound := by
  refine ⟨fun other j => ?_, fun {j other call} live => ?_, fun returned => ?_⟩
  · simp only [lives_advance lives]
    by_cases ended : next = .idle
    · -- The call has ended, and no other call of its path is under way.
      have table : (c.advance i path next).table = g.forget c.table path := if_pos ended
      rw [table, g.inFlight_forget]
      by_cases same : j = i
      · subst same
        by_cases own : other = path
        · simp [own, ended]
        · have apart : g.inFlight c.table other ≠ some j := by
            intro found
            obtain ⟨call, listed⟩ := (sound.inFlight_iff other j).mp found
            have shape := listed.1.symm.trans lives.1
            cases shape
            exact own rfl
          simp [own, apart]
      · by_cases own : other = path
        · subst own
          have unlisted (call : Call) : ¬ c.Lives j other call := fun listed =>
            same (sound.unique listed lives)
          simp [same, unlisted]
        · simp [same, own, sound.inFlight_iff]
    · have table : (c.advance i path next).table = c.table := if_neg ended
      rw [table, sound.inFlight_iff]
      by_cases same : j = i
      · subst same
        constructor
        · rintro ⟨call, listed⟩
          have shape := listed.1.symm.trans lives.1
          cases shape
          exact ⟨next, by simp [ended]⟩
        · rintro ⟨call, live⟩
          obtain ⟨rfl, -, -⟩ := (if_pos rfl).mp live
          exact ⟨was, lives⟩
      · simp [same]
  · rw [lives_advance lives] at live
    by_cases same : j = i
    · subst same
      exact sound.awaited lives
    · rw [if_neg same] at live
      exact sound.awaited live
  · exact sound.drained returned

theorem sound_step (shifts : Shifts s c m d) (sound : c.Sound) : d.Sound := by
  cases shifts with
  | count taking asks => exact ⟨sound.inFlight_iff, sound.awaited, nofun⟩
  | pass => exact sound
  | joins joining found =>
    exact ⟨sound.inFlight_iff, fun lives => List.mem_cons_of_mem _ (sound.awaited lives), nofun⟩
  | begins joining free => exact sound.begin free
  | turn lives goes => exact sound.advance lives
  | @receive i path ended =>
    refine ⟨sound.inFlight_iff, fun {j other call} lives => ?_, fun returned => ?_⟩
    · have apart : j ≠ i := by
        rintro rfl
        have shape := lives.1.symm.trans ended
        cases shape
        exact lives.2 rfl
      exact (List.mem_erase_of_ne apart).mpr (sound.awaited lives)
    · have empty : c.waiting = [] := sound.drained returned
      simp [empty]
  | cancel => exact ⟨sound.inFlight_iff, sound.awaited, sound.drained⟩
  | close taking => exact ⟨sound.inFlight_iff, sound.awaited, nofun⟩
  | finish closed done => exact ⟨sound.inFlight_iff, sound.awaited, fun _ => done⟩

theorem Sound.call_eq (sound : c.Sound) {i : Nat} {path : String} {current : Call}
    (lives : c.Lives i path current) : c.call path = current := by
  unfold call
  rw [(sound.inFlight_iff path i).mpr ⟨current, lives⟩]
  simp [lives.1]

theorem Sound.call_of_free (sound : c.Sound) {path : String}
    (free : ∀ i call, ¬ c.Lives i path call) : c.call path = .idle := by
  unfold call
  split
  · rename_i i found
    obtain ⟨call, lives⟩ := (sound.inFlight_iff path i).mp found
    exact absurd lives (free i call)
  · rfl

theorem Sound.call_congr (sound : c.Sound) (other : d.Sound) {path : String}
    (same : ∀ i call, d.Lives i path call ↔ c.Lives i path call) : d.call path = c.call path := by
  by_cases free : ∃ i call, c.Lives i path call
  · obtain ⟨i, call, lives⟩ := free
    rw [sound.call_eq lives, other.call_eq ((same i call).mpr lives)]
  · simp only [not_exists] at free
    rw [sound.call_of_free free, other.call_of_free fun i call => by simp [same, free]]

theorem Sound.call_advance (sound : c.Sound) {i : Nat} {path : String} {was next : Call}
    (lives : c.Lives i path was) (other : String) :
    (c.advance i path next).call other = if other = path then next else c.call other := by
  have after : (c.advance i path next).Sound := sound.advance lives
  by_cases own : other = path
  · rw [if_pos own, own]
    by_cases ended : next = .idle
    · rw [ended] at after ⊢
      refine after.call_of_free fun j call live => ?_
      rw [lives_advance lives] at live
      by_cases same : j = i
      · simp [same] at live
      · rw [if_neg same] at live
        exact same (sound.unique live lives)
    · exact after.call_eq (i := i) ((lives_advance lives).mpr (by simp [ended]))
  · rw [if_neg own]
    refine sound.call_congr after fun j call => ?_
    rw [lives_advance lives]
    by_cases same : j = i
    · subst same
      have apart : ¬ c.Lives j other call := by
        intro listed
        have shape := listed.1.symm.trans lives.1
        cases shape
        exact own rfl
      simp [own, apart]
    · rw [if_neg same]

theorem Sound.call_begin (sound : c.Sound) {path : String}
    (free : g.inFlight c.table path = none) (other : String) :
    ((c.begin path).await c.flights.length).call other =
      if other = path then .ready else c.call other := by
  have after := sound.begin free
  by_cases own : other = path
  · rw [if_pos own]
    exact after.call_eq (i := c.flights.length) (lives_begin.mpr (by simp [own]))
  · rw [if_neg own]
    refine sound.call_congr after fun j call => lives_begin.trans ?_
    simp [own]

/-- The crew, seen path by path, is a runner. -/
structure Follows (c : Crew g) (r : Runs) : Prop where
  progress (path : String) : r.progress path = ⟨c.events path, c.call path⟩
  joining : r.joining = c.loop.joining?
  cancelled : r.cancelled = c.cancelled

theorem follows_start : (start : Crew g).Follows .start where
  progress path := by
    have free : (start : Crew g).call path = .idle := by
      unfold call
      rw [show g.inFlight (start : Crew g).table path = none from g.inFlight_empty path]
    rw [free]
    rfl
  joining := rfl
  cancelled := rfl

theorem Follows.count {r : Runs} (follows : c.Follows r) (path : String) :
    Follows { c with
      events := Function.update c.events path (c.events path + 1), loop := .joining path }
      (r.count path) := by
  refine ⟨fun other => ?_, rfl, (Runs.cancelled_set ..).trans follows.cancelled⟩
  have counted := congrArg Local.progress (view_count r other path)
  refine counted.trans ?_
  simp only [follows.progress, Function.update_apply]
  by_cases own : other = path
  · subst own
    simp [call]
  · simp [own, call]

theorem Follows.join {r : Runs} {path : String} {i : Nat} (follows : c.Follows r)
    (waits : r.joining = some path) (call : ∀ other, d.call other =
      if other = path ∧ c.call other = .idle then .ready else c.call other)
    (events : d.events = c.events) (cancelled : d.cancelled = c.cancelled) :
    (d.await i).Follows r.join := by
  refine ⟨fun other => ?_, congrArg Local.joining (view_join waits path),
    (cancelled_join r).trans (follows.cancelled.trans cancelled.symm)⟩
  have joined := congrArg Local.progress (view_join waits other)
  refine joined.trans ?_
  change _ = Progress.mk (d.events other) (d.call other)
  rw [call, events, follows.progress]
  dsimp only
  split <;> rfl

theorem Follows.turn {r : Runs} {i : Nat} {path : String} {was next : Call}
    (follows : c.Follows r) (sound : c.Sound) (lives : c.Lives i path was) :
    (c.advance i path next).Follows (r.move path next) := by
  refine ⟨fun other => ?_, (Runs.joining_move ..).trans follows.joining,
    (Runs.cancelled_move ..).trans follows.cancelled⟩
  rw [Runs.progress_move, sound.call_advance lives, follows.progress, follows.progress]
  by_cases own : other = path
  · subst own
    simp [Crew.advance]
  · simp [own, Crew.advance]

/-- A step of a crew is a step of the runner, or none. -/
theorem Follows.step {r : Runs} (follows : c.Follows r) (sound : c.Sound)
    (shifts : Shifts s c m d) : ∃ u, Steps r (m.action? s).toList u ∧ d.Follows u := by
  cases shifts with
  | @count tree e path taking asks =>
    have free : r.joining = none := by
      rw [follows.joining, taking]
      rfl
    have step : r.step? (.count path) = some (r.count path) := if_pos free
    exact ⟨_, by simpa [Move.action?, asks] using .cons step (.nil _), follows.count path⟩
  | pass silent => exact ⟨r, by simpa [Move.action?, silent] using .nil r, follows⟩
  | @joins path i joining found =>
    have waits : r.joining = some path := follows.joining.trans (congrArg Loop.joining? joining)
    have step : r.step? .join = some r.join := if_neg (by simp [waits])
    obtain ⟨current, lives⟩ := (sound.inFlight_iff path i).mp found
    have busy : c.call path ≠ .idle := by
      rw [sound.call_eq lives]
      exact lives.2
    refine ⟨_, .cons step (.nil _), follows.join waits (fun other => ?_) rfl rfl⟩
    rw [if_neg]
    rintro ⟨rfl, idle⟩
    exact busy idle
  | @begins path joining free =>
    have waits : r.joining = some path := follows.joining.trans (congrArg Loop.joining? joining)
    have step : r.step? .join = some r.join := if_neg (by simp [waits])
    have idle : c.call path = .idle := by
      unfold call
      rw [free]
    refine ⟨_, .cons step (.nil _), follows.join waits (fun other => ?_) rfl rfl⟩
    refine (sound.call_begin free other).trans ?_
    by_cases own : other = path
    · subst own
      simp [idle]
    · simp [own]
  | @turn i path t was next lives goes =>
    have step : r.step? (t.action path) = some (r.move path next) := by
      rw [step?_turn, follows.progress, follows.cancelled, sound.call_eq lives, goes]
      rfl
    exact ⟨_, .cons step (.nil _), follows.turn sound lives⟩
  | receive ended =>
    exact ⟨r, .nil r, follows.progress, follows.joining, follows.cancelled⟩
  | cancel => exact ⟨_, .cons rfl (.nil _), follows.progress, follows.joining, rfl⟩
  | close taking =>
    refine ⟨r, .nil r, follows.progress, ?_, follows.cancelled⟩
    rw [follows.joining, taking]
    rfl
  | finish closed done =>
    refine ⟨r, .nil r, follows.progress, ?_, follows.cancelled⟩
    rw [follows.joining, closed]
    rfl

/-! A run -/

theorem goes_of_moves? {ms : List Move} (steps : c.moves? s ms = some d) : Goes s c ms d := by
  induction ms generalizing c with
  | nil =>
    cases steps
    exact .nil _
  | cons m ms ih =>
    unfold moves? at steps
    rw [List.foldlM_cons] at steps
    obtain ⟨e, step, rest⟩ := Option.bind_eq_some_iff.mp steps
    exact .cons step (ih rest)

theorem Goes.sound {ms : List Move} (goes : Goes s c ms d) (sound : c.Sound) : d.Sound := by
  induction goes with
  | nil c => exact sound
  | cons step rest ih => exact ih (sound_step (shifts_of_move step) sound)

/-- A crew goes the way of a runner. -/
theorem Goes.steps {ms : List Move} (goes : Goes s c ms d) (sound : c.Sound) {r : Runs}
    (follows : c.Follows r) : ∃ u, Steps r (ms.filterMap (Move.action? s)) u ∧ d.Follows u := by
  induction goes generalizing r with
  | nil c => exact ⟨r, .nil r, follows⟩
  | @cons c d e m ms step rest ih =>
    have shifts := shifts_of_move step
    obtain ⟨t, first, middle⟩ := follows.step sound shifts
    obtain ⟨u, second, last⟩ := ih (sound_step shifts sound) middle
    refine ⟨u, ?_, last⟩
    have both := Steps.append_iff.mpr ⟨t, first, second⟩
    rw [List.filterMap_cons]
    cases action : m.action? s with
    | none => simpa [action] using both
    | some a => simpa [action] using both

theorem Goes.before {ms ns : List Move} (goes : Goes s c (ms ++ ns) d) :
    ∃ e, Goes s c ms e := by
  induction ms generalizing c with
  | nil => exact ⟨c, .nil c⟩
  | cons m ms ih =>
    cases goes with
    | cons step rest =>
      obtain ⟨e, first⟩ := ih rest
      exact ⟨e, .cons step first⟩

theorem count_run (s : Setup) (ms : List Move) (path : String) :
    (ms.filterMap (Move.action? s)).count (.run path) = ms.countP (·.starts = some path) := by
  rw [List.count_eq_countP, List.countP_filterMap]
  refine List.countP_congr fun m _ => ?_
  cases m with
  | event tree e => cases asks : { s with tree }.asks e <;> simp [Move.action?, Move.starts, asks]
  | turn i other t => cases t <;> simp [Move.action?, Move.starts, Turn.action]
  | join | receive | cancel | close | finish => simp [Move.action?, Move.starts]

theorem count_count (s : Setup) (ms : List Move) (path : String) :
    (ms.filterMap (Move.action? s)).count (.count path) = ms.countP (·.asks s = some path) := by
  rw [List.count_eq_countP, List.countP_filterMap]
  refine List.countP_congr fun m _ => ?_
  cases m with
  | event tree e => cases asks : { s with tree }.asks e <;> simp [Move.action?, Move.asks, asks]
  | turn i other t => cases t <;> simp [Move.action?, Move.asks, Turn.action]
  | join | receive | cancel | close | finish => simp [Move.action?, Move.asks]

/-- A crew starts no more handlers than a runner. -/
theorem Goes.starts_le {ms : List Move} (goes : Goes s .start ms c) (path : String) :
    ms.countP (·.starts = some path) ≤ 2 * ms.countP (·.asks s = some path) - 1 := by
  obtain ⟨r, steps, -⟩ := goes.steps sound_start follows_start
  rw [← count_run s, ← count_count]
  exact runs_le steps path

/-- Every handler that starts follows an event of its path that was admitted. -/
theorem Goes.admitted {before after : List Move} {i : Nat} {path : String}
    (goes : Goes s .start (before ++ .turn i path .run :: after) c) :
    ∃ tree e, .event tree e ∈ before ∧ e.path = path ∧ { s with tree }.Admits e := by
  rw [List.append_cons] at goes
  obtain ⟨d, started⟩ := goes.before
  have handler : (Move.turn i path .run).starts = some path := rfl
  have silent : (Move.turn i path .run).asks s = none := rfl
  have bound := started.starts_le path
  have asked : 0 < before.countP (·.asks s = some path) := by
    simp only [List.countP_append, List.countP_singleton, handler, silent] at bound
    simp at bound
    omega
  obtain ⟨m, member, asks⟩ := List.countP_pos_iff.mp asked
  cases m with
  | event tree e => exact ⟨tree, e, member, asks_eq_some_iff.mp (of_decide_eq_true asks)⟩
  | join | turn | receive | cancel | close | finish => cases of_decide_eq_true asks

theorem Sound.running_unique (sound : c.Sound) {i j : Nat} {f h : Flight}
    (first : c.flights[i]? = some f) (second : c.flights[j]? = some h)
    (runs : f.IsRunning) (too : h.IsRunning) (same : f.path = h.path) : i = j := by
  obtain ⟨path, call⟩ := f
  obtain ⟨other, call'⟩ := h
  obtain ⟨seen, rfl⟩ := runs
  obtain ⟨seen', rfl⟩ := too
  cases same
  exact sound.unique ⟨first, nofun⟩ ⟨second, nofun⟩

theorem Sound.over_of_returned (sound : c.Sound) (returned : c.loop = .returned) {f : Flight}
    (member : f ∈ c.flights) : f.call = .idle := by
  by_contra busy
  obtain ⟨i, found⟩ := List.mem_iff_getElem?.mp member
  have awaited := sound.awaited (i := i) ⟨found, busy⟩
  rw [sound.drained returned] at awaited
  cases awaited

end Crew

/-- However the loop, the calls and the table of shared calls take their steps: at most one handler of a
path runs at a time, a handler starts only for an event that was admitted before, `n` events let it
start at most `2 n - 1` times, and all calls have ended once the loop has returned. -/
theorem handlers_kept {g : Sharing} {s : Setup} {ms : List Move} {c : Crew g}
    (goes : Crew.Goes s .start ms c) :
    (∀ (i j : Nat) (f h : Flight), c.flights[i]? = some f → c.flights[j]? = some h →
      f.IsRunning → h.IsRunning → f.path = h.path → i = j) ∧
    (∀ before i path after, ms = before ++ .turn i path .run :: after →
      ∃ tree e, .event tree e ∈ before ∧ e.path = path ∧ { s with tree }.Admits e) ∧
    (∀ path, 1 ≤ ms.countP (·.asks s = some path) →
      ms.countP (·.starts = some path) ≤ 2 * ms.countP (·.asks s = some path) - 1) ∧
    (c.loop = .returned → ∀ f ∈ c.flights, f.call = .idle) := by
  have sound := goes.sound Crew.sound_start
  refine ⟨fun i j f h first second => sound.running_unique first second, ?_, ?_, ?_⟩
  · rintro before i path after rfl
    exact goes.admitted
  · exact fun path _ => goes.starts_le path
  · exact fun returned f => sound.over_of_returned returned

/-- A table as a function that is updated. -/
def Sharing.lookup : Sharing where
  State := String → Option Nat
  empty := fun _ => none
  inFlight t key := t key
  start t key call := Function.update t key (some call)
  forget t key := Function.update t key none
  inFlight_empty _ := rfl
  inFlight_start t key call := Function.update_apply t key (some call)
  inFlight_forget t key := Function.update_apply t key none

/-- A call handles a second event that is still to join, which then starts a call: three runs for two
events. -/
theorem handlers_kept_twice : ∃ (s : Setup) (ms : List Move) (c : Crew .lookup),
    Crew.Goes s .start ms c ∧ c.loop = .returned ∧
      ms.countP (·.asks s = some "a") = 2 ∧ ms.countP (·.starts = some "a") = 3 ∧
      ∀ f ∈ c.flights, f.call = .idle := by
  let s : Setup := { tree := ⟨"/", []⟩, accepts := fun _ => true, watches := fun _ => true
                     outcome := fun _ => none }
  let write : Move := .event ⟨"/", []⟩ ⟨"a", ⟨Change.written.bit⟩⟩
  let turns (i : Nat) (ts : List Turn) : List Move := ts.map (.turn i "a")
  let first := [write, .join] ++ turns 0 [.look, .run] ++ [write] ++
    turns 0 [.leave, .decide, .look, .run, .leave, .decide, .forget]
  let second := [.join] ++ turns 1 [.look, .run, .leave, .decide, .forget]
  have goes : Crew.Goes (g := .lookup) s .start
      (first ++ second ++ [.receive 0, .close, .receive 1, .finish]) _ := Crew.goes_of_moves? rfl
  exact ⟨s, _, _, goes, rfl, by decide, by decide, (handlers_kept goes).2.2.2 rfl⟩

end Desugar.Watch
