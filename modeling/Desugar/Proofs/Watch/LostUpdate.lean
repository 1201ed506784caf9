import Desugar.Proofs.Watch.Steps

/-!
# Updates that no handler sees

A handler runs after an event of its path was counted, unless the event joins a call that has stopped
and is not yet forgotten. Steps are followed from the event on: either the call owes a run of the
handler until it starts, or the event waits for a call that has stopped.
-/
namespace Desugar.Watch

/-- A call has looked at no more events than were counted. -/
def Local.Sound (s : Local) : Prop :=
  match s.progress.call with
  | .looked seen => seen ≤ s.progress.events
  | .running seen => seen ≤ s.progress.events
  | .returned seen => seen ≤ s.progress.events
  | _ => True

/-- The handler of a path has still to start. -/
def Local.Owes (path : String) (s : Local) : Prop :=
  match s.progress.call with
  | .idle => s.joining = some path
  | .ready => True
  | .looked _ => True
  | .running seen => seen < s.progress.events
  | .returned seen => seen < s.progress.events
  | .stopped => False

/-- An event waits for a call that has stopped. -/
def Local.Waits (path : String) (s : Local) : Prop := s.progress.call = .stopped ∧ s.joining = some path

/-- Nothing is under way for a path but its being forgotten. -/
def Local.Quiet (path : String) (s : Local) : Prop :=
  (s.progress.call = .stopped ∨ s.progress.call = .idle) ∧ s.joining ≠ some path

variable {path : String} {a : Action} {s t : Local}

/-! One step -/

theorem sound_step (moves : Moves path false a s t) (sound : s.Sound) : t.Sound := by
  cases moves with
  | count n call =>
    cases call with
    | looked seen | running seen | returned seen => exact Nat.le_succ_of_le sound
    | idle | ready | stopped => trivial
  | look n j => exact Nat.le_refl n
  | begins | again | stop | forget => trivial
  | join | run | leave | otherCount | otherJoin | otherCall | cancel => exact sound

theorem owes_count (moves : Moves path false (.count path) s t) (sound : s.Sound)
    (busy : s.progress.call ≠ .stopped) : t.Owes path := by
  cases moves with
  | count n call =>
    cases call with
    | idle => rfl
    | ready | looked => trivial
    | running seen | returned seen => exact Nat.lt_succ_of_le sound
    | stopped => exact absurd rfl busy
  | otherCount p other => exact absurd rfl other
  | otherCall s other about => cases about

theorem owes_forget (moves : Moves path false (.forget path) s t) (waits : s.Waits path) :
    t.Owes path := by
  cases moves with
  | forget n j => exact waits.2
  | otherCall s other about =>
    cases about
    exact absurd rfl other

/-- A run of the handler is owed until it starts. -/
theorem owes_step (waiting : a ≠ .run path) (moves : Moves path false a s t)
    (owes : s.Owes path) : t.Owes path := by
  cases moves with
  | count n call =>
    cases call with
    | idle | stopped => cases owes
    | ready | looked => trivial
    | running seen | returned seen => exact Nat.lt_succ_of_lt owes
  | @join p busy =>
    obtain ⟨n, call⟩ := p
    cases call with
    | idle => exact absurd rfl busy
    | ready | looked | running | returned | stopped => exact owes
  | run => exact absurd rfl waiting
  | stop j done =>
    obtain same | cancelled := done
    · exact absurd same.symm (Nat.ne_of_lt owes)
    · cases cancelled
  | forget => cases owes
  | begins | look | again => trivial
  | leave | otherCall | cancel => exact owes
  | otherCount p other =>
    obtain ⟨n, call⟩ := p
    cases call with
    | idle => cases owes
    | ready | looked | running | returned | stopped => exact owes
  | otherJoin p other =>
    obtain ⟨n, call⟩ := p
    cases call with
    | idle => exact absurd (Option.some.inj owes) other
    | ready | looked | running | returned | stopped => exact owes

/-- An event goes on to wait until it joins or the call is forgotten. -/
theorem waits_step (free : a ≠ .join) (kept : a ≠ .forget path) (moves : Moves path false a s t)
    (waits : s.Waits path) : t.Waits path := by
  obtain ⟨stopped, joins⟩ := waits
  cases moves with
  | count | otherCount => cases joins
  | join | begins | otherJoin => exact absurd rfl free
  | look | run | leave | again | stop => cases stopped
  | forget => exact absurd rfl kept
  | otherCall | cancel => exact ⟨stopped, joins⟩

theorem quiet_join (moves : Moves path false .join s t) (waits : s.Waits path) :
    t.Quiet path := by
  obtain ⟨stopped, joins⟩ := waits
  cases moves with
  | join => exact ⟨.inl stopped, nofun⟩
  | begins => cases stopped
  | otherJoin p other => exact absurd (Option.some.inj joins) other
  | otherCall s other about => cases about

theorem quiet_step (silent : a ≠ .count path) (moves : Moves path false a s t)
    (quiet : s.Quiet path) : t.Quiet path := by
  obtain ⟨halted, joins⟩ := quiet
  cases moves with
  | count => exact absurd rfl silent
  | begins | join => exact absurd rfl joins
  | look | run | leave | again | stop => cases halted with
    | inl stopped => cases stopped
    | inr idle => cases idle
  | forget n j => exact ⟨.inr rfl, joins⟩
  | otherCount p other => exact ⟨halted, fun same => other (Option.some.inj same)⟩
  | otherJoin => exact ⟨halted, nofun⟩
  | otherCall | cancel => exact ⟨halted, joins⟩

/-! A run -/

/-- What each step of a run keeps holds all along, so that a step is taken only where it holds. -/
theorem Steps.keeps {r u : Runs} {as : List Action} (run : Steps r as u) (path : String)
    (kept : Local → Prop) (goesOn : r.cancelled = false) (never : .cancel ∉ as)
    (holds : kept (r.view path))
    (one : ∀ a ∈ as, ∀ s t, Moves path false a s t → kept s → kept t) :
    kept (u.view path) ∧ u.cancelled = false ∧
      ∀ a ∈ as, ∃ s t, Moves path false a s t ∧ kept s := by
  induction run with
  | nil r => exact ⟨holds, goesOn, nofun⟩
  | @cons r v u a as step rest ih =>
    rw [List.mem_cons, not_or] at never
    have moves : Moves path false a (r.view path) (v.view path) := by
      have moves := moves_of_step step path
      rwa [goesOn] at moves
    have next := one a List.mem_cons_self _ _ moves holds
    have uncancelled : v.cancelled = false := (cancelled_of_step step (Ne.symm never.1)).trans goesOn
    obtain ⟨last, opens, along⟩ := ih uncancelled never.2 next
      fun b member => one b (List.mem_cons_of_mem a member)
    refine ⟨last, opens, ?_⟩
    rintro b (_ | ⟨_, member⟩)
    · exact ⟨_, _, moves, holds⟩
    · exact along b member

theorem not_owes_of_complete {r : Runs} (complete : r.Complete) : ¬ (r.view path).Owes path := by
  intro owes
  unfold Local.Owes Runs.view at owes
  rw [complete.1, complete.2 path] at owes
  cases owes

/-- A run of the handler that is owed is made before the run is complete. -/
theorem run_of_owes {r u : Runs} {as : List Action} (run : Steps r as u) (complete : u.Complete)
    (goesOn : r.cancelled = false) (never : .cancel ∉ as) (owes : (r.view path).Owes path) :
    .run path ∈ as := by
  by_contra absent
  refine not_owes_of_complete complete (run.keeps path (Local.Owes path) goesOn never owes ?_).1
  intro a member s t
  exact owes_step (ne_of_mem_of_not_mem member absent)

/-- The last event of a path was counted while its call had stopped, and joined that call before it was
forgotten. -/
def JoinsStopped (as : List Action) (path : String) : Prop :=
  ∃ before middle after, as = before ++ .count path :: (middle ++ .join :: after) ∧
    (∃ s, Steps .start before s ∧ (s.progress path).call = .stopped) ∧
    .join ∉ middle ∧ .forget path ∉ middle ∧ .count path ∉ after

theorem last_of_mem {α : Type} {a : α} {as : List α} (member : a ∈ as) :
    ∃ before after, as = before ++ a :: after ∧ a ∉ after := by
  obtain ⟨before, after, shape, absent⟩ :=
    List.eq_append_cons_of_mem (List.mem_reverse.mpr member)
  refine ⟨after.reverse, before.reverse, ?_, by simpa using absent⟩
  rw [← List.reverse_inj, shape]
  simp

theorem sound_start (path : String) : (Runs.start.view path).Sound := trivial

/-- A run that is not cancelled, seen from one of its steps. -/
theorem Steps.at_step {as bs : List Action} {r u : Runs} (run : Steps r (as ++ a :: bs) u)
    (path : String) (goesOn : r.cancelled = false) (never : .cancel ∉ as ++ a :: bs) :
    ∃ s t, Steps r as s ∧ Steps t bs u ∧ t.cancelled = false ∧
      Moves path false a (s.view path) (t.view path) := by
  rw [List.mem_append, List.mem_cons, not_or, not_or] at never
  obtain ⟨earlier, other, -⟩ := never
  obtain ⟨s, first, rest⟩ := Steps.append_iff.mp run
  cases rest with
  | @cons _ t _ _ _ step rest =>
    have still : s.cancelled = false :=
      (first.keeps path (fun _ => True) goesOn earlier trivial
        fun _ _ _ _ _ _ => trivial).2.1
    have moves := moves_of_step step path
    rw [still] at moves
    exact ⟨s, t, first, rest, (cancelled_of_step step (Ne.symm other)).trans still, moves⟩

theorem Steps.sound {as : List Action} {r : Runs} (run : Steps .start as r) (never : .cancel ∉ as)
    (path : String) : (r.view path).Sound :=
  (run.keeps path Local.Sound rfl never (sound_start path) fun _ _ _ _ => sound_step).1

theorem waits_count (moves : Moves path false (.count path) s t)
    (stopped : s.progress.call = .stopped) : t.Waits path := by
  cases moves with
  | count n call => exact ⟨stopped, rfl⟩
  | otherCount p other => exact absurd rfl other
  | otherCall s other about => cases about

theorem looked_of_run (moves : Moves path false (.run path) s t) :
    ∃ seen, s.progress.call = .looked seen := by
  cases moves with
  | run n seen j => exact ⟨seen, rfl⟩
  | otherCall s other about =>
    cases about
    exact absurd rfl other

/-- No run of the handler follows an event that joins a call that has stopped. -/
theorem not_run_of_joinsStopped {as : List Action} {r : Runs} (run : Steps .start as r)
    (never : .cancel ∉ as) (late : JoinsStopped as path) :
    ∃ before after, as = before ++ .count path :: after ∧ .run path ∉ after := by
  obtain ⟨before, middle, after, rfl, ⟨_, first', stopped⟩, free, held, last⟩ := late
  refine ⟨before, _, rfl, ?_⟩
  obtain ⟨s, t, first, rest, goesOn, counts⟩ := run.at_step path rfl never
  cases first'.unique first
  have waits : (t.view path).Waits path := waits_count counts stopped
  have later : .cancel ∉ middle ++ Action.join :: after := fun member =>
    never (List.mem_append_right _ (List.mem_cons_of_mem _ member))
  obtain ⟨u, v, waiting, resting, uncancelled, joins⟩ := rest.at_step path goesOn later
  rw [List.mem_append, not_or] at later
  have still := waiting.keeps path (Local.Waits path) goesOn later.1 waits fun a member s t =>
    waits_step (ne_of_mem_of_not_mem member free) (ne_of_mem_of_not_mem member held)
  have quiet := resting.keeps path (Local.Quiet path) uncancelled (later.2 ∘ List.mem_cons_of_mem _)
    (quiet_join joins still.1) fun a member s t => quiet_step (ne_of_mem_of_not_mem member last)
  intro member
  rcases List.mem_append.mp member with member | _ | ⟨_, member⟩
  · obtain ⟨s, t, moves, stops, -⟩ := still.2.2 _ member
    obtain ⟨seen, looked⟩ := looked_of_run moves
    rw [stops] at looked
    cases looked
  · obtain ⟨s, t, moves, halted, -⟩ := quiet.2.2 _ member
    obtain ⟨seen, looked⟩ := looked_of_run moves
    rw [looked] at halted
    rcases halted with halted | halted <;> cases halted

theorem joins_step (free : a ≠ .join) (moves : Moves path false a s t)
    (joins : s.joining = some path) : t.joining = some path := by
  cases moves with
  | count | otherCount => cases joins
  | begins | join | otherJoin => exact absurd rfl free
  | look | run | leave | again | stop | forget | otherCall | cancel => exact joins

/-- An event that no run of the handler follows has joined a call that has stopped. -/
theorem joinsStopped_of_not_run {before after : List Action} {r : Runs}
    (run : Steps .start (before ++ .count path :: after) r) (complete : r.Complete)
    (never : .cancel ∉ before ++ .count path :: after) (last : .count path ∉ after)
    (absent : .run path ∉ after) : JoinsStopped (before ++ .count path :: after) path := by
  obtain ⟨s, t, first, rest, goesOn, counts⟩ := run.at_step path rfl never
  rw [List.mem_append, List.mem_cons, not_or, not_or] at never
  obtain ⟨earlier, -, later⟩ := never
  have stopped : (s.progress path).call = .stopped := by
    by_contra busy
    have owes := owes_count counts (first.sound earlier path) busy
    exact absent (run_of_owes rest complete goesOn later owes)
  have waits : (t.view path).Waits path := waits_count counts stopped
  have joins : .join ∈ after := by
    by_contra free
    have waiting := (rest.keeps path (·.joining = some path) goesOn later waits.2
      fun a member s t => joins_step (ne_of_mem_of_not_mem member free)).1
    have ended : (r.view path).joining = none := complete.1
    rw [ended] at waiting
    cases waiting
  obtain ⟨middle, ending, rfl, free⟩ := List.eq_append_cons_of_mem joins
  refine ⟨before, middle, ending, rfl, ⟨s, first, stopped⟩, free, ?_, ?_⟩
  · intro forgets
    obtain ⟨early, late, rfl, held⟩ := List.eq_append_cons_of_mem forgets
    rw [List.append_assoc, List.cons_append] at rest later absent
    obtain ⟨u, v, waiting, resting, uncancelled, forgotten⟩ :=
      rest.at_step path goesOn later
    rw [List.mem_append, List.mem_cons, not_or, not_or] at later absent
    rw [List.mem_append, not_or] at free
    have still := (waiting.keeps path (Local.Waits path) goesOn later.1 waits fun a member s t =>
      waits_step (ne_of_mem_of_not_mem member free.1) (ne_of_mem_of_not_mem member held)).1
    have owes : (v.view path).Owes path := owes_forget forgotten still
    exact absent.2.2 (run_of_owes resting complete uncancelled later.2.2 owes)
  · exact fun member => last (List.mem_append_right _ (List.mem_cons_of_mem _ member))

/-- After each event of a path its handler starts, unless the last one joins a call that has
stopped. -/
theorem run_after_event_iff {as : List Action} {r : Runs} (run : Steps .start as r)
    (complete : r.Complete) (never : .cancel ∉ as) (path : String) :
    (∀ before after, as = before ++ .count path :: after → .run path ∈ after) ↔
      ¬ JoinsStopped as path := by
  constructor
  · intro handled late
    obtain ⟨before, after, shape, absent⟩ := not_run_of_joinsStopped run never late
    exact absent (handled before after shape)
  · intro apart before after shape
    by_contra absent
    obtain ⟨early, late, split, last⟩ :=
      last_of_mem (List.mem_cons_self : Action.count path ∈ .count path :: after)
    have whole : as = (before ++ early) ++ .count path :: late := by
      rw [shape, split, List.append_assoc]
    have silent : .run path ∉ late := by
      intro member
      have within : .run path ∈ Action.count path :: after := by
        rw [split]
        exact List.mem_append_right _ (List.mem_cons_of_mem _ member)
      cases within with
      | tail _ within => exact absent within
    subst whole
    exact apart (joinsStopped_of_not_run run complete never last silent)

/-- An event that comes between a call's stopping and its being forgotten is not followed by a run of
the handler, though the runner comes to an end and is not cancelled. -/
theorem run_after_event_lost : ∃ (as : List Action) (r : Runs),
    Steps .start as r ∧ r.Complete ∧ .cancel ∉ as ∧
      ¬ ∀ before after, as = before ++ .count "a" :: after → .run "a" ∈ after := by
  have first : Steps .start [.count "a", .join, .look "a", .run "a", .leave "a", .decide "a"]
      ⟨[("a", ⟨1, .stopped⟩)], none, false⟩ :=
    .cons rfl (.cons rfl (.cons rfl (.cons rfl (.cons rfl (.cons rfl (.nil _))))))
  have second : Steps ⟨[("a", ⟨1, .stopped⟩)], none, false⟩ [.count "a", .join, .forget "a"]
      ⟨[("a", ⟨2, .idle⟩)], none, false⟩ :=
    .cons rfl (.cons rfl (.cons rfl (.nil _)))
  have run := Steps.append_iff.mpr ⟨_, first, second⟩
  have complete : Runs.Complete ⟨[("a", ⟨2, .idle⟩)], none, false⟩ := by
    refine ⟨rfl, fun path => ?_⟩
    rw [Runs.progress, List.lookup_cons]
    split <;> rfl
  have never : Action.cancel ∉ [.count "a", .join, .look "a", .run "a", .leave "a", .decide "a"] ++
      [.count "a", .join, .forget "a"] := by decide
  have late : JoinsStopped ([.count "a", .join, .look "a", .run "a", .leave "a", .decide "a"] ++
      [.count "a", .join, .forget "a"]) "a" :=
    ⟨_, [], [.forget "a"], rfl, ⟨_, first, rfl⟩, by decide, by decide, by decide⟩
  exact ⟨_, _, run, complete, never, (run_after_event_iff run complete never "a").not.mpr
    (not_not.mpr late)⟩

end Desugar.Watch
