import Desugar.Command.Run
import Desugar.Proofs.FileTree
import Desugar.Proofs.Token.Layout

/-!
# What an expansion command leaves

A command line that asks for expansions comes to a number of inputs, each of them expanded or failed, or it ends
before that. Files are changed only if its flags ask for writing, and then each file holds the last of the
expansions that are written to it. Whatever goes wrong with an input shows in the exit code.
-/
namespace Desugar.Command

variable {α β : Type} {s s' : Session} {t t' : FileTree}

/-! ## Steps of a command -/

theorem run_bind (x : Task α) (f : α → Task β) (s : Session) :
    (x >>= f).run.run s = match x.run.run s with
      | (.ok a, s) => (f a).run.run s
      | (.error code, s) => (.error code, s) := by
  rw [ExceptT.run_bind, StateT.run_bind]
  rcases x.run.run s with ⟨_ | _, _⟩ <;> rfl

/-- The files are as they were, and nothing was printed. -/
structure Session.Keeps (s s' : Session) : Prop where
  tree : s'.tree = s.tree
  stdout : s'.stdout = s.stdout

theorem Session.Keeps.refl (s : Session) : s.Keeps s := ⟨rfl, rfl⟩

theorem Session.Keeps.trans {s'' : Session} (first : s.Keeps s') (second : s'.Keeps s'') : s.Keeps s'' :=
  ⟨second.tree.trans first.tree, second.stdout.trans first.stdout⟩

/-- In a tree, without a change of it and with nothing printed, a step comes to the point from where the command
goes on in the way that is told, or it ends the command in failure. -/
def ComesTo (x : Task α) (t : FileTree) (b? : Option β) (goOn : β → Session → Except ExitCode α × Session) :
    Prop :=
  ∀ s : Session, s.tree = t → ∃ s' : Session, s.Keeps s' ∧ match b? with
    | some b => x.run.run s = goOn b s'
    | none => ∃ code, code ≠ .success ∧ x.run.run s = (.error code, s')

/-- In such a way, a step gives a value or ends the command in failure. -/
def Gives (x : Task α) (t : FileTree) (a? : Option α) : Prop := ComesTo x t a? fun a s => (.ok a, s)

theorem ComesTo.bind {γ : Type} {x : Task α} {f : α → Task γ} {a? : Option α} {g : α → Option β}
    {goOn : β → Session → Except ExitCode γ × Session} (first : Gives x t a?)
    (second : ∀ a, ComesTo (f a) t (g a) goOn) : ComesTo (x >>= f) t (a?.bind g) goOn := by
  intro s here
  obtain ⟨s', kept, ran⟩ := first s here
  cases a? with
  | none =>
    obtain ⟨code, failed, ran⟩ := ran
    exact ⟨s', kept, code, failed, by rw [run_bind, ran]⟩
  | some a =>
    have ran : x.run.run s = (.ok a, s') := ran
    rw [run_bind, ran]
    obtain ⟨s'', kept', ran'⟩ := second a s' (kept.tree.trans here)
    exact ⟨s'', kept.trans kept', ran'⟩

theorem Gives.pure (a : α) : Gives (Pure.pure a) t (some a) := fun s _ => ⟨s, .refl s, rfl⟩

theorem Gives.orFail {ε : Type} (message : ε → String) (x : Except ε α) :
    Gives (orFail message x) t x.toOption := by
  intro s _
  cases x with
  | ok a => exact ⟨s, .refl s, rfl⟩
  | error e => exact ⟨s.warnLine (message e), ⟨rfl, rfl⟩, .failure, nofun, rfl⟩

/-- Behind a step that ends the command nothing is done. -/
theorem ComesTo.stop {γ : Type} {code : ExitCode} (failed : code ≠ .success) (message : String) (f : α → Task γ)
    {goOn : β → Session → Except ExitCode γ × Session} : ComesTo (stop code message >>= f) t none goOn :=
  fun s _ => ⟨s.warnLine message, ⟨rfl, rfl⟩, code, failed, rfl⟩

/-- What a step finds is the tree. -/
theorem ComesTo.get {f : Session → Task α} {b? : Option β} {goOn : β → Session → Except ExitCode α × Session}
    (goes : ∀ s, s.tree = t → ComesTo (f s) t b? goOn) : ComesTo (get >>= f) t b? goOn := by
  intro s here
  exact goes s here s here

theorem Gives.modifyGet {f : Session → α × Session} {a : α} (value : ∀ s, s.tree = t → (f s).1 = a)
    (keeps : ∀ s : Session, s.Keeps (f s).2) : Gives (MonadState.modifyGet f) t (some a) := by
  intro s here
  refine ⟨(f s).2, keeps s, ?_⟩
  rw [← value s here]
  rfl

theorem Gives.modify {f : Session → Session} (keeps : ∀ s : Session, s.Keeps (f s)) :
    Gives (modify f) t (some ()) := .modifyGet (fun _ _ => rfl) keeps

/-! ## What the steps of a set-up give -/

theorem Gives.arguments (command : String) (flags : List Flag) (args : List String) :
    Gives (arguments command flags args) t (parseFlags flags args {}).toOption := by
  intro s _
  unfold Command.arguments
  cases parseFlags flags args {} with
  | ok a => exact ⟨s, .refl s, rfl⟩
  | error f => exact ⟨s.warn _, ⟨rfl, rfl⟩, .misuse, nofun, rfl⟩

/-- The configuration that arguments ask for, with what they turn on. -/
def configuration? (around : Surroundings) (a : Arguments) (t : FileTree) : Option Config :=
  (Config.load t (a.text "config" Config.defaultPath) around.processors).toOption.map fun c =>
    { c with verbose := c.verbose || a.isOn "v", debug := c.debug || a.isOn "debug" }

theorem Gives.configure (around : Surroundings) (a : Arguments) :
    Gives (configure around a) t (configuration? around a t) := by
  unfold Command.configure configuration?
  refine .get fun s here => ?_
  rw [here, Option.map_eq_bind]
  exact ComesTo.bind (Gives.orFail _ _) fun c => Gives.pure _

/-- A registry in which the forms of some names are hidden. Names of no form hide nothing. -/
def withholding (r : Registry) (names : List String) : Registry :=
  names.foldl (fun r name => (r.disable name).toOption.getD r) r

theorem disableAll_eq (j : Journal) (names : List String) (r : Registry) (s : Session) :
    (disableAll j names r s).1 = withholding r names ∧ s.Keeps (disableAll j names r s).2 := by
  induction names generalizing r s with
  | nil => exact ⟨rfl, .refl s⟩
  | cons name names ih =>
    unfold disableAll
    rw [withholding, List.foldl_cons]
    cases r.disable name with
    | ok hidden => exact ih hidden s
    | error f =>
      obtain ⟨same, kept⟩ := ih r (j.write .warn s!"config: {f.message}" s)
      exact ⟨same, kept.tree, kept.stdout⟩

/-- The expander that a configuration asks for. -/
def expanderFor (c : Config) : Except Failure Expander :=
  Expander.ofOptions
    { registry := withholding .standard c.disabled, imports := ⟨c.sugarImport, c.truthImport⟩
      maxDepth := c.maxDepth, header := c.header, concurrency := c.concurrency, extension := c.extension }

theorem Gives.expanderOf (j : Journal) (c : Config) : Gives (expanderOf j c) t (expanderFor c).toOption := by
  let built (registry : Registry) : Except Failure Expander :=
    Expander.ofOptions
      { registry, imports := ⟨c.sugarImport, c.truthImport⟩, maxDepth := c.maxDepth, header := c.header
        concurrency := c.concurrency, extension := c.extension }
  have registry : Gives (MonadState.modifyGet (disableAll j c.disabled .standard)) t
      (some (withholding .standard c.disabled)) :=
    .modifyGet (fun s _ => (disableAll_eq j c.disabled .standard s).1)
      fun s => (disableAll_eq j c.disabled .standard s).2
  exact ComesTo.bind registry fun registry => Gives.orFail Failure.message (built registry)

theorem write_keeps (j : Journal) (level : LogLevel) (message : String) (s : Session) :
    s.Keeps (j.write level message s) := ⟨rfl, rfl⟩

theorem traced_keeps (j : Journal) (x : StateM (Array String) α) (s : Session) : s.Keeps (j.traced x s).2 := by
  have all (trace : List String) : s.Keeps (trace.foldl (fun s message => j.write .debug message s) s) := by
    induction trace generalizing s with
    | nil => exact .refl s
    | cons message trace ih => exact (write_keeps ..).trans (ih _)
  unfold Journal.traced
  rcases StateT.run x #[] with ⟨a, trace⟩
  change s.Keeps (trace.foldl _ s)
  rw [← Array.foldl_toList]
  exact all _

theorem Gives.traced (j : Journal) (x : FileTree → StateM (Array String) α) :
    Gives (MonadState.modifyGet fun s => j.traced (x s.tree) s) t (some ((x t).run #[]).1) :=
  .modifyGet (fun _ here => by rw [here]; rfl) fun s => traced_keeps j _ s

/-! ## What a command line comes to -/

/-- What a command line asks to be expanded, and with what. -/
structure Work where
  arguments : Arguments
  expander : Expander
  inputs : List Expanded

namespace Work

/-- The path that everything is written to, if there is one. -/
def given (w : Work) : String := w.arguments.text "o" ""

/-- Where the expansion of an input belongs: at the path that is given, or else at the path of the input with
another ending. -/
def target (w : Work) (r : Expanded) : String :=
  if w.given = "" then Path.dropTail r.path w.expander.extension ++ ".go" else w.given

/-- Whether expansions are written to files. -/
def writes (w : Work) : Bool :=
  !w.arguments.isOn "d" && !w.arguments.isOn "l" &&
    (w.arguments.isOn "w" && !w.arguments.isOn "stdin" || w.given ≠ "")

/-- Puts the inputs out. -/
def putOut (w : Work) (s : Session) : ExitCode × Session :=
  emitAll (Disposal.ofArguments w.arguments) (targetOf w.expander w.given) w.inputs .success s

end Work

/-- The work of a command line in a tree: the standard input, or the files that its operands stand for, which
are one file if a path is given to write to. There is none if the arguments, the configuration or an operand
cannot be read. -/
def work? (around : Surroundings) (args : List String) (t : FileTree) : Option Work := do
  let a ← (parseFlags expandFlags args {}).toOption
  let c ← configuration? around a t
  let x ← (expanderFor { c with header := c.header || a.isOn "header" }).toOption
  if a.isOn "stdin" then return ⟨a, x, [((x.expandText t "<stdin>" around.input).run #[]).1]⟩
  let paths ← (collect x t c.workDir a.operands).toOption
  if a.text "o" "" ≠ "" && paths.length ≠ 1 then none
  return ⟨a, x, ((x.expandFiles t paths).run #[]).1⟩

/-- The command comes to its work, with the files as they were and nothing printed, and puts it out. -/
theorem expand_comesTo (around : Surroundings) (args : List String) (t : FileTree) :
    ComesTo (expand around args) t (work? around args t) fun w s =>
      ((.ok (w.putOut s).1, (w.putOut s).2) : Except ExitCode ExitCode × Session) := by
  unfold expand work?
  refine ComesTo.bind (Gives.arguments _ _ _) fun a => ?_
  refine ComesTo.bind (Gives.configure around a) fun c => ?_
  refine ComesTo.bind (Gives.expanderOf _ _) fun x => ?_
  have last (inputs : List Expanded) (x : Expander) :
      ComesTo (MonadState.modifyGet (emitAll (Disposal.ofArguments a) (targetOf x (a.text "o" "")) inputs .success) :
        Task ExitCode) t (some ⟨a, x, inputs⟩) fun (w : Work) s => (.ok (w.putOut s).1, (w.putOut s).2) :=
    fun s _ => ⟨s, .refl s, rfl⟩
  dsimp only
  split
  · exact ComesTo.bind (Gives.traced _ fun t => x.expandText t "<stdin>" around.input) fun r => last [r] x
  · refine ComesTo.get fun s here => ?_
    rw [here]
    refine ComesTo.bind (Gives.orFail _ _) fun paths => ?_
    split
    · exact ComesTo.stop (by decide : ExitCode.misuse ≠ .success) _ _
    · exact ComesTo.bind (Gives.modify fun s => write_keeps _ _ _ s) fun _ =>
        ComesTo.bind (Gives.traced _ fun t => x.expandFiles t paths) fun results => last results x

/-! ## Files that are written -/

/-- A tree in which a path stands for a file of some content, and all else is as it was. -/
structure Puts (t : FileTree) (path : String) (content : Bytes) (t' : FileTree) : Prop where
  same : t.SameDirectories t'
  nests : t'.Nests
  entry : ∃ clean, t.relative? path = some clean ∧
    ∀ p, t'.entry? p = if p = clean then some (.file content) else t.entry? p

theorem writeChanged_puts (nests : t.Nests) {path : String} (writable : t.Writable path) (content : Bytes) :
    ∃ t', writeChanged t path content = .ok t' ∧ Puts t path content t' := by
  obtain ⟨clean, there, other, parent⟩ := writable.place
  have dot := FileTree.ne_dot_of_entry other
  have written : ∃ t', t.write path content = .ok t' ∧ Puts t path content t' := by
    obtain ⟨clean', there', -, ran⟩ := writable.write nests content
    obtain rfl := Option.some.inj (there.symm.trans there')
    exact ⟨_, ran, FileTree.sameDirectories_insert dot other content, nests.insert other dot parent content, clean,
      there, FileTree.entry_insert dot _⟩
  unfold writeChanged
  cases read : t.read path with
  | error e => exact written
  | ok old =>
    dsimp only
    split
    · rename_i same
      subst same
      obtain ⟨-, -, clean', there', entry⟩ := FileTree.find_eq_file (FileTree.find_of_read read)
      refine ⟨t, rfl, .refl t, nests, clean', there', fun p => ?_⟩
      split
      · rename_i here
        rw [here, entry]
      · rfl
    · exact written

theorem writable_of_writeChanged (nests : t.Nests) {path : String} {content : Bytes}
    (written : writeChanged t path content = .ok t') : t.Writable path := by
  unfold writeChanged at written
  cases read : t.read path with
  | error e =>
    rw [read] at written
    exact nests.writable_of_write written
  | ok old => exact nests.writable_of_file (FileTree.find_of_read read)

/-- Where expansions are written, one is put at its path, or else nothing is put and the code tells of it. -/
theorem emit_write (nests : s.tree.Nests) (target : String) (r : Expanded) :
    (∃ out, r.result = .ok out ∧ s.tree.Writable target ∧ (emit .write target r s).1 = .success ∧
      Puts s.tree target out (emit .write target r s).2.tree) ∨
    (∀ out, r.result = .ok out → ¬ s.tree.Writable target) ∧ (emit .write target r s).1 ≠ .success ∧
      (emit .write target r s).2.tree = s.tree := by
  unfold emit
  cases r.result with
  | error f => exact .inr ⟨nofun, nofun, rfl⟩
  | ok out =>
    by_cases writable : s.tree.Writable target
    · obtain ⟨t', written, puts⟩ := writeChanged_puts nests writable out
      simp only [dispose, written]
      exact .inl ⟨out, rfl, writable, trivial, puts⟩
    · cases written : writeChanged s.tree target out with
      | ok t' => exact absurd (writable_of_writeChanged nests written) writable
      | error e =>
        simp only [dispose, written]
        exact .inr ⟨fun _ _ => writable, nofun, rfl⟩

/-- Among some inputs is one whose expansion belongs to a place and stands there. -/
def Held (t : FileTree) (target : String → String) (inputs : List Expanded) (p : String) (e : Option FileEntry) :
    Prop :=
  ∃ r ∈ inputs, ∃ out, r.result = .ok out ∧ t.relative? (target r.path) = some p ∧ e = some (.file out)

theorem Held.mono {target : String → String} {inputs more : List Expanded} {p : String} {e : Option FileEntry}
    (held : Held t target inputs p e) (subset : inputs ⊆ more) (same : t'.SameDirectories t) :
    Held t' target more p e := by
  obtain ⟨r, member, out, expanded, there, content⟩ := held
  exact ⟨r, subset member, out, expanded, (same.relative?_eq _).symm.trans there, content⟩

/-- What a run leaves where expansions are written. -/
structure Writes (t : FileTree) (target : String → String) (inputs : List Expanded) (t' : FileTree) : Prop where
  same : t.SameDirectories t'
  frame : ∀ p, t'.entry? p = t.entry? p ∨ Held t target inputs p (t'.entry? p)
  held : ∀ r ∈ inputs, ∀ out p, r.result = .ok out → t.Writable (target r.path) →
    t.relative? (target r.path) = some p → Held t target inputs p (t'.entry? p)

/-- An expansion that is put at its path stays there, or gives way to a later one. -/
theorem Puts.writes {target : String → String} {r : Expanded} {rs : List Expanded} {out : Bytes} {last : FileTree}
    (expanded : r.result = .ok out) (puts : Puts t (target r.path) out t') (rest : Writes t' target rs last) :
    Writes t target (r :: rs) last := by
  obtain ⟨clean, there, entry⟩ := puts.entry
  have later {p : String} (held : Held t' target rs p (last.entry? p)) :
      Held t target (r :: rs) p (last.entry? p) := held.mono (List.subset_cons_self ..) puts.same
  have own : Held t target (r :: rs) clean (last.entry? clean) := by
    rcases rest.frame clean with kept | held
    · refine ⟨r, List.mem_cons_self, out, expanded, there, ?_⟩
      rw [kept, entry, if_pos rfl]
    · exact later held
  refine ⟨puts.same.trans rest.same, fun p => ?_, fun r' member out' p expanded' writable there' => ?_⟩
  · by_cases here : p = clean
    · exact .inr (here ▸ own)
    · rcases rest.frame p with kept | held
      · exact .inl (by rw [kept, entry, if_neg here])
      · exact .inr (later held)
  · rcases List.mem_cons.mp member with rfl | member
    · obtain rfl := Option.some.inj (there.symm.trans there')
      exact own
    · exact later (rest.held r' member out' p expanded' (puts.same.writable_iff.mpr writable)
        ((puts.same.relative?_eq _).trans there'))

/-- An input for which nothing is put changes nothing for the others. -/
theorem Writes.skip {target : String → String} {r : Expanded} {rs : List Expanded}
    (refused : ∀ out, r.result = .ok out → ¬ t.Writable (target r.path)) (rest : Writes t target rs t') :
    Writes t target (r :: rs) t' := by
  have later {p : String} (held : Held t target rs p (t'.entry? p)) :
      Held t target (r :: rs) p (t'.entry? p) := held.mono (List.subset_cons_self ..) (.refl t)
  refine ⟨rest.same, fun p => (rest.frame p).imp_right later, fun r' member out p expanded writable there => ?_⟩
  rcases List.mem_cons.mp member with rfl | member
  · exact absurd writable (refused out expanded)
  · exact later (rest.held r' member out p expanded writable there)

theorem emitAll_write (target : String → String) (rs : List Expanded) (code : ExitCode) (nests : s.tree.Nests) :
    Writes s.tree target rs (emitAll .write target rs code s).2.tree ∧
      ((emitAll .write target rs code s).1 = .success → code = .success ∧
        ∀ r ∈ rs, s.tree.Writable (target r.path)) := by
  induction rs generalizing code s with
  | nil => exact ⟨⟨.refl _, fun _ => .inl rfl, nofun⟩, fun success => ⟨success, nofun⟩⟩
  | cons r rs ih =>
    unfold emitAll
    have one := emit_write nests (target r.path) r
    generalize emit .write (target r.path) r s = step at one
    obtain ⟨next, s'⟩ := step
    dsimp only at one ⊢
    rcases one with ⟨out, expanded, writable, success, puts⟩ | ⟨refused, failed, kept⟩
    · obtain ⟨writes, all⟩ := ih (if next = .success then code else next) puts.nests
      refine ⟨puts.writes expanded writes, fun ended => ?_⟩
      obtain ⟨start, all⟩ := all ended
      rw [if_pos success] at start
      exact ⟨start, List.forall_mem_cons.mpr ⟨writable, fun r' member => puts.same.writable_iff.mp (all r' member)⟩⟩
    · obtain ⟨writes, all⟩ := ih (if next = .success then code else next) (kept ▸ nests)
      refine ⟨Writes.skip refused (kept ▸ writes), fun ended => ?_⟩
      have start := (all ended).1
      rw [if_neg failed] at start
      exact absurd start failed

/-! ## Other ways of putting out -/

theorem emit_tree {how : Disposal} (shown : how ≠ .write) (target : String) (r : Expanded) (s : Session) :
    (emit how target r s).2.tree = s.tree := by
  unfold emit
  cases r.result with
  | error f => rfl
  | ok out =>
    cases how with
    | showDiff => rfl
    | print => rfl
    | write => exact absurd rfl shown
    | listStale =>
      simp only [dispose]
      cases isStale s.tree target out with
      | error e => rfl
      | ok stale => cases stale <;> rfl

theorem emitAll_tree {how : Disposal} (shown : how ≠ .write) (target : String → String) (rs : List Expanded)
    (code : ExitCode) (s : Session) : (emitAll how target rs code s).2.tree = s.tree := by
  induction rs generalizing code s with
  | nil => rfl
  | cons r rs ih =>
    unfold emitAll
    have one := emit_tree shown (target r.path) r s
    generalize emit how (target r.path) r s = step at one
    exact (ih _ step.2).trans one

/-- The code tells of a success only if every input was expanded, however the expansions are put out. -/
theorem expanded_of_emitAll {how : Disposal} {target : String → String} {rs : List Expanded} {code : ExitCode}
    (ended : (emitAll how target rs code s).1 = .success) :
    code = .success ∧ ∀ r ∈ rs, ∃ out, r.result = .ok out := by
  induction rs generalizing code s with
  | nil => exact ⟨ended, nofun⟩
  | cons r rs ih =>
    have reported : ∀ f, r.result = .error f → (emit how (target r.path) r s).1 ≠ .success := by
      intro f failed
      unfold emit
      rw [failed]
      nofun
    unfold emitAll at ended
    generalize emit how (target r.path) r s = step at ended reported
    obtain ⟨next, s'⟩ := step
    obtain ⟨start, all⟩ := ih ended
    by_cases success : next = .success
    · rw [if_pos success] at start
      refine ⟨start, List.forall_mem_cons.mpr ⟨?_, all⟩⟩
      cases expanded : r.result with
      | ok out => exact ⟨out, rfl⟩
      | error f => exact absurd success (reported f expanded)
    · rw [if_neg success] at start
      exact absurd start success

/-! ## The files after the command -/

theorem Work.write_iff (w : Work) : Disposal.ofArguments w.arguments = .write ↔ w.writes = true := by
  unfold Disposal.ofArguments Work.writes Work.given
  cases w.arguments.isOn "d"
  · cases w.arguments.isOn "l"
    · cases (w.arguments.isOn "w" && !w.arguments.isOn "stdin" || w.arguments.text "o" "" ≠ "") <;> simp
    · simp
  · simp

/-- What becomes of the files, and of the exit code, where so much is to be expanded. -/
structure Work.Outcome (w : Work) (t : FileTree) (code : ExitCode) (t' : FileTree) : Prop where
  root : t'.root = t.root
  /-- If a path is given, it is the target of all expansions. -/
  given : w.given ≠ "" → ∀ r ∈ w.inputs, w.target r = w.given
  /-- Otherwise the target of the expansion of `stem.sgo` is `stem.go`, for whatever ending sources have. -/
  beside : w.given = "" → ∀ r ∈ w.inputs, ∀ stem, r.path = stem ++ w.expander.extension →
    w.target r = stem ++ ".go"
  /-- Only the targets of expansions change, only if they are to be written, and only to an expansion. -/
  frame : ∀ p, t'.entry? p ≠ t.entry? p → w.writes = true ∧ ∃ r ∈ w.inputs, ∃ out,
    r.result = .ok out ∧ t.relative? (w.target r) = some p ∧ t'.entry? p = some (.file out)
  /-- The target of a failed input is kept, if it is not the target of another one. -/
  kept : ∀ r ∈ w.inputs, ∀ f p, r.result = .error f → t.relative? (w.target r) = some p →
    (∀ r' ∈ w.inputs, ∀ out, r'.result = .ok out → t.relative? (w.target r') ≠ some p) →
    t'.entry? p = t.entry? p
  /-- A target that can be written holds the expansion of an input that belongs there. -/
  held : w.writes = true → ∀ r ∈ w.inputs, ∀ out, r.result = .ok out → t.Writable (w.target r) →
    ∃ r' ∈ w.inputs, ∃ out', r'.result = .ok out' ∧ t.relative? (w.target r') = t.relative? (w.target r) ∧
      t'.read (w.target r) = .ok out'
  /-- A target that cannot be written shows in the code. -/
  refused : w.writes = true → ∀ r ∈ w.inputs, ∀ out, r.result = .ok out → ¬ t.Writable (w.target r) →
    code ≠ .success
  /-- A failed input shows in the code. -/
  failed : ∀ r ∈ w.inputs, ∀ f, r.result = .error f → code ≠ .success

theorem Work.putOut_frame (w : Work) (nests : s.tree.Nests) (p : String)
    (changed : (w.putOut s).2.tree.entry? p ≠ s.tree.entry? p) : w.writes = true ∧ ∃ r ∈ w.inputs, ∃ out,
      r.result = .ok out ∧ s.tree.relative? (w.target r) = some p ∧
        (w.putOut s).2.tree.entry? p = some (.file out) := by
  unfold Work.putOut at changed ⊢
  by_cases written : Disposal.ofArguments w.arguments = .write
  · rw [written] at changed ⊢
    have writes := (emitAll_write (targetOf w.expander w.given) w.inputs .success nests).1
    exact ⟨w.write_iff.mp written, (writes.frame p).resolve_left changed⟩
  · rw [emitAll_tree written] at changed
    exact absurd rfl changed

theorem Work.putOut_outcome (w : Work) (nests : s.tree.Nests) :
    w.Outcome s.tree (w.putOut s).1 (w.putOut s).2.tree := by
  have writing (written : w.writes = true) :
      w.putOut s = emitAll .write (targetOf w.expander w.given) w.inputs .success s := by
    unfold Work.putOut
    rw [w.write_iff.mpr written]
  constructor
  case root =>
    by_cases written : w.writes = true
    · rw [writing written]
      exact (emitAll_write _ _ _ nests).1.same.root
    · unfold Work.putOut
      rw [emitAll_tree (mt w.write_iff.mp written)]
  case given => exact fun path r _ => if_neg path
  case beside =>
    intro unset r _ stem named
    rw [Work.target, if_pos unset, named, Path.dropTail_append]
  case frame => exact w.putOut_frame nests
  case kept =>
    intro r member f p failed there alone
    by_contra changed
    obtain ⟨-, r', member', out, expanded, there', -⟩ := w.putOut_frame nests p changed
    exact alone r' member' out expanded there'
  case held =>
    intro written r member out expanded writable
    obtain ⟨p, there, -⟩ := writable.place
    rw [writing written]
    have writes := (emitAll_write (targetOf w.expander w.given) w.inputs .success nests).1
    obtain ⟨r', member', out', expanded', there', entry⟩ := writes.held r member out p expanded writable there
    exact ⟨r', member', out', expanded', there'.trans there.symm,
      FileTree.read_file writable.named writable.asksFile ((writes.same.relative?_eq _).trans there) entry⟩
  case refused =>
    intro written r member out expanded unwritable success
    rw [writing written] at success
    exact unwritable (((emitAll_write _ _ _ nests).2 success).2 r member)
  case failed =>
    intro r member f failed success
    obtain ⟨out, expanded⟩ := (expanded_of_emitAll success).2 r member
    rw [failed] at expanded
    cases expanded

theorem task_expand (around : Surroundings) (args : List String) :
    task around ("expand" :: args) = expand around args := by
  unfold task
  dsimp only
  rw [if_neg (by decide), if_neg (by decide), if_pos rfl]

/-- The command ends as putting out its work does. -/
theorem run_expand (around : Surroundings) (args : List String) (s : Session) : ∃ s' : Session, s.Keeps s' ∧
    match work? around args s.tree with
    | some w => run around ("expand" :: args) s = w.putOut s'
    | none => ∃ code, code ≠ .success ∧ run around ("expand" :: args) s = (code, s') := by
  obtain ⟨s', kept, ran⟩ := expand_comesTo around args s.tree s rfl
  refine ⟨s', kept, ?_⟩
  unfold run
  rw [task_expand]
  generalize work? around args s.tree = asked at ran
  cases asked with
  | none =>
    obtain ⟨code, failed, ran⟩ := ran
    exact ⟨code, failed, by rw [ran]⟩
  | some w =>
    dsimp only at ran ⊢
    rw [ran]

/-- Whatever the flags, the configuration and the files are: the command that expands changes no other file than
a target of an expansion, and those only if it is asked to write. A target that can be written holds the
expansion of an input that belongs there, a failed input leaves its target alone, and every failure shows in the
exit code. -/
theorem expand_outcome (around : Surroundings) (args : List String) (wf : s.tree.WellFormed) :
    let ended := run around ("expand" :: args) s
    match work? around args s.tree with
    | none => ended.1 ≠ .success ∧ ended.2.tree = s.tree
    | some w => w.Outcome s.tree ended.1 ended.2.tree := by
  obtain ⟨s', ⟨same, -⟩, ran⟩ := run_expand around args s
  generalize work? around args s.tree = asked at ran
  cases asked with
  | none =>
    obtain ⟨code, failed, ran⟩ := ran
    rw [ran]
    exact ⟨failed, same⟩
  | some w =>
    dsimp only at ran ⊢
    rw [ran, ← same]
    exact w.putOut_outcome (same ▸ wf.nests)

/-- Of two sources one fails: the other one is written, and the command ends in failure. -/
theorem expand_outcome_oneFails :
    let source := Text.utf8 "package p\n"
    let t : FileTree := ⟨"/w", [("a.sgo", .file source), ("b.sgo", .file (Text.utf8 "suf!(1)"))]⟩
    let ended := run { time := "" } ["expand", "-w", "a.sgo", "b.sgo"] ⟨t, [], []⟩
    t.WellFormed ∧ ended.1 ≠ .success ∧ ended.2.tree.read "a.go" = .ok source ∧
      ended.2.tree.entry? "b.go" = none := by
  intro source t ended
  have wf : t.WellFormed := .of_parts (by decide) (by decide) (by decide +kernel)
  have asks : (work? { time := "" } ["-w", "a.sgo", "b.sgo"] t).any (fun w => w.writes &&
      w.inputs.map (fun r => (w.target r, r.result.toOption)) == [("a.go", some source), ("b.go", none)]) = true := by
    decide +kernel
  obtain ⟨w, asked, facts⟩ := (Option.any_eq_true ..).mp asks
  rw [Bool.and_eq_true, beq_iff_eq] at facts
  obtain ⟨written, inputs⟩ := facts
  obtain ⟨a, rest, inputs, first, last⟩ := List.map_eq_cons_iff.mp inputs
  obtain ⟨b, rfl, second⟩ := List.map_eq_singleton_iff.mp last
  obtain ⟨target, expanded⟩ := Prod.mk.inj first
  obtain ⟨target', failed⟩ := Prod.mk.inj second
  have expanded : a.result = .ok source := eq_ok_of_toOption expanded
  obtain ⟨f, failed⟩ : ∃ f, b.result = .error f := by
    cases result : b.result with
    | ok out =>
      rw [result] at failed
      cases failed
    | error f => exact ⟨f, rfl⟩
  have member : a ∈ w.inputs := by simp [inputs]
  have member' : b ∈ w.inputs := by simp [inputs]
  have only {r : Expanded} {out : Bytes} (listed : r ∈ w.inputs) (succeeds : r.result = .ok out) : r = a := by
    rw [inputs, List.mem_cons, List.mem_singleton] at listed
    rcases listed with rfl | rfl
    · rfl
    · rw [failed] at succeeds
      cases succeeds
  have outcome := expand_outcome (s := ⟨t, [], []⟩) { time := "" } ["-w", "a.sgo", "b.sgo"] wf
  dsimp only at outcome
  rw [asked] at outcome
  have outcome : w.Outcome t ended.1 ended.2.tree := outcome
  refine ⟨wf, outcome.failed b member' f failed, ?_, ?_⟩
  · have writable : t.Writable (w.target a) := by
      rw [target]
      exact ⟨by decide, by decide, "a.go", by decide, by decide, by decide⟩
    obtain ⟨r, listed, out, succeeds, -, read⟩ := outcome.held written a member source expanded writable
    obtain rfl := only listed succeeds
    obtain rfl := Except.ok.inj (succeeds.symm.trans expanded)
    rw [← target]
    exact read
  · refine outcome.kept b member' f "b.go" failed (by rw [target']; decide) fun r listed out succeeds => ?_
    rw [only listed succeeds, target]
    decide

/-- Where the directory of the given path is not there, an expansion is not found at that path. -/
theorem expansion_not_held_missingDirectory :
    let t : FileTree := ⟨"/w", [("a.sgo", .file (Text.utf8 "package p\n"))]⟩
    let args := ["-o", "missing/x.go", "a.sgo"]
    let ended := run { time := "" } ("expand" :: args) ⟨t, [], []⟩
    t.WellFormed ∧ ended.1 = .failure ∧ ended.2.tree = t ∧ ∃ w, work? { time := "" } args t = some w ∧
      w.writes = true ∧ ∃ r ∈ w.inputs, r.result = .ok (Text.utf8 "package p\n") ∧
        ∀ out, ended.2.tree.read (w.target r) ≠ .ok out := by
  intro t args ended
  have wf : t.WellFormed := .of_parts (by decide) (by decide) (by decide +kernel)
  have asks : (work? { time := "" } args t).any (fun w => w.writes &&
      w.inputs.map (fun r => (w.target r, r.result.toOption)) ==
        [("missing/x.go", some (Text.utf8 "package p\n"))]) = true := by
    decide +kernel
  obtain ⟨code, tree⟩ : ended.1 = .failure ∧ ended.2.tree = t := by decide +kernel
  obtain ⟨w, asked, facts⟩ := (Option.any_eq_true ..).mp asks
  rw [Bool.and_eq_true, beq_iff_eq] at facts
  obtain ⟨written, inputs⟩ := facts
  obtain ⟨r, inputs, only⟩ := List.map_eq_singleton_iff.mp inputs
  obtain ⟨target, expanded⟩ := Prod.mk.inj only
  refine ⟨wf, code, tree, w, asked, written, r, by simp [inputs], eq_ok_of_toOption expanded,
    fun out read => ?_⟩
  have missing : (t.read "missing/x.go").toOption = none := by decide +kernel
  rw [tree, target] at read
  rw [read] at missing
  cases missing

end Desugar.Command
