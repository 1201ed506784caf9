import Desugar.Proofs.Expand.Failures

/-!
# Invocations in invocations

The invocations in the body of an invocation are expanded before it. Listed in this order, they are the
invocations of a stream at every depth. Told by levels, those at the level behind the limit are the ones that
an expansion complains about as nested too deep, each of them once and whatever else fails: the invocations
beside one that fails are still expanded, those around it are not.
-/
namespace Desugar.Invocation

theorem Written.body_length {i : Invocation} {word : List Token} (written : Written i word) :
    i.body.length < word.length := by
  cases written with
  | intro =>
    simp only [List.length_cons, List.length_append]
    omega

theorem body_length_of_mem_chunks {ts : List Token} {chunk : List Token × Invocation}
    (member : chunk ∈ (split ts).chunks) : chunk.2.body.length < ts.length := by
  obtain ⟨word, written, part⟩ := written_of_mem_chunks member
  exact Nat.lt_of_lt_of_le written.body_length part.length_le

/-- All invocations of a stream, those in the body of one before it. -/
def allIn (ts : List Token) : List Invocation :=
  (split ts).chunks.attach.flatMap fun chunk => allIn chunk.1.2.body ++ [chunk.1.2]
termination_by ts.length
decreasing_by exact body_length_of_mem_chunks chunk.2

/-- An invocation behind all those in its body. -/
def family (i : Invocation) : List Invocation := allIn i.body ++ [i]

theorem allIn_eq (ts : List Token) :
    allIn ts = ((split ts).chunks.map (·.2)).flatMap family := by
  have whole := List.attach_map_subtype_val (split ts).chunks
  rw [allIn]
  conv_rhs => rw [← whole]
  simp only [List.flatMap_map]
  rfl

theorem allIn_of_topLevel {ts : List Token} {is : List Invocation} (topLevel : TopLevel ts is) :
    allIn ts = is.flatMap family := by
  rw [allIn_eq, ((topLevel_iff ts is).mp topLevel).2]

theorem mem_family_self (i : Invocation) : i ∈ i.family := by
  simp [family]

theorem mem_family_of_mem_chunks {i j : Invocation} {chunk : List Token × Invocation}
    (member : chunk ∈ (split i.body).chunks) (inner : j ∈ chunk.2.family) : j ∈ i.family := by
  refine List.mem_append_left _ ?_
  rw [allIn_eq, List.flatMap_map]
  exact List.mem_flatMap.mpr ⟨chunk, member, inner⟩

/-! ## Streams in which delimiters match -/

/-- What opens is closed, behind tokens whose delimiters close in pairs. -/
def Paired (ts : List Token) : Prop :=
  ∀ front opener rest k, ts = front ++ opener :: rest → opener.kind.closer? = some k →
    ∃ body closer behind, rest = body ++ closer :: behind ∧ closer.kind = k ∧ Nested body

theorem Nested.paired {ts : List Token} (nested : Nested ts) : Paired ts := by
  induction nested with
  | nil => simp [Paired]
  | @plain t ts opens _ _ ih =>
    rintro front opener rest k same pair
    cases front with
    | nil =>
      obtain ⟨rfl, rfl⟩ := List.cons.inj same
      rw [opens] at pair
      cases pair
    | cons _ front => exact ih front opener rest k (List.cons.inj same).2 pair
  | @group first closer body rest pair nested _ ihBody ihRest =>
    rintro front opener behind k same opens
    cases front with
    | nil =>
      obtain ⟨rfl, rfl⟩ := List.cons.inj same
      rw [pair] at opens
      exact ⟨body, closer, rest, rfl, Option.some.inj opens, nested⟩
    | cons _ front =>
      obtain ⟨-, same⟩ := List.cons.inj same
      have closes := (closer_of_closer? pair).2
      rcases List.append_eq_append_iff.mp same with ⟨mid, rfl, tail⟩ | ⟨mid, rfl, tail⟩
      · -- It stands behind the body, but is not what closes it.
        cases mid with
        | nil =>
          obtain ⟨rfl, -⟩ := List.cons.inj tail
          rw [closes] at opens
          cases opens
        | cons _ mid => exact ihRest mid opener behind k (List.cons.inj tail).2 opens
      · cases mid with
        | nil =>
          obtain ⟨rfl, -⟩ := List.cons.inj tail
          rw [closes] at opens
          cases opens
        | cons _ mid =>
          obtain ⟨rfl, rfl⟩ := List.cons.inj tail
          obtain ⟨inner, last, back, rfl, kind, nested⟩ := ihBody front opener mid k rfl opens
          exact ⟨inner, last, back ++ closer :: rest, by simp, kind, nested⟩

theorem Paired.suffix {word rest : List Token} (paired : Paired (word ++ rest)) : Paired rest := by
  rintro front opener behind k rfl opens
  exact paired (word ++ front) opener behind k (by simp) opens

/-- Where delimiters match, each invocation that starts is closed. -/
theorem Paired.complete {ts : List Token} (paired : Paired ts) (before : List Token) :
    (splitFrom before ts).failure = none := by
  fun_induction splitFrom before ts with
  | case1 before ts d failed =>
    unfold atFront at failed
    split at failed
    · cases failed
    · rename_i front
      obtain ⟨bang, opener, rfl, named, mark, touches, opens⟩ := opening_eq_some front
      obtain ⟨body, closer, behind, rfl, rfl, nested⟩ := paired [_, bang] opener _ _ rfl opens
      rw [closing_of_nested nested (closer_of_closer? opens).1] at failed
      cases failed
  | case2 before ts i rest front shorter s ih =>
    obtain ⟨word, -, rfl⟩ := (atFront_eq_some_iff _ _ _).mp front
    exact ih paired.suffix
  | case3 => rfl
  | case4 before t ts nothing ih => exact ih (Paired.suffix (show Paired ([t] ++ ts) from paired))

theorem Nested.topLevel {ts : List Token} (nested : Nested ts) :
    TopLevel ts ((split ts).chunks.map (·.2)) :=
  (topLevel_iff ts _).mpr ⟨nested.paired.complete [], rfl⟩

theorem nested_body {ts : List Token} {chunk : List Token × Invocation}
    (member : chunk ∈ (split ts).chunks) : Nested chunk.2.body := by
  obtain ⟨before, i⟩ := chunk
  obtain ⟨word, ⟨named, mark, touches, pair, nested⟩, -⟩ := written_of_mem_chunks member
  exact nested

/-! ## Levels -/

/-- The invocations of a stream at a level, from left to right. Those at its top level are at the first one,
and those at the top level of the body of an invocation are at the level behind that of the invocation. -/
inductive Level (ts : List Token) : Nat → List Invocation → Prop where
  | top {is : List Invocation} : TopLevel ts is → Level ts 1 is
  | deeper {n : Nat} {is : List Invocation} {inner : List (List Invocation)} : Level ts n is →
      List.Forall₂ (fun i js => TopLevel i.body js) is inner → Level ts (n + 1) inner.flatten

theorem TopLevel.unique {ts : List Token} {is js : List Invocation} (first : TopLevel ts is)
    (second : TopLevel ts js) : is = js :=
  ((topLevel_iff ts is).mp first).2.symm.trans ((topLevel_iff ts js).mp second).2

theorem Level.unique {ts : List Token} {n : Nat} {is js : List Invocation} (first : Level ts n is)
    (second : Level ts n js) : is = js := by
  induction first generalizing js with
  | top topLevel =>
    cases second with
    | top topLevel' => exact topLevel.unique topLevel'
    | deeper outer => cases outer
  | @deeper n is inner outer bodies ih =>
    cases second with
    | top => cases outer
    | @deeper _ _ inner' outer' bodies' =>
      obtain rfl := ih outer'
      have same : inner = inner' := List.right_unique_forall₂'
        (R := fun (i : Invocation) js => TopLevel i.body js) (fun _ _ _ => TopLevel.unique) bodies bodies'
      rw [same]

/-- The invocations so many levels below an invocation, in its body or the bodies of those in it. -/
def deep : Nat → Invocation → List Invocation
  | 0, i => [i]
  | n + 1, i => ((split i.body).chunks.map (·.2)).flatMap (deep n)

theorem deep_succ (n : Nat) (i : Invocation) :
    deep (n + 1) i = (deep n i).flatMap fun j => (split j.body).chunks.map (·.2) := by
  induction n generalizing i with
  | zero => simp [deep]
  | succ n ih =>
    rw [deep, List.flatMap_congr fun j _ => ih j, deep, List.flatMap_assoc]

theorem nested_deep {n : Nat} {i j : Invocation} (nested : Nested i.body) (member : j ∈ deep n i) :
    Nested j.body := by
  cases n with
  | zero =>
    obtain rfl := List.mem_singleton.mp member
    exact nested
  | succ n =>
    rw [deep_succ] at member
    obtain ⟨outer, -, inside⟩ := List.mem_flatMap.mp member
    obtain ⟨chunk, listed, rfl⟩ := List.mem_map.mp inside
    exact nested_body listed

/-- Where delimiters match, there is each level. -/
theorem Nested.level {ts : List Token} (nested : Nested ts) (n : Nat) :
    Level ts (n + 1) (((split ts).chunks.map (·.2)).flatMap (deep n)) := by
  induction n with
  | zero =>
    have alone : ((split ts).chunks.map (·.2)).flatMap (deep 0) = (split ts).chunks.map (·.2) :=
      List.flatMap_singleton' _
    rw [alone]
    exact .top nested.topLevel
  | succ n ih =>
    rw [List.flatMap_congr fun j _ => deep_succ n j, ← List.flatMap_assoc, List.flatMap_def]
    refine .deeper ih (List.forall₂_map_right_iff.mpr (List.forall₂_same.mpr fun j member => ?_))
    obtain ⟨i, top, inside⟩ := List.mem_flatMap.mp member
    obtain ⟨chunk, listed, rfl⟩ := List.mem_map.mp top
    exact (nested_deep (nested_body listed) inside).topLevel

end Desugar.Invocation

namespace Desugar.Expander

open Invocation Form

variable {e : Expander} {file : String} {source : Bytes}

/-! ## The depth limit -/

/-- The message about an invocation that is nested too deep. -/
def depthMessage (e : Expander) : String := s!"macro expansion exceeds maximum depth {e.maxDepth}"

/-- A diagnostic tells that an invocation is nested too deep. -/
def tellsDepth (e : Expander) (d : Diagnostic) : Bool := d.category = .expansion && d.message = e.depthMessage

/-- What is told about an invocation that is nested too deep. -/
def tooDeep (e : Expander) (i : Invocation) : Diagnostic :=
  { category := .expansion, span := i.name.span, message := e.depthMessage }

/-- Forms leave it to the expansion to tell how deep invocations are nested. -/
def Quiet (e : Expander) : Prop :=
  ∀ form ∈ e.registry.forms, ∀ ctx body f, form.transform ctx body = .error f →
    ∀ d ∈ f.toDiagnostics, e.tellsDepth d = false

/-- What a failure tells of invocations that are nested too deep. -/
def depthTold {α : Type} (e : Expander) (x : Except Failure α) : List Diagnostic :=
  (complaintsOf x).filter e.tellsDepth

theorem IsBuiltin.quiet (builtin : e.IsBuiltin) : e.Quiet := by
  intro form known ctx body f failed d member
  have other := (transform_complains body (builtin ▸ known) ctx f failed).2 d member
  simp [tellsDepth, other]

theorem tellsDepth_tooDeep (e : Expander) (i : Invocation) : e.tellsDepth (e.tooDeep i) = true := by
  simp [tellsDepth, tooDeep]

theorem told_collected {α : Type} (ds : List Diagnostic) (done : α) :
    (e.depthTold (match Failure.ofDiagnostics ds with
      | some f => .error f
      | none => .ok done)).Perm (ds.filter e.tellsDepth) := by
  cases collected : Failure.ofDiagnostics ds with
  | none =>
    rw [Failure.ofDiagnostics_eq_none_iff.mp collected]
    exact .refl _
  | some f =>
    obtain ⟨-, rfl⟩ := Failure.ofDiagnostics_eq_some_iff.mp collected
    exact (Diagnostic.sort_stable ds).1.filter _

/-- In any context an expansion of an invocation tells of those so many levels below it. -/
def TellsBelow (e : Expander) (expandOne : Invocation → Expansion (List Token)) (levels : Nat)
    (i : Invocation) : Prop :=
  ∀ ctx log, (e.depthTold (((expandOne i).run.run ctx).run log).1.1).Perm ((deep levels i).map e.tooDeep)

section

variable {expandOne : Invocation → Expansion (List Token)} {levels : Nat}

theorem told_attempts {is : List Invocation} (each : ∀ i ∈ is, e.TellsBelow expandOne levels i)
    (ctx : Context) (log : Array String) :
    ((complaints (attempts expandOne is ctx log).1.1).filter e.tellsDepth).Perm
      ((is.flatMap (deep levels)).map e.tooDeep) := by
  induction is generalizing ctx log with
  | nil => exact .refl _
  | cons i is ih =>
    have first := each i List.mem_cons_self ctx log
    simp only [attempts]
    generalize ((expandOne i).run.run ctx).run log = one at first
    obtain ⟨⟨result, ctx'⟩, log'⟩ := one
    have rest := ih (fun j member => each j (List.mem_cons_of_mem _ member)) ctx' log'
    simp only [complaints, List.flatMap_cons, List.filter_append, List.map_append]
    exact first.append rest

theorem told_chunks {s : Split} (complete : s.failure = none)
    (each : ∀ chunk ∈ s.chunks, e.TellsBelow expandOne levels chunk.2) (ctx : Context)
    (log : Array String) : (e.depthTold (((expandChunks expandOne s).run.run ctx).run log).1.1).Perm
      (((s.chunks.map (·.2)).flatMap (deep levels)).map e.tooDeep) := by
  obtain ⟨done, whole⟩ := @expandChunks_attempts expandOne s ctx log
  have all := told_attempts (List.forall_mem_map.mpr each) ctx log
  rw [whole]
  generalize attempts expandOne (s.chunks.map (·.2)) ctx log = attempted at all
  obtain ⟨⟨results, ctx'⟩, log'⟩ := attempted
  dsimp only at all ⊢
  rw [complete, Option.toList_none, List.append_nil]
  exact (told_collected _ _).trans all

theorem told_stream {ts : List Token} (nested : Nested ts)
    (each : ∀ chunk ∈ (split ts).chunks, e.TellsBelow expandOne levels chunk.2) (ctx : Context)
    (log : Array String) : (e.depthTold (((expandStream expandOne ts).run.run ctx).run log).1.1).Perm
      ((((split ts).chunks.map (·.2)).flatMap (deep levels)).map e.tooDeep) := by
  have chunks := told_chunks (s := split ts) (nested.paired.complete []) each ctx log
  unfold expandStream
  rw [ExceptT.run_bind, StateT.run_bind, StateT.run_bind]
  generalize ((expandChunks expandOne (split ts)).run.run ctx).run log = all at chunks
  obtain ⟨⟨result, ctx'⟩, log'⟩ := all
  cases result <;> exact chunks

/-- One more level: what an invocation tells is what the stream in its body tells. If that tells something,
the form of the invocation does nothing, and if it does something, it is quiet. -/
theorem TellsBelow.step (quiet : e.Quiet) {i : Invocation} (nested : Nested i.body)
    (named : (e.registry.lookup i.name.text).isSome = true)
    (each : ∀ chunk ∈ (split i.body).chunks, e.TellsBelow (e.expandInvocation levels) levels chunk.2) :
    e.TellsBelow (e.expandInvocation (levels + 1)) (levels + 1) i := by
  intro ctx log
  obtain ⟨form, found⟩ := Option.isSome_iff_exists.mp named
  have stream := told_stream nested each ctx log
  rw [expandInvocation_eq found, ExceptT.run_bind, StateT.run_bind, StateT.run_bind]
  generalize ((expandStream (e.expandInvocation levels) i.body).run.run ctx).run log = all at stream
  obtain ⟨⟨result, ctx'⟩, log'⟩ := all
  cases result with
  | error f => exact stream
  | ok body =>
    change (e.depthTold (((finish i form body).run.run ctx').run log').1.1).Perm _
    have silent : e.depthTold (((finish i form body).run.run ctx').run log').1.1 = [] := by
      rw [finish_run]
      cases result : form.transform { ctx' with span := i.span } body with
      | ok done => rfl
      | error f =>
        refine List.filter_eq_nil_iff.mpr fun d member => ?_
        rw [quiet form (mem_of_lookup found) _ body f result d member]
        exact Bool.false_ne_true
    rw [silent]
    exact stream

/-- An invocation in which so many levels may be nested tells of what is nested deeper. -/
theorem tellsBelow (quiet : e.Quiet) (levels : Nat) (i : Invocation) (nested : Nested i.body)
    (named : ∀ j ∈ i.family, (e.registry.lookup j.name.text).isSome = true) :
    e.TellsBelow (e.expandInvocation levels) levels i := by
  induction levels generalizing i with
  | zero =>
    intro ctx log
    have one : e.depthTold (((e.expandInvocation 0 i).run.run ctx).run log).1.1 = [e.tooDeep i] :=
      List.filter_cons_of_pos (tellsDepth_tooDeep e i)
    rw [one]
    exact .refl _
  | succ levels ih =>
    refine .step quiet nested (named i (mem_family_self i)) fun chunk member => ?_
    exact ih chunk.2 (nested_body member) fun j inner => named j (mem_family_of_mem_chunks member inner)

end

/-! What is done behind the expansion of invocations tells nothing of their depth. -/

/-- What fails does not tell of invocations that are nested too deep. -/
def Spares {α : Type} (e : Expander) (x : Traced α) : Prop := ∀ log, e.depthTold (x.run.run log).1 = []

section

variable {α β : Type}

theorem told_bind {x : Traced α} {f : α → Traced β} (second : ∀ a, e.Spares (f a)) (log : Array String) :
    e.depthTold ((x >>= f).run.run log).1 = e.depthTold (x.run.run log).1 := by
  rw [ExceptT.run_bind, StateT.run_bind]
  generalize x.run.run log = done
  obtain ⟨result, log'⟩ := done
  cases result with
  | error g => rfl
  | ok a => exact second a log'

namespace Spares

theorem pure (a : α) : e.Spares (Pure.pure a) := fun _ => rfl

theorem bind {x : Traced α} {f : α → Traced β} (first : e.Spares x) (second : ∀ a, e.Spares (f a)) :
    e.Spares (x >>= f) := fun log => (told_bind second log).trans (first log)

theorem tried (x : Traced α) : e.Spares (ExceptT.lift (ExceptT.run x)) := by
  intro log
  rw [ExceptT.run_lift, StateT.run_map]
  rfl

theorem trace (message : String) : e.Spares (Desugar.trace message) := fun _ => rfl

theorem forIn {γ : Type} {step : γ → β → Traced (ForInStep β)} (cs : List γ)
    (each : ∀ c b, e.Spares (step c b)) (b : β) : e.Spares (ForIn.forIn cs b step) := by
  induction cs generalizing b with
  | nil => exact .pure b
  | cons c cs ih =>
    rw [List.forIn_cons]
    refine (each c b).bind fun next => ?_
    cases next with
    | done b => exact .pure b
    | yield b => exact ih b

/-- A failure with other messages. -/
theorem throw {ds : List Diagnostic} {f : Failure} (told : f.toDiagnostics = ds)
    (other : ∀ d ∈ ds, d.message ≠ e.depthMessage) : e.Spares (throw f : Traced α) := by
  intro log
  refine List.filter_eq_nil_iff.mpr fun d member => ?_
  have differs := other d (told ▸ member)
  simp [tellsDepth, differs]

end Spares

theorem head_append {s : String} {c : Char} (front : s.toList.head? = some c) (t : String) :
    (s ++ t).toList.head? = some c := by
  rw [String.toList_append, List.head?_append, front]
  rfl

theorem ne_depthMessage {message : String} {c : Char} (first : message.toList.head? = some c)
    (other : c ≠ 'm') : message ≠ e.depthMessage := by
  rintro rfl
  have own : e.depthMessage.toList.head? = some 'm' := head_append (by decide) _
  exact other (Option.some.inj (first.symm.trans own))

/-- A failure of a file whose message starts in another way. -/
theorem fileFailure_spares {message : String} {c : Char} (first : message.toList.head? = some c)
    (other : c ≠ 'm') : e.Spares (throw (fileFailure file message) : Traced α) := by
  refine .throw rfl fun d member => ?_
  obtain rfl := List.mem_singleton.mp member
  exact ne_depthMessage first other

theorem format_spares (file : String) (source : Bytes) (required : List String) :
    e.Spares (format file source required) := by
  unfold format
  split
  · exact fileFailure_spares (head_append (c := 'e') (by decide) _) (by decide)
  · refine .bind (.forIn _ (fun path parsed => ?_) _) fun parsed => ?_
    · dsimp only
      split
      · exact (Spares.trace _).bind fun _ => .pure _
      · exact .pure _
    · dsimp only
      split
      · exact .pure _
      · rename_i message failed
        have first : message.toList.head? = some 'f' := by
          unfold Host.ParsedFile.format at failed
          split at failed
          · split at failed
            · cases failed
            · obtain rfl := Except.error.inj failed
              exact head_append (head_append (by decide) _) _
          · cases failed
        exact fileFailure_spares first (by decide)

theorem siblingText_spares (file path name : String) (content : Bytes) (outputs : List String) :
    e.Spares (e.siblingText file path name content outputs) := by
  unfold siblingText
  split
  · refine .bind (.tried _) fun result => ?_
    split
    · exact .pure _
    · exact (Spares.trace _).bind fun _ => .pure _
  · split <;> exact .pure _

theorem packageFiles_spares (t : FileTree) (file package : String) :
    e.Spares (e.packageFiles t file package) := by
  unfold packageFiles
  split
  · exact .pure _
  · refine .bind (.forIn _ (fun entry files => ?_) _) fun files => .pure _
    dsimp only
    split
    · exact .pure _
    · split
      · refine .bind (siblingText_spares _ _ _ _ _) fun text => ?_
        split
        · exact .pure _
        · split
          · split <;> exact .pure _
          · exact .pure _
      · exact .pure _

theorem lower_spares (t : FileTree) (file : String) (source : Bytes) (ctx : Context) :
    e.Spares (e.lower t file source ctx) := by
  unfold lower
  split
  · exact fileFailure_spares (head_append (c := 'e') (by decide) _) (by decide)
  · dsimp only
    split
    · exact .pure _
    · refine .bind (packageFiles_spares t file _) fun others => ?_
      split
      · rename_i f collected
        obtain ⟨-, rfl⟩ := Failure.ofDiagnostics_eq_some_iff.mp collected
        refine .throw rfl fun d member => ?_
        obtain ⟨p, -, rfl⟩ := List.mem_map.mp ((Diagnostic.sort_stable _).1.mem_iff.mp member)
        exact ne_depthMessage (head_append (c := 'c') (by decide) _) (by decide)
      · exact (Spares.trace _).bind fun _ => .pure _

/-- What is told of a source is told when its invocations are expanded. -/
theorem told_expandSource (t : FileTree) (log : Array String) :
    e.depthTold ((e.expandSource t file source).run.run log).1 =
      e.depthTold ((e.substitute file source).run.run log).1 := by
  unfold expandSource
  rw [told_bind]
  · unfold prepare
    rw [told_bind]
    rintro ⟨out, ctx⟩
    exact (format_spares _ _ _).bind fun _ => .pure _
  · rintro ⟨prepared, ctx⟩
    dsimp only
    split
    · exact .pure _
    · exact (lower_spares _ _ _ _).bind fun _ => (format_spares _ _ _).bind fun _ => .pure _

end

/-! Sources -/

theorem told_check (tool : Version) {f : Failure} (failed : Directive.check tool file source = some f) :
    e.depthTold (.error f : Except Failure Bytes) = [] := by
  unfold Directive.check at failed
  split at failed
  · cases failed
  · obtain ⟨-, rfl⟩ := Failure.ofDiagnostics_eq_some_iff.mp failed
    refine List.filter_eq_nil_iff.mpr fun d member => ?_
    obtain ⟨line, -, faulty⟩ := List.mem_filterMap.mp ((Diagnostic.sort_stable _).1.mem_iff.mp member)
    obtain ⟨r, -, faulty⟩ := Option.bind_eq_some_iff.mp faulty
    have other : d.category = .directive := by
      unfold Directive.fault? at faulty
      dsimp only at faulty
      split at faulty
      · exact Option.some.inj faulty ▸ rfl
      · split at faulty
        · exact Option.some.inj faulty ▸ rfl
        · split at faulty
          · cases faulty
          · exact Option.some.inj faulty ▸ rfl
    simp [tellsDepth, other]

/-- A source tells of what is nested too deep, if it is expanded at all. -/
theorem told_substitute {ts : List Token} (read : Lexer.lex file source = .ok ts) (nested : Nested ts)
    (each : ∀ chunk ∈ (split ts).chunks,
      e.TellsBelow (e.expandInvocation e.maxDepth) e.maxDepth chunk.2) (log : Array String)
    (checked : Directive.check e.version file source = none ∨
      ((split ts).chunks.map (·.2)).flatMap (deep e.maxDepth) = []) :
    (e.depthTold ((e.substitute file source).run.run log).1).Perm
      ((((split ts).chunks.map (·.2)).flatMap (deep e.maxDepth)).map e.tooDeep) := by
  cases check : Directive.check e.version file source with
  | some f =>
    have told : e.depthTold (.error f : Except Failure Bytes) = [] := told_check e.version check
    have run : (e.substitute file source).run.run log = (.error f, log) := by
      unfold substitute
      rw [check]
      rfl
    rw [checked.resolve_left (by simp [check]), run]
    exact .of_eq told
  | none =>
    have all := told_attempts (List.forall_mem_map.mpr each) (Context.start file e.imports) log
    obtain ⟨succeeds, fails⟩ := substitute_attempts check read (nested.paired.complete []) log
    refine .trans ?_ all
    by_cases silent : complaints (attempts (e.expandInvocation e.maxDepth) ((split ts).chunks.map (·.2))
      (Context.start file e.imports) log).1.1 = []
    · obtain ⟨done, log', run⟩ := succeeds silent
      rw [run, silent]
      exact .refl _
    · obtain ⟨log', run⟩ := fails silent
      rw [run]
      exact (Diagnostic.sort_stable _).1.filter _

/-- The limit on the depth is exact: in a source in which delimiters match and all names are known, one
diagnostic tells of each invocation at the level behind the limit, at its name, and none of any other. -/
theorem depth_exact (quiet : e.Quiet) {ts : List Token} (nested : Nested ts)
    (named : ∀ i ∈ allIn ts, (e.registry.lookup i.name.text).isSome = true) :
    ∃ beyond, (∀ is, Level ts (e.maxDepth + 1) is ↔ is = beyond) ∧
      (∀ ctx log, (e.depthTold
        (((expandStream (e.expandInvocation e.maxDepth) ts).run.run ctx).run log).1.1).Perm
          (beyond.map e.tooDeep)) ∧
      ∀ t file source log, Lexer.lex file source = .ok ts →
        Directive.check e.version file source = none ∨ beyond = [] →
        (e.depthTold ((e.expandSource t file source).run.run log).1).Perm (beyond.map e.tooDeep) := by
  have level := nested.level e.maxDepth
  have each : ∀ chunk ∈ (split ts).chunks,
      e.TellsBelow (e.expandInvocation e.maxDepth) e.maxDepth chunk.2 := by
    intro chunk member
    refine tellsBelow quiet _ _ (nested_body member) fun j inner => named j ?_
    rw [allIn_eq, List.flatMap_map]
    exact List.mem_flatMap.mpr ⟨chunk, member, inner⟩
  refine ⟨_, fun is => ⟨fun other => other.unique level, fun same => same ▸ level⟩,
    told_stream nested each, fun t file source log read checked => ?_⟩
  rw [told_expandSource]
  exact told_substitute read nested each log checked

/-! An invocation in another one -/

/-- A token without a place, behind no gap. -/
def spelled (kind : TokenKind) (text : String) : Token := ⟨kind, Text.utf8 text, .none, .none⟩

def truth (body : List Token) : Invocation := ⟨spelled .identifier "boo", spelled .rparen ")", body⟩

/-- The tokens of an invocation. -/
def truthWord (body : List Token) : List Token :=
  spelled .identifier "boo" :: spelled .not "!" :: spelled .lparen "(" :: (body ++ [spelled .rparen ")"])

theorem nested_truthWord {body : List Token} (nested : Nested body) : Nested (truthWord body) :=
  .plain rfl rfl (.plain rfl rfl (.group rfl nested .nil))

theorem topLevel_truthWord {body : List Token} (nested : Nested body) :
    TopLevel (truthWord body) [truth body] := by
  have written : Written (truth body) (truthWord body) := .intro (.inl rfl) rfl rfl rfl nested
  rw [← List.append_nil (truthWord body)]
  exact .found written .nil

/-- Of two invocations, one in the body of the other, the inner one is nested too deep for a limit of one. -/
theorem depth_exact_inner :
    let e : Expander := ⟨.standard, ⟨"", ""⟩, 1, false, ".sgo", ⟨0, 3, 0, "", ""⟩⟩
    let operand := [spelled .identifier "a"]
    let ts := truthWord (truthWord operand)
    e.Quiet ∧ Nested ts ∧ (∀ i ∈ allIn ts, (e.registry.lookup i.name.text).isSome = true) ∧
      ∀ ctx log, (e.depthTold (((expandStream (e.expandInvocation e.maxDepth) ts).run.run ctx).run
        log).1.1).Perm [e.tooDeep (truth operand)] := by
  intro e operand ts
  have quiet : e.Quiet := IsBuiltin.quiet rfl
  have plain : Nested operand := .plain rfl rfl .nil
  have bare : TopLevel operand [] := .skip nofun .nil
  have inner := topLevel_truthWord plain
  have outer := topLevel_truthWord (nested_truthWord plain)
  have named : ∀ i ∈ allIn ts, (e.registry.lookup i.name.text).isSome = true := by
    have family (body : List Token) : (truth body).family = allIn body ++ [truth body] := rfl
    have all : allIn ts = [truth operand, truth (truthWord operand)] := by
      rw [allIn_of_topLevel outer, List.flatMap_singleton, family, allIn_of_topLevel inner,
        List.flatMap_singleton, family, allIn_of_topLevel bare]
      rfl
    have known : (e.registry.lookup (spelled .identifier "boo").text).isSome = true := by decide +kernel
    rw [all]
    exact List.forall_mem_cons.mpr ⟨known, List.forall_mem_singleton.mpr known⟩
  have nested : Nested ts := nested_truthWord (nested_truthWord plain)
  obtain ⟨beyond, level, told, -⟩ := depth_exact quiet nested named
  obtain rfl := (level [truth operand]).mp (.deeper (.top outer) (.cons inner .nil))
  exact ⟨quiet, nested, named, told⟩

end Desugar.Expander
