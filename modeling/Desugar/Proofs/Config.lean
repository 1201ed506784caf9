import Mathlib.Algebra.Group.Int.Defs
import Desugar.Config
import Desugar.Proofs.FileTree
import Desugar.Proofs.Json
import Desugar.Proofs.Text.Encoding

/-!
# Configurations that are saved

A configuration that the tool can work with is read back from the file that it is saved in. Settings that are left
out of the file are those that say nothing, as they do where nothing is read; the others override what they would
be otherwise. With another number of processors, the same configuration is loaded but for how many files are
expanded at a time.
-/
namespace Desugar.Config

open JsonValue

variable {t t' : FileTree} {path : String} {c : Config} {d : Draft}

/-! ## Numbers -/

theorem foldl_digits (ds : List Char) (n : Nat) :
    ds.foldl (fun n c => 10 * n + ((c.toNat - '0'.toNat : Nat) : Int)) (n : Int) =
      (Nat.ofDigitChars 10 ds n : Int) := by
  induction ds generalizing n with
  | nil => rfl
  | cons d ds ih =>
    rw [List.foldl_cons, Nat.ofDigitChars_cons, ← ih]
    push_cast
    rfl

theorem integer?_toString {i : Int} (low : -2 ^ 63 ≤ i) (high : i < 2 ^ 63) : integer? (toString i) = some i := by
  have numeral := isNumeral_toDigits i.natAbs
  have digits : (Nat.toDigits 10 i.natAbs).all Char.isDigit = true := List.all_eq_true.mpr numeral.digits
  have value : (Nat.toDigits 10 i.natAbs).foldl (fun n c => 10 * n + ((c.toNat - '0'.toNat : Nat) : Int)) 0 =
      i.natAbs := by
    have folded := foldl_digits (Nat.toDigits 10 i.natAbs) 0
    rwa [Nat.ofDigitChars_toDigits (by decide) (by decide)] at folded
  have limit : ((Nat.pow 2 63 : Nat) : Int) = 2 ^ 63 := rfl
  unfold integer?
  split
  next negative ds told =>
  have parts : negative = decide (i < 0) ∧ ds = Nat.toDigits 10 i.natAbs := by
    by_cases below : i < 0
    · rw [toList_int, if_pos below] at told
      obtain ⟨rfl, rfl⟩ := Prod.mk.inj told
      exact ⟨(decide_eq_true below).symm, rfl⟩
    · rw [toList_int, if_neg below, List.nil_append] at told
      split at told
      · next minus =>
        exact absurd (numeral.digits '-' (by rw [minus]; exact List.mem_cons_self ..)) (by decide)
      · obtain ⟨rfl, rfl⟩ := Prod.mk.inj told
        exact ⟨(decide_eq_false below).symm, rfl⟩
  obtain ⟨rfl, rfl⟩ := parts
  have signed : (if decide (i < 0) = true then -(i.natAbs : Int) else i.natAbs) = i := by
    simp only [decide_eq_true_eq]
    split <;> omega
  simp only [List.isEmpty_eq_false_iff.mpr numeral.ne_nil, digits, value, signed, limit]
  simpa using And.intro low high

/-! ## Members -/

/-- Members that are applied one after the other, from a draft to another one. -/
def Leads (d : Draft) (members : List (String × JsonValue)) (d' : Draft) : Prop :=
  members.foldlM (fun (d : Draft) (name, v) => d.apply name v) d = .ok d'

theorem Leads.append {d d' d'' : Draft} {ms ms' : List (String × JsonValue)} (first : Leads d ms d')
    (second : Leads d' ms' d'') : Leads d (ms ++ ms') d'' := by
  unfold Leads at *
  rw [List.foldlM_append, first]
  exact second

theorem leads_nil (d : Draft) : Leads d [] d := rfl

theorem leads_single {name : String} {v : JsonValue} {d' : Draft} (applied : d.apply name v = .ok d') :
    Leads d [(name, v)] d' := by
  change (d.apply name v >>= pure) = .ok d'
  rw [applied]
  rfl

theorem readInt_toString {spot : Spot} {old i : Int} (low : -2 ^ 63 ≤ i) (high : i < 2 ^ 63) :
    readInt spot old (.number (toString i)) = .ok i := by
  simp only [readInt, integer?_toString low high]

/-- A list of strings is read element by element, whatever stood in the places. -/
theorem readElements_texts (name : String) (index : Nat) (old forms : List String) :
    Config.readElements name index old (forms.map .text) = .ok forms := by
  induction forms generalizing index old with
  | nil => rfl
  | cons f forms ih =>
    rw [List.map_cons, Config.readElements, ih]
    rfl

theorem leads_disabled (forms : List String) (empty : d.config.disabled = []) :
    ∃ places, Leads d (if forms.isEmpty then [] else [("disabled", .array (forms.map .text))])
      ⟨{ d.config with disabled := forms }, places⟩ := by
  cases forms with
  | nil =>
    have same : { d.config with disabled := [] } = d.config := by rw [← empty]
    rw [same]
    exact ⟨d.places, leads_nil d⟩
  | cons f forms =>
    have read := readElements_texts "disabled" 0 d.places (f :: forms)
    refine ⟨f :: forms ++ d.places.drop (f :: forms).length, leads_single ?_⟩
    change (Config.readElements "disabled" 0 d.places ((f :: forms).map .text) >>= fun forms => pure _) = _
    rw [read]
    rfl

theorem leads_sugarImport (value : String) (empty : d.config.sugarImport = "") :
    Leads d (optional "sugar_import" value) { d with config.sugarImport := value } := by
  unfold optional
  split
  · next silent =>
    rw [silent, ← empty]
    exact leads_nil d
  · exact leads_single rfl

theorem leads_truthImport (value : String) (empty : d.config.truthImport = "") :
    Leads d (optional "truth_import" value) { d with config.truthImport := value } := by
  unfold optional
  split
  · next silent =>
    rw [silent, ← empty]
    exact leads_nil d
  · exact leads_single rfl

theorem leads_maxDepth {n : Int} (low : -2 ^ 63 ≤ n) (high : n < 2 ^ 63) :
    Leads d [("max_depth", .number (toString n))] { d with config.maxDepth := n } := by
  refine leads_single ?_
  change (readInt _ _ (.number (toString n)) >>= fun n => pure _) = _
  rw [readInt_toString low high]
  rfl

theorem leads_concurrency {n : Int} (low : -2 ^ 63 ≤ n) (high : n < 2 ^ 63) :
    Leads d [("concurrency", .number (toString n))] { d with config.concurrency := n } := by
  refine leads_single ?_
  change (readInt _ _ (.number (toString n)) >>= fun n => pure _) = _
  rw [readInt_toString low high]
  rfl

/-- Numbers of a configuration are integers of 64 bits. -/
structure Fits (c : Config) : Prop where
  maxDepth : -2 ^ 63 ≤ c.maxDepth ∧ c.maxDepth < 2 ^ 63
  concurrency : -2 ^ 63 ≤ c.concurrency ∧ c.concurrency < 2 ^ 63

theorem leads_header (b : Bool) : Leads d [("header", .bool b)] { d with config.header := b } := leads_single rfl

/-- Nothing of the usual settings is left where a configuration overrides them as a value. -/
theorem override_toJson (processors : Processors) (fits : c.Fits) :
    (standard processors).override c.toJson = .ok c := by
  let opened : Draft :=
    { config := { standard processors with
        verbose := c.verbose, debug := c.debug, workDir := c.workDir, extension := c.extension }
      places := [] }
  have first : Leads ⟨standard processors, []⟩ [("verbose", .bool c.verbose), ("debug", .bool c.debug),
      ("work_dir", .text c.workDir), ("extension", .text c.extension)] opened := rfl
  obtain ⟨places, second⟩ := leads_disabled (d := opened) c.disabled rfl
  have all := (((first.append second).append (leads_sugarImport c.sugarImport rfl)).append
    (leads_truthImport c.truthImport rfl)).append ((leads_maxDepth fits.maxDepth.1 fits.maxDepth.2).append
      ((leads_header c.header).append (leads_concurrency fits.concurrency.1 fits.concurrency.2)))
  exact congrArg (fun r => r >>= fun d : Draft => pure d.config) all

theorem nested_optional {levels : Nat} {name value : String} :
    ∀ m ∈ optional name value, Nested (levels + 1) m.2 := by
  intro m member
  unfold optional at member
  split at member
  · cases member
  · rw [List.mem_singleton.mp member]
    exact .text value

theorem nested_toJson (c : Config) (levels : Nat) : Nested (levels + 3) c.toJson := by
  refine .object fun m member => ?_
  rw [List.mem_append, List.mem_append, List.mem_append, List.mem_append] at member
  rcases member with (((flags | disabled) | sugar) | truth) | numbers
  · simp only [List.mem_cons, List.not_mem_nil, or_false] at flags
    rcases flags with rfl | rfl | rfl | rfl
    · exact .bool _
    · exact .bool _
    · exact .text _
    · exact .text _
  · split at disabled
    · cases disabled
    · rw [List.mem_singleton.mp disabled]
      refine .array fun v element => ?_
      obtain ⟨form, -, rfl⟩ := List.mem_map.mp element
      exact .text form
  · exact nested_optional m sugar
  · exact nested_optional m truth
  · simp only [List.mem_cons, List.not_mem_nil, or_false] at numbers
    rcases numbers with rfl | rfl | rfl
    · exact .number _
    · exact .bool _
    · exact .number _

/-! ## Loading -/

theorem invalid?_eq_none_iff : c.invalid? = none ↔
    (c.extension.toList.head? = some '.' ∧ c.extension ≠ ".go") ∧ 1 ≤ c.maxDepth ∧ 1 ≤ c.concurrency := by
  unfold invalid?
  grind

theorem parse_eq_ok_iff {processors : Processors} {text : String} : parse processors path text = .ok c ↔
    ∃ v, JsonValue.parse text = .ok v ∧ (standard processors).override v = .ok c ∧ c.invalid? = none := by
  unfold parse
  constructor
  · intro parsed
    obtain ⟨v, value, parsed⟩ := bind_eq_ok parsed
    obtain ⟨c', overridden, parsed⟩ := bind_eq_ok parsed
    split at parsed
    · cases parsed
    · next valid =>
      obtain rfl := Except.ok.inj parsed
      exact ⟨v, mapError_eq_ok_iff.mp value, mapError_eq_ok_iff.mp overridden, valid⟩
  · rintro ⟨v, value, overridden, valid⟩
    simp only [value, overridden, valid, Except.mapError, bind, Except.bind]
    rfl

/-- What is loaded are the usual settings, or what a file overrides them by, if the tool can work with that. -/
theorem load_eq_ok_iff {processors : Processors} : load t path processors = .ok c ↔
    (path = "" ∨ ∃ e, t.read path = .error e ∧ e.cause = .missing) ∧ c = standard processors ∨
    path ≠ "" ∧ ∃ data v, t.read path = .ok data ∧ JsonValue.parse (Text.toString data) = .ok v ∧
      (standard processors).override v = .ok c ∧ c.invalid? = none := by
  unfold load
  by_cases unnamed : path = ""
  · simp [unnamed, eq_comm]
  rw [if_neg unnamed]
  cases t.read path with
  | error e =>
    by_cases missing : e.cause = .missing
    · simp [unnamed, missing, eq_comm]
    · simp [unnamed, missing]
  | ok data => simp [unnamed, parse_eq_ok_iff]

theorem load_congr (read : t'.read path = t.read path) (processors : Processors) :
    load t' path processors = load t path processors := by
  unfold load
  rw [read]

/-- The tool can work with what is loaded. -/
theorem valid_of_load {processors : Processors} (loaded : load t path processors = .ok c) : c.invalid? = none := by
  rcases load_eq_ok_iff.mp loaded with ⟨-, rfl⟩ | ⟨-, data, v, -, -, -, valid⟩
  · have positive := processors.positive
    refine invalid?_eq_none_iff.mpr ⟨?_, ?_, ?_⟩ <;> dsimp only [standard]
    · decide
    · decide
    · omega
  · exact valid

/-- A configuration that the tool can work with is read back from the file that it is saved in. -/
theorem load_of_save (valid : c.invalid? = none) (fits : c.Fits) (saved : save t path c = .ok t')
    (processors : Processors) : load t' path processors = .ok c := by
  have written : t.write path (Text.utf8 c.render) = .ok t' := by
    unfold save at saved
    split at saved
    · next done => rw [done, Except.ok.inj saved]
    · cases saved
  have named : path ≠ "" := (FileTree.write_eq_ok written).1
  have value : JsonValue.parse (Text.toString (Text.utf8 c.render)) = .ok c.toJson := by
    rw [Text.toString_utf8]
    exact parse_render (nested_toJson c 9998)
  exact load_eq_ok_iff.mpr (.inr ⟨named, _, _, FileTree.read_of_write written, value,
    override_toJson processors fits, valid⟩)

/-- A configuration that says nothing where the usual settings do, with marks that are escaped. -/
theorem load_of_save_escaped :
    let c : Config :=
      { extension := ".\"<\n", disabled := ["", "\u2028"], truthImport := "\\u0041", maxDepth := 1, concurrency := 1 }
    let t := FileTree.empty "/work"
    c.invalid? = none ∧ c.Fits ∧ ∃ t', save t "gosugar.json" c = .ok t' ∧ load t' "gosugar.json" = .ok c := by
  intro c t
  have valid : c.invalid? = none := by decide +kernel
  have fits : c.Fits := ⟨by decide, by decide⟩
  have nests : t.Nests := by
    intro p e found dot
    simp [FileTree.entry?, dot, t, FileTree.empty] at found
  have writable : t.Writable "gosugar.json" :=
    ⟨by decide, by decide +kernel, "gosugar.json", by decide +kernel, by decide, by decide +kernel⟩
  obtain ⟨clean, -, -, written⟩ := writable.write nests (Text.utf8 c.render)
  have saved : save t "gosugar.json" c = .ok (t.insert clean (.file (Text.utf8 c.render))) := by
    simp only [save, written]
  exact ⟨valid, fits, _, saved, load_of_save valid fits saved .four⟩

/-! ## Processors -/

/-- What is read is what is written, or what was there where nothing is said. -/
theorem readInt_over {spot : Spot} {old i : Int} {v : JsonValue} (read : readInt spot old v = .ok i) (other : Int) :
    ∃ j, readInt spot other v = .ok j ∧ (i = old ∧ j = other ∨ j = i) := by
  cases v with
  | null => exact ⟨other, rfl, .inl ⟨(Except.ok.inj read).symm, rfl⟩⟩
  | number literal =>
    unfold readInt at read ⊢
    dsimp only at read ⊢
    generalize integer? literal = value at read ⊢
    cases value with
    | none => cases read
    | some n => exact ⟨i, read, .inr rfl⟩
  | _ => cases read

/-- The drafts differ at most in the number of files, which is `n` in the second one if it is not the same. -/
def Draft.SameBut (n : Int) (d d' : Draft) : Prop :=
  ∃ m, d' = { d with config.concurrency := m } ∧ (m = n ∨ m = d.config.concurrency)

theorem Draft.SameBut.readForms {n : Int} {d₁ : Draft} {name : String} {v : JsonValue} (same : d.SameBut n d')
    (read : d.readForms name v = .ok d₁) : ∃ d₁', d'.readForms name v = .ok d₁' ∧ d₁.SameBut n d₁' := by
  obtain ⟨m, rfl, known⟩ := same
  unfold Draft.readForms at read ⊢
  split at read
  · obtain rfl := Except.ok.inj read
    exact ⟨_, rfl, m, rfl, known⟩
  · obtain rfl := Except.ok.inj read
    exact ⟨_, rfl, m, rfl, known⟩
  · obtain ⟨forms, elements, made⟩ := bind_eq_ok read
    obtain rfl := Except.ok.inj made
    dsimp only
    rw [elements]
    exact ⟨_, rfl, m, rfl, known⟩
  · cases read

theorem Draft.SameBut.apply {n : Int} {d₁ : Draft} {name : String} {v : JsonValue} (same : d.SameBut n d')
    (applied : d.apply name v = .ok d₁) : ∃ d₁', d'.apply name v = .ok d₁' ∧ d₁.SameBut n d₁' := by
  obtain ⟨m, rfl, known⟩ := same
  unfold Draft.apply at applied ⊢
  generalize Setting.ofName? name = setting at applied ⊢
  cases setting with
  | none =>
    obtain rfl := Except.ok.inj applied
    exact ⟨_, rfl, m, rfl, known⟩
  | some s =>
    cases s with
    | disabled => exact Draft.SameBut.readForms ⟨m, rfl, known⟩ applied
    | concurrency =>
      obtain ⟨k, read, made⟩ := bind_eq_ok applied
      obtain rfl := Except.ok.inj made
      obtain ⟨j, read', told⟩ := readInt_over read m
      dsimp only
      rw [read']
      refine ⟨_, rfl, j, rfl, ?_⟩
      rcases told with ⟨rfl, rfl⟩ | rfl
      · exact known
      · exact .inr rfl
    | _ =>
      obtain ⟨value, read, made⟩ := bind_eq_ok applied
      obtain rfl := Except.ok.inj made
      dsimp only
      rw [read]
      exact ⟨_, rfl, m, rfl, known⟩

theorem Draft.SameBut.leads {n : Int} {ms : List (String × JsonValue)} {d₁ : Draft} (same : d.SameBut n d')
    (leads : Leads d ms d₁) : ∃ d₁', Leads d' ms d₁' ∧ d₁.SameBut n d₁' := by
  induction ms generalizing d d' with
  | nil =>
    obtain rfl := Except.ok.inj leads
    exact ⟨d', rfl, same⟩
  | cons m ms ih =>
    obtain ⟨name, v⟩ := m
    obtain ⟨d₂, applied, rest⟩ := bind_eq_ok (List.foldlM_cons.symm.trans leads)
    obtain ⟨d₂', applied', same'⟩ := same.apply applied
    obtain ⟨d₁', rest', same''⟩ := ih same' rest
    refine ⟨d₁', ?_, same''⟩
    change (d'.apply name v >>= fun d => List.foldlM _ d ms) = _
    rw [applied']
    exact rest'

theorem override_concurrency {v : JsonValue} (overridden : c.override v = .ok c') (n : Int) :
    ∃ m, { c with concurrency := n }.override v = .ok { c' with concurrency := m } ∧
      (m = n ∨ m = c'.concurrency) := by
  cases v with
  | null =>
    obtain rfl := Except.ok.inj overridden
    exact ⟨n, rfl, .inl rfl⟩
  | object members =>
    obtain ⟨d, leads, made⟩ := bind_eq_ok overridden
    obtain rfl := Except.ok.inj made
    have start : Draft.SameBut n ⟨c, c.disabled⟩ ⟨{ c with concurrency := n }, c.disabled⟩ := ⟨n, rfl, .inl rfl⟩
    obtain ⟨d', leads', m, rfl, known⟩ := start.leads leads
    exact ⟨m, congrArg (fun r => r >>= fun d : Draft => pure d.config) leads', known⟩
  | _ => cases overridden

/-- With another number of processors, the same is loaded but for how many files are expanded at a time. -/
theorem load_processors {processors : Processors} (loaded : load t path processors = .ok c) (other : Processors) :
    ∃ n, load t path other = .ok { c with concurrency := n } := by
  rcases load_eq_ok_iff.mp loaded with ⟨usual, rfl⟩ | ⟨named, data, v, read, value, overridden, valid⟩
  · exact ⟨other.count, load_eq_ok_iff.mpr (.inl ⟨usual, rfl⟩)⟩
  · obtain ⟨n, overridden', known⟩ := override_concurrency overridden other.count
    refine ⟨n, load_eq_ok_iff.mpr (.inr ⟨named, data, v, read, value, overridden', ?_⟩)⟩
    rw [invalid?_eq_none_iff] at valid ⊢
    have positive := other.positive
    refine ⟨valid.1, valid.2.1, ?_⟩
    change 1 ≤ n
    rcases known with rfl | rfl
    · omega
    · exact valid.2.2

end Desugar.Config
