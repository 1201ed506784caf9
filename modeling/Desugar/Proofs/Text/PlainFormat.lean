import Desugar.Proofs.Text.Encoding
import Desugar.Text.Template

/-!
# Formats with plain verbs

A format that has no verbs but `%v`, without flags, width or precision, and the percent sign that two of
them show, is filled in byte by byte: the text of the next argument takes the place of a verb. With as many
arguments as there are verbs, this is what the format is filled in with.
-/
namespace Desugar.Text

/-- Fills in a format with the texts of its arguments, one for each plain verb; nothing for a format with
other verbs, and for too few or too many arguments. -/
def fillPlain : Bytes → List Bytes → Option Bytes
  | [], args => if args.isEmpty then some [] else none
  | b :: rest, args =>
    if b = 0x25 then
      match rest, args with
      | [], _ => none
      | c :: rest, args =>
        if c = 0x25 then (0x25 :: ·) <$> fillPlain rest args
        else if c = 0x76 then
          match args with
          | [] => none
          | arg :: args => (arg ++ ·) <$> fillPlain rest args
        else none
    else (b :: ·) <$> fillPlain rest args

variable {template rest out : Bytes} {args : List Bytes}

theorem fillPlain_percent : fillPlain (0x25 :: 0x25 :: rest) args = (0x25 :: ·) <$> fillPlain rest args := by
  simp [fillPlain]

theorem fillPlain_verb {arg : Bytes} :
    fillPlain (0x25 :: 0x76 :: rest) (arg :: args) = (arg ++ ·) <$> fillPlain rest args := by
  simp [fillPlain]

theorem fillPlain_other {b : UInt8} (other : b ≠ 0x25) :
    fillPlain (b :: rest) args = (b :: ·) <$> fillPlain rest args := by
  rw [fillPlain.eq_def]
  dsimp only
  rw [if_neg other]

/-- Text without a percent sign stays as it is. -/
theorem fillPlain_text {text : Bytes} (other : 0x25 ∉ text) :
    fillPlain (text ++ rest) args = (text ++ ·) <$> fillPlain rest args := by
  induction text with
  | nil => simp
  | cons b text ih =>
    rw [List.mem_cons, not_or] at other
    rw [List.cons_append, fillPlain_other (Ne.symm other.1), ih other.2, Option.map_eq_map, Option.map_eq_map,
      Option.map_map]
    rfl

/-- Behind a percent sign stands another one or a plain verb that has an argument. -/
theorem fillPlain_sign (filled : fillPlain (0x25 :: rest) args = some out) :
    (∃ rest' out', rest = 0x25 :: rest' ∧ out = 0x25 :: out' ∧ fillPlain rest' args = some out') ∨
      ∃ rest' arg args' out', rest = 0x76 :: rest' ∧ args = arg :: args' ∧ out = arg ++ out' ∧
        fillPlain rest' args' = some out' := by
  rw [fillPlain.eq_def] at filled
  dsimp only at filled
  rw [if_pos rfl] at filled
  cases rest with
  | nil => cases filled
  | cons c rest =>
    dsimp only at filled
    split at filled
    · rename_i percent
      obtain ⟨out', behind, rfl⟩ := Option.map_eq_some_iff.mp filled
      exact .inl ⟨rest, out', by rw [percent], rfl, behind⟩
    split at filled
    · rename_i verb
      cases args with
      | nil => cases filled
      | cons arg args =>
        obtain ⟨out', behind, rfl⟩ := Option.map_eq_some_iff.mp filled
        exact .inr ⟨rest, arg, args, out', by rw [verb], rfl, rfl, behind⟩
    · cases filled

/-! ## The format as it is filled in -/

variable {strings : List String} {cs : List Char} {k : Nat}

theorem fill_other {c : Char} (other : c ≠ '%') :
    fill strings ⟨c :: cs, k, false⟩ = c :: fill strings ⟨cs, k, false⟩ := by
  rw [fill]
  simp [other]

/-- Nothing stands between a percent sign and the letter of a plain verb. -/
theorem read_plain {letter : Char} (known : letter ∈ ['%', 'v']) (count : Nat) :
    Front.read count ⟨letter :: cs, k, false⟩ = { verb := {}, reading := ⟨letter :: cs, k, false⟩ } := by
  rcases List.mem_pair.mp known with rfl | rfl <;> rfl

theorem fill_percent : fill strings ⟨'%' :: '%' :: cs, k, false⟩ = '%' :: fill strings ⟨cs, k, false⟩ := by
  rw [fill]
  dsimp only
  rw [if_neg (by simp)]
  have read : Front.read strings.length ⟨'%' :: cs, k, false⟩ = _ := read_plain (by simp) strings.length
  generalize Front.read strings.length ⟨'%' :: cs, k, false⟩ = f at read
  subst read
  rfl

theorem apply_plain (arg : String) : ({} : Verb).apply 'v' arg = arg.toList := by
  simp [Verb.apply, Verb.plain, Verb.pad, Verb.truncate]

theorem fill_verb {arg : String} (next : strings[k]? = some arg) :
    fill strings ⟨'%' :: 'v' :: cs, k, false⟩ = arg.toList ++ fill strings ⟨cs, k + 1, false⟩ := by
  rw [fill]
  dsimp only
  rw [if_neg (by simp)]
  have read : Front.read strings.length ⟨'v' :: cs, k, false⟩ = _ := read_plain (by simp) strings.length
  generalize Front.read strings.length ⟨'v' :: cs, k, false⟩ = f at read
  subst read
  simp only [Front.rest, List.nil_append]
  rw [if_neg (by decide), if_neg (by simp), next]
  dsimp only
  rw [apply_plain]

theorem mem_encode_percent {c : Char} (other : c ≠ '%') : 0x25 ∉ String.utf8EncodeChar c := by
  intro member
  have inside : Char.ofNat (0x25 : UInt8).toNat ∈ [c] :=
    mem_of_mem_encode (by rwa [encode_cons, encode_nil, List.append_nil]) (by decide)
  exact other (List.mem_singleton.mp inside).symm

/-- The first character of a text that starts with a small byte. -/
theorem encode_eq_cons {b : UInt8} (same : encode cs = b :: rest) (small : b.toNat < 0x80) :
    ∃ cs', cs = Char.ofNat b.toNat :: cs' ∧ encode cs' = rest := by
  cases cs with
  | nil => cases same
  | cons c cs =>
    obtain ⟨b', tail, bytes, decoded⟩ := decodeCons_encode c (encode cs)
    rw [encode_cons, bytes, List.cons_append] at same
    obtain ⟨rfl, rfl⟩ := List.cons.inj same
    obtain ⟨zero, char⟩ := decodeCons_small (x := b') List.mem_cons_self small
    rw [decoded] at zero char
    obtain rfl := List.length_eq_zero_iff.mp zero
    refine ⟨cs, ?_, rfl⟩
    rw [← char]
    exact congrArg (· :: cs) (Char.ofNat_toNat c).symm

theorem encode_fill (filled : fillPlain (encode cs) ((strings.drop k).map utf8) = some out) :
    encode (fill strings ⟨cs, k, false⟩) = out := by
  induction size : cs.length using Nat.strongRecOn generalizing cs k out with
  | ind n ih =>
    subst size
    cases cs with
    | nil =>
      rw [encode_nil, fillPlain.eq_def] at filled
      dsimp only at filled
      split at filled
      · rename_i empty
        have blank : strings.drop k = [] := by simpa using empty
        obtain rfl := Option.some.inj filled
        rw [fill]
        dsimp only
        rw [if_neg (by simp), blank]
        rfl
      · cases filled
    | cons c cs =>
      by_cases percent : c = '%'
      · subst percent
        have sign : String.utf8EncodeChar '%' = [0x25] := by decide
        rw [encode_cons, sign, List.singleton_append] at filled
        obtain ⟨rest, out', bytes, rfl, behind⟩ | ⟨rest, arg, args, out', bytes, given, rfl, behind⟩ :=
          fillPlain_sign filled
        · obtain ⟨cs', rfl, rfl⟩ := encode_eq_cons bytes (by decide)
          rw [show Char.ofNat (0x25 : UInt8).toNat = '%' by decide, fill_percent, encode_cons, sign,
            ih cs'.length (Nat.lt_add_of_pos_right Nat.two_pos) behind rfl]
          rfl
        · obtain ⟨cs', rfl, rfl⟩ := encode_eq_cons bytes (by decide)
          obtain ⟨s, others, dropped, rfl, rfl⟩ := List.map_eq_cons_iff.mp given
          have next : strings[k]? = some s := by
            rw [← List.head?_drop, dropped]
            rfl
          have left : strings.drop (k + 1) = others := by
            rw [← List.tail_drop, dropped]
            rfl
          rw [← left] at behind
          rw [show Char.ofNat (0x76 : UInt8).toNat = 'v' by decide, fill_verb next, encode_append,
            ih cs'.length (Nat.lt_add_of_pos_right Nat.two_pos) behind rfl]
          rfl
      · rw [encode_cons, fillPlain_text (mem_encode_percent percent)] at filled
        obtain ⟨out', behind, rfl⟩ := Option.map_eq_some_iff.mp filled
        rw [fill_other percent, encode_cons, ih _ (Nat.lt_succ_self _) behind rfl]

/-- A format that is filled in byte by byte is filled in with the same text. -/
theorem utf8_format {format : String} (filled : fillPlain (utf8 format) (strings.map utf8) = some out) :
    utf8 (Text.format format strings) = out := by
  rw [Text.format, utf8_eq_encode, String.toList_ofList]
  exact encode_fill filled

end Desugar.Text
