import Desugar.Proofs.Host.Characters
import Desugar.Proofs.Token.Layout

/-!
# The characters of a text without faults

The scanner looks at every character when it moves onto it and notes a fault where the character is
malformed or may not stand in a source. Such a fault is never one about a question mark, so a text that
is read without faults of account encodes plain characters from where reading starts on.
-/
namespace Desugar.Lexer

open Host Host.Scan Host.Reader

variable {text : Bytes} {r s : Reader}

/-- What a character without a fault of its own is encoded by. -/
theorem plain_of_characterFault? {b : UInt8} {rest : Bytes}
    (clear : characterFault? (b :: rest) = none) :
    ∃ c, IsPlain c ∧ (Text.decodeCons b rest).char = c ∧
      b :: rest = String.utf8EncodeChar c ++ rest.drop (Text.decodeCons b rest).more := by
  unfold characterFault? at clear
  dsimp only at clear
  split at clear
  · cases clear
  rename_i notNul
  split at clear
  · cases clear
  rename_i valid
  split at clear
  · cases clear
  rename_i notMark
  rcases Text.decodeCons_cases b rest with ⟨bytes, -, -⟩ | ⟨malformed, -⟩
  · refine ⟨_, ⟨?_, notMark⟩, rfl, ?_⟩
    · intro nul
      rw [nul] at bytes
      exact notNul (List.cons.inj bytes).1.symm
    · rw [bytes, List.cons_append, List.take_append_drop]
  · rw [malformed] at valid
    exact absurd rfl valid

/-- A question mark has no fault of its own. -/
theorem characterFault?_question (rest : Bytes) : characterFault? (0x3F :: rest) = none := by
  have question : Text.decodeCons 0x3F rest = ⟨'?', 0, true⟩ := rfl
  simp [characterFault?, question]

theorem clear_inspect {q : Reader} (h : q.At text) (masked : Masked text q.inspect.faults) :
    characterFault? q.inspect.rest = none := by
  rw [inspect_rest]
  cases clear : characterFault? q.rest with
  | none => rfl
  | some f =>
    have noted : ⟨q.offset, f⟩ ∈ q.inspect.faults := by
      unfold inspect
      rw [clear]
      exact List.mem_cons_self
    have mark := masked _ noted
    dsimp only at mark
    rw [← List.head?_drop, ← h.rest] at mark
    obtain ⟨rest, front⟩ := List.head?_eq_some_iff.mp mark
    rw [front, characterFault?_question] at clear
    cases clear

/-- A look at a character without a fault of account notes nothing. -/
theorem inspect_eq_self {q : Reader} (h : q.At text) (masked : Masked text q.inspect.faults) :
    q.inspect = q := by
  have clear := clear_inspect h masked
  rw [inspect_rest] at clear
  unfold Reader.inspect
  rw [clear]

/-- Where the reader moves onto a character with a fault of its own, that fault is noted, and it is one
of account. -/
theorem clear_next (h : r.At text) (masked : Masked text r.next.faults) (nonempty : r.rest ≠ []) :
    characterFault? r.next.rest = none ∧ r.next.faults = r.faults := by
  have there := h.next
  obtain ⟨b, rest, front⟩ := List.exists_cons_of_ne_nil nonempty
  unfold Reader.next at masked there ⊢
  simp only [front] at masked there ⊢
  generalize moved : (Reader.mk _ _ _ _ _) = q at masked there ⊢
  have stands : q.At text :=
    ⟨by simpa using there.rest, by simpa using there.size, by simpa using there.bound⟩
  refine ⟨clear_inspect stands masked, ?_⟩
  rw [inspect_eq_self stands masked, ← moved]

/-- Up to where the reader moves without faults of account there are plain characters. -/
theorem plain_of_reaches (h : r.At text) (way : Reaches r s) (clear : characterFault? r.rest = none)
    (masked : Masked text s.faults) :
    characterFault? s.rest = none ∧
      ∃ cs, r.rest = Text.encode cs ++ s.rest ∧ ∀ c ∈ cs, IsPlain c := by
  induction way with
  | refl => exact ⟨clear, [], rfl, by simp⟩
  | fault o f _ ih => exact ih fun g noted => masked g (List.mem_cons_of_mem _ noted)
  | @next s way ih =>
    obtain ⟨here, cs, same, plain⟩ := ih fun g noted => masked g (mem_faults_next noted)
    cases front : s.rest with
    | nil =>
      rw [next_of_nil front, front]
      exact ⟨by rw [← front]; exact here, cs, by rw [same, front], plain⟩
    | cons b rest =>
      have there := h.reaches way
      rw [front] at here
      obtain ⟨c, fine, decoded, bytes⟩ := plain_of_characterFault? here
      refine ⟨(clear_next there masked (by simp [front])).1, cs ++ [c], ?_, ?_⟩
      · rw [same, front, bytes, (there.next_of_cons front).2.1]
        simp
      · intro x member
        rcases List.mem_append.mp member with before | last
        · exact plain x before
        · rw [List.mem_singleton.mp last]
          exact fine

/-- A state stands before plain characters if what is read from it on has no fault of account. -/
theorem over_of_reads {s : State} {ls : List Lexeme} (reads : Reads s ls) (h : s.reader.At text)
    (clear : characterFault? s.reader.rest = none) (masked : ∀ l ∈ ls, Masked text l.faults) :
    ∃ cs, s.reader.Over text cs := by
  induction reads with
  | stop eof =>
    rename_i s
    obtain ⟨r, way, after, faults⟩ := next_handedOver s
    have here := masked _ List.mem_cons_self
    have step := next_step h here
    rw [faults] at here
    obtain ⟨-, cs, same, plain⟩ := plain_of_reaches h way clear fun f noted =>
      here f (List.mem_reverse.mpr noted)
    cases step with
    | proper kind => exact absurd eof kind.2.1
    | skipped kind blank last =>
      have done : r.rest = [] := by
        have offset : r.offset = text.length := by
          rw [← last eof, after]
        rw [(h.reaches way).rest, offset, List.drop_length]
      rw [done, List.append_nil] at same
      exact ⟨cs, h, same, plain⟩
  | step more rest ih =>
    rename_i s ls
    obtain ⟨r, way, after, faults⟩ := next_handedOver s
    have here := masked _ List.mem_cons_self
    rw [faults] at here
    obtain ⟨clear', cs, same, plain⟩ := plain_of_reaches h way clear fun f noted =>
      here f (List.mem_reverse.mpr noted)
    obtain ⟨cs', upon⟩ := ih ((next_handedOver s).at h) (by rw [after]; exact clear')
      fun l member => masked l (List.mem_cons_of_mem _ member)
    have front := upon.front
    rw [after] at front
    refine ⟨cs ++ cs', h, ?_, ?_⟩
    · rw [same, Text.encode_append, ← front]
    · intro c member
      rcases List.mem_append.mp member with before | behind
      · exact plain c before
      · exact upon.plain c behind

/-- Reading starts before a character without a fault, and with none noted, where no fault is of
account. -/
theorem ofText_clear (masked : Masked text (ofText text).faults) :
    (ofText text).At text ∧ characterFault? (ofText text).rest = none ∧ (ofText text).faults = [] := by
  have whole : Reader.At text ⟨0, text, text.length, 0, []⟩ := ⟨rfl, rfl, Nat.zero_le _⟩
  unfold ofText at masked ⊢
  split at masked
  · exact absurd (masked ⟨0, .wideEncoding⟩ List.mem_cons_self) (by simp)
  · exact absurd (masked ⟨0, .wideEncoding⟩ List.mem_cons_self) (by simp)
  · dsimp only at masked ⊢
    split at masked
    · rename_i mark
      rw [if_pos mark]
      have nonempty : text ≠ [] := by
        rintro rfl
        cases mark
      obtain ⟨clear, same⟩ := clear_next whole masked nonempty
      exact ⟨whole.next, clear, same⟩
    · rename_i other
      rw [if_neg other]
      refine ⟨?_, clear_inspect whole masked, ?_⟩
      · rw [inspect_eq_self whole masked]
        exact whole
      · rw [inspect_eq_self whole masked]

end Desugar.Lexer
