import Mathlib.Data.List.DropRight
import Brace.Input

/-!
# Input — what reads take

A read takes a piece off the front of the text. What the piece is made of and what may come after it is
said by `Took`, for words and for lines. Reads of both kinds may come one after another in any order: the
pieces that they take are the front of the text, cut up, and what is left is the rest of it.

* `took_read`: each read takes such a piece.
* `Listed.reads`: reads of one kind give the elements of a list, from its front, and nothing after that.
* `reads_partition`: so words and lines are read, and nothing is lost, in whatever order.
-/

namespace Brace.Input

inductive Read where
  | line
  | word
  deriving DecidableEq, Repr

def read : Read → Input → Option (List Char) × Input
  | .line, i => i.readLine
  | .word, i => i.readWord

/-- What reads give that are made one after another, and what they leave. -/
def reads : List Read → Input → List (Option (List Char)) × Input
  | [], i      => ([], i)
  | r :: rs, i => ((i.read r).1 :: (reads rs (i.read r).2).1, (reads rs (i.read r).2).2)

/-- A read that gives `answer` takes this piece, and leaves what comes after it. A word has blanks before
it and ends where the text does or at a blank; where there is none, the piece is blank and is all there
is. A line ends with carriage returns and a newline, which are not given; only at the end of the text the
newline may be missing. -/
def Took : Read → (piece : List Char) → (answer : Option (List Char)) → (after : List Char) → Prop
  | .word, piece, some w, after => ∃ blanks, piece = blanks ++ w ∧ (∀ c ∈ blanks, Text.isBlank c) ∧
      w ≠ [] ∧ (∀ c ∈ w, Text.isBlank c = false) ∧ ∀ c ∈ after.head?, Text.isBlank c
  | .word, piece, none, after   => (∀ c ∈ piece, Text.isBlank c) ∧ after = []
  | .line, piece, some l, after => ∃ returns ending, piece = l ++ returns ++ ending ∧ piece ≠ [] ∧
      '\n' ∉ l ∧ l.getLast? ≠ some '\r' ∧ (∀ c ∈ returns, c = '\r') ∧
      (ending = ['\n'] ∨ ending = [] ∧ after = [])
  | .line, piece, none, after   => piece = [] ∧ after = []

/-- The pieces and what they leave are what these reads take and leave, one after another. -/
inductive Cut : List Read → List (List Char) → List (Option (List Char)) → List Char → Prop
  | nil (rest : List Char) : Cut [] [] [] rest
  | cons {r : Read} {rs : List Read} {piece : List Char} {pieces : List (List Char)}
      {answer : Option (List Char)} {answers : List (Option (List Char))} {rest : List Char}
      (took : Took r piece answer (pieces.flatten ++ rest)) (more : Cut rs pieces answers rest) :
      Cut (r :: rs) (piece :: pieces) (answer :: answers) rest

/-! ### One read -/

/-- A line loses the returns at its end, and nothing else. -/
theorem chomp_append {l returns : List Char} (last : l.getLast? ≠ some '\r')
    (all : ∀ c ∈ returns, c = '\r') : chomp (l ++ returns) = l := by
  have kept : l.rdropWhile (· = '\r') = l := by
    refine List.rdropWhile_eq_self_iff.mpr fun ne e => last ?_
    rw [List.getLast?_eq_some_getLast ne]
    exact congrArg some (of_decide_eq_true e)
  have dropped : ∀ c ∈ returns.reverse, decide (c = '\r') = true := fun c hc =>
    decide_eq_true (all c (List.mem_reverse.mp hc))
  rw [chomp, List.reverse_append, List.dropWhile_append_of_pos dropped]
  exact kept

/-- What is taken off the end of a line are carriage returns, and all that there are. -/
theorem exists_chomp (cs : List Char) : ∃ l returns, cs = l ++ returns ∧
    l.getLast? ≠ some '\r' ∧ ∀ c ∈ returns, c = '\r' := by
  refine ⟨cs.rdropWhile (· = '\r'), cs.rtakeWhile (· = '\r'),
    List.rdropWhile_append_rtakeWhile.symm, fun last => ?_, fun c hc => ?_⟩
  · have ne : cs.rdropWhile (· = '\r') ≠ [] := by
      intro e
      rw [e] at last
      cases last
    rw [List.getLast?_eq_some_getLast ne] at last
    exact List.rdropWhile_last_not _ cs ne (decide_eq_true (Option.some.inj last))
  · rw [List.rtakeWhile, List.mem_reverse] at hc
    simpa using List.mem_takeWhile_imp hc

/-- A front of the text that passes a test, up to where it does not, is what the test takes. -/
theorem span_append {p : Char → Bool} {front after : List Char} (h : ∀ c ∈ front, p c = true)
    (stop : ∀ c ∈ after.head?, p c = false) :
    (front ++ after).takeWhile p = front ∧ (front ++ after).dropWhile p = after := by
  rw [List.takeWhile_append_of_pos h, List.dropWhile_append_of_pos h]
  cases after with
  | nil => exact ⟨List.append_nil front, rfl⟩
  | cons c after =>
      have out : ¬ p c = true := by rw [stop c rfl]; decide
      rw [List.takeWhile_cons_of_neg out, List.dropWhile_cons_of_neg out, List.append_nil]
      exact ⟨rfl, rfl⟩

theorem readLine_append {l returns ending after : List Char} (ne : l ++ returns ++ ending ≠ [])
    (newline : '\n' ∉ l) (last : l.getLast? ≠ some '\r') (all : ∀ c ∈ returns, c = '\r')
    (stop : ending = ['\n'] ∨ ending = [] ∧ after = []) :
    readLine ⟨l ++ returns ++ ending ++ after⟩ = (some l, ⟨after⟩) := by
  have inside : ∀ c ∈ l ++ returns, decide (c ≠ '\n') = true := by
    intro c hc
    refine decide_eq_true ?_
    rintro rfl
    rcases List.mem_append.mp hc with hc | hc
    · exact newline hc
    · cases all _ hc
  have first : ∀ c ∈ (ending ++ after).head?, decide (c ≠ '\n') = false := by
    intro c hc
    rcases stop with rfl | ⟨rfl, rfl⟩
    · cases hc
      rfl
    · cases hc
  have rest : (ending ++ after).drop 1 = after := by
    rcases stop with rfl | ⟨rfl, rfl⟩ <;> rfl
  obtain ⟨taken, left⟩ := span_append inside first
  rw [readLine]
  split
  · rename_i empty
    exact absurd (List.append_eq_nil_iff.mp empty).1 ne
  · rw [List.append_assoc, taken, left, chomp_append last all, rest]

theorem readWord_append {blanks w after : List Char} (blank : ∀ c ∈ blanks, Text.isBlank c = true)
    (ne : w ≠ []) (word : ∀ c ∈ w, Text.isBlank c = false)
    (stop : ∀ c ∈ after.head?, Text.isBlank c = true) :
    readWord ⟨blanks ++ w ++ after⟩ = (some w, ⟨after⟩) := by
  have front : ∀ c ∈ (w ++ after).head?, Text.isBlank c = false := by
    obtain ⟨c, w, rfl⟩ := List.exists_cons_of_ne_nil ne
    intro d hd
    cases hd
    exact word c (List.mem_cons_self ..)
  obtain ⟨-, left⟩ := span_append blank front
  obtain ⟨taken, rest⟩ := span_append (p := (!Text.isBlank ·))
    (fun c hc => by rw [word c hc]; rfl) (fun c hc => by rw [stop c hc]; rfl)
  rw [readWord, List.append_assoc, left]
  split
  · rename_i empty
    exact absurd (List.append_eq_nil_iff.mp empty).1 ne
  · rw [taken, rest]

/-- What a read takes settles what it gives and leaves. -/
theorem Took.read_eq {r : Read} {piece after : List Char} {answer : Option (List Char)}
    (h : Took r piece answer after) : read r ⟨piece ++ after⟩ = (answer, ⟨after⟩) := by
  cases r with
  | word =>
      cases answer with
      | none =>
          obtain ⟨blank, rfl⟩ := h
          rw [List.append_nil, read, readWord, List.dropWhile_eq_nil_iff.mpr blank]
      | some w =>
          obtain ⟨blanks, rfl, blank, ne, word, stop⟩ := h
          exact readWord_append blank ne word stop
  | line =>
      cases answer with
      | none =>
          obtain ⟨rfl, rfl⟩ := h
          rfl
      | some l =>
          obtain ⟨returns, ending, rfl, ne, newline, last, all, stop⟩ := h
          exact readLine_append ne newline last all stop

/-- The first of the characters that are not dropped does not pass the test. -/
theorem head?_dropWhile (p : Char → Bool) (cs : List Char) :
    ∀ c ∈ (cs.dropWhile p).head?, p c = false := by
  intro c h
  have found := List.head?_dropWhile_not p cs
  rw [h] at found
  exact found

/-- Whatever the text, a word that is read takes some piece of it. -/
theorem exists_took_word (text : List Char) :
    ∃ piece answer after, text = piece ++ after ∧ Took .word piece answer after := by
  cases e : text.dropWhile Text.isBlank with
  | nil => exact ⟨text, none, [], (List.append_nil _).symm, List.dropWhile_eq_nil_iff.mp e, rfl⟩
  | cons c rest =>
      have first := head?_dropWhile Text.isBlank text c (by rw [e]; rfl)
      refine ⟨text.takeWhile Text.isBlank ++ (c :: rest).takeWhile (!Text.isBlank ·), some _,
        (c :: rest).dropWhile (!Text.isBlank ·), ?_, _, rfl,
        fun c => List.mem_takeWhile_imp, ?_, fun c hc => ?_, fun c hc => ?_⟩
      · rw [List.append_assoc, List.takeWhile_append_dropWhile, ← e,
          List.takeWhile_append_dropWhile]
      · rw [List.takeWhile_cons_of_pos (by rw [first]; rfl)]
        exact List.cons_ne_nil _ _
      · simpa using List.mem_takeWhile_imp hc
      · simpa using head?_dropWhile _ _ c hc

/-- So does a line. -/
theorem exists_took_line (text : List Char) :
    ∃ piece answer after, text = piece ++ after ∧ Took .line piece answer after := by
  by_cases newline : '\n' ∈ text
  · obtain ⟨front, rest, rfl, without⟩ := List.eq_append_cons_of_mem newline
    obtain ⟨l, returns, rfl, last, all⟩ := exists_chomp front
    refine ⟨l ++ returns ++ ['\n'], some l, rest, by simp, returns, ['\n'], rfl, by simp,
      fun hl => without (List.mem_append_left _ hl), last, all, .inl rfl⟩
  · by_cases empty : text = []
    · exact ⟨[], none, [], empty, rfl, rfl⟩
    · obtain ⟨l, returns, rfl, last, all⟩ := exists_chomp text
      refine ⟨l ++ returns, some l, [], by simp, returns, [], by simp, empty,
        fun hl => newline (List.mem_append_left _ hl), last, all, .inr ⟨rfl, rfl⟩⟩

/-- Each read takes a piece of the text, and what it is settles what the read gives. -/
theorem took_read (r : Read) (i : Input) :
    ∃ piece, i.rest = piece ++ (i.read r).2.rest ∧ Took r piece (i.read r).1 (i.read r).2.rest := by
  have found : ∃ piece answer after, i.rest = piece ++ after ∧ Took r piece answer after := by
    cases r with
    | word => exact exists_took_word i.rest
    | line => exact exists_took_line i.rest
  obtain ⟨piece, answer, after, e, took⟩ := found
  have result : i.read r = (answer, ⟨after⟩) := by
    rw [← took.read_eq, ← e]
  rw [result]
  exact ⟨piece, e, took⟩

/-- No word is read just where nothing but blanks is left. -/
theorem readWord_eq_none_iff {i : Input} :
    i.readWord.1 = none ↔ ∀ c ∈ i.rest, Text.isBlank c = true := by
  rw [← List.dropWhile_eq_nil_iff, readWord]
  split <;> simp_all

/-- No line is read just where nothing is left. -/
theorem readLine_eq_none_iff {i : Input} : i.readLine.1 = none ↔ i.rest = [] := by
  rw [readLine]
  split <;> simp_all

/-! ### Reads in any order -/

/-- Reads of whatever kinds cut the front of the text into the pieces that they take. -/
theorem cut_reads (rs : List Read) (i : Input) : ∃ pieces,
    i.rest = pieces.flatten ++ (reads rs i).2.rest ∧
      Cut rs pieces (reads rs i).1 (reads rs i).2.rest := by
  induction rs generalizing i with
  | nil => exact ⟨[], rfl, .nil i.rest⟩
  | cons r rs ih =>
      obtain ⟨piece, front, took⟩ := took_read r i
      obtain ⟨pieces, rest, cut⟩ := ih (i.read r).2
      rw [rest] at took
      refine ⟨piece :: pieces, ?_, .cons took cut⟩
      rw [front, rest, List.flatten_cons, List.append_assoc]
      rfl

/-! ### Reads of one kind -/

/-- The words of a text, which blanks separate. -/
def words (cs : List Char) : List (List Char) := (cs.splitOnP Text.isBlank).filter (!·.isEmpty)

/-- The lines of a text, which newlines separate, without carriage returns at their ends. After a newline
at the end of the text there is no further line. -/
def lines (cs : List Char) : List (List Char) :=
  let parts := cs.splitOn '\n'
  (if parts.getLast? = some [] then parts.dropLast else parts).map (·.rdropWhile (· = '\r'))

/-- What this kind of read gives and leaves is the first element of a list and the list without it. -/
def Lists (r : Read) (list : List Char → List (List Char)) : Prop :=
  ∀ i : Input, (i.read r).1 = (list i.rest).head? ∧ list (i.read r).2.rest = (list i.rest).tail

theorem Lists.reads {r : Read} {list : List Char → List (List Char)} (h : Lists r list) (k : Nat)
    (i : Input) : (reads (List.replicate k r) i).1 = (List.range k).map ((list i.rest)[·]?) := by
  induction k generalizing i with
  | zero => rfl
  | succ k ih =>
      obtain ⟨first, others⟩ := h i
      rw [List.replicate_succ, Input.reads, ih, others, first, List.range_succ_eq_map, List.map_cons,
        List.map_map, List.head?_eq_getElem?]
      exact congrArg _ (List.map_congr_left fun j _ => List.getElem?_tail)

/-- Blanks before the words are no matter. -/
theorem words_append {blanks : List Char} (blank : ∀ c ∈ blanks, Text.isBlank c = true)
    (cs : List Char) : words (blanks ++ cs) = words cs := by
  induction blanks with
  | nil => rfl
  | cons c blanks ih =>
      obtain ⟨first, rest⟩ := List.forall_mem_cons.mp blank
      rw [← ih rest, words, List.cons_append, List.splitOnP_cons_eq_if_modifyHead, if_pos first,
        List.filter_cons_of_neg (by simp), words]

theorem words_of_blank {cs : List Char} (blank : ∀ c ∈ cs, Text.isBlank c = true) :
    words cs = [] := by
  rw [← List.append_nil cs, words_append blank]
  rfl

/-- A word ends where a blank follows. -/
theorem words_cons {w after : List Char} (ne : w ≠ []) (word : ∀ c ∈ w, Text.isBlank c = false)
    (stop : ∀ c ∈ after.head?, Text.isBlank c = true) : words (w ++ after) = w :: words after := by
  cases after with
  | nil =>
      rw [List.append_nil, words, List.splitOnP_eq_singleton word,
        List.filter_cons_of_pos (by simpa using ne)]
      rfl
  | cons c after =>
      have blank : ∀ d ∈ [c], Text.isBlank d = true := fun d hd => by
        rw [List.mem_singleton.mp hd]
        exact stop c rfl
      rw [words, List.splitOnP_append_cons_of_forall_mem word c (stop c rfl),
        List.filter_cons_of_pos (by simpa using ne)]
      exact congrArg (w :: ·) (words_append blank after).symm

/-- Reading words gives the words of the text, one after another. -/
theorem lists_words : Lists .word words := by
  intro i
  obtain ⟨piece, front, took⟩ := took_read .word i
  rw [front]
  cases answer : (i.read .word).1 with
  | none =>
      rw [answer] at took
      obtain ⟨blank, after⟩ := took
      rw [after, List.append_nil, words_of_blank blank]
      exact ⟨rfl, rfl⟩
  | some w =>
      rw [answer] at took
      obtain ⟨blanks, rfl, blank, ne, word, stop⟩ := took
      rw [List.append_assoc, words_append blank, words_cons ne word stop]
      exact ⟨rfl, rfl⟩

/-- A line ends where a newline follows. -/
theorem lines_cons {front : List Char} (without : '\n' ∉ front) (rest : List Char) :
    lines (front ++ '\n' :: rest) = chomp front :: lines rest := by
  rw [lines, lines, List.splitOn_append_cons_self_of_not_mem without]
  obtain ⟨part, parts, e⟩ := List.exists_cons_of_ne_nil (List.splitOn_ne_nil '\n' rest)
  rw [e, List.getLast?_cons_cons, List.dropLast_cons_cons]
  split <;> rfl

theorem lines_last {front : List Char} (without : '\n' ∉ front) (ne : front ≠ []) :
    lines front = [chomp front] := by
  rw [lines, List.splitOn_eq_singleton without, List.getLast?_singleton,
    if_neg fun e => ne (Option.some.inj e)]
  rfl

/-- Reading lines gives the lines of the text, one after another. -/
theorem lists_lines : Lists .line lines := by
  intro i
  obtain ⟨piece, front, took⟩ := took_read .line i
  rw [front]
  cases answer : (i.read .line).1 with
  | none =>
      rw [answer] at took
      obtain ⟨rfl, after⟩ := took
      rw [after]
      exact ⟨rfl, rfl⟩
  | some l =>
      rw [answer] at took
      obtain ⟨returns, ending, rfl, ne, newline, last, all, stop⟩ := took
      have without : '\n' ∉ l ++ returns := by
        intro mem
        rcases List.mem_append.mp mem with mem | mem
        · exact newline mem
        · cases all _ mem
      rcases stop with rfl | ⟨rfl, after⟩
      · rw [List.append_assoc, List.singleton_append, lines_cons without, chomp_append last all]
        exact ⟨rfl, rfl⟩
      · rw [after, List.append_nil, List.append_nil, lines_last without (by simpa using ne),
          chomp_append last all]
        exact ⟨rfl, rfl⟩

/-- **Input is partitioned.**  Reads of words and lines, in whatever order, cut the front of the text into
pieces, one for each read, and leave the rest of it. A piece for a word is blanks and the word, which
goes up to the end of the text or to a blank; a piece for a line is the line, carriage returns and a
newline, which only the end of the text can stand for. There is no word where all that is left is blank,
and no line where nothing is left. So to read words again and again is to get the words of the text, and
to read lines its lines, and then nothing more. -/
theorem reads_partition (i : Input) :
    (∀ rs : List Read, ∃ pieces, i.rest = pieces.flatten ++ (reads rs i).2.rest ∧
      Cut rs pieces (reads rs i).1 (reads rs i).2.rest) ∧
    (∀ rs : List Read, ((reads rs i).2.readWord.1 = none ↔
        ∀ c ∈ (reads rs i).2.rest, Text.isBlank c = true) ∧
      ((reads rs i).2.readLine.1 = none ↔ (reads rs i).2.rest = [])) ∧
    (∀ k, (reads (List.replicate k .word) i).1 = (List.range k).map ((words i.rest)[·]?)) ∧
    ∀ k, (reads (List.replicate k .line) i).1 = (List.range k).map ((lines i.rest)[·]?) := by
  refine ⟨fun rs => cut_reads rs i, fun rs => ⟨readWord_eq_none_iff, readLine_eq_none_iff⟩,
    fun k => lists_words.reads k i, fun k => lists_lines.reads k i⟩

-- An empty line counts, and what stands after the last newline is a line unless it is nothing.
example : lines "a\r\n\nb".toList = [['a'], [], ['b']] := by decide +kernel

end Brace.Input
