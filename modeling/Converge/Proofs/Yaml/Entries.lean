import Converge.Proofs.Yaml.Words
import Converge.Yaml.Token.Stream

/-!
# Mappings of names and words

A mapping whose entries stand on lines of their own, a name and a word on each, is cut into tokens entry by entry. Each
entry takes three steps: the name, which has to be a key as it stands at the indentation of the mapping; the colon,
which makes it one; and the word, which ends with its line since nothing below it is indented.

## Main Definitions

* `Scanner.atEntry`, `Scanner.behindName`, `Scanner.behindColon` — the states of the reading.
* `PlainEntry`, `entryLines` — entries and their text.
* `entryTokens`, `entryKeys` — what an entry adds to the tokens.

## Main Statements

* `plain_word` — a word is read as it stands.
* `Scanner.run_entry` — an entry takes three tokens.
* `Scanner.run_entries` — the lines of entries are read to their end.

## Design Notes

A name is found to be a key only behind it, at the colon. By then it must not be further away than `Scanner.keyLimit`.
-/

namespace Converge.Yaml

open Chars

variable {word name rest : List Char} {c : Char} {mark : Mark} {indent : Int}

/-! ### Plain scalars of one word -/

/-- A plain character takes a byte and a column. -/
theorem Mark.after_of_isPlainChar (h : isPlainChar c = true) :
    mark.after c = ⟨mark.index + 1, mark.line, mark.column + 1⟩ := by
  rw [Mark.after, isBreak_of_isPlainChar h, if_neg Bool.false_ne_true, Mark.next, utf8Size_of_isPlainChar h]

theorem Mark.afterAll_of_isPlainChar (h : ∀ c ∈ word, isPlainChar c = true) :
    mark.afterAll word = ⟨mark.index + word.length, mark.line, mark.column + word.length⟩ := by
  induction word generalizing mark with
  | nil => rfl
  | cons c word ih =>
      rw [List.forall_mem_cons] at h
      show (mark.after c).afterAll word = _
      rw [ih h.2, Mark.after_of_isPlainChar h.1]
      simp only [List.length_cons, Mark.mk.injEq, true_and]
      omega

/-- A word so far, and no gap behind it. -/
def Fold.ofWord (word : List Char) : Fold := ⟨word.reverse, [], false, none, [], false⟩

/-- A word is read as it stands. -/
theorem plain_word (h : ∀ c ∈ word, isPlainChar c = true) (before : List Char) :
    plain false indent (.ofWord before) mark (word ++ rest) =
      plain false indent (.ofWord (before ++ word)) (mark.afterAll word) rest := by
  induction word generalizing before mark with
  | nil => rw [List.append_nil]; rfl
  | cons c word ih =>
      rw [List.forall_mem_cons] at h
      have hadd : (Fold.ofWord before).add c = .ofWord (before ++ [c]) := by
        simp [Fold.ofWord, Fold.add, Fold.close]
      have hnext : mark.next c = mark.after c := by
        rw [Mark.after, isBreak_of_isPlainChar h.1, if_neg Bool.false_ne_true]
      have hcolon : (c == ':') = false := by simpa using ne_of_isPlainChar h.1 rfl
      have hbad : badColon false c (word ++ rest) = false := by
        unfold badColon
        split <;> rfl
      rw [List.cons_append, plain]
      simp only [isSpace_of_isPlainChar h.1, isBreak_of_isPlainChar h.1, atDocumentMark_of_isPlainChar h.1, hbad,
        endsPlain, hcolon, hadd, hnext, Bool.false_eq_true, if_false, Bool.and_false, Bool.false_and, Bool.or_false]
      have hgap : (Fold.ofWord before).inGap = false := rfl
      simp only [hgap, Bool.false_and, Bool.false_eq_true, if_false]
      rw [ih h.2, List.append_assoc, List.singleton_append]
      rfl

/-- A word with a colon and a blank behind it. -/
theorem plain_colon (h : ∀ c ∈ name, isPlainChar c = true) :
    plain false indent Fold.start mark (name ++ ':' :: ' ' :: rest) =
      .ok ⟨name, false, ⟨':' :: ' ' :: rest, mark.afterAll name⟩⟩ := by
  have hstart : Fold.start = .ofWord [] := rfl
  have hdocument (after : List Char) : atDocumentMark (':' :: after) = false := by
    rw [atDocumentMark, atMark_of_ne (by decide), atMark_of_ne (by decide), Bool.or_false]
  rw [hstart, plain_word h, List.nil_append, plain]
  simp [isSpace, isBreak, hdocument, badColon, endsPlain, atGap, Fold.ofWord]

/-- A line begins with a word or is the end of the text. -/
def atWord (text : List Char) : Prop := ∀ c ∈ text.head?, isPlainChar c = true

/-- A word at the end of a line, below which nothing is indented. -/
theorem plain_line (h : ∀ c ∈ word, isPlainChar c = true) (hrest : atWord rest) (hindent : 0 < indent) :
    plain false indent Fold.start mark (word ++ '\n' :: rest) =
      .ok ⟨word, true, ⟨rest, ⟨(mark.afterAll word).index + 1, (mark.afterAll word).line + 1, 0⟩⟩⟩ := by
  have hstart : Fold.start = .ofWord [] := rfl
  have hbreak : plain false indent (.ofWord word) (mark.afterAll word) ('\n' :: rest) =
      plain false indent ((Fold.ofWord word).lineBreak '\n') ((mark.afterAll word).newLine '\n') rest := by
    rw [plain]
    rfl
  rw [hstart, plain_word h, List.nil_append, hbreak]
  cases rest with
  | nil =>
      rw [plain]
      simp [Fold.ofWord, Fold.lineBreak, Mark.newLine]
      rfl
  | cons c rest =>
      have hc := hrest c rfl
      rw [plain, isSpace_of_isPlainChar hc, isBreak_of_isPlainChar hc]
      simp [Fold.ofWord, Fold.lineBreak, Mark.newLine, hindent]
      rfl

/-! ### Tokens of an entry -/

/-- A name and a word: both are not empty and of plain characters, and the name is in reach of its colon. -/
structure PlainEntry (entry : List Char × List Char) : Prop where
  name : entry.1 ≠ []
  short : entry.1.length ≤ Scanner.keyLimit
  nameChars : ∀ c ∈ entry.1, isPlainChar c = true
  word : entry.2 ≠ []
  wordChars : ∀ c ∈ entry.2, isPlainChar c = true

theorem token_of_isPlainChar (s : Scanner) (h : isPlainChar c = true) (rest : List Char) :
    s.token c rest = s.plainScalar := by
  have hplain : Scanner.beginsPlain s.inFlow c rest = true := by
    have hindicator : Scanner.isIndicator c = false := by
      simp (disch := decide) [Scanner.isIndicator, ne_of_isPlainChar h]
    rw [Scanner.beginsPlain, isSpace_of_isPlainChar h, isBreak_of_isPlainChar h, hindicator]
    rfl
  have hdash : atMark '-' (c :: rest) = false := atMark_of_ne (ne_of_isPlainChar h rfl)
  have hdot : atMark '.' (c :: rest) = false := atMark_of_ne (ne_of_isPlainChar h rfl)
  simp (disch := decide) [Scanner.token, hdash, hdot, hplain, ne_of_isPlainChar h]

namespace Scanner

/-- The state in which an entry of a block mapping at the start of the lines is read. -/
def atEntry (index line : Nat) (tokens : List Token) (count : Nat) (promotions : List Promotion) (rest : List Char) :
    Scanner :=
  ⟨⟨rest, ⟨index, line, 0⟩⟩, tokens, count, promotions, 0, [-1], true, none, []⟩

variable {s : Scanner} {index line count : Nat} {tokens : List Token} {promotions : List Promotion}

/-- The state behind the name of an entry. -/
def behindName (index line : Nat) (tokens : List Token) (count : Nat) (promotions : List Promotion)
    (name rest : List Char) : Scanner :=
  ⟨⟨rest, ⟨index + name.length, line, name.length⟩⟩, .scalar .plain name :: tokens, count + 1, promotions, 0, [-1],
    false, some ⟨count, ⟨index, line, 0⟩, true⟩, []⟩

/-- The state behind the colon of an entry. -/
def behindColon (index line column : Nat) (tokens : List Token) (count : Nat) (promotions : List Promotion)
    (rest : List Char) : Scanner :=
  ⟨⟨rest, ⟨index, line, column⟩⟩, tokens, count, promotions, 0, [-1], false, none, []⟩

theorem toNext_of_toToken (s : Scanner) {keyAllowed : Bool} {cursor : Cursor}
    (h : toToken s.inFlow false s.keyAllowed s.cursor.mark s.cursor.rest = (keyAllowed, cursor)) :
    s.toNext = ({ s with keyAllowed := keyAllowed, cursor := cursor }).refreshKeys.map
      fun s : Scanner => s.unroll s.column := by
  rw [toNext, h]
  rfl

/-- In the mapping at the start of the lines no place closes a block. -/
theorem unroll_eq_self (hflow : s.flowKeys = []) (hindent : s.indent = 0) (houter : s.outer = [-1]) (column : Nat) :
    s.unroll column = s := by
  have hinFlow : s.inFlow = false := by rw [inFlow, hflow]; rfl
  rw [unroll, hinFlow, if_neg Bool.false_ne_true, houter, closeBlocks, hindent]
  exact if_neg (by omega)

/-- At the start of a line of the mapping a scalar has to be a key. -/
theorem plainScalar_atEntry (text : List Char) :
    (atEntry index line tokens count promotions text).plainScalar =
      (plain false 1 Fold.start ⟨index, line, 0⟩ text).map fun read =>
        ⟨read.cursor, .scalar .plain read.text :: tokens, count + 1, promotions, 0, [-1], read.brokenAfter,
          some ⟨count, ⟨index, line, 0⟩, true⟩, []⟩ := by
  show (plain false 1 Fold.start ⟨index, line, 0⟩ text >>= fun read => _) = _
  cases plain false 1 Fold.start ⟨index, line, 0⟩ text <;> rfl

/-- Behind a colon a scalar is no key. -/
theorem plainScalar_behindColon {column : Nat} (text : List Char) :
    (behindColon index line column tokens count promotions text).plainScalar =
      (plain false 1 Fold.start ⟨index, line, column⟩ text).map fun read =>
        ⟨read.cursor, .scalar .plain read.text :: tokens, count + 1, promotions, 0, [-1], read.brokenAfter, none,
          []⟩ := by
  show (plain false 1 Fold.start ⟨index, line, column⟩ text >>= fun read => _) = _
  cases plain false 1 Fold.start ⟨index, line, column⟩ text <;> rfl

theorem next_name (hto : s.toNext = .ok (atEntry index line tokens count promotions (name ++ ':' :: ' ' :: rest)))
    (nonempty : name ≠ []) (h : ∀ c ∈ name, isPlainChar c = true) :
    s.next = .ok (some (behindName index line tokens count promotions name (':' :: ' ' :: rest))) := by
  have hplain := @plain_colon name rest ⟨index, line, 0⟩ 1 h
  rw [Mark.afterAll_of_isPlainChar h] at hplain
  have hscalar : (atEntry index line tokens count promotions (name ++ ':' :: ' ' :: rest)).plainScalar =
      .ok (behindName index line tokens count promotions name (':' :: ' ' :: rest)) := by
    rw [plainScalar_atEntry, hplain]
    simp [Except.map, behindName]
  obtain ⟨c, name, rfl⟩ := List.exists_cons_of_ne_nil nonempty
  have hnext : s.next = (atEntry index line tokens count promotions (c :: name ++ ':' :: ' ' :: rest)).plainScalar.bind
      fun s => .ok (some s) := by
    rw [next, hto, ← token_of_isPlainChar _ (h c List.mem_cons_self) (name ++ ':' :: ' ' :: rest)]
    rfl
  rw [hnext, hscalar]
  rfl

/-- A colon with a blank behind it. -/
theorem token_colon (s : Scanner) (rest : List Char) : s.token ':' (' ' :: rest) = s.value := by
  have hdash : atMark '-' (':' :: ' ' :: rest) = false := atMark_of_ne (by decide)
  have hdot : atMark '.' (':' :: ' ' :: rest) = false := atMark_of_ne (by decide)
  have hgap : atGap (' ' :: rest) = true := rfl
  simp [token, hdash, hdot, hgap]

/-- A name is in reach of its colon if it is not too long. -/
theorem next_colon (hshort : name.length ≤ keyLimit) :
    (behindName index line tokens count promotions name (':' :: ' ' :: rest)).next =
      .ok (some (behindColon (index + name.length + 1) line (name.length + 1)
        (.value :: .scalar .plain name :: tokens) (count + 2) (⟨count, [.key]⟩ :: promotions) (' ' :: rest))) := by
  have hstale : (behindName index line tokens count promotions name (':' :: ' ' :: rest)).isStale
      ⟨count, ⟨index, line, 0⟩, true⟩ = false := by
    simp [isStale, behindName]
    omega
  have hrefresh : (behindName index line tokens count promotions name (':' :: ' ' :: rest)).refreshKeys =
      .ok (behindName index line tokens count promotions name (':' :: ' ' :: rest)) := by
    show (refresh _ (some _) >>= fun blockKey => _) = _
    rw [refresh, hstale]
    rfl
  have hto : (behindName index line tokens count promotions name (':' :: ' ' :: rest)).toNext =
      .ok (behindName index line tokens count promotions name (':' :: ' ' :: rest)) := by
    show ((behindName index line tokens count promotions name (':' :: ' ' :: rest)).refreshKeys >>= fun s => _) = _
    rw [hrefresh]
    exact congrArg Except.ok (unroll_eq_self rfl rfl rfl name.length)
  have hnext : (behindName index line tokens count promotions name (':' :: ' ' :: rest)).next =
      (behindName index line tokens count promotions name (':' :: ' ' :: rest)).value.bind fun s => .ok (some s) := by
    rw [next, hto, ← token_colon]
    rfl
  rw [hnext]
  rfl

/-- The word behind a colon ends with its line. -/
theorem next_word {column : Nat} (nonempty : word ≠ []) (h : ∀ c ∈ word, isPlainChar c = true) (hrest : atWord rest) :
    (behindColon index line column tokens count promotions (' ' :: (word ++ '\n' :: rest))).next =
      .ok (some (atEntry (index + word.length + 2) (line + 1) (.scalar .plain word :: tokens) (count + 1) promotions
        rest)) := by
  obtain ⟨c, word, rfl⟩ := List.exists_cons_of_ne_nil nonempty
  have hc := h c List.mem_cons_self
  have htoken : toToken false false false ⟨index + 1, line, column + 1⟩ (c :: word ++ '\n' :: rest) =
      (false, ⟨c :: word ++ '\n' :: rest, ⟨index + 1, line, column + 1⟩⟩) := by
    have hstop : passes false false ⟨index + 1, line, column + 1⟩ c = false := by
      simp (disch := decide) [passes, ne_of_isPlainChar hc]
    simp (disch := decide) [toToken, isBreak_of_isPlainChar hc, hstop, ne_of_isPlainChar hc]
  have hto : (behindColon index line column tokens count promotions (' ' :: (c :: word ++ '\n' :: rest))).toNext =
      .ok (behindColon (index + 1) line (column + 1) tokens count promotions (c :: word ++ '\n' :: rest)) := by
    have hblank : toToken false false false ⟨index, line, column⟩ (' ' :: (c :: word ++ '\n' :: rest)) =
        toToken false false false ⟨index + 1, line, column + 1⟩ (c :: word ++ '\n' :: rest) := rfl
    rw [toNext_of_toToken (behindColon index line column tokens count promotions _) (hblank.trans htoken)]
    exact congrArg Except.ok (unroll_eq_self rfl rfl rfl (column + 1))
  have hnext : (behindColon index line column tokens count promotions (' ' :: (c :: word ++ '\n' :: rest))).next =
      (behindColon (index + 1) line (column + 1) tokens count promotions (c :: word ++ '\n' :: rest)).plainScalar.bind
        fun s => .ok (some s) := by
    rw [next, hto, ← token_of_isPlainChar _ hc (word ++ '\n' :: rest)]
    rfl
  have hplain := @plain_line (c :: word) rest ⟨index + 1, line, column + 1⟩ 1 h hrest (by decide)
  rw [Mark.afterAll_of_isPlainChar h] at hplain
  rw [hnext, plainScalar_behindColon, hplain]
  simp [Except.map, Except.bind, atEntry]
  omega

/-- **An entry of a name and a word takes three tokens.** -/
theorem run_entry (entry : PlainEntry (name, word))
    (hto : s.toNext =
      .ok (atEntry index line tokens count promotions (name ++ ':' :: ' ' :: (word ++ '\n' :: rest))))
    (hrest : atWord rest) :
    ∃ behind, ∀ bound, s.run (bound + 3) =
      (atEntry behind (line + 1) (.scalar .plain word :: .value :: .scalar .plain name :: tokens) (count + 3)
        (⟨count, [.key]⟩ :: promotions) rest).run bound := by
  refine ⟨index + name.length + 1 + word.length + 2, fun bound => ?_⟩
  rw [run, next_name hto entry.name entry.nameChars]
  show (behindName _ _ _ _ _ _ _).run (bound + 2) = _
  rw [run, next_colon entry.short]
  show (behindColon _ _ _ _ _ _ _).run (bound + 1) = _
  rw [run, next_word entry.word entry.wordChars hrest]
  rfl

/-- Where an entry may begin, nothing is passed over. -/
theorem toToken_of_atWord {keyAllowed : Bool} (hrest : atWord rest) :
    toToken false false keyAllowed ⟨index, line, 0⟩ rest = (keyAllowed, ⟨rest, ⟨index, line, 0⟩⟩) := by
  cases rest with
  | nil => rfl
  | cons c rest =>
      have hc := hrest c rfl
      have hstop : passes false keyAllowed ⟨index, line, 0⟩ c = false := by
        simp (disch := decide) [passes, ne_of_isPlainChar hc]
      simp (disch := decide) [toToken, isBreak_of_isPlainChar hc, hstop, ne_of_isPlainChar hc]

theorem toNext_atEntry (hrest : atWord rest) :
    (atEntry index line tokens count promotions rest).toNext =
      .ok (atEntry index line tokens count promotions rest) := by
  rw [toNext_of_toToken (atEntry index line tokens count promotions rest) (toToken_of_atWord hrest)]
  exact congrArg Except.ok (unroll_eq_self rfl rfl rfl 0)

/-- Behind a value that has ended, the next line is gone on to. -/
theorem toNext_behindValue {column : Nat} (hrest : atWord rest) :
    (behindColon index line column tokens count promotions ('\n' :: rest)).toNext =
      .ok (atEntry (index + 1) (line + 1) tokens count promotions rest) := by
  have htoken : toToken false false false ⟨index, line, column⟩ ('\n' :: rest) =
      (true, ⟨rest, ⟨index + 1, line + 1, 0⟩⟩) :=
    toToken_of_atWord hrest
  rw [toNext_of_toToken (behindColon index line column tokens count promotions ('\n' :: rest)) htoken]
  exact congrArg Except.ok (unroll_eq_self rfl rfl rfl 0)

end Scanner

/-! ### Mappings of words -/

/-- The lines of entries. -/
def entryLines : List (List Char × List Char) → List Char
  | [] => []
  | (name, word) :: entries => name ++ ':' :: ' ' :: (word ++ '\n' :: entryLines entries)

/-- The tokens of entries behind other tokens, the latest first. -/
def entryTokens (tokens : List Token) : List (List Char × List Char) → List Token
  | [] => tokens
  | (name, word) :: entries =>
      entryTokens (.scalar .plain word :: .value :: .scalar .plain name :: tokens) entries

/-- The names of entries are keys. -/
def entryKeys (count : Nat) (promotions : List Promotion) : List (List Char × List Char) → List Promotion
  | [] => promotions
  | _ :: entries => entryKeys (count + 3) (⟨count, [.key]⟩ :: promotions) entries

variable {entries : List (List Char × List Char)}

theorem atWord_entryLines (h : ∀ entry ∈ entries, PlainEntry entry) : atWord (entryLines entries) := by
  cases entries with
  | nil => exact fun c hc => by cases hc
  | cons entry entries =>
      obtain ⟨name, word⟩ := entry
      have hentry := h _ List.mem_cons_self
      obtain ⟨c, cs, hcs⟩ := List.exists_cons_of_ne_nil hentry.name
      intro d hd
      rw [entryLines, show name = c :: cs from hcs] at hd
      cases hd
      exact hentry.nameChars c (hcs ▸ List.mem_cons_self)

theorem isMapChar_of_mem_entryLines (h : ∀ entry ∈ entries, PlainEntry entry) :
    ∀ c ∈ entryLines entries, isMapChar c = true := by
  induction entries with
  | nil => exact fun c hc => absurd hc List.not_mem_nil
  | cons entry entries ih =>
      obtain ⟨name, word⟩ := entry
      rw [List.forall_mem_cons] at h
      intro c hc
      simp only [entryLines, List.mem_append, List.mem_cons] at hc
      obtain hc | rfl | rfl | hc | rfl | hc := hc
      · rw [isMapChar, h.1.nameChars c hc, Bool.true_or]
      · rfl
      · rfl
      · rw [isMapChar, h.1.wordChars c hc, Bool.true_or]
      · rfl
      · exact ih h.2 c hc

/-- An entry has more characters than tokens. -/
theorem length_entryLines (entries : List (List Char × List Char)) :
    3 * entries.length ≤ (entryLines entries).length := by
  induction entries with
  | nil => exact Nat.le_refl 0
  | cons entry entries ih =>
      simp only [entryLines, List.length_cons, List.length_append]
      omega

/-- **The lines of entries are read to their end**, which closes the mapping: each entry gives three tokens, of which
the first is a key. -/
theorem Scanner.run_entries (h : ∀ entry ∈ entries, PlainEntry entry) {s : Scanner} {index line count : Nat}
    {tokens : List Token} {promotions : List Promotion}
    (hto : s.toNext = .ok (atEntry index line tokens count promotions (entryLines entries))) (bound : Nat) :
    ∃ cursor, s.run (3 * entries.length + bound + 1) =
      .ok ⟨cursor, .streamEnd :: .blockEnd :: entryTokens tokens entries, count + 3 * entries.length + 2,
        entryKeys count promotions entries, -1, [], true, none, []⟩ := by
  induction entries generalizing s index line count tokens promotions with
  | nil =>
      have hnext : s.next = .ok none := by rw [next, hto]; rfl
      refine ⟨⟨[], ⟨index, line, 0⟩⟩, ?_⟩
      rw [Scanner.run, hnext]
      show (s.toNext >>= fun s => s.streamEnd) = _
      rw [hto]
      rfl
  | cons entry entries ih =>
      obtain ⟨name, word⟩ := entry
      rw [List.forall_mem_cons] at h
      have hword := atWord_entryLines h.2
      obtain ⟨behind, hrun⟩ := run_entry h.1 hto hword
      obtain ⟨cursor, hend⟩ := ih h.2 (toNext_atEntry hword)
      refine ⟨cursor, ?_⟩
      have hbound : 3 * ((name, word) :: entries).length + bound + 1 = 3 * entries.length + bound + 1 + 3 := by
        rw [List.length_cons]
        omega
      have hcount : count + 3 * ((name, word) :: entries).length + 2 = count + 3 + 3 * entries.length + 2 := by
        rw [List.length_cons]
        omega
      rw [hbound, hrun, hend, hcount]
      rfl

/-- The tokens of a text of words and marks are those that the scanner reads. -/
theorem Token.all_of_isMapChar (h : ∀ c ∈ rest, isMapChar c = true) :
    Token.all rest = ((Scanner.start rest).run rest.length).map Scanner.spliced := by
  have hallowed : rest.all isAllowed = true := List.all_eq_true.2 fun c hc => isAllowed_of_isMapChar (h c hc)
  have hbreaks := normalBreaks_of_isMapChar h
  cases rest with
  | nil => rfl
  | cons c cs =>
      have hmark : (c == byteOrderMark) = false := by
        rw [beq_eq_false_iff_ne]
        rintro rfl
        cases h byteOrderMark List.mem_cons_self
      simp only [Token.all, hmark, hallowed, hbreaks, Bool.false_eq_true, Bool.not_true, if_false]
      rfl

end Converge.Yaml
