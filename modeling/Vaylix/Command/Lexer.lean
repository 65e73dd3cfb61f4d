import Mathlib.Data.List.Basic
import Mathlib.Order.Lattice

/-!
# The lexer of the command language

`tokenize` is one loop over the characters with their byte offsets. Beside it stands the
grammar of its inputs: `Lexes` relates a text to its tokens and `Body` what stands between
quotes to what it means. The loop returns the tokens of the grammar, and stops only in a
quoted string that is not closed.
-/

namespace Vaylix

inductive CommandError where
  | emptyCommand
  | unknownCommand (command : String)
  | invalidArity (usage : String)
  | invalidInteger (field value : String)
  | invalidOption (command option : String)
  | conflictingOptions (command detail : String)
  | expectedOpeningQuote
  | unterminatedQuotedString (start : Nat)
deriving DecidableEq, Repr

inductive Token where
  | word (text : String)
  | quotedString (text : String)
deriving DecidableEq, Repr

namespace Lexer

abbrev CharIndices := List (Nat × Char)

def charIndices (start : Nat) : List Char → CharIndices
  | [] => []
  | ch :: rest => (start, ch) :: charIndices (start + ch.utf8Size) rest

def isBlank (ch : Char) : Bool := ch = ' ' || ch = '\t' || ch = '\n' || ch = '\r'

def isBreak (ch : Char) : Bool := isBlank ch || ch = '"'

def readWord (word : String) : CharIndices → String × CharIndices
  | [] => (word, [])
  | (start, ch) :: rest =>
    if isBreak ch then (word, (start, ch) :: rest) else readWord (word.push ch) rest

def unescape : Char → Char
  | '"' => '"'
  | '\\' => '\\'
  | 'n' => '\n'
  | 't' => '\t'
  | other => other

def readQuoted (value : String) (escaped : Bool) : CharIndices → Option (String × CharIndices)
  | [] => none
  | (_, ch) :: rest =>
    if escaped then readQuoted (value.push (unescape ch)) false rest
    else if ch = '\\' then readQuoted value true rest
    else if ch = '"' then some (value, rest)
    else readQuoted (value.push ch) false rest

def readQuotedString : CharIndices → Except CommandError (String × CharIndices)
  | (start, '"') :: rest =>
    match readQuoted "" false rest with
    | some read => .ok read
    | none => .error (.unterminatedQuotedString start)
  | _ => .error .expectedOpeningQuote

theorem length_readWord_le (word : String) (chars : CharIndices) :
    (readWord word chars).2.length ≤ chars.length := by
  fun_induction readWord word chars with
  | case1 word => exact le_refl _
  | case2 word start ch rest stops => exact le_refl _
  | case3 word start ch rest goes ih => exact ih.trans (Nat.le_succ _)

theorem length_readQuoted_lt {value read : String} {escaped : Bool} {chars left : CharIndices}
    (found : readQuoted value escaped chars = some (read, left)) : left.length < chars.length := by
  fun_induction readQuoted value escaped chars with
  | case1 value escaped => cases found
  | case2 value start ch rest ih => exact (ih found).trans (Nat.lt_succ_self _)
  | case3 value escaped start rest plain ih => exact (ih found).trans (Nat.lt_succ_self _)
  | case4 value escaped start rest plain =>
    cases found
    exact Nat.lt_succ_self _
  | case5 value escaped start ch rest plain other unquoted ih =>
    exact (ih found).trans (Nat.lt_succ_self _)

theorem length_readQuotedString_lt {chars left : CharIndices} {value : String}
    (found : readQuotedString chars = .ok (value, left)) : left.length < chars.length := by
  unfold readQuotedString at found
  split at found
  · split at found
    · rename_i start rest read closed
      cases found
      exact (length_readQuoted_lt closed).trans (Nat.lt_succ_self _)
    · cases found
  · cases found

theorem length_readWord_lt {word : String} {start : Nat} {ch : Char} {rest : CharIndices}
    (goes : isBreak ch = false) :
    (readWord word ((start, ch) :: rest)).2.length < rest.length + 1 := by
  rw [readWord, if_neg (Bool.eq_false_iff.mp goes)]
  exact Nat.lt_succ_of_le (length_readWord_le _ _)

def tokenizeFrom (tokens : List Token) (chars : CharIndices) : Except CommandError (List Token) :=
  match chars with
  | [] => .ok tokens
  | (start, ch) :: rest =>
    if blank : isBlank ch then tokenizeFrom tokens rest
    else if quote : ch = '"' then
      match found : readQuotedString ((start, ch) :: rest) with
      | .error err => .error err
      | .ok (value, left) => tokenizeFrom (tokens ++ [.quotedString value]) left
    else
      let read := readWord "" ((start, ch) :: rest)
      tokenizeFrom (tokens ++ [.word read.1]) read.2
termination_by chars.length
decreasing_by
  · exact Nat.lt_succ_self _
  · exact length_readQuotedString_lt found
  · exact length_readWord_lt (by simp [isBreak, blank, quote])

end Lexer

def tokenize (input : String) : Except CommandError (List Token) :=
  Lexer.tokenizeFrom [] (Lexer.charIndices 0 input.toList)

namespace Lexer

/-! ### The grammar -/

/-- What may stand between quotes, and what it means. -/
inductive Body : List Char → List Char → Prop
  | nil : Body [] []
  | plain {ch : Char} {raw value : List Char} (unquoted : ch ≠ '"') (unescaped : ch ≠ '\\') :
      Body raw value → Body (ch :: raw) (ch :: value)
  | escape {ch : Char} {raw value : List Char} :
      Body raw value → Body ('\\' :: ch :: raw) (unescape ch :: value)

def Unclosed (body : List Char) : Prop :=
  ∀ raw value rest, Body raw value → body ≠ raw ++ '"' :: rest

inductive Lexes : List Char → List Token → Prop
  | nil : Lexes [] []
  | blank {ch : Char} {text : List Char} {tokens : List Token} :
      isBlank ch → Lexes text tokens → Lexes (ch :: text) tokens
  | quotedString {raw value text : List Char} {tokens : List Token} :
      Body raw value → Lexes text tokens →
      Lexes ('"' :: (raw ++ '"' :: text)) (.quotedString (String.ofList value) :: tokens)
  | word {word text : List Char} {tokens : List Token} (filled : word ≠ [])
      (goes : ∀ ch ∈ word, isBreak ch = false) (stops : ∀ ch ∈ text.head?, isBreak ch) :
      Lexes text tokens → Lexes (word ++ text) (.word (String.ofList word) :: tokens)

/-! ### Words and quoted strings -/

theorem append_ofList_cons (text : String) (ch : Char) (chars : List Char) :
    text ++ String.ofList (ch :: chars) = text.push ch ++ String.ofList chars := by
  apply String.toList_inj.mp
  simp

abbrev charsOf (chars : CharIndices) : List Char := chars.map Prod.snd

variable {start : Nat} {ch : Char} {chars : CharIndices}

theorem charsOf_cons :
    charsOf ((start, ch) :: chars) = ch :: charsOf chars := rfl

variable {text : List Char}

theorem exists_of_charsOf_eq_cons (spelled : charsOf chars = ch :: text) :
    ∃ start rest, chars = (start, ch) :: rest ∧ charsOf rest = text := by
  obtain ⟨⟨start, _⟩, rest, rfl, rfl, after⟩ := List.map_eq_cons_iff.mp spelled
  exact ⟨start, rest, rfl, after⟩

/-- A word ends before the first break. -/
theorem readWord_append {word : String} {front left : CharIndices}
    (goes : ∀ ch ∈ charsOf front, isBreak ch = false)
    (stops : ∀ ch ∈ (charsOf left).head?, isBreak ch) :
    readWord word (front ++ left) = (word ++ String.ofList (charsOf front), left) := by
  induction front generalizing word with
  | nil =>
    cases left with
    | nil => simp [readWord]
    | cons head rest =>
      obtain ⟨start, ch⟩ := head
      rw [List.nil_append, readWord, if_pos (stops ch rfl)]
      simp
  | cons head front ih =>
    obtain ⟨start, ch⟩ := head
    obtain ⟨first, others⟩ := List.forall_mem_cons.mp goes
    rw [List.cons_append, readWord, if_neg (Bool.eq_false_iff.mp first), ih others, charsOf_cons,
      append_ofList_cons]

theorem exists_break (chars : CharIndices) :
    ∃ front left, chars = front ++ left ∧ (∀ ch ∈ charsOf front, isBreak ch = false) ∧
      ∀ ch ∈ (charsOf left).head?, isBreak ch := by
  induction chars with
  | nil => exact ⟨[], [], rfl, nofun, nofun⟩
  | cons head chars ih =>
    obtain ⟨start, ch⟩ := head
    by_cases stops : isBreak ch
    · refine ⟨[], (start, ch) :: chars, rfl, nofun, ?_⟩
      rintro _ ⟨⟩
      exact stops
    · obtain ⟨front, left, rfl, goes, stop⟩ := ih
      exact ⟨(start, ch) :: front, left, rfl,
        List.forall_mem_cons.mpr ⟨Bool.eq_false_iff.mpr stops, goes⟩, stop⟩

section Quoted

variable {raw value : List Char}

/-- A quoted string ends at its closing quote. -/
theorem readQuoted_append (body : Body raw value) {text : String} {front left : CharIndices}
    {stop : Nat} (spelled : charsOf front = raw) :
    readQuoted text false (front ++ (stop, '"') :: left) =
      some (text ++ String.ofList value, left) := by
  induction body generalizing text front with
  | nil =>
    obtain rfl := List.map_eq_nil_iff.mp spelled
    simp [readQuoted]
  | @plain ch raw value unquoted unescaped body ih =>
    obtain ⟨start, rest, rfl, after⟩ := exists_of_charsOf_eq_cons spelled
    rw [List.cons_append, readQuoted, if_neg Bool.false_ne_true, if_neg unescaped, if_neg unquoted,
      ih after, append_ofList_cons]
  | @escape ch raw value body ih =>
    obtain ⟨start, rest, rfl, after⟩ := exists_of_charsOf_eq_cons spelled
    obtain ⟨next, rest, rfl, behind⟩ := exists_of_charsOf_eq_cons after
    rw [List.cons_append, readQuoted, if_neg Bool.false_ne_true, if_pos rfl, List.cons_append,
      readQuoted, if_pos rfl, ih behind, append_ofList_cons]

theorem exists_body_of_readQuoted {text read : String} : ∀ {chars left : CharIndices},
    readQuoted text false chars = some (read, left) →
    ∃ front stop value, chars = front ++ (stop, '"') :: left ∧ Body (charsOf front) value
  | [], _, found => by cases found
  | (start, ch) :: rest, left, found => by
    rw [readQuoted, if_neg Bool.false_ne_true] at found
    split at found
    · rename_i backslash
      subst backslash
      cases rest with
      | nil => cases found
      | cons head rest =>
        obtain ⟨next, escaped⟩ := head
        rw [readQuoted, if_pos rfl] at found
        obtain ⟨front, stop, value, rfl, body⟩ := exists_body_of_readQuoted found
        exact ⟨(start, '\\') :: (next, escaped) :: front, stop, _, rfl, .escape body⟩
    · rename_i unescaped
      split at found
      · rename_i quote
        subst quote
        cases found
        exact ⟨[], start, [], rfl, .nil⟩
      · rename_i unquoted
        obtain ⟨front, stop, value, rfl, body⟩ := exists_body_of_readQuoted found
        exact ⟨(start, ch) :: front, stop, _, rfl, .plain unquoted unescaped body⟩

/-- Reading fails exactly in a string that is not closed. -/
theorem readQuoted_eq_none_iff {text : String} {chars : CharIndices} :
    readQuoted text false chars = none ↔ Unclosed (charsOf chars) := by
  constructor
  · rintro open_ raw value rest body same
    obtain ⟨front, behind, rfl, spelled, after⟩ := List.map_eq_append_iff.mp same
    obtain ⟨stop, left, rfl, -⟩ := exists_of_charsOf_eq_cons after
    rw [readQuoted_append body spelled] at open_
    cases open_
  · intro unclosed
    cases found : readQuoted text false chars with
    | none => rfl
    | some read =>
      obtain ⟨front, stop, value, rfl, body⟩ := exists_body_of_readQuoted found
      refine absurd ?_ (unclosed _ _ (charsOf read.2) body)
      rw [charsOf, List.map_append]
      rfl

end Quoted

/-! ### The loop -/

section Loop

variable {tokens found : List Token} {start : Nat} {ch : Char} {rest left chars : CharIndices}

theorem tokenizeFrom_blank (blank : isBlank ch) :
    tokenizeFrom tokens ((start, ch) :: rest) = tokenizeFrom tokens rest := by
  rw [tokenizeFrom, dif_pos blank]

theorem tokenizeFrom_closed {read : String}
    (closed : readQuoted "" false rest = some (read, left)) :
    tokenizeFrom tokens ((start, '"') :: rest) =
      tokenizeFrom (tokens ++ [.quotedString read]) left := by
  have found : readQuotedString ((start, '"') :: rest) = .ok (read, left) := by
    rw [readQuotedString, closed]
  rw [tokenizeFrom, dif_neg (by decide), dif_pos rfl]
  split
  · rename_i err failed
    rw [found] at failed
    cases failed
  · rename_i value after read
    rw [found] at read
    cases read
    rfl

theorem tokenizeFrom_unclosed (unclosed : readQuoted "" false rest = none) :
    tokenizeFrom tokens ((start, '"') :: rest) = .error (.unterminatedQuotedString start) := by
  have found : readQuotedString ((start, '"') :: rest) =
      .error (.unterminatedQuotedString start) := by
    rw [readQuotedString, unclosed]
  rw [tokenizeFrom, dif_neg (by decide), dif_pos rfl]
  split
  · rename_i err failed
    rw [found] at failed
    cases failed
    rfl
  · rename_i value after read
    rw [found] at read
    cases read

theorem tokenizeFrom_word {front : CharIndices} (filled : front ≠ [])
    (goes : ∀ ch ∈ charsOf front, isBreak ch = false)
    (stops : ∀ ch ∈ (charsOf left).head?, isBreak ch) :
    tokenizeFrom tokens (front ++ left) =
      tokenizeFrom (tokens ++ [.word (String.ofList (charsOf front))]) left := by
  have read : readWord "" (front ++ left) = _ := readWord_append goes stops
  obtain ⟨⟨start, ch⟩, more, rfl⟩ := List.exists_cons_of_ne_nil filled
  have first : isBreak ch = false := goes ch List.mem_cons_self
  obtain ⟨unblank, unquoted⟩ : ¬ isBlank ch ∧ ch ≠ '"' := by simpa [isBreak] using first
  rw [List.cons_append] at read ⊢
  rw [tokenizeFrom, dif_neg unblank, dif_neg unquoted]
  dsimp only
  rw [read, String.empty_append]

/-- The loop finds the tokens of the grammar. -/
theorem tokenizeFrom_append {text : List Char} (lexes : Lexes text found)
    (spelled : charsOf chars = text) (next : ∀ ch ∈ (charsOf left).head?, ch = '"') :
    tokenizeFrom tokens (chars ++ left) = tokenizeFrom (tokens ++ found) left := by
  induction lexes generalizing tokens chars with
  | nil =>
    obtain rfl := List.map_eq_nil_iff.mp spelled
    rw [List.nil_append, List.append_nil]
  | blank blank lexes ih =>
    obtain ⟨start, rest, rfl, after⟩ := exists_of_charsOf_eq_cons spelled
    rw [List.cons_append, tokenizeFrom_blank blank, ih after]
  | quotedString body lexes ih =>
    obtain ⟨start, rest, rfl, after⟩ := exists_of_charsOf_eq_cons spelled
    obtain ⟨front, behind, rfl, inside, closing⟩ := List.map_eq_append_iff.mp after
    obtain ⟨stop, rest, rfl, others⟩ := exists_of_charsOf_eq_cons closing
    rw [List.cons_append, List.append_assoc, List.cons_append,
      tokenizeFrom_closed (readQuoted_append body inside), ih others, List.append_assoc,
      String.empty_append]
    rfl
  | word filled goes stops lexes ih =>
    obtain ⟨front, rest, rfl, rfl, rfl⟩ := List.map_eq_append_iff.mp spelled
    rw [List.append_assoc, tokenizeFrom_word (fun none => filled (congrArg _ none)) goes, ih rfl,
      List.append_assoc]
    · rfl
    · cases rest with
      | nil =>
        intro ch first
        rw [next ch first]
        rfl
      | cons head rest => exact stops

theorem lexes_or_unclosed (chars : CharIndices) :
    (∃ found, Lexes (charsOf chars) found) ∨
      ∃ front start body found, chars = front ++ (start, '"') :: body ∧
        Lexes (charsOf front) found ∧ Unclosed (charsOf body) := by
  induction length : chars.length using Nat.strong_induction_on generalizing chars with
  | _ n ih =>
    subst length
    rcases chars with _ | ⟨⟨start, ch⟩, rest⟩
    · exact .inl ⟨[], .nil⟩
    by_cases blank : isBlank ch
    · rcases ih rest.length (Nat.lt_succ_self _) rest rfl with
        ⟨found, lexes⟩ | ⟨front, at_, body, found, rfl, lexes, unclosed⟩
      · exact .inl ⟨found, .blank blank lexes⟩
      · exact .inr ⟨(start, ch) :: front, at_, body, found, rfl, .blank blank lexes, unclosed⟩
    by_cases quote : ch = '"'
    · subst quote
      cases closed : readQuoted "" false rest with
      | none => exact .inr ⟨[], start, rest, [], rfl, .nil, readQuoted_eq_none_iff.mp closed⟩
      | some read =>
        have shorter := length_readQuoted_lt closed
        obtain ⟨inside, stop, value, rfl, text⟩ := exists_body_of_readQuoted closed
        rcases ih read.2.length (shorter.trans (Nat.lt_succ_self _)) read.2 rfl with
          ⟨found, lexes⟩ | ⟨front, at_, body, found, same, lexes, unclosed⟩
        · refine .inl ⟨.quotedString (String.ofList value) :: found, ?_⟩
          rw [charsOf_cons, charsOf, List.map_append]
          exact .quotedString text lexes
        · refine .inr ⟨(start, '"') :: (inside ++ (stop, '"') :: front), at_, body,
            .quotedString (String.ofList value) :: found, ?_, ?_, unclosed⟩
          · rw [same, List.cons_append, List.append_assoc, List.cons_append]
          · rw [charsOf_cons, charsOf, List.map_append]
            exact .quotedString text lexes
    · obtain ⟨front, left, same, goes, stops⟩ := exists_break ((start, ch) :: rest)
      have filled : front ≠ [] := by
        rintro rfl
        rw [List.nil_append] at same
        rw [← same] at stops
        have first : isBreak ch := stops ch rfl
        simp [isBreak, blank, quote] at first
      have shorter : left.length < ((start, ch) :: rest).length := by
        rw [same, List.length_append]
        exact Nat.lt_add_of_pos_left (List.length_pos_iff.mpr filled)
      rw [same]
      rcases ih left.length shorter left rfl with
        ⟨found, lexes⟩ | ⟨before, at_, body, found, rfl, lexes, unclosed⟩
      · refine .inl ⟨.word (String.ofList (charsOf front)) :: found, ?_⟩
        rw [charsOf, List.map_append]
        exact .word (fun none => filled (List.map_eq_nil_iff.mp none)) goes stops lexes
      · refine .inr ⟨front ++ before, at_, body, .word (String.ofList (charsOf front)) :: found,
          (List.append_assoc ..).symm, ?_, unclosed⟩
        rw [charsOf, List.map_append]
        refine .word (fun none => filled (List.map_eq_nil_iff.mp none)) goes ?_ lexes
        intro first head
        refine stops first ?_
        cases before with
        | nil => cases head
        | cons one more => exact head

end Loop

/-! ### Whole inputs -/

theorem charsOf_charIndices (start : Nat) (text : List Char) :
    charsOf (charIndices start text) = text := by
  induction text generalizing start with
  | nil => rfl
  | cons ch text ih => rw [charIndices, charsOf_cons, ih]

theorem offset_of_charIndices {stop : Nat} {front rest : CharIndices}
    (cut : charIndices start text = front ++ (stop, ch) :: rest) :
    stop = start + (String.ofList (charsOf front)).utf8ByteSize := by
  induction front generalizing start text with
  | nil =>
    cases text with
    | nil => cases cut
    | cons first text =>
      cases cut
      simp
  | cons head front ih =>
    cases text with
    | nil => cases cut
    | cons first text =>
      obtain ⟨rfl, after⟩ := List.cons.inj cut
      rw [ih after, charsOf_cons, String.ofList_cons, String.utf8ByteSize_append,
        String.utf8ByteSize_singleton, Nat.add_assoc]

variable {input : String} {tokens : List Token}

theorem tokenize_of_lexes (lexes : Lexes input.toList tokens) : tokenize input = .ok tokens := by
  have read : tokenizeFrom [] (charIndices 0 input.toList ++ []) = tokenizeFrom ([] ++ tokens) [] :=
    tokenizeFrom_append lexes (charsOf_charIndices 0 input.toList) nofun
  rw [List.append_nil, List.nil_append, tokenizeFrom] at read
  exact read

theorem tokenize_unclosed {front rest : CharIndices} {start : Nat}
    (cut : charIndices 0 input.toList = front ++ (start, '"') :: rest)
    (lexes : Lexes (charsOf front) tokens) (unclosed : Unclosed (charsOf rest)) :
    tokenize input = .error (.unterminatedQuotedString start) := by
  rw [tokenize, cut, tokenizeFrom_append lexes rfl]
  · exact tokenizeFrom_unclosed (readQuoted_eq_none_iff.mpr unclosed)
  · rintro _ ⟨⟩
    rfl

theorem tokenize_eq_ok : tokenize input = .ok tokens ↔ Lexes input.toList tokens := by
  refine ⟨fun read => ?_, tokenize_of_lexes⟩
  rcases lexes_or_unclosed (charIndices 0 input.toList) with
    ⟨found, lexes⟩ | ⟨front, start, rest, found, cut, lexes, unclosed⟩
  · rw [charsOf_charIndices] at lexes
    rw [tokenize_of_lexes lexes] at read
    cases read
    exact lexes
  · rw [tokenize_unclosed cut lexes unclosed] at read
    cases read

theorem tokenize_eq_error {err : CommandError} :
    tokenize input = .error err ↔ ∃ front body found,
      input = front ++ String.ofList ('"' :: body) ∧ tokenize front = .ok found ∧ Unclosed body ∧
        err = .unterminatedQuotedString front.utf8ByteSize := by
  constructor
  · intro failed
    rcases lexes_or_unclosed (charIndices 0 input.toList) with
      ⟨found, lexes⟩ | ⟨front, start, rest, found, cut, lexes, unclosed⟩
    · rw [charsOf_charIndices] at lexes
      rw [tokenize_of_lexes lexes] at failed
      cases failed
    · rw [tokenize_unclosed cut lexes unclosed] at failed
      refine ⟨String.ofList (charsOf front), charsOf rest, found, ?_, tokenize_of_lexes (by simpa),
        unclosed, ?_⟩
      · apply String.toList_inj.mp
        rw [← charsOf_charIndices 0 input.toList, cut]
        simp
      · cases failed
        rw [offset_of_charIndices cut, Nat.zero_add]
  · rintro ⟨front, body, found, rfl, read, unclosed, rfl⟩
    have spelled := charsOf_charIndices 0 (front ++ String.ofList ('"' :: body)).toList
    rw [String.toList_append, String.toList_ofList] at spelled
    obtain ⟨before, after, cut, same, behind⟩ := List.map_eq_append_iff.mp spelled
    obtain ⟨start, rest, rfl, inside⟩ := exists_of_charsOf_eq_cons behind
    rw [← String.toList_ofList (l := '"' :: body), ← String.toList_append] at cut
    rw [← inside] at unclosed
    rw [tokenize_unclosed cut (same ▸ tokenize_eq_ok.mp read) unclosed, offset_of_charIndices cut,
      Nat.zero_add]
    have whole : charsOf before = front.toList := same
    rw [whole, String.ofList_toList]

/-! ### Quoting -/

def escape (ch : Char) : List Char := if ch = '"' ∨ ch = '\\' then ['\\', ch] else [ch]

def quote (text : String) : List Char := '"' :: (text.toList.flatMap escape ++ ['"'])

inductive Joined : List String → List Char → Prop
  | nil : Joined [] []
  | last (text : String) : Joined [text] (quote text)
  | cons (text : String) {run rest : List Char} {next : String} {texts : List String}
      (filled : run ≠ []) (blank : ∀ ch ∈ run, isBlank ch) :
      Joined (next :: texts) rest → Joined (text :: next :: texts) (quote text ++ (run ++ rest))

theorem body_escape (text : List Char) : Body (text.flatMap escape) text := by
  induction text with
  | nil => exact .nil
  | cons ch text ih =>
    rw [List.flatMap_cons, escape]
    split
    · rename_i special
      have same : unescape ch = ch := by
        rcases special with rfl | rfl <;> rfl
      have escaped : Body ('\\' :: ch :: text.flatMap escape) (unescape ch :: text) := .escape ih
      rwa [same] at escaped
    · rename_i plain
      obtain ⟨unquoted, unescaped⟩ := not_or.mp plain
      exact .plain unquoted unescaped ih

theorem lexes_quote {text : String} {rest : List Char} (lexes : Lexes rest tokens) :
    Lexes (quote text ++ rest) (.quotedString text :: tokens) := by
  have quoted := Lexes.quotedString (body_escape text.toList) lexes
  rw [String.ofList_toList] at quoted
  rw [quote, List.cons_append, List.append_assoc]
  exact quoted

theorem lexes_run {run rest : List Char} (blank : ∀ ch ∈ run, isBlank ch)
    (lexes : Lexes rest tokens) : Lexes (run ++ rest) tokens := by
  induction run with
  | nil => exact lexes
  | cons ch run ih =>
    obtain ⟨first, others⟩ := List.forall_mem_cons.mp blank
    exact .blank first (ih others)

theorem lexes_joined {texts : List String} (joined : Joined texts text) :
    Lexes text (texts.map .quotedString) := by
  induction joined with
  | nil => exact .nil
  | last text =>
    have alone : Lexes (quote text ++ []) [.quotedString text] := lexes_quote .nil
    rwa [List.append_nil] at alone
  | cons text filled blank joined ih => exact lexes_quote (lexes_run blank ih)

/-- **Quoting round trip**: quoted strings with blanks between them are read back in order. The
only failure is a quoted string without its closing quote, behind text that can be read. -/
theorem tokenize_quoting :
    (∀ (texts : List String) (text : List Char), Joined texts text →
      tokenize (String.ofList text) = .ok (texts.map .quotedString)) ∧
    ∀ (input : String) (err : CommandError), tokenize input = .error err ↔
      ∃ front body found, input = front ++ String.ofList ('"' :: body) ∧
        tokenize front = .ok found ∧ Unclosed body ∧
        err = .unterminatedQuotedString front.utf8ByteSize := by
  refine ⟨fun texts text joined => tokenize_of_lexes ?_, fun input err => tokenize_eq_error⟩
  rw [String.toList_ofList]
  exact lexes_joined joined

example : tokenize "set name \"John \\\"Doe\\\"\"" =
    .ok [.word "set", .word "name", .quotedString "John \"Doe\""] := by decide +kernel

end Lexer

end Vaylix
