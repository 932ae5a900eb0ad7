import LetPrint.Text.Blank
import LetPrint.Text.Quoted
import LetPrint.Source.Excerpt
import LetPrint.Diagnostic
import LetPrint.Token.Basic

/-! From text to tokens.

A text is cut into lexemes from the front: a run of blanks, a word, a run of
digits, or a single symbol, each as long as it can be. Words are made of ASCII
letters, digits and underscores and do not begin with a digit; two of them are
keywords. A lexeme that is not blank is a token. At a character that begins no
lexeme the lexer stops, and keeps the tokens before it. -/
namespace LetPrint

/-- A character that can begin a word: an ASCII letter or an underscore. -/
def isWordStart (c : Char) : Bool :=
  c.isAlpha || c == '_'

/-- A character that can go on with a word. -/
def isWordChar (c : Char) : Bool :=
  c.isAlphanum || c == '_'

/-- What kind of token a word is. -/
def wordKind (word : List Char) : TokenKind :=
  if word = "let".toList then .letWord
  else if word = "print".toList then .printWord
  else .ident

/-- What kind of token a symbol is. -/
def symbolKind? : Char → Option TokenKind
  | '=' => some .equals
  | '+' | '-' | '*' | '/' => some .operator
  | ';' => some .semicolon
  | '(' => some .openParen
  | ')' => some .closeParen
  | _ => none

/-- A piece of text that belongs together; blanks have no kind. -/
structure Lexeme where
  kind : Option TokenKind
  text : List Char
deriving DecidableEq, Repr

/-- The token that a lexeme at an offset is, if it is not blank. -/
def Lexeme.token? (l : Lexeme) (offset : Nat) : Option Token :=
  l.kind.map fun kind => ⟨kind, String.ofList l.text, ⟨offset, (offset + l.text.length : Nat)⟩⟩

/-- The lexeme at the front of a text, and the text after it. -/
def firstLexeme? : List Char → Option (Lexeme × List Char)
  | [] => none
  | c :: cs =>
    if Text.isBlank c then
      some (⟨none, c :: cs.takeWhile Text.isBlank⟩, cs.dropWhile Text.isBlank)
    else if isWordStart c then
      let word := c :: cs.takeWhile isWordChar
      some (⟨some (wordKind word), word⟩, cs.dropWhile isWordChar)
    else if c.isDigit then
      some (⟨some .number, c :: cs.takeWhile Char.isDigit⟩, cs.dropWhile Char.isDigit)
    else (symbolKind? c).map fun kind => (⟨some kind, [c]⟩, cs)

theorem text_append_of_firstLexeme? {cs rest : List Char} {lexeme : Lexeme}
    (h : firstLexeme? cs = some (lexeme, rest)) : lexeme.text ++ rest = cs ∧ lexeme.text ≠ [] := by
  cases cs with
  | nil => simp [firstLexeme?] at h
  | cons c cs =>
    simp only [firstLexeme?] at h
    split at h
    · simp only [Option.some.injEq, Prod.mk.injEq] at h
      obtain ⟨rfl, rfl⟩ := h
      simp
    · split at h
      · simp only [Option.some.injEq, Prod.mk.injEq] at h
        obtain ⟨rfl, rfl⟩ := h
        simp
      · split at h
        · simp only [Option.some.injEq, Prod.mk.injEq] at h
          obtain ⟨rfl, rfl⟩ := h
          simp
        · simp only [Option.map_eq_some_iff, Prod.mk.injEq] at h
          obtain ⟨kind, _, rfl, rfl⟩ := h
          simp

theorem length_lt_of_firstLexeme? {cs rest : List Char} {lexeme : Lexeme}
    (h : firstLexeme? cs = some (lexeme, rest)) : rest.length < cs.length := by
  obtain ⟨happ, hne⟩ := text_append_of_firstLexeme? h
  have := List.length_pos_iff.2 hne
  rw [← happ, List.length_append]
  omega

/-- A character that begins no lexeme, and where it stands. -/
structure UnknownCharacter where
  position : Nat
  char : Char
deriving DecidableEq, Repr

/-- What a lexer makes of a text: tokens, and the character that stopped it, if any did. -/
structure Scan where
  tokens : List Token
  stoppedBy : Option UnknownCharacter
deriving DecidableEq, Repr

/-- The tokens of a text that begins at an offset. -/
def scanFrom (offset : Nat) (cs : List Char) : Scan :=
  match cs with
  | [] => ⟨[], none⟩
  | c :: cs =>
    match h : firstLexeme? (c :: cs) with
    | none => ⟨[], some ⟨offset, c⟩⟩
    | some (lexeme, rest) =>
      have := length_lt_of_firstLexeme? h
      let later := scanFrom (offset + lexeme.text.length) rest
      {later with tokens := (lexeme.token? offset).toList ++ later.tokens}
termination_by cs.length
decreasing_by assumption

/-- The tokens of a text. -/
def scan (cs : List Char) : Scan :=
  scanFrom 0 cs

namespace UnknownCharacter

def span (u : UnknownCharacter) : Span :=
  ⟨u.position, (u.position + 1 : Nat)⟩

def diagnostic (u : UnknownCharacter) (source : Source) : Diagnostic :=
  .lexical u.position
    (source.excerpt u.span ("Unknown character " ++ Text.quoted (String.singleton u.char)))

end UnknownCharacter

/-- A lexer at work: its text, the tokens it holds, and how far it has read. -/
structure Lexer where
  source : Source
  tokens : List Token
  index : Int

namespace Lexer

def ofText (text : String) : Lexer :=
  ⟨.ofText text, [], 0⟩

/-- The lexer with the tokens of its whole text, whatever it held before. It ends
at the end of the text, or at the character that stopped it. -/
def tokenize (l : Lexer) : Lexer × Except UnknownCharacter (List Token) :=
  let found := scan l.source.chars
  match found.stoppedBy with
  | none =>
    ({l with tokens := found.tokens, index := l.source.chars.length}, .ok found.tokens)
  | some unknown =>
    ({l with tokens := found.tokens, index := unknown.position}, .error unknown)

/-- The lexer with one more token, added by hand. -/
def add (l : Lexer) (token : Token) : Lexer :=
  {l with tokens := l.tokens ++ [token]}

/-- The offset that the lexer is at: a place before the text is its start. -/
def offset (l : Lexer) : Nat :=
  l.index.toNat

/-- The lexeme at the lexer's place, if one begins there. -/
def lexemeHere? (l : Lexer) : Option Lexeme :=
  (firstLexeme? (l.source.chars.drop l.offset)).map Prod.fst

end Lexer

end LetPrint
