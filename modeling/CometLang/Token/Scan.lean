import CometLang.Text.Word
import CometLang.Token.Tag

/-!
# Reading tokens

The words of a program are read from left to right. Most words are a token
each. A word that starts with a quote opens a string, which goes on to the
first word that ends with one; a word that starts with `/*` opens a comment,
which goes on to the first word that ends with `*/`. The words of a string are
joined by single spaces, and the words of a comment are dropped.

The second reader takes words that are tags. It knows strings, and has no
comments.
-/

namespace CometLang

open Text

/-- A letter or digit of ASCII, or the underscore. -/
def isNameChar (c : Char) : Bool :=
  c.isAlphanum || c == '_'

/-- The word ends the string it stands in. -/
def closesString (text : List Char) : Bool :=
  text.getLast? == some '"'

/-- The word ends the comment it stands in. -/
def closesComment (text : List Char) : Bool :=
  "*/".toList.isSuffixOf text

/-- What a word is on its own, before the words behind it are known. -/
inductive WordClass where
  | token (kind : Kind)
  | misspelt (keyword : String)
  | openString
  | openComment
  | unrecognised
deriving DecidableEq, Repr

/-- Keywords come first, then literals, operators and names, then the openers. -/
def WordClass.of (text : List Char) : WordClass :=
  let word := String.ofList text
  match Kind.ofReserved? word with
  | some kind => .token kind
  | none =>
      if isCometLiteral text then
        .token .cometLiteral
      else
        match Kind.ofOperator? word with
        | some kind => .token kind
        | none =>
            if !text.isEmpty && text.all isNameChar then
              match Kind.misspelt? word with
              | some keyword => .misspelt keyword
              | none => .token .identifier
            else if text.head? == some '"' then
              .openString
            else if "/*".toList.isPrefixOf text then
              .openComment
            else
              .unrecognised

namespace Token

/-- The token that is a whole word. -/
def ofWord
    (file : String)
    (kind : Kind)
    (word : Word) : Token :=
  ⟨kind, word.toText, ⟨⟨word.offset, file⟩, ⟨word.stop, file⟩⟩⟩

/-- What the words read so far have left open. -/
inductive Reading where
  /-- Nothing: the next word starts a token or a comment. -/
  | plain
  /-- A string: its first word, and the texts of all its words, latest first. -/
  | string (opening : Word) (parts : List (List Char))
  /-- A comment: its first word. -/
  | comment (opening : Word)
deriving DecidableEq, Repr

/-- The text of a string from the texts of its words, latest first. -/
def stringText (parts : List (List Char)) : String :=
  String.ofList (joinWords parts.reverse)

/-- The string from the opening word to the closing one. -/
def ofString
    (file : String)
    (opening closing : Word)
    (parts : List (List Char)) : Token :=
  ⟨.string, stringText parts, ⟨⟨opening.offset, file⟩, ⟨closing.stop, file⟩⟩⟩

/-- Reads the tokens of the words, given what is open before them. -/
def scanWords
    (file : String) :
    Reading → List Word → Except Fault (List Token)
  | .plain, [] =>
      .ok []
  | .string opening parts, [] =>
      .error ⟨.unterminatedString (stringText parts), ⟨opening.offset, file⟩⟩
  | .comment opening, [] =>
      .error ⟨.unterminatedComment, ⟨opening.offset, file⟩⟩
  | .plain, word :: rest =>
      match WordClass.of word.text with
      | .token kind =>
          (scanWords file .plain rest).map (ofWord file kind word :: ·)
      | .misspelt keyword =>
          .error ⟨.reservedWordMisuse word.toText keyword, ⟨word.offset, file⟩⟩
      | .openString =>
          if isClosedString word.text then
            (scanWords file .plain rest).map (ofWord file .string word :: ·)
          else
            scanWords file (.string word [word.text]) rest
      | .openComment =>
          if 4 ≤ word.text.length && closesComment word.text then
            scanWords file .plain rest
          else
            scanWords file (.comment word) rest
      | .unrecognised =>
          .error ⟨.unrecognisedToken word.toText, ⟨word.offset, file⟩⟩
  | .string opening parts, word :: rest =>
      if closesString word.text then
        (scanWords file .plain rest).map
          (ofString file opening word (word.text :: parts) :: ·)
      else
        scanWords file (.string opening (word.text :: parts)) rest
  | .comment opening, word :: rest =>
      if closesComment word.text then
        scanWords file .plain rest
      else
        scanWords file (.comment opening) rest

/-- The file name of a program that was typed rather than read. -/
def unnamed : String :=
  "shell"

/-- The tokens of a source text. -/
def scan
    (source : String)
    (file : String) : Except Fault (List Token) :=
  scanWords file .plain (Word.split source)

/--
Reads the tokens that the words name as tags. An open string is given by its
first word and the texts of its words, latest first.
-/
def readWords
    (file : String) :
    Option (Word × List (List Char)) → List Word → Except Fault (List Token)
  | none, [] =>
      .ok []
  | some (opening, parts), [] =>
      .error ⟨.unterminatedString (stringText parts), ⟨opening.offset, file⟩⟩
  | none, word :: rest =>
      if word.text.head? == some '"' && !isClosedString word.text then
        readWords file (some (word, [word.text])) rest
      else do
        let token ← ofTag word.toText ⟨word.offset, file⟩
        let tokens ← readWords file none rest
        return token :: tokens
  | some (opening, parts), word :: rest =>
      if closesString word.text then do
        let token ← ofTag (stringText (word.text :: parts)) ⟨opening.offset, file⟩
        let tokens ← readWords file none rest
        return token :: tokens
      else
        readWords file (some (opening, word.text :: parts)) rest

/-- The tokens of a text of tags. -/
def readTags
    (source : String)
    (file : String) : Except Fault (List Token) :=
  readWords file none (Word.split source)

end Token
end CometLang
