import MessageCatalog.Decimal
import MessageCatalog.Text.Diagnostic
import MessageCatalog.Text.Quoted

set_option autoImplicit false

/-! # Tokens of the PO format

The text form of a catalog is made of keywords, quoted strings and comments. A token knows the
positions of its first and of its last character.

`scan` reads the tokens of a text. Between tokens there may be white space. A string ends in the
line it starts in, unless a backslash stands before the line break; other escapes stand for single
characters. Reading stops at the first character that belongs to no token.
-/

namespace MessageCatalog.Po

open Text (Position Placed)

/-- The kinds of comments, told apart by the character after the number sign. -/
inductive CommentKind
  | translator
  | automatic
  | reference
  | flags
  | previous
  | obsolete
  deriving Repr, DecidableEq

/-- What a token says. -/
inductive Lexeme
  | msgctxt
  | msgid
  | msgidPlural
  | msgstr
  /-- The keyword of a plural form, with the number of the form. -/
  | msgstrForm (index : Nat)
  | comment (kind : CommentKind) (text : String)
  | text (value : String)
  deriving Repr, DecidableEq

/-- A token and where it stands. -/
structure Token where
  start : Position
  stop : Position
  lexeme : Lexeme
  deriving Repr, DecidableEq

/-- What can be wrong with a PO text. -/
inductive Fault
  | unterminatedString
  | nothingEscaped
  | unknownEscape (c : Char)
  | domainKeyword
  | missingIndex
  | missingBracket
  | unknownKeyword (word : String)
  | unexpectedCharacter (c : Char)
  | missingText
  | missingMessage
  | formOutOfOrder (expected : Nat)
  | missingForms
  | formWithoutPlural
  | missingTarget
  deriving Repr, DecidableEq

/-- The wording of a fault. -/
def Fault.message : Fault → String
  | unterminatedString => "unterminated string"
  | nothingEscaped => "expected a character to escape"
  | unknownEscape c => "unknown escaped character " ++ Text.quotedChar c
  | domainKeyword =>
      "the \"domain\" keyword is unsupported due to the lack of documentation about it"
  | missingIndex => "expected the index of a plural form"
  | missingBracket => "expected ']'"
  | unknownKeyword word => "unknown keyword " ++ Text.quoted word
  | unexpectedCharacter c => "unexpected character " ++ Text.quotedChar c
  | missingText => "expected one or more strings"
  | missingMessage => "expected msgctxt or msgid"
  | formOutOfOrder expected =>
      "expected msgstr[" ++ toString expected ++ "], plural forms must be listed in order"
  | missingForms => "expected msgstr[0]"
  | formWithoutPlural => "msgstr[N] is only allowed after msgid_plural"
  | missingTarget => "expected msgstr"

/-- A fault and where it was found. -/
structure Error where
  position : Position
  fault : Fault
  deriving Repr, DecidableEq

/-- The error with its wording. -/
def Error.toSyntaxError (e : Error) : Text.SyntaxError := ⟨e.position, e.fault.message⟩

/-! ## Classes of characters -/

/-- White space between tokens: all the blanks of ASCII, the vertical tab among them. -/
def isSpace (c : Char) : Bool :=
  c == '\t' || c == '\n' || c == '\x0b' || c == '\x0c' || c == '\r' || c == ' '

/-- A character that a keyword starts with. -/
def startsWord (c : Char) : Bool := c.isAlpha || c == '_'

/-- A character that a keyword goes on with. -/
def isWordChar (c : Char) : Bool := c.isAlphanum || c == '_'

/-- The kind of comment that the character after the number sign announces. -/
def CommentKind.announcedBy? : Char → Option CommentKind
  | '.' => some .automatic
  | ':' => some .reference
  | ',' => some .flags
  | '|' => some .previous
  | '~' => some .obsolete
  | _ => none

/-- The character that a letter stands for after a backslash. -/
def unescape? : Char → Option Char
  | 'n' => some '\n'
  | 't' => some '\t'
  | 'b' => some '\x08'
  | 'r' => some '\r'
  | 'f' => some '\x0c'
  | 'v' => some '\x0b'
  | 'a' => some '\x07'
  | '\\' => some '\\'
  | '"' => some '"'
  | _ => none

/-! ## Reading one token -/

/-- The result of looking for a token: the end of the text, an error, or a token and the rest of
the text. -/
inductive Step
  | done
  | failed (e : Error)
  | token (t : Token) (rest : List Placed)
  deriving Repr, DecidableEq

/-- The characters without their positions, as a text. -/
def textOf (chars : List Placed) : String := String.ofList (chars.map Prod.snd)

/-- The position of the last character, or `before` if there is none. -/
def lastOf (before : Position) (chars : List Placed) : Position :=
  (chars.getLast?.map Prod.fst).getD before

/-- A string read up to and with its closing quote. -/
structure Body where
  value : List Char
  stop : Position
  rest : List Placed
  deriving Repr, DecidableEq

/-- With one more character in front. -/
def Body.cons (c : Char) (b : Body) : Body := { b with value := c :: b.value }

/-- Reads a string after its opening quote. `last` is the position of the character before. -/
def readBody (last : Position) : List Placed → Except Error Body
  | [] => .error ⟨last, .unterminatedString⟩
  | (p, c) :: rest =>
      if c = '\n' then .error ⟨last, .unterminatedString⟩
      else if c = '"' then .ok ⟨[], p, rest⟩
      else if c = '\\' then
        match rest with
        | [] => .error ⟨p, .nothingEscaped⟩
        | (q, d) :: more =>
            -- A backslash at the end of a line joins it with the next one.
            if d = '\n' then readBody q more
            else match unescape? d with
              | some u => (readBody q more).map (Body.cons u)
              | none => .error ⟨q, .unknownEscape d⟩
      else (readBody p rest).map (Body.cons c)

/-- A string token whose opening quote stands at `start`. -/
def stringToken (start : Position) (rest : List Placed) : Step :=
  match readBody start rest with
  | .error e => .failed e
  | .ok body => .token ⟨start, body.stop, .text (String.ofList body.value)⟩ body.rest

/-- A comment of the given kind that goes on after `last` up to the end of the line. -/
def commentToken (start last : Position) (kind : CommentKind) (rest : List Placed) : Step :=
  let inLine := fun placed : Placed => placed.2 ≠ '\n'
  let text := rest.takeWhile inLine
  .token ⟨start, lastOf last text, .comment kind (textOf text)⟩ (rest.dropWhile inLine)

/-- The index of a plural form, after its opening bracket at `last`. -/
def formToken (start last : Position) (rest : List Placed) : Step :=
  let isDigit := fun placed : Placed => placed.2.isDigit
  let digits := rest.takeWhile isDigit
  let value := Decimal.valueUpTo UInt64.size (digits.map fun placed => placed.2.toNat - 48)
  let last := lastOf last digits
  -- An index that does not fit into 64 bits is as bad as none.
  if digits.isEmpty || UInt64.size ≤ value then .failed ⟨last, .missingIndex⟩
  else match rest.dropWhile isDigit with
    | (p, ']') :: more => .token ⟨start, p, .msgstrForm value⟩ more
    | _ => .failed ⟨last, .missingBracket⟩

/-- The keyword that a word is. -/
def keyword (word : String) : Except Fault Lexeme :=
  if word = "domain" then .error .domainKeyword
  else if word = "msgctxt" then .ok .msgctxt
  else if word = "msgid" then .ok .msgid
  else if word = "msgid_plural" then .ok .msgidPlural
  else if word = "msgstr" then .ok .msgstr
  else .error (.unknownKeyword word)

/-- A keyword that starts with the character `c` at `start`. An index in brackets may follow
`msgstr` directly. -/
def keywordToken (start : Position) (c : Char) (rest : List Placed) : Step :=
  let inWord := fun placed : Placed => isWordChar placed.2
  let letters := rest.takeWhile inWord
  let stop := lastOf start letters
  match keyword (String.ofList (c :: letters.map Prod.snd)), rest.dropWhile inWord with
  | .error fault, _ => .failed ⟨stop, fault⟩
  | .ok .msgstr, (p, '[') :: index => formToken start p index
  | .ok lexeme, more => .token ⟨start, stop, lexeme⟩ more

/-- Looks for the next token. -/
def readToken (chars : List Placed) : Step :=
  match chars.dropWhile fun placed => isSpace placed.2 with
  | [] => .done
  | (p, c) :: rest =>
      if c = '#' then
        match rest with
        | (q, d) :: more =>
            match CommentKind.announcedBy? d with
            | some kind => commentToken p q kind more
            | none => commentToken p p .translator rest
        | [] => commentToken p p .translator rest
      else if c = '"' then stringToken p rest
      else if startsWord c then keywordToken p c rest
      else .failed ⟨p, .unexpectedCharacter c⟩

/-! ## Reading all tokens

A token takes at least one character, so reading comes to an end. -/

theorem map_cons_eq_ok {c : Char} {result : Except Error Body} {body : Body}
    (h : result.map (Body.cons c) = .ok body) :
    ∃ inner, result = .ok inner ∧ inner.rest = body.rest := by
  cases result with
  | error e => cases h
  | ok inner => cases h; exact ⟨inner, rfl, rfl⟩

theorem length_readBody {last : Position} {chars : List Placed} {body : Body}
    (h : readBody last chars = .ok body) : body.rest.length < chars.length := by
  fun_induction readBody last chars generalizing body <;> grind [map_cons_eq_ok]

theorem length_dropWhile_le (p : Placed → Bool) (chars : List Placed) :
    (chars.dropWhile p).length ≤ chars.length := (List.dropWhile_suffix p).length_le

theorem length_commentToken {start last : Position} {kind : CommentKind} {chars rest : List Placed}
    {t : Token} (h : commentToken start last kind chars = .token t rest) :
    rest.length ≤ chars.length := by
  simp only [commentToken, Step.token.injEq] at h
  exact h.2 ▸ length_dropWhile_le _ _

theorem length_formToken {start last : Position} {chars rest : List Placed} {t : Token}
    (h : formToken start last chars = .token t rest) : rest.length ≤ chars.length := by
  simp only [formToken] at h
  split at h
  · cases h
  · split at h
    · rename_i p more hm
      simp only [Step.token.injEq] at h
      have := length_dropWhile_le (fun placed : Placed => placed.2.isDigit) chars
      rw [hm] at this
      simp [← h.2] at this ⊢
      omega
    · cases h

theorem length_keywordToken {start : Position} {c : Char} {chars rest : List Placed} {t : Token}
    (h : keywordToken start c chars = .token t rest) : rest.length ≤ chars.length := by
  have hle := length_dropWhile_le (fun placed : Placed => isWordChar placed.2) chars
  simp only [keywordToken] at h
  split at h
  · cases h
  · rename_i hm
    have := length_formToken h
    rw [hm] at hle
    simp only [List.length_cons] at hle
    omega
  · cases h
    exact hle

theorem length_readToken {chars rest : List Placed} {t : Token}
    (h : readToken chars = .token t rest) : rest.length < chars.length := by
  have hle := length_dropWhile_le (fun placed : Placed => isSpace placed.2) chars
  simp only [readToken] at h
  split at h
  · cases h
  · rename_i p c more hm
    rw [hm] at hle
    simp only [List.length_cons] at hle
    split at h
    · split at h
      · simp only [List.length_cons] at hle
        split at h <;> have := length_commentToken h <;> simp at this ⊢ <;> omega
      · have := length_commentToken h
        omega
    · split at h
      · simp only [stringToken] at h
        split at h
        · cases h
        · rename_i body hb
          cases h
          have := length_readBody hb
          omega
      · split at h
        · have := length_keywordToken h
          omega
        · cases h

/-- The tokens of a text and, if it does not end after the last of them, the error there. -/
def scanFrom (chars : List Placed) : List Token × Option Error :=
  match _h : readToken chars with
  | .done => ([], none)
  | .failed e => ([], some e)
  | .token t rest =>
      let (tokens, failure) := scanFrom rest
      (t :: tokens, failure)
termination_by chars.length
decreasing_by exact length_readToken _h

/-- The tokens of a text and, if it does not end after the last of them, the error there. -/
def scan (text : String) : List Token × Option Error := scanFrom (Text.positions text.toList)

end MessageCatalog.Po
