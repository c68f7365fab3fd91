import SovaVerified.Regex.Regex

/-!
# The egress filter

`sova/llm/egress.py`: what is taken out of a text before it is posted. The patterns are applied one after the
other, each to what the ones before it have left. Log lines are left out, and with them the destination.

The alphabet is the one that `\b` and `\w` of a regular expression go by.
-/

namespace Llm.Egress

variable (A : Text.Alphabet)

/-! ## Classes of characters -/

/-- `[A-Z0-9]`. -/
def isUpperOrDigit (c : Char) : Bool := c.isUpper || c.isDigit

/-- `[A-Za-z0-9]`. -/
def isAlnum (c : Char) : Bool := c.isAlpha || c.isDigit

/-- `[a-z0-9]` without regard to case. -/
def isAlnumFolded (c : Char) : Bool :=
  isAlnum c || c.toNat == 0x130 || c.toNat == 0x131 || c.toNat == 0x17f || c.toNat == 0x212a

/-- `[A-Za-z0-9_\-\/.+=]` without regard to case. -/
def isValueChar (c : Char) : Bool := isAlnumFolded c || "_-/.+=".toList.contains c

/-- `[A-Za-z0-9\-]`. -/
def isSlackChar (c : Char) : Bool := isAlnum c || c == '-'

/-- `[A-Za-z0-9_-]`. -/
def isBase64Url (c : Char) : Bool := isAlnum c || c == '_' || c == '-'

/-- `\S`. -/
def isVisible (c : Char) : Bool := !Text.isSpace c

/-- `['"]?`. -/
def quote : Regex := .rep 0 (some 1) fun c => c == '\'' || c == '"'

/-- `[_-]?`. -/
def joint : Regex := .rep 0 (some 1) fun c => c == '_' || c == '-'

/-- `\s*[=:]\s*`. -/
def separator : Regex := .seq Regex.spaces (.seq (.chr fun c => c == '=' || c == ':') Regex.spaces)

/-- The first of several expressions that matches. -/
def firstOf (rs : List Regex) : Regex := rs.foldr .alt (.chr fun _ => false)

/-! ## The patterns -/

/-- An entry of the table: the expression between what must stand in front of it and behind it, with the
category and what is written instead. -/
structure Pattern where
  starts : Option Char → Option Char → Bool := fun _ _ => true
  regex : Regex
  stops : Option Char → Option Char → Bool := fun _ _ => true
  category : Text
  replacement : Text

/-- `(?<![A-Z0-9])AKIA[0-9A-Z]{16}(?![A-Z0-9])`. -/
def awsAccessKey : Pattern where
  starts a _ := !a.any isUpperOrDigit
  regex := .seq (Regex.exact "AKIA") (.rep 16 (some 16) isUpperOrDigit)
  stops _ b := !b.any isUpperOrDigit
  category := "aws_access_key".toList
  replacement := "[REDACTED:aws_key]".toList

/-- `(?:aws_secret_access_key|aws_secret)\s*[=:]\s*([a-z0-9/+=]{40})`. -/
def awsSecretKey : Pattern where
  regex := .seq (firstOf [Regex.lit "aws_secret_access_key", Regex.lit "aws_secret"])
    (.seq separator (.cap 1 (.rep 40 (some 40) fun c => isAlnumFolded c || "/+=".toList.contains c)))
  category := "aws_secret_key".toList
  replacement := "[REDACTED:aws_secret]".toList

/-- Two words with `[_-]?` between them. -/
def joined (first second : String) : Regex := .seq (Regex.lit first) (.seq joint (Regex.lit second))

/-- `['"]?([...]{8,})` of a class. -/
def value : Regex := .seq quote (.cap 1 (.rep 8 none isValueChar))

/-- The labels of API keys. -/
def apiLabel : Regex :=
  firstOf [joined "api" "key", joined "api" "secret", joined "secret" "key", joined "access" "key",
    joined "private" "key", joined "auth" "token", Regex.lit "authorization", Regex.lit "bearer"]

/-- `(?:api[_-]?key|...|bearer)\s*[=:]\s*['"]?([A-Za-z0-9_\-\/.+=]{8,})['"]?`. -/
def apiKey : Pattern where
  regex := .seq apiLabel (.seq separator (.seq value quote))
  category := "api_key".toList
  replacement := "[REDACTED:api_key]".toList

/-- `\b(sk-[A-Za-z0-9]{20,})\b`. -/
def skApiKey : Pattern where
  starts := Regex.isBoundary A
  regex := .cap 1 (.seq (Regex.exact "sk-") (.rep 20 none isAlnum))
  stops := Regex.isBoundary A
  category := "sk_api_key".toList
  replacement := "[REDACTED:sk_key]".toList

/-- `\b(gh[pousr]_\w{36,}|github_pat_\w{82,})\b`. -/
def githubToken : Pattern where
  starts := Regex.isBoundary A
  regex := .cap 1 (.alt
    (.seq (Regex.exact "gh") (.seq (.chr fun c => "pousr".toList.contains c)
      (.seq (.chr (· == '_')) (.rep 36 none A.isWord))))
    (.seq (Regex.exact "github_pat_") (.rep 82 none A.isWord)))
  stops := Regex.isBoundary A
  category := "github_token".toList
  replacement := "[REDACTED:github_token]".toList

/-- `\b(xox[bpoa]-[A-Za-z0-9\-]+)\b`. -/
def slackToken : Pattern where
  starts := Regex.isBoundary A
  regex := .cap 1 (.seq (Regex.exact "xox") (.seq (.chr fun c => "bpoa".toList.contains c)
    (.seq (.chr (· == '-')) (.rep 1 none isSlackChar))))
  stops := Regex.isBoundary A
  category := "slack_token".toList
  replacement := "[REDACTED:slack_token]".toList

/-- `\b(xapp-[A-Za-z0-9\-]+)\b`. -/
def slackAppToken : Pattern where
  starts := Regex.isBoundary A
  regex := .cap 1 (.seq (Regex.exact "xapp-") (.rep 1 none isSlackChar))
  stops := Regex.isBoundary A
  category := "slack_app_token".toList
  replacement := "[REDACTED:slack_token]".toList

/-- `\b(?:authorization[:\s]+)?bearer\s+([A-Za-z0-9_\-\/.+=]{8,})\b`. -/
def bearerToken : Pattern where
  starts := Regex.isBoundary A
  regex := .seq
    (Regex.opt (.seq (Regex.lit "authorization") (.rep 1 none fun c => c == ':' || Text.isSpace c)))
    (.seq (Regex.lit "bearer") (.seq Regex.spaces1 (.cap 1 (.rep 8 none isValueChar))))
  stops := Regex.isBoundary A
  category := "bearer_token".toList
  replacement := "[REDACTED:bearer_token]".toList

/-- `\btoken\s*[=:]\s*['"]?([a-z0-9_\-\/.+=]{8,})['"]?`, and the same with `secret`. -/
def generic (word : String) (category replacement : Text) : Pattern where
  starts := Regex.isBoundary A
  regex := .seq (Regex.lit word) (.seq separator (.seq value quote))
  category
  replacement

def genericToken : Pattern := generic A "token" "generic_token".toList "[REDACTED:token]".toList

def genericSecret : Pattern := generic A "secret" "generic_secret".toList "[REDACTED:secret]".toList

/-- `password|passwd|pwd`. -/
def passwordLabel : Regex := firstOf [Regex.lit "password", Regex.lit "passwd", Regex.lit "pwd"]

/-- `(?:password|passwd|pwd)\s*[=:]\s*['"]?(\S{4,})['"]?`. -/
def password : Pattern where
  regex := .seq passwordLabel (.seq separator (.seq quote (.seq (.cap 1 (.rep 4 none isVisible)) quote)))
  category := "password".toList
  replacement := "[REDACTED:password]".toList

/-- `(?:postgresql|mysql|mongodb|redis|amqp|mssql)://`. -/
def scheme : Regex :=
  .seq (firstOf [Regex.exact "postgresql", Regex.exact "mysql", Regex.exact "mongodb", Regex.exact "redis",
    Regex.exact "amqp", Regex.exact "mssql"]) (Regex.exact "://")

/-- `[^\s:]`. -/
def isUserChar (c : Char) : Bool := isVisible c && c != ':'

/-- `[^\s@]`. -/
def isPassChar (c : Char) : Bool := isVisible c && c != '@'

/-- `((?:postgresql|...|mssql)://)[^\s:]+:([^\s@]+)@`. -/
def connectionString : Pattern where
  regex := .seq (.cap 1 scheme) (.seq (.rep 1 none isUserChar) (.seq (.chr (· == ':'))
    (.seq (.cap 2 (.rep 1 none isPassChar)) (.chr (· == '@')))))
  category := "connection_string".toList
  replacement := []

/-- `-----BEGIN (?:RSA |EC |DSA |OPENSSH )?PRIVATE KEY-----`. -/
def privateKey : Pattern where
  regex := .seq (Regex.exact "-----BEGIN ")
    (.seq (Regex.opt
        (firstOf [Regex.exact "RSA ", Regex.exact "EC ", Regex.exact "DSA ", Regex.exact "OPENSSH "]))
      (Regex.exact "PRIVATE KEY-----"))
  category := "private_key".toList
  replacement := "[REDACTED:private_key]".toList

/-- `\beyJ[A-Za-z0-9_-]{10,}\.eyJ[A-Za-z0-9_-]{10,}\.[A-Za-z0-9_\-+/=]{10,}\b`. -/
def jwt : Pattern where
  starts := Regex.isBoundary A
  regex := .seq (Regex.exact "eyJ") (.seq (.rep 10 none isBase64Url) (.seq (Regex.exact ".eyJ")
    (.seq (.rep 10 none isBase64Url) (.seq (.chr (· == '.'))
      (.rep 10 none fun c => isBase64Url c || "+/=".toList.contains c)))))
  stops := Regex.isBoundary A
  category := "jwt".toList
  replacement := "[REDACTED:jwt]".toList

/-- `_SENSITIVE_PATTERNS`. -/
def sensitivePatterns : List Pattern :=
  [awsAccessKey, awsSecretKey, apiKey, skApiKey A, githubToken A, slackToken A, slackAppToken A, bearerToken A,
   genericToken A, genericSecret A, password, connectionString, privateKey, jwt A]

/-! ## The scan -/

/-- `_redact_connection_string`. -/
def redactConnectionString (groups : Regex.Groups) : Text := (groups.get 1).getD [] ++ "[REDACTED]@".toList

/-- What the pattern writes instead of a match. -/
def Pattern.write (p : Pattern) (groups : Regex.Groups) : Text :=
  if p.category = "connection_string".toList then redactConnectionString groups else p.replacement

def Pattern.find (p : Pattern) : Regex.Matcher Text := Regex.rewriter p.starts p.stops p.regex p.write

/-- `pattern.sub(...)`. -/
def Pattern.sub (p : Pattern) (text : Text) : Text := Regex.subAll p.find none 0 text

structure EgressScanResult where
  clean : Bool
  flags : List Text := []
  redactedText : Text := []

/-- One round of the loop: the flags and the text. -/
def scanPattern (state : List Text × Text) (p : Pattern) : List Text × Text :=
  let newText := p.sub state.2
  if newText ≠ state.2 then
    (if p.category ∉ state.1 then state.1 ++ [p.category] else state.1, newText)
  else state

def scanAndRedact (text : Text) : EgressScanResult :=
  if text = [] then { clean := true, redactedText := text }
  else
    let state := (sensitivePatterns A).foldl scanPattern ([], text)
    { clean := state.1.length == 0, flags := state.1, redactedText := state.2 }

inductive EgressMode where
  | off
  | warn
  | block
  deriving DecidableEq, Repr

/-- `filter_egress`; `none` stands for `None`. -/
def filterEgress (text : Text) (mode : EgressMode) : Option Text :=
  if mode = .off ∨ text = [] then some text
  else
    let result := scanAndRedact A text
    if result.clean then some text
    else if mode = .block then none
    else some result.redactedText

end Llm.Egress
