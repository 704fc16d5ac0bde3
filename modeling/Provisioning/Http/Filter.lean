import Provisioning.Lib.Numeral
import Provisioning.Ops.Admission

/-!
# The filter of a search

`src/http/filter.ts`: the text of the `filter` parameter is cut into tokens, and the tokens are read as clauses
that `and` joins.
-/

namespace Provisioning.Http

open Lib Lib.Numeral

/-- The operators of the framework. -/
inductive Op where
  | EQ
  | CONTAINS
  | STARTS_WITH
  | ENDS_WITH
  | GT
  | GTE
  | LT
  | LTE
  | EXISTS
  deriving DecidableEq, Repr

/-- What a property of `OP_KEYWORDS` is. It also has those of `Object.prototype`, which are no operators. -/
inductive OpValue where
  | op (op : Op)
  | inherited (key : String)
  deriving DecidableEq, Repr

inductive FilterValue where
  | string (s : String)
  | number (n : Double)
  | boolean (b : Bool)
  deriving DecidableEq, Repr

/-- `cmp(op, path, value)`. -/
structure Comparison where
  op : OpValue
  path : List String
  value : Option FilterValue
  deriving DecidableEq, Repr

/-- The nodes that the parser builds. -/
inductive Node where
  | cmp (c : Comparison)
  | and (nodes : List Comparison)
  deriving DecidableEq, Repr

def Node.comparisons : Node → List Comparison
  | .cmp c => [c]
  | .and nodes => nodes

structure FilterSyntaxError where
  message : String
  deriving DecidableEq, Repr

def OP_KEYWORDS : List (String × Op) :=
  [("eq", .EQ), ("co", .CONTAINS), ("sw", .STARTS_WITH), ("ew", .ENDS_WITH), ("gt", .GT), ("ge", .GTE), ("lt", .LT),
    ("le", .LTE), ("pr", .EXISTS)]

def objectPrototype : List String :=
  ["constructor", "__defineGetter__", "__defineSetter__", "hasOwnProperty", "__lookupGetter__", "__lookupSetter__",
    "isPrototypeOf", "propertyIsEnumerable", "toString", "valueOf", "__proto__", "toLocaleString"]

/-- `OP_KEYWORDS[key]`, with `none` for `undefined`. -/
def opOf (key : String) : Option OpValue :=
  match OP_KEYWORDS.lookup key with
  | some op => some (.op op)
  | none => if key ∈ objectPrototype then some (.inherited key) else none

/-! ## Tokens -/

/-- The characters that `.` does not match. -/
def isLineTerminator (c : Char) : Bool := c.toNat ∈ [10, 13, 8232, 8233]

/-- The rest of a match of `"(?:[^"\\]|\\.)*"`, and what follows it. -/
def closing : List Char → Option (List Char × List Char)
  | [] => none
  | c :: rest =>
    if c = '"' then some (['"'], rest)
    else if c = '\\' then
      match rest with
      | [] => none
      | d :: rest => if isLineTerminator d then none else (closing rest).map fun m => (c :: d :: m.1, m.2)
    else (closing rest).map fun m => (c :: m.1, m.2)

/-- What the first match at the start of the text is, which begins with no white space. -/
def matchToken (text : List Char) : List Char × List Char :=
  match (if text.head? = some '"' then closing text.tail else none) with
  | some m => ('"' :: m.1, m.2)
  | none => (text.takeWhile fun c => !isSpace c, text.dropWhile fun c => !isSpace c)

/-- The tokens of the text. Every match takes a character, so the length of the text is enough of `n`. -/
def tokenizeFrom : Nat → List Char → List (List Char)
  | 0, _ => []
  | _, [] => []
  | n + 1, c :: rest =>
    if isSpace c then tokenizeFrom n rest
    else (matchToken (c :: rest)).1 :: tokenizeFrom n (matchToken (c :: rest)).2

def tokenize (input : List Char) : List (List Char) := tokenizeFrom input.length input

/-! ## Clauses -/

/-- `toLowerCase`. The letters of the keywords are the lower case of ASCII letters only. -/
def toLowerCase (token : List Char) : String := String.ofList (token.map Char.toLower)

def isIdentStart (c : Char) : Bool := c.isAlpha || c = '_'

def isIdentPart (c : Char) : Bool := c.isAlphanum || c = '_'

def isIdent : List Char → Bool
  | [] => false
  | c :: rest => isIdentStart c && rest.all isIdentPart

/-- `IDENT_RE.test(token)`. -/
def testPath (token : List Char) : Bool := (token.splitOn '.').all isIdent

/-- `replace(/\\(.)/g, "$1")`. -/
def unescape : List Char → List Char
  | [] => []
  | c :: rest =>
    if c = '\\' then
      match rest with
      | [] => [c]
      | d :: rest => if isLineTerminator d then c :: d :: unescape rest else d :: unescape rest
    else c :: unescape rest

def parseValue (token : List Char) : Except FilterSyntaxError FilterValue :=
  if token.head? = some '"' then
    if token.getLast? ≠ some '"' ∨ token.length < 2 then
      throw ⟨"unterminated string literal: " ++ String.ofList token⟩
    else pure (.string (String.ofList (unescape token.tail.dropLast)))
  else if token = "true".toList then pure (.boolean true)
  else if token = "false".toList then pure (.boolean false)
  else if number token = .nan ∨ token = [] then
    throw ⟨"expected a quoted string, number, or boolean, got: " ++ String.ofList token⟩
  else pure (.number (number token))

/-- The path, the operator and the value of a clause, and the tokens after them. -/
def parseClause : List (List Char) → Except FilterSyntaxError (Comparison × List (List Char))
  | [] => throw ⟨"expected an attribute path"⟩
  | pathToken :: tokens =>
    if !testPath pathToken then throw ⟨"invalid attribute path: " ++ String.ofList pathToken⟩
    else match tokens with
      | [] => throw ⟨"expected an operator after " ++ String.ofList pathToken⟩
      | opToken :: tokens =>
        match opOf (toLowerCase opToken) with
        | none =>
          throw ⟨"unknown operator: " ++ String.ofList opToken ++ " (expected one of " ++
            ", ".intercalate (OP_KEYWORDS.map Prod.fst) ++ ")"⟩
        | some op =>
          let path := (pathToken.splitOn '.').map String.ofList
          if op = .op .EXISTS then pure (⟨op, path, none⟩, tokens)
          else match tokens with
            | [] => throw ⟨"expected a value after " ++ String.ofList opToken⟩
            | valueToken :: tokens => (parseValue valueToken).map fun value => (⟨op, path, some value⟩, tokens)

/-- The loop over the tokens, of which every round takes one at least. -/
def parseClauses : Nat → Bool → List (List Char) → Except FilterSyntaxError (List Comparison)
  | 0, _, _ => pure []
  | _, _, [] => pure []
  | n + 1, first, token :: tokens =>
    if !first && toLowerCase token != "and" then
      throw ⟨"expected \"and\" between clauses, got: " ++ String.ofList token ++
        " (or, not, and parentheses are not supported)"⟩
    else
      (parseClause (if first then token :: tokens else tokens)).bind fun clause =>
        (parseClauses n false clause.2).map (clause.1 :: ·)

/-- The one comparison, or the `and` of several. -/
def nodeOf : List Comparison → Node
  | [clause] => .cmp clause
  | clauses => .and clauses

def parseFilterString (input : String) : Except FilterSyntaxError Node :=
  let trimmed := trim input
  if trimmed = "" then throw ⟨"filter must not be empty"⟩
  else
    let tokens := tokenize trimmed.toList
    (parseClauses tokens.length true tokens).bind fun clauses =>
      if clauses = [] then throw ⟨"filter must have at least one clause"⟩ else pure (nodeOf clauses)

example : parseFilterString "email eq \"a@b.com\" and age GT 21" =
    .ok (.and [⟨.op .EQ, ["email"], some (.string "a@b.com")⟩, ⟨.op .GT, ["age"], some (.number (.finite 21))⟩]) := by
  decide +kernel

end Provisioning.Http
