/-!
Identifiers of SQL: a name is written bare when it reads as itself, and between double quotes
otherwise.
-/

namespace Glossary.Sql

/-- Words with a meaning of their own, which a bare name must not be. -/
def reservedWords : List String := [
  "all", "and", "any", "as", "asc", "between", "by", "case", "cast", "check", "column",
  "constraint", "create", "cross", "current_date", "current_time", "current_timestamp",
  "date", "default", "delete", "desc", "distinct", "else", "end", "except", "exists", "false",
  "fetch", "for", "foreign", "from", "full", "grant", "group", "having", "in", "index",
  "inner", "insert", "intersect", "interval", "into", "is", "join", "key", "left", "like",
  "limit", "natural", "not", "null", "offset", "on", "or", "order", "outer", "primary",
  "references", "right", "select", "table", "then", "time", "timestamp", "to", "true",
  "union", "unique", "update", "user", "using", "values", "view", "when", "where", "window",
  "with"]

def isNameStart (c : Char) : Bool :=
  ('a' ≤ c && c ≤ 'z') || c == '_'

def isNameChar (c : Char) : Bool :=
  isNameStart c || ('0' ≤ c && c ≤ '9')

def endsName : List Char → Bool
  | [] => true
  | ['\n'] => true
  | c :: rest => isNameChar c && endsName rest

/-- A name of lower-case letters, digits and underscores that starts with no digit; one line feed
may follow it. -/
def isSimpleName : List Char → Bool
  | [] => false
  | c :: rest => isNameStart c && endsName rest

/-- Every double quote is written twice. -/
def doubleQuotes : List Char → List Char
  | [] => []
  | c :: rest => if c = '"' then '"' :: '"' :: doubleQuotes rest else c :: doubleQuotes rest

/-- The written form of a name. -/
def quote (name : String) : String :=
  if isSimpleName name.toList && !reservedWords.contains name then name
  else String.ofList ('"' :: doubleQuotes name.toList ++ ['"'])

end Glossary.Sql
