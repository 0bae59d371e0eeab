import RemnanodeLite.Lib.JsonDecoder

/-! # Scanning a request body

`scanJSONDocument` walks the tokens of a body beside the type that the body is
decoded into. Types are given by their kinds, so that a type may mention itself;
only a chain of pointers has an end. `fold` says which characters Unicode simple
folding identifies, `quote` is the `%q` of an error text. -/

namespace RemnanodeLite.Nodeapi
open JsonText

def maxJSONDepth : ℕ := 64
def maxJSONKeyBytes : ℕ := 1024
def maxJSONDocumentTokens : ℕ := 1048576
def maxOpaqueCollectionItems : ℕ := 65536
def maxControlArrayItems : ℕ := 16384
def maxControlObjectKeys : ℕ := 16384

/-! ### Types -/

inductive Ty (B : Type) where
  | named (b : B)
  | pointer (elem : Ty B)

structure Field (B : Type) where
  name : String
  exported : Bool
  tag : Option String
  type : Ty B

inductive Kind (B : Type) where
  | struct (fields : List (Field B))
  | sequence (elem : Ty B)
  | other

/- `structuralJSONSchema` gives the type that a provider returns, if a pointer to
the type is one. -/
structure Types (B : Type) where
  kind : B → Kind B
  isRawMessage : B → Bool
  structuralJSONSchema : B → Option (Option (Ty B))

variable {B : Type}

def Ty.indirect : Ty B → B
  | named b => b
  | pointer elem => elem.indirect

def indirectSchema (schema : Option (Ty B)) : Option B := schema.map Ty.indirect

def Field.jsonName (field : Field B) : String :=
  match field.tag with
  | some tag => String.ofList (tag.toList.takeWhile (· ≠ ','))
  | none => field.name

/- A later field replaces an earlier one of the same name. -/
structure ObjectFieldSchema (B : Type) where
  entries : List (String × Ty B)

namespace ObjectFieldSchema

def exact (fields : ObjectFieldSchema B) (key : String) : Option (Ty B) :=
  fields.entries.reverse.lookup key

def names (fields : ObjectFieldSchema B) : List String := fields.entries.map Prod.fst

def ofFields (fields : List (Field B)) : ObjectFieldSchema B :=
  ⟨(fields.filter fun field => field.exported && field.jsonName ≠ "-" && field.jsonName ≠ "").map
    fun field => (field.jsonName, field.type)⟩

end ObjectFieldSchema

variable (types : Types B) (fold : Char → Char → Bool) (quote : String → String)

/- `strings.EqualFold`. -/
def equalFold (s t : String) : Bool :=
  s.toList.length = t.toList.length &&
    (s.toList.zip t.toList).all fun p => p.1 = p.2 || fold p.1 p.2

def ObjectFieldSchema.foldedName (fields : ObjectFieldSchema B) (candidate : String) :
    Option String :=
  fields.names.find? (equalFold fold candidate)

def structFields (b : B) : Option (ObjectFieldSchema B) :=
  match types.kind b with
  | .struct fields => some (.ofFields fields)
  | _ => none

def schemaFields (schema : Option (Ty B)) : Option (ObjectFieldSchema B) :=
  match indirectSchema schema with
  | none => none
  | some b => match types.structuralJSONSchema b with
    | some provided => (indirectSchema provided).bind (structFields types)
    | none => structFields types b

def controlArraySchema (schema : Option (Ty B)) : Option (Ty B) × ℕ :=
  match indirectSchema schema with
  | none => (none, maxOpaqueCollectionItems)
  | some b => match types.kind b with
    | .sequence elem =>
      if types.isRawMessage b then (none, maxOpaqueCollectionItems)
      else (some elem, maxControlArrayItems)
    | _ => (none, maxOpaqueCollectionItems)

/-! ### Issues -/

inductive PathElement where
  | key (name : String)
  | index (n : ℕ)
  deriving DecidableEq

structure Issue where
  code : String
  expected : String
  received : String
  maximum : Option ℕ
  path : List PathElement
  message : String
  deriving DecidableEq

def missingIssue (path : List PathElement) (expected : String) : Issue :=
  ⟨"invalid_type", expected, "undefined", none, path, "Required"⟩

def invalidJSONIssue (message : String) : Issue := ⟨"invalid_json", "", "", none, [], message⟩

def invalidJSONAt (path : List PathElement) (message : String) : Issue :=
  ⟨"invalid_json", "", "", none, path, message⟩

def tooBigArrayIssue (path : List PathElement) (maximum : ℕ) : Issue :=
  ⟨"too_big", "", "", some maximum, path,
    "Array must contain at most " ++ toString maximum ++ " element(s)"⟩

inductive ScanError where
  | eof
  | invalid
  | tokenLimit
  deriving DecidableEq

def jsonSyntaxIssue : ScanError → Issue
  | .tokenLimit => invalidJSONIssue
      ("JSON body must contain at most " ++ toString maxJSONDocumentTokens ++ " structural tokens")
  | _ => invalidJSONIssue "Invalid JSON body"

def issueFromDecodeError : ScanError → Issue
  | .eof => missingIssue [] "object"
  | _ => invalidJSONIssue "Invalid JSON body"

/-! ### The scan -/

structure Scanner where
  decoder : Decoder
  tokens : ℕ

/- At the limit one more token is read, to tell the end of the input from the rest. -/
def Scanner.next (s : Scanner) : Except ScanError (Token × Scanner) :=
  if s.tokens ≥ maxJSONDocumentTokens then
    match s.decoder.token with
    | .error .eof => .error .eof
    | _ => .error .tokenLimit
  else match s.decoder.token with
    | .ok (token, decoder) => .ok (token, ⟨decoder, s.tokens + 1⟩)
    | .error .eof => .error .eof
    | .error .invalid => .error .invalid

def Scanner.nextOrIssue (s : Scanner) : Except Issue (Token × Scanner) :=
  s.next.mapError jsonSyntaxIssue

abbrev Visit (B : Type) :=
  Option (Ty B) → List PathElement → Token → Scanner → Except Issue Scanner

def memberLimit (schema : Option (Ty B)) : ℕ :=
  if (schemaFields types schema).isSome then maxControlObjectKeys else maxOpaqueCollectionItems

/- The schema of the value of `key`, unless another spelling is required. -/
def memberSchema (schema : Option (Ty B)) (path : List PathElement) (key : String) :
    Except Issue (Option (Ty B)) :=
  match schemaFields types schema with
  | none => .ok none
  | some fields => match fields.exact key with
    | some field => .ok (some field)
    | none => match fields.foldedName fold key with
      | some canonical => .error (invalidJSONAt (path ++ [.key key])
          ("JSON object key " ++ quote key ++ " must use the exact spelling " ++ quote canonical))
      | none => .ok none

def checkKey (seen : List String) (path : List PathElement) : Token → Except Issue String
  | .string key =>
    if key.utf8ByteSize > maxJSONKeyBytes then
      .error (invalidJSONAt path
        ("JSON object keys must contain at most " ++ toString maxJSONKeyBytes ++ " bytes"))
    else if key ∈ seen then
      .error (invalidJSONAt (path ++ [.key key]) "Duplicate JSON object key")
    else .ok key
  | _ => .error (invalidJSONAt path "Invalid JSON object key")

/- The loop of `scanJSONObject`: `left` members may follow. -/
def scanMembers (visit : Visit B) (schema : Option (Ty B)) (path : List PathElement) :
    ℕ → List String → Scanner → Except Issue Scanner
  | left, seen, s =>
    if s.decoder.more then
      match left with
      | 0 => .error (invalidJSONAt path ("JSON object must contain at most " ++
          toString (memberLimit types schema) ++ " members"))
      | left + 1 => do
        let (keyToken, s) ← s.nextOrIssue
        let key ← checkKey seen path keyToken
        let childSchema ← memberSchema types fold quote schema path key
        let (valueToken, s) ← s.nextOrIssue
        let s ← visit childSchema (path ++ [.key key]) valueToken s
        scanMembers visit schema path left (key :: seen) s
    else do
      let (_, s) ← s.nextOrIssue
      pure s

def scanJSONObject (visit : Visit B) (schema : Option (Ty B)) (path : List PathElement)
    (s : Scanner) : Except Issue Scanner :=
  scanMembers types fold quote visit schema path (memberLimit types schema) [] s

/- The loop of `scanJSONArray`: `left` items may follow the first `itemCount`. -/
def scanItems (visit : Visit B) (elementSchema : Option (Ty B)) (path : List PathElement)
    (limit : ℕ) : ℕ → ℕ → Scanner → Except Issue Scanner
  | left, itemCount, s =>
    if s.decoder.more then
      match left with
      | 0 => .error (tooBigArrayIssue path limit)
      | left + 1 => do
        let (token, s) ← s.nextOrIssue
        let s ← visit elementSchema
          (if elementSchema.isSome then path ++ [.index itemCount] else path) token s
        scanItems visit elementSchema path limit left (itemCount + 1) s
    else do
      let (_, s) ← s.nextOrIssue
      pure s

def scanJSONArray (visit : Visit B) (elementSchema : Option (Ty B)) (path : List PathElement)
    (limit : ℕ) (s : Scanner) : Except Issue Scanner :=
  scanItems visit elementSchema path limit limit 0 s

/- `levels` more containers may be entered: the depth is `maxJSONDepth + 1 - levels`. -/
def scanJSONToken : ℕ → Visit B
  | levels, schema, path, token, s =>
    match token with
    | .delim delim => match levels with
      | 0 => .error (invalidJSONAt path "JSON body exceeds the maximum nesting depth")
      | levels + 1 => match delim with
        | .openObject => scanJSONObject types fold quote (scanJSONToken levels) schema path s
        | .openArray => scanJSONArray (scanJSONToken levels) (controlArraySchema types schema).1 path
            (controlArraySchema types schema).2 s
        | _ => .error (invalidJSONAt path "Invalid JSON body")
    | _ => .ok s

def isContainer : Token → Bool
  | .delim .openObject => true
  | .delim .openArray => true
  | _ => false

/- The end of the input is all that may follow the document. -/
def expectEnd (body : List UInt8) (s : Scanner) : Except Issue (List UInt8) :=
  match s.next with
  | .ok _ => .error (invalidJSONIssue "Expected a single JSON document")
  | .error .eof => .ok body
  | .error e => .error (issueFromDecodeError e)

/-- The body of a request that is accepted, or the issue it is refused with. -/
def scanJSONDocument (body : Option (List UInt8)) (schema : Option (Ty B)) (allowEmpty : Bool) :
    Except Issue (List UInt8) :=
  match body with
  | none => if allowEmpty then .ok [] else .error (missingIssue [] "object")
  | some body => match Scanner.next ⟨⟨body, .topValue, []⟩, 0⟩ with
    | .error .eof =>
      if body ≠ [] then .error (invalidJSONIssue "Invalid JSON body")
      else if allowEmpty then .ok body
      else .error (missingIssue [] "object")
    | .error e => .error (issueFromDecodeError e)
    | .ok (first, s) =>
      if isContainer first then do
        let s ← scanJSONToken types fold quote maxJSONDepth schema [] first s
        expectEnd body s
      else .error (invalidJSONIssue "JSON body must be an object or array")

end RemnanodeLite.Nodeapi
