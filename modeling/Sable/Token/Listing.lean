import Sable.Source.File
import Sable.Text.Quoted
import Sable.Token.Basic

/-!
# Token listings

The tokens of a file, one by one: as lines for a reader, or as a JSON array.

## Main definitions

* `TokenRecord`: what a listing says of a token.
* `TokenRecord.ofTokens`: the records of the tokens of a file.
* `TokenRecord.lines`: a line for each token.
* `TokenRecord.jsonArray`: the array of all tokens.
-/
namespace Sable

structure TokenRecord where
  kind : String
  text : String
  position : Nat
  length : Nat
  deriving DecidableEq, Inhabited

namespace TokenRecord

def ofToken (t : Token) (text : String) : TokenRecord :=
  ⟨t.kind.describe, text, t.span.start, t.span.length⟩

def ofTokens (file : SourceFile) (tokens : List Token) : List TokenRecord :=
  List.zipWith ofToken tokens (file.slices (tokens.map Token.span))

/-- Line and column around a colon, the kind, and the text in quotes. -/
def line (r : TokenRecord) (place : Nat × Nat) : String :=
  let place := Text.padLeft 4 ' ' (Nat.toDigits 10 place.1) ++ ':' ::
    Text.padRight 4 ' ' (Nat.toDigits 10 place.2)
  .ofList (place ++ ' ' :: Text.padRight 20 ' ' r.kind.toList ++ [' ']) ++ Text.quoted r.text

def lines (file : SourceFile) (records : List TokenRecord) : List String :=
  List.zipWith line records (file.lineCols (records.map TokenRecord.position))

def jsonFields (r : TokenRecord) : List (String × String) :=
  [("kind", Text.jsonString r.kind), ("text", Text.jsonString r.text),
    ("position", toString r.position), ("length", toString r.length)]

/-- An object within an array, with a field on each line. -/
def jsonObject (r : TokenRecord) : String :=
  let fields := r.jsonFields.map fun (name, value) => s!"    {Text.jsonString name}: {value}"
  "  \x7b\n" ++ ",\n".intercalate fields ++ "\n  \x7d"

def jsonArray (records : List TokenRecord) : String :=
  if records.isEmpty then "[]"
  else "[\n" ++ ",\n".intercalate (records.map jsonObject) ++ "\n]"

end TokenRecord

end Sable
