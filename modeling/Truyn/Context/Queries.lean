import Truyn.Context.Access

/-! context:queries | queries, and the hash that stands for what is left of them

    A query loses its accents, its case and all that is no letter and no number before it is hashed.
    Without collisions, queries of one hash are those that normalize to one text. -/

namespace Truyn.Context
open Checks

/-- What the program takes from Unicode; `isWord` is `\p{L}` or `\p{N}`, of a code point. -/
structure Unicode extends Platform where
  nfkd : JsString → JsString
  toLowerCase : JsString → JsString
  isWord : JsString → Bool

variable (U : Unicode)

/-- `[\u0300-\u036f]` -/
def isMark (u : UInt16) : Bool := 0x300 ≤ u ∧ u ≤ 0x36F

/-- A surrogate without its other half is a code point of its own. -/
def codePoints : JsString → List JsString
  | [] => []
  | [u] => [[u]]
  | u :: v :: s =>
    if isHigh u && isLow v then [u, v] :: codePoints s else [u] :: codePoints (v :: s)

/-- `.replace(/[^\p{L}\p{N}]+/gu, ' ')`; `gap` when the last code point was replaced. -/
def spaced (gap : Bool) : List JsString → JsString
  | [] => []
  | c :: cs =>
    if U.isWord c then c ++ spaced false cs
    else if gap then spaced true cs else 32 :: spaced true cs

def normalizeContextQuery (value : JsString) : JsString :=
  trim (spaced U false (codePoints (U.toLowerCase ((U.nfkd value).filter fun u => !isMark u))))

/-- What is digested of a query, `{"q":...,"v":1}`. -/
def queryText (normalized : JsString) : JsString :=
  object [(js "q", quote normalized), (js "v", js "1")]

def contextQueryHash (query : JsString) : Except JsString JsString :=
  if normalizeContextQuery U query = [] then throw (js "context retrieval query is required")
  else if !checkUnicode (normalizeContextQuery U query) then throw (js "TCJ1 unpaired surrogate")
  else return js "sha256:" ++ U.sha256 (queryText (normalizeContextQuery U query))

variable {U} {query query' hash : JsString} {S : Set JsString}

theorem contextQueryHash_ok : contextQueryHash U query = .ok hash ↔
    normalizeContextQuery U query ≠ [] ∧ checkUnicode (normalizeContextQuery U query) = true ∧
      hash = js "sha256:" ++ U.sha256 (queryText (normalizeContextQuery U query)) := by
  simp only [contextQueryHash, throw_ok, pure_ok, eq_comm (a := hash)]
  simp

end Truyn.Context
