import Ppnt.Native.HttpRequest

/-!
# Header lists

Model of the operations of `HttpHeaderList` (`ppnt-http/src/http_types/header.ixx`) that change a
list or compare two; `get` and `contains` are `headerGet` and `headerContains`.  The views that are
passed to `add` and `set` are taken for the bytes they show, so they do not show a part of the list
itself.
-/

namespace Ppnt.Native

/-- `HttpHeader::operator==`. -/
def HttpHeader.equal (a b : HttpHeader) : Bool := ignoreCaseEqual a.name b.name && a.value = b.value

/-- `HttpHeaderList::add`. -/
def headerAdd (headers : List HttpHeader) (name value : List UInt8) : List HttpHeader :=
  headers ++ [⟨name, value⟩]

/-- `HttpHeaderList::set`. -/
def headerSet (headers : List HttpHeader) (name value : List UInt8) : List HttpHeader :=
  headerAdd (headers.filter fun h => !ignoreCaseEqual h.name name) name value

/-- `HttpHeaderList::operator==`. -/
def headersEqual (headers headers' : List HttpHeader) : Bool :=
  headers.isEqv headers' HttpHeader.equal

inductive HeaderOp where
  | add (name value : List UInt8)
  | set (name value : List UInt8)
  | clear
deriving DecidableEq, Repr

def HeaderOp.apply (headers : List HttpHeader) : HeaderOp → List HttpHeader
  | .add name value => headerAdd headers name value
  | .set name value => headerSet headers name value
  | .clear => []

end Ppnt.Native
