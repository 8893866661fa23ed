import Volley.Text.Utf8

namespace Volley.Http

abbrev Header := String × String

namespace Header

def isNameChar (c : Char) : Bool :=
  c.isAlphanum ||
    c ∈ ['!', '#', '$', '%', '&', '\'', '*', '+', '-', '.', '^', '_', '\x60', '|', '~']

def nameLimit : Nat := 65535

def isName (name : String) : Bool :=
  !name.isEmpty && name.toList.all isNameChar && name.length ≤ nameLimit

def isValueChar (c : Char) : Bool := c = '\t' || (32 ≤ c.toNat && c.toNat ≠ 127)

def isValue (value : String) : Bool := value.toList.all isValueChar

def isValid (h : Header) : Bool := isName h.1 && isValue h.2

def contentType : String := "content-type"

def isContentType (h : Header) : Bool := h.1.toLower = contentType

end Header

end Volley.Http
