import GridStencil.Backend
import GridStencil.Digest.Sha256
import GridStencil.Program.Basic

/-!
Identities of compiled stencils.

An identity is the digest of everything that a compilation depends on: the canonical text of the
definition, the values of its externals, the backend and the types that replace declared ones. Each
part is preceded by its length, so that no two lists of parts give the same bytes.
-/

namespace GridStencil

/-- The digest that identifies a compiled stencil. -/
structure StencilId where
  bytes : List UInt8
deriving DecidableEq

namespace StencilId

/-- The bytes of a text. -/
def utf8 (text : String) : List UInt8 := text.toUTF8.toList

/-- The bytes of a text behind their number. -/
def measured (text : String) : List UInt8 :=
  let bytes := utf8 text
  Digest.littleEndian 8 bytes.length ++ bytes

/-- The identity of a definition, given as its canonical text, compiled for some inputs. -/
def compute (fingerprint : String) (externals : Externals) (backend : Backend)
    (signature : Signature) : StencilId :=
  ⟨Digest.sha256 <|
    [fingerprint, externals.render, backend.name, signature.render].flatMap measured⟩

/-- The digits of an identity. -/
def render (id : StencilId) : String := Digest.hex id.bytes

end StencilId

end GridStencil
