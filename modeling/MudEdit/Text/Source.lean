/-!
# Source text from bytes

A file is text if its bytes are valid UTF-8. Files from older mudlibs often carry
bytes of some national code page; of those, only the ASCII bytes are kept, so that
the program itself stays readable.
-/

namespace MudEdit.Text

/-- The text of a file: UTF-8 as it stands, anything else reduced to its ASCII bytes. -/
def ofBytes (bytes : ByteArray) : String :=
  match String.fromUTF8? bytes with
  | some text => text
  | none => String.ofList <| (bytes.toList.filter (· < 0x80)).map fun b => Char.ofNat b.toNat

end MudEdit.Text
