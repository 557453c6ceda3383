/-! Bytes of a text, and the text that a first part of such bytes shows.
A cut may fall inside a character; what is left of that character shows as one U+FFFD. -/

namespace Treewalk

def utf8Bytes (text : String) : List UInt8 :=
  text.toUTF8.data.toList

/-- The text that the bytes encode, if they encode one. -/
def utf8Text? (bytes : List UInt8) : Option String :=
  String.fromUTF8? ⟨bytes.toArray⟩

/-- The bytes without the last `k` of them, as a text. -/
def utf8TextWithout? (bytes : List UInt8) (k : Nat) : Option String :=
  utf8Text? (bytes.take (bytes.length - k))

/-- The text shown by a first part of the bytes of some text. A character has at most four
bytes, so at most three are left of the one that was cut. -/
def showCutText (bytes : List UInt8) : String :=
  match utf8Text? bytes with
  | some text => text
  | none => (([1, 2, 3].findSome? (utf8TextWithout? bytes)).getD "").push '\uFFFD'

end Treewalk
