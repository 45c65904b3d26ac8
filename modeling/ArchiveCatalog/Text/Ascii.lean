namespace ArchiveCatalog.Text

/-! # Letter case and classes of ASCII

Keywords, algorithm names and table names compare without regard to ASCII case; letters
outside ASCII keep their case.
-/

/-- ASCII letter, digit or underscore. -/
def isWord (c : Char) : Bool := c.isAlphanum || c == '_'

/-- ASCII letter or underscore. -/
def isWordStart (c : Char) : Bool := c.isAlpha || c == '_'

/-- The text with ASCII capitals made small. -/
def folded (s : String) : String := String.ofList (s.toList.map Char.toLower)

/-- The text with small ASCII letters made capital. -/
def capitals (s : String) : String := String.ofList (s.toList.map Char.toUpper)

/-- Equality up to ASCII case. -/
def sameFolded (a b : List Char) : Bool := a.map Char.toLower == b.map Char.toLower

end ArchiveCatalog.Text
