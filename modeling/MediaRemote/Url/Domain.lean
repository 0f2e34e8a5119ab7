import MediaRemote.Text.Utf8
import MediaRemote.Url.Percent

namespace MediaRemote.Url

def isForbidden (c : Char) : Bool :=
  c.toNat ≤ 0x20 || 0x7E < c.toNat || c = '%' || c = '#' || c = '/' || c = ':' || c = '<' ||
    c = '>' || c = '?' || c = '@' || c = '[' || c = '\\' || c = ']' || c = '^' || c = '|'

def lower (s : List Char) : List Char := s.map Char.toLower

def labels (s : List Char) : List (List Char) := s.splitOn '.'

/-- A label that stands for one with characters beyond ASCII. -/
def isCoded (label : List Char) : Bool := lower (label.take 4) = "xn--".toList

/-- How the name of a domain is written in ASCII, if it can be. Which characters beyond ASCII a name
may hold, and how they are coded, is for whoever runs the library to say. -/
class Idna where
  toAscii : List Char → Option (List Char)

/-- What any way to write names in ASCII does. -/
class LawfulIdna [Idna] : Prop where
  /-- Nothing is coded without need: a plain name is only put into small letters. -/
  plain {name : List Char} (allowed : ∀ c ∈ name, isForbidden c = false)
    (uncoded : ∀ label ∈ labels name, isCoded label = false) :
    Idna.toAscii name = some (lower name)
  /-- Nothing is coded twice. -/
  stable {name ascii : List Char} (h : Idna.toAscii name = some ascii) :
    Idna.toAscii ascii = some ascii

/-- Knows no names beyond ASCII but these, each with its form in ASCII. -/
abbrev Idna.ofNames (names : List (List Char × List Char)) : Idna where
  toAscii name := if name.all (·.toNat < 128) then some (lower name) else names.lookup name

abbrev Idna.ascii : Idna := .ofNames []

def domainName? [Idna] (s : List Char) : Option (List Char) :=
  (Text.decodeUtf8 (percentDecode s)).toOption.bind fun name => Idna.toAscii name.toList

end MediaRemote.Url
