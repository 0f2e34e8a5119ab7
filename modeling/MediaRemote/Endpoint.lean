import MediaRemote.Error
import MediaRemote.Url.Parser

namespace MediaRemote

open Url (UrlFault)

def UrlFault.error (f : UrlFault) : Error := .invalidArgument f.message

inductive EndpointFault
  | notParsed (fault : UrlFault)
  | noOrigin (url : String)
  | noSocketScheme (scheme : String)
  | noHost (origin : String)
  deriving DecidableEq, Repr

def EndpointFault.error : EndpointFault → Error
  | notParsed fault => UrlFault.error fault
  | noOrigin url => .invalidArgument (url ++ " is not a socket url and no origin is set")
  | noSocketScheme scheme => .invalidArgument ("cannot derive socket scheme from " ++ scheme)
  | noHost origin => .invalidArgument (origin ++ " has no host")

namespace Endpoint

variable [Url.Idna]

def schemePart? : List Char → Option (List Char)
  | ':' :: '/' :: '/' :: _ => some []
  | c :: rest => (schemePart? rest).map (c :: ·)
  | [] => none

def hasSocketScheme (url : List Char) : Bool :=
  match schemePart? url with
  | some scheme => Url.lower scheme = "ws".toList || Url.lower scheme = "wss".toList
  | none => false

def socketScheme? (scheme : List Char) : Option (List Char) :=
  if scheme = "http".toList then some "ws".toList
  else if scheme = "https".toList then some "wss".toList
  else none

def synthesize (scheme : List Char) (host : Url.Host) (port : Option Nat) (path : List Char) :
    List Char :=
  scheme ++ ':' :: '/' :: '/' :: (host.text ++ Url.portText port ++
    '/' :: path.dropWhile (· = '/'))

def parse (text : String) : Except EndpointFault Url := (Url.parse text).mapError .notParsed

/-- A complete socket URL, or a path on the host that served the page. -/
def resolve (url : String) (origin : Option Url) : Except EndpointFault Url :=
  if hasSocketScheme url.toList then parse url
  else
    match origin with
    | none => .error (.noOrigin url)
    | some origin =>
      match socketScheme? origin.scheme with
      | none => .error (.noSocketScheme (String.ofList origin.scheme))
      | some scheme =>
        match origin.host? with
        | none => .error (.noHost origin.text)
        | some host => parse (String.ofList (synthesize scheme host origin.port? url.toList))

end Endpoint
end MediaRemote
