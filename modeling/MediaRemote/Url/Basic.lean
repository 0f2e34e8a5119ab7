import MediaRemote.Url.Host

namespace MediaRemote

open Url (Host)

structure Authority where
  username : List Char
  password : List Char
  /-- An empty domain stands for no host. -/
  host : Host
  /-- Only a port other than the scheme's own. -/
  port : Option Nat
  deriving DecidableEq, Repr, Inhabited

inductive UrlPath
  | opaquePath (text : List Char)
  | segments (list : List (List Char))
  deriving DecidableEq, Repr, Inhabited

structure Url where
  scheme : List Char
  authority : Option Authority
  path : UrlPath
  query : Option (List Char)
  fragment : Option (List Char)
  deriving DecidableEq, Repr, Inhabited

namespace Url

def defaultPort? (scheme : List Char) : Option Nat :=
  [("http".toList, 80), ("ws".toList, 80), ("https".toList, 443), ("wss".toList, 443),
    ("ftp".toList, 21)].lookup scheme

def isFileScheme (scheme : List Char) : Bool := scheme = "file".toList

/-- Well-known schemes, whose backslashes count as slashes and whose hosts are domains. -/
def isSpecialScheme (scheme : List Char) : Bool :=
  isFileScheme scheme || (defaultPort? scheme).isSome

def Authority.credentials (a : Authority) : List Char :=
  if a.username.isEmpty && a.password.isEmpty then []
  else a.username ++ (if a.password.isEmpty then [] else ':' :: a.password) ++ ['@']

def portText (port : Option Nat) : List Char :=
  match port with
  | some n => ':' :: Nat.toDigits 10 n
  | none => []

def Authority.text (a : Authority) : List Char :=
  '/' :: '/' :: (Authority.credentials a ++ a.host.text ++ portText a.port)

def pathText : UrlPath → List Char
  | .opaquePath text => text
  | .segments list => list.flatMap fun s => '/' :: s

/-- Without an authority, a path may not look like one. -/
def pathGuard (u : Url) : List Char :=
  match u.authority, pathText u.path with
  | none, '/' :: '/' :: _ => ['/', '.']
  | _, _ => []

def marked (mark : Char) (part : Option (List Char)) : List Char :=
  match part with
  | some text => mark :: text
  | none => []

def chars (u : Url) : List Char :=
  u.scheme ++ ':' :: ((u.authority.map Authority.text).getD [] ++ pathGuard u ++ pathText u.path ++
    marked '?' u.query ++ marked '#' u.fragment)

def text (u : Url) : String := String.ofList u.chars

def host? (u : Url) : Option Host := (u.authority.map (·.host)).filter (!·.isEmpty)

def port? (u : Url) : Option Nat := u.authority.bind (·.port)

def effectivePort? (u : Url) : Option Nat := u.port?.orElse fun _ => defaultPort? u.scheme

end Url
end MediaRemote
