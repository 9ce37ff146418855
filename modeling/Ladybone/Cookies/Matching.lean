import Mathlib.Data.List.Basic

/-!
# Cookies and their matching

Strings are their UTF-8 bytes. The public suffix list, the two address parsers and the test for
UTF-8 are parameters; a URL is what the cookie code reads of it.
-/

namespace Ladybone.Cookies

abbrev Text := List UInt8

def ascii (characters : List Char) : Text :=
  characters.map fun character => character.toNat.toUInt8

def slash : UInt8 := 0x2f

structure Platform where
  (isPublicSuffix isIpv4Address isIpv6Address isUtf8 : Text → Bool)

structure Url where
  scheme : Text
  /-- The serialized host in lower case. -/
  host : Option Text
  /-- The serialized path, percent-decoded. -/
  path : Text

def Url.isHttps (url : Url) : Bool := url.scheme == ascii ['h', 't', 't', 'p', 's']

def canonicalizeDomain (url : Url) : Option Text := url.host

def domainMatches (platform : Platform) (string domainString : Text) : Bool :=
  if string = domainString then true
  else if !domainString.isSuffixOf string then false
  else if string[string.length - domainString.length - 1]? ≠ some 0x2e then false
  else if platform.isIpv4Address string then false
  else if platform.isIpv6Address string then false
  else true

def pathMatches (requestPath cookiePath : Text) : Bool :=
  if requestPath = cookiePath then true
  else if cookiePath.isPrefixOf requestPath then
    if cookiePath.getLast? = some slash then true
    else decide (requestPath[cookiePath.length]? = some slash)
  else false

def beforeLastSlash (path : Text) : Text :=
  ((path.reverse.dropWhile (· != slash)).drop 1).reverse

/-- `default_path`; nothing where the path is no UTF-8 and the process stops. -/
def defaultPath (platform : Platform) (url : Url) : Option Text :=
  if url.path.head? ≠ some slash then some [slash]
  else if beforeLastSlash url.path = [] then some [slash]
  else if platform.isUtf8 (beforeLastSlash url.path) then some (beforeLastSlash url.path)
  else none

def toLowercase (byte : UInt8) : UInt8 :=
  if 0x41 ≤ byte ∧ byte ≤ 0x5a then byte + 0x20 else byte

def hasCaseInsensitivePrefix (value start : Text) : Bool :=
  if value.length < start.length then false
  else (value.take start.length).map toLowercase == start.map toLowercase

def containsInvalidControlCharacter (text : Text) : Bool :=
  text.any fun byte => byte ≤ 0x08 || (0x0a ≤ byte && byte ≤ 0x1f) || byte == 0x7f

end Ladybone.Cookies
