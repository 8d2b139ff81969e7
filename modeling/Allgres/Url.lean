import Allgres.Text

/-! The guards of outgoing requests: the parts of a URL, the hosts that are never
reached, and `check_outbound_url`. -/

namespace Allgres

/-- `[[:space:][:cntrl:]]`. -/
def isSpaceOrControl (c : Char) : Bool :=
  isSpace c || c.toNat < 32 || c.toNat = 127

def isSchemeChar (c : Char) : Bool :=
  c.isAlphanum || c = '+' || c = '.' || c = '-'

/-- What stands before and behind `://`. -/
def splitScheme (url : List Char) : Option (List Char × List Char) :=
  let scheme := url.takeWhile isSchemeChar
  if scheme.head?.any Char.isAlpha then
    match url.dropWhile isSchemeChar with
    | ':' :: '/' :: '/' :: rest => some (scheme, rest)
    | _ => none
  else none

def urlScheme (url : String) : Option (List Char) :=
  (splitScheme url.toList).map (·.1)

def isAuthorityChar (c : Char) : Bool :=
  c != '/' && c != '?' && c != '#'

/-- Host and port, with whatever stands before an `@`. -/
def urlAuthority (url : String) : Option (List Char) :=
  (splitScheme url.toList).map fun s => s.2.takeWhile isAuthorityChar

/-- The host inside an authority. More than one colon is a bare IPv6 literal. -/
def authorityHost (authority : List Char) : List Char :=
  match authority with
  | '[' :: rest => rest.takeWhile (· != ']')
  | _ => if authority.count ':' = 1 then authority.takeWhile (· != ':') else authority

/-- The text behind the host, which is the port. -/
def authorityPort (authority : List Char) : List Char :=
  match authority with
  | '[' :: rest => rest.dropWhile (· != ']')
  | _ => if authority.count ':' = 1 then authority.dropWhile (· != ':') else []

def dropFinalDot (host : List Char) : List Char :=
  if host.getLast? = some '.' then host.dropLast else host

def urlHost (url : Option String) : Option String := do
  let url ← url
  if url.toList.any isSpaceOrControl then none
  let authority ← urlAuthority url
  if authority = [] ∨ '@' ∈ authority then none
  let host := rtrimChars (· == ' ') (ltrimChars (· == ' ') (authorityHost authority))
  nullIfEmpty (some (lower (String.ofList (dropFinalDot host))))

/-- The parts of a text between the occurrences of a character. -/
def splitOn (c : Char) : List Char → List (List Char)
  | [] => [[]]
  | a :: as => match splitOn c as with
    | [] => [[a]]
    | part :: parts => if a = c then [] :: part :: parts else (a :: part) :: parts

def isOctet (part : List Char) : Bool :=
  1 ≤ part.length && part.length ≤ 3 && part.all Char.isDigit

/-- `[0-9]{1,3}(\.[0-9]{1,3}){3}`. -/
def isDottedQuad (h : List Char) : Bool :=
  (splitOn '.' h).length = 4 && (splitOn '.' h).all isOctet

/-- The IPv4 part of an IPv4-mapped or IPv4-compatible IPv6 address. -/
def mappedIpv4 (h : List Char) : Option (List Char) :=
  match h with
  | ':' :: ':' :: rest =>
    let v4 := if "ffff:".toList.isPrefixOf rest then rest.drop 5 else rest
    if isDottedQuad v4 then some v4 else none
  | _ => none

def isLowerHex (c : Char) : Bool :=
  c.isDigit || ('a' ≤ c && c ≤ 'f')

/-- The spellings of an IPv4 address that are no dotted quad: one decimal or
hexadecimal number, or a leading octal part. -/
def isOddIpv4 (h : List Char) : Bool :=
  h.all Char.isDigit ||
    (match h with
      | '0' :: 'x' :: rest => rest ≠ [] && rest.all isLowerHex
      | _ => false) ||
    (match h with
      | '0' :: rest => (rest.dropWhile fun c => '0' ≤ c && c ≤ '7').head?.all (· == '.')
      | _ => false)

def localLabels : List String :=
  ["local", "localhost", "internal", "intranet", "corp", "home", "lan"]

def isLocalName (h : List Char) : Bool :=
  localLabels.any fun l => (splitOn '.' h).getLast? = some l.toList

def isBlockedIpv6 (h : List Char) : Bool :=
  match h with
  | [':', ':'] | [':', ':', '1'] => true
  | 'f' :: 'e' :: b :: c :: ':' :: _ => (b ∈ ['8', '9', 'a', 'b'] && isLowerHex c)
  | 'f' :: a :: b :: c :: ':' :: _ => (a = 'c' || a = 'd') && isLowerHex b && isLowerHex c
  | _ => false

/-- A part is the plain decimal text of a number of a range. -/
def octetIn (lo hi : Nat) (part : List Char) : Bool :=
  (List.range' lo (hi + 1 - lo)).any fun n => (toString n).toList = part

def isBlockedQuad (parts : List (List Char)) : Bool :=
  match parts with
  | [a, b, c, _] =>
    octetIn 0 0 a || octetIn 10 10 a || octetIn 127 127 a ||
      (octetIn 169 169 a && octetIn 254 254 b) ||
      (octetIn 172 172 a && octetIn 16 31 b) ||
      (octetIn 192 192 a && octetIn 168 168 b) ||
      (octetIn 192 192 a && octetIn 0 0 b && (octetIn 0 0 c || octetIn 2 2 c)) ||
      (octetIn 198 198 a && octetIn 18 19 b) ||
      (octetIn 100 100 a && octetIn 64 127 b) ||
      octetIn 224 259 a
  | _ => false

def isBlockedLiteral (h : List Char) : Bool :=
  isOddIpv4 h || isLocalName h ||
    h ∈ ["localhost.localdomain".toList, "ip6-localhost".toList, "ip6-loopback".toList] ||
    isBlockedIpv6 h || (isDottedQuad h && isBlockedQuad (splitOn '.' h))

def isBlockedHost (host : Option String) : Bool :=
  let h := (lower (orEmpty host)).toList
  if h = [] then true
  else match mappedIpv4 h with
    | some v4 => isBlockedLiteral v4
    | none => isBlockedLiteral h

/-- No answer when the URL may be fetched, else a short reason. -/
def checkOutboundUrl (url : Option String) (allowPrivate : Bool) : Option String :=
  match url with
  | none => some "missing_url"
  | some u =>
    if btrim u = "" then some "missing_url"
    else if u.toList.any isSpaceOrControl then some "url_has_control_characters"
    else match urlScheme u with
      | none => some "url_missing_scheme"
      | some s =>
        let scheme := lower (String.ofList s)
        if scheme ≠ "http" ∧ scheme ≠ "https" then some "scheme_not_allowed"
        else if scheme = "http" ∧ !allowPrivate then some "plaintext_http_not_allowed"
        else match urlHost url with
          | none => some "url_host_unparseable"
          | some host =>
            if isBlockedHost (some host) ∧ !allowPrivate then some "host_blocked" else none

end Allgres
