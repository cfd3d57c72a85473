import ComputePool.Lib.Uri

/-!
# The worker's outbound URL gate

`validate_outbound_url_with` of the training worker: TLS to any host, plain text to a
loopback host only.
-/

namespace ComputePool
namespace Worker
namespace Outbound

open RustStd

/-- Why an outbound endpoint URL was refused; the two crates declare it alike. -/
inductive OutboundUrlError where
  | unsupportedScheme (url : String)
  | plaintextNonLoopback (url : String)
  | malformed (url : String)
  deriving DecidableEq

/-- `host_of`: the host in the part after `scheme://`. -/
def hostOf (rest : List Char) : Option (List Char) :=
  let authority := rest.takeWhile fun c => !(c == '/' || c == '?' || c == '#')
  if authority = [] ∨ '@' ∈ authority then none
  else
    match stripPrefix ['['] authority with
    | some v6 =>
        (splitOnce [']'] v6).bind fun (inside, after) =>
          if after = [] ∨ after.head? = some ':' then some inside else none
    | none =>
        match authority.splitOn ':' with
        | [host] => if host = [] then none else some host
        | [host, port] =>
            if parseU16 port = none then none else if host = [] then none else some host
        | _ => none

/-- `is_loopback_host`. -/
def isLoopbackHost (host : List Char) : Bool :=
  if host.map Char.toLower = "localhost".toList then true
  else
    match Ipv4Addr.parse host with
    | some v4 => v4.isLoopback
    | none =>
        match Ipv6Addr.parse host with
        | some v6 => v6.isLoopback
        | none => false

def validateOutboundUrlWith (url : String) (allowInsecure : Bool) :
    Except OutboundUrlError Unit :=
  match splitOnce "://".toList url.toList with
  | none => .error (.unsupportedScheme url)
  | some (scheme, rest) =>
      if scheme.map Char.toLower = "https".toList then
        match hostOf rest with
        | none => .error (.malformed url)
        | some _ => .ok ()
      else if scheme.map Char.toLower = "http".toList then
        match hostOf rest with
        | none => .error (.malformed url)
        | some host =>
            if isLoopbackHost host then .ok ()
            else if allowInsecure then .ok ()
            else .error (.plaintextNonLoopback url)
      else .error (.unsupportedScheme url)

end Outbound
end Worker
end ComputePool
