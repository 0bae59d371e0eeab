import RemnanodeLite.Lib.NetipText
import RemnanodeLite.Plugin.Plan

/-! # Who is meant by a torrent webhook

`extractWebhookIP` and the ignore lists of `internal/plugin/torrent.go`. -/

namespace RemnanodeLite.Plugin
open Netip

/- `(?::(\d+))?$`. -/
def portTail : List Char → Bool
  | [] => true
  | ':' :: digits => !digits.isEmpty && digits.all isDigit
  | _ => false

/- `\]` before a port. -/
def bracketTail : List Char → Bool
  | ']' :: rest => portTail rest
  | _ => false

/- `(.+?)` before a rest that matches: the shortest group there is. -/
def lazyGroup (tail : List Char → Bool) : List Char → Option (List Char)
  | [] => none
  | c :: rest =>
    if c = '\n' then none
    else if tail rest then some [c]
    else (lazyGroup tail rest).map (c :: ·)

/- `(?:\[(.+?)\]|(.+?))(?::(\d+))?$`, the alternatives from left to right. -/
def sourceBody (s : List Char) : Option (List Char) :=
  match s with
  | '[' :: inner => (lazyGroup bracketTail inner).orElse fun _ => lazyGroup portTail s
  | _ => lazyGroup portTail s

/- `sourceIPPattern`: the group that is set. A scheme is skipped if the rest matches. -/
def sourceIPPattern (s : List Char) : Option (List Char) :=
  if "tcp:".toList.isPrefixOf s || "udp:".toList.isPrefixOf s then
    (sourceBody (s.drop 4)).orElse fun _ => sourceBody s
  else sourceBody s

def extractWebhookIP (source : String) : String :=
  if source = "" then ""
  else
    let candidate := (sourceIPPattern source.toList).getD source.toList
    match netParseIP candidate with
    | none => ""
    | some address => address.unmap.string

def torrentIPIgnored (settings : TorrentSettings) (ip : String) : Bool :=
  match netParseIP ip.toList with
  | none => true
  | some parsed =>
    let address := parsed.unmap
    address.isUnspecified || address.isLoopback || address.isMulticast ||
      address.isLinkLocalUnicast || address.isLinkLocalMulticast ||
      address = .v4 0xffffffff#32 || settings.ignoredIPs.contains address.string

def torrentUserIgnored (settings : TorrentSettings) (userID : String) : Bool :=
  userID ∈ settings.ignoredUsers

end RemnanodeLite.Plugin
