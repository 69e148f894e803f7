import Sentrik.Library.PacketFilter
import Sentrik.Security.Sandbox

/-!
# The egress script of a container

The allowlist of a run as a script: the rules of a packet filter, one on each line, with comments that name
the hosts. A deploy step reads it line by line.

The texts of the hosts go into the lines as they stand.
-/

namespace Sentrik

open PacketFilter

/-! ### The script -/

section

variable [u : UnicodeTables]

/-- What is said of a host that is left out, behind its name, or the addresses that are let through. -/
def egressOutcome (profile : SandboxProfile) (port : ℕ) (answer : DnsAnswer) (host : Text) :
    Except PyExc (Text ⊕ List Text) :=
  if Text.startswith host "*.".toList then
    .ok (.inl ": wildcard — resolve concrete subdomains at deploy time before ACCEPT".toList)
  else
    match resolve_host host port true answer with
    | .error (.NetGuardError message) =>
      .ok (.inl (": SKIPPED — cannot resolve (".toList ++ message.toList ++ ")".toList))
    | .error exc => .error exc
    | .ok info =>
      if info.is_hard_blocked then
        .ok (.inl ": SKIPPED — hard-blocked metadata/link-local endpoint".toList)
      else if (info.is_private || info.is_loopback) && !profile.allow_private then
        .ok (.inl ": SKIPPED — private/loopback not permitted for this environment".toList)
      else .ok (.inr info.resolved_ips)

/-- The ports of the script. -/
def egressPorts (profile : SandboxProfile) : List ℤ :=
  let ports := profile.allowed_ports.dedup.insertionSort (· ≤ ·)
  if ports = [] then DEFAULT_PORTS else ports

/-- `str(port)` -/
def portText (port : ℤ) : Text := (toString port).toList

def acceptLine (ip : Text) (port : ℤ) (host : Text) : Text :=
  "iptables -A OUTPUT -d ".toList ++ ip ++ " -p tcp --dport ".toList ++ portText port ++
    " -j ACCEPT  # ".toList ++ host

def skipLine (host reason : Text) : Text := "# host ".toList ++ host ++ reason

/-- The lines about a host. -/
def hostLines (ports : List ℤ) (host : Text) : Text ⊕ List Text → List Text
  | .inl reason => [skipLine host reason]
  | .inr ips => ips.flatMap fun ip ↦ ports.map fun port ↦ acceptLine ip port host

def egressHeader : List Text := [
  "# --- sandbox egress allowlist (default-deny OUTPUT) ---".toList,
  "iptables -P OUTPUT DROP".toList,
  "iptables -A OUTPUT -o lo -j ACCEPT".toList,
  "iptables -A OUTPUT -m state --state ESTABLISHED,RELATED -j ACCEPT".toList,
  "iptables -A OUTPUT -p udp --dport 53 -j ACCEPT".toList,
  "iptables -A OUTPUT -p tcp --dport 53 -j ACCEPT".toList]

/-- The hosts with what becomes of them, in order. The resolver is asked once for each host, with the first of
the ports. -/
def egressOutcomes (profile : SandboxProfile) (answers : Text → DnsAnswer) :
    Except PyExc (List (Text × (Text ⊕ List Text))) :=
  (Text.sortedSet profile.allowed_hosts).mapM fun host ↦ do
    let outcome ← egressOutcome profile ((egressPorts profile).headD 0).toNat (answers host) host
    return (host, outcome)

/-- Some destination was resolved. -/
def resolvedAny (outcomes : List (Text × (Text ⊕ List Text))) : Bool :=
  outcomes.any fun o ↦ match o.2 with
    | .inl _ => false
    | .inr ips => !ips.isEmpty

/-- Generate the rules. -/
def container_egress_rules (profile : SandboxProfile) (answers : Text → DnsAnswer) :
    Except PyExc (List Text) := do
  let outcomes ← egressOutcomes profile answers
  return egressHeader ++ outcomes.flatMap (fun o ↦ hostLines (egressPorts profile) o.1 o.2) ++
    (if resolvedAny outcomes then []
      else ["# NOTE: no concrete destinations resolved; OUTPUT remains fully denied".toList]) ++
    ["iptables -A OUTPUT -j REJECT --reject-with icmp-admin-prohibited".toList]

end

/-! ### Reading a script -/

/-- What a rule asks of a packet. -/
structure Guard where
  out : Option Text := none
  state : Option Text := none
  protocol : Option Text := none
  dest : Option Text := none
  dport : Option Text := none
  deriving DecidableEq, Repr

/-- A packet that leaves. -/
structure Packet where
  out : Text
  state : Text
  protocol : Text
  address : IpAddress
  dport : ℕ

/-- Every option of the rule holds of the packet. -/
def Guard.sat (g : Guard) (p : Packet) : Bool :=
  (g.out.all fun i ↦ p.out = i) && (g.state.all fun s ↦ (Text.split ',' s).contains p.state) &&
    (g.protocol.all fun x ↦ p.protocol = x) &&
      (g.dest.all fun a ↦ decide (IpAddress.ip_address a = some p.address)) &&
        (g.dport.all fun n ↦ portText p.dport = n)

/-- The words of a line, up to a comment. -/
def commandWords (line : Text) : List Text :=
  ((Text.split ' ' (line.map fun c ↦ if c = '\t' then ' ' else c)).filter (· ≠ [])).takeWhile
    fun w ↦ w.head? != some '#'

def readTarget (word : Text) : Option Target :=
  if word = "ACCEPT".toList then some .ACCEPT
  else if word = "DROP".toList then some .DROP
  else if word = "REJECT".toList then some .REJECT
  else none

/-- The options of a rule. -/
def readOptions : List Text → Guard × Option Target → Option (Rule Guard)
  | [], (guard, target) => target.map fun t ↦ ⟨guard, t⟩
  | option :: value :: rest, (guard, target) =>
    if option = "-o".toList then readOptions rest ({ guard with out := some value }, target)
    else if option = "-m".toList then readOptions rest (guard, target)
    else if option = "--state".toList then readOptions rest ({ guard with state := some value }, target)
    else if option = "-p".toList then readOptions rest ({ guard with protocol := some value }, target)
    else if option = "-d".toList then readOptions rest ({ guard with dest := some value }, target)
    else if option = "--dport".toList then readOptions rest ({ guard with dport := some value }, target)
    else if option = "-j".toList then (readTarget value).bind fun t ↦ readOptions rest (guard, some t)
    else if option = "--reject-with".toList then readOptions rest (guard, target)
    else none
  | [_], _ => none

/-- A command of the filter. -/
def readCommand (words : List Text) : Option (Command Guard) :=
  if words.take 3 = ["iptables".toList, "-P".toList, "OUTPUT".toList] then
    match words.drop 3 with
    | [target] => (readTarget target).map .policy
    | _ => none
  else if words.take 3 = ["iptables".toList, "-A".toList, "OUTPUT".toList] then
    (readOptions (words.drop 3) ({}, none)).map .append
  else none

/-- The text lines of the rules, written one on each line. -/
def scriptLines (rules : List Text) : List Text := rules.flatMap (Text.split '\n')

/-- The chain that the script sets up. -/
def scriptChain (rules : List Text) : Chain Guard :=
  Chain.run ((scriptLines rules).filterMap fun line ↦ readCommand (commandWords line))

end Sentrik
