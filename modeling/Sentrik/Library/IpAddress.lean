import Mathlib.Data.Option.Basic
import Sentrik.Library.Text

/-!
# Internet addresses

Textual addresses of both families as a standard library reads them: dotted-quad without leading
zeros, colon-separated groups with at most one `::`, an embedded dotted-quad at the end, an optional
zone after `%`. The properties — loopback, link-local, private, reserved — are memberships in fixed
lists of networks; an address of the second family that maps one of the first is judged by the
mapped address.

An address value carries its width in its type, so an out-of-range address cannot be built.
-/

/-- An address of either family; the second may carry a zone. -/
inductive IpAddress
  | v4 (value : BitVec 32)
  | v6 (value : BitVec 128) (scope_id : Option Text)
  deriving DecidableEq, Repr

namespace IpAddress

/-! ### Reading an address -/

/-- One decimal octet: one to three digits, no leading zero, at most 255. -/
def parseOctet (t : Text) : Option ℕ :=
  if t = [] ∨ ¬t.all Text.isDigit ∨ 3 < t.length then none
  else if t ≠ ['0'] ∧ t.head? = some '0' then none
  else if 255 < Text.toNat t then none
  else some (Text.toNat t)

/-- Four octets. -/
def parseV4 (t : Text) : Option (BitVec 32) :=
  match Text.split '.' t with
  | [a, b, c, d] => do
    let a ← parseOctet a
    let b ← parseOctet b
    let c ← parseOctet c
    let d ← parseOctet d
    return BitVec.ofNat 32 (((a * 256 + b) * 256 + c) * 256 + d)
  | _ => none

/-- The value of a hexadecimal digit. -/
def hexValue (c : Char) : Option ℕ :=
  if '0' ≤ c ∧ c ≤ '9' then some (c.toNat - '0'.toNat)
  else if 'a' ≤ c ∧ c ≤ 'f' then some (c.toNat - 'a'.toNat + 10)
  else if 'A' ≤ c ∧ c ≤ 'F' then some (c.toNat - 'A'.toNat + 10)
  else none

/-- A group of one to four hexadecimal digits. -/
def parseHextet (t : Text) : Option ℕ :=
  if t = [] ∨ 4 < t.length then none
  else t.foldlM (fun n c ↦ (hexValue c).map (16 * n + ·)) 0

/-- The groups of an address text: a dotted-quad in last place stands for two groups. -/
def groups (t : Text) : Option (List (Option ℕ)) :=
  let parts := Text.split ':' t
  if parts.length < 3 then none
  else
    let last := parts.getLastD []
    let group (p : Text) : Option (Option ℕ) :=
      if p = [] then some none else (parseHextet p).map some
    if last.contains '.' then do
      let quad ← parseV4 last
      let front ← parts.dropLast.mapM group
      return front ++ [some (quad.toNat / 65536), some (quad.toNat % 65536)]
    else parts.mapM group

/-- Groups in big-endian order. -/
def ofGroups (l : List ℕ) : ℕ := l.foldl (fun n g ↦ 65536 * n + g) 0

/-- The empty group strictly inside the list, if there is exactly one: the groups before it and
after it. More than one is an error (`none`), none at all is `some none`. -/
def splitSkip (l : List (Option ℕ)) : Option (Option (List (Option ℕ) × List (Option ℕ))) :=
  let inner := (l.drop 1).dropLast
  match inner.count none with
  | 0 => some none
  | 1 =>
    let i := 1 + inner.idxOf none
    some (some (l.take i, l.drop (i + 1)))
  | _ => none

/-- The groups as an address value. A leading (trailing) empty group is allowed only as part of a
leading (trailing) `::`, which has to stand for one group at least. -/
def assemble (l : List (Option ℕ)) : Option ℕ :=
  if 9 < l.length then none
  else
    match splitSkip l with
    | none => none
    | some none => if l.length = 8 then (l.mapM id).map ofGroups else none
    | some (some (hi, lo)) => do
      let hi ← if hi.head? = some none then (if hi.length = 1 then some [] else none) else some hi
      let lo ← if lo.getLast? = some none then (if lo.length = 1 then some [] else none) else some lo
      if 8 < hi.length + lo.length + 1 then none
      else
        let hi ← hi.mapM id
        let lo ← lo.mapM id
        return ofGroups (hi ++ List.replicate (8 - (hi.length + lo.length)) 0 ++ lo)

/-- An address of the second family, with its zone: the zone is not empty and has no second `%`. -/
def parseV6 (t : Text) : Option (BitVec 128 × Option Text) :=
  match Text.partition '%' t with
  | (addr, none) => ((groups addr).bind assemble).map fun n ↦ (BitVec.ofNat 128 n, none)
  | (addr, some scope) =>
    if scope = [] ∨ scope.contains '%' then none
    else ((groups addr).bind assemble).map fun n ↦ (BitVec.ofNat 128 n, some scope)

/-- The address a text denotes, if it is an address literal. A text with a slash never is one. -/
def ip_address (t : Text) : Option IpAddress :=
  match parseV4 t with
  | some v => some (.v4 v)
  | none => if t.contains '/' then none else (parseV6 t).map fun r ↦ .v6 r.1 r.2

/-- The address without its zone: what a socket is connected to on the wire. -/
def withoutZone : IpAddress → IpAddress
  | v4 v => v4 v
  | v6 v _ => v6 v none

/-! ### Networks -/

/-- A network of width `w`: a prefix length and the base address. -/
structure Network (w : ℕ) where
  base : BitVec w
  prefixlen : ℕ
  deriving DecidableEq, Repr

/-- Membership compares the leading `prefixlen` bits. -/
def Network.contains {w : ℕ} (n : Network w) (a : BitVec w) : Bool :=
  a >>> (w - n.prefixlen) == n.base >>> (w - n.prefixlen)

/-- A network of the first family, by its first octets. -/
def net4 (a b c d len : ℕ) : Network 32 :=
  ⟨BitVec.ofNat 32 (((a * 256 + b) * 256 + c) * 256 + d), len⟩

/-- A network of the second family, by its leading groups. -/
def net6 (l : List ℕ) (len : ℕ) : Network 128 :=
  ⟨BitVec.ofNat 128 (ofGroups (l ++ List.replicate (8 - l.length) 0)), len⟩

def privateNetworks4 : List (Network 32) :=
  [net4 0 0 0 0 8, net4 10 0 0 0 8, net4 127 0 0 0 8, net4 169 254 0 0 16, net4 172 16 0 0 12,
    net4 192 0 0 0 24, net4 192 0 0 170 31, net4 192 0 2 0 24, net4 192 168 0 0 16,
    net4 198 18 0 0 15, net4 198 51 100 0 24, net4 203 0 113 0 24, net4 240 0 0 0 4,
    net4 255 255 255 255 32]

def privateExceptions4 : List (Network 32) := [net4 192 0 0 9 32, net4 192 0 0 10 32]

def privateNetworks6 : List (Network 128) :=
  [net6 [0, 0, 0, 0, 0, 0, 0, 1] 128, net6 [] 128, net6 [0, 0, 0, 0, 0, 0xffff] 96,
    net6 [0x64, 0xff9b, 1] 48, net6 [0x100] 64, net6 [0x2001] 23, net6 [0x2001, 0xdb8] 32,
    net6 [0x2002] 16, net6 [0xfc00] 7, net6 [0xfe80] 10]

def privateExceptions6 : List (Network 128) :=
  [net6 [0x2001, 1, 0, 0, 0, 0, 0, 1] 128, net6 [0x2001, 1, 0, 0, 0, 0, 0, 2] 128,
    net6 [0x2001, 3] 32, net6 [0x2001, 4, 0x112] 48, net6 [0x2001, 0x20] 28, net6 [0x2001, 0x30] 28]

def reservedNetworks6 : List (Network 128) :=
  [net6 [] 8, net6 [0x100] 8, net6 [0x200] 7, net6 [0x400] 6, net6 [0x800] 5, net6 [0x1000] 4,
    net6 [0x4000] 3, net6 [0x6000] 3, net6 [0x8000] 3, net6 [0xa000] 3, net6 [0xc000] 3,
    net6 [0xe000] 4, net6 [0xf000] 5, net6 [0xf800] 6, net6 [0xfe00] 9]

/-! ### Properties -/

/-- The address of the first family that one of the second maps. -/
def ipv4Mapped (v : BitVec 128) : Option (BitVec 32) :=
  if (net6 [0, 0, 0, 0, 0, 0xffff] 96).contains v then some (v.setWidth 32) else none

def isLoopback4 (v : BitVec 32) : Bool := (net4 127 0 0 0 8).contains v

def isLinkLocal4 (v : BitVec 32) : Bool := (net4 169 254 0 0 16).contains v

def isReserved4 (v : BitVec 32) : Bool := (net4 240 0 0 0 4).contains v

def isPrivate4 (v : BitVec 32) : Bool :=
  privateNetworks4.any (·.contains v) && !privateExceptions4.any (·.contains v)

def is_loopback : IpAddress → Bool
  | v4 v => isLoopback4 v
  | v6 v _ => v == 1

def is_link_local : IpAddress → Bool
  | v4 v => isLinkLocal4 v
  | v6 v _ =>
    match ipv4Mapped v with
    | some m => isLinkLocal4 m
    | none => (net6 [0xfe80] 10).contains v

def is_reserved : IpAddress → Bool
  | v4 v => isReserved4 v
  | v6 v _ =>
    match ipv4Mapped v with
    | some m => isReserved4 m
    | none => reservedNetworks6.any (·.contains v)

def is_private : IpAddress → Bool
  | v4 v => isPrivate4 v
  | v6 v _ =>
    match ipv4Mapped v with
    | some m => isPrivate4 m
    | none => privateNetworks6.any (·.contains v) && !privateExceptions6.any (·.contains v)

/-- Loopback, private, link-local or reserved. -/
def isInternal (a : IpAddress) : Bool :=
  a.is_loopback || a.is_private || a.is_link_local || a.is_reserved

@[simp] theorem ip_address_nil : ip_address [] = none := by decide +kernel

/-! ### The zone does not matter -/

@[simp] theorem is_loopback_withoutZone (a : IpAddress) :
    a.withoutZone.is_loopback = a.is_loopback := by cases a <;> rfl

@[simp] theorem is_link_local_withoutZone (a : IpAddress) :
    a.withoutZone.is_link_local = a.is_link_local := by cases a <;> rfl

@[simp] theorem is_reserved_withoutZone (a : IpAddress) :
    a.withoutZone.is_reserved = a.is_reserved := by cases a <;> rfl

@[simp] theorem is_private_withoutZone (a : IpAddress) :
    a.withoutZone.is_private = a.is_private := by cases a <;> rfl

@[simp] theorem isInternal_withoutZone (a : IpAddress) :
    a.withoutZone.isInternal = a.isInternal := by simp [isInternal]

example : ip_address "::ffff:10.0.0.1".toList = some (.v6 0xffff0a000001 none) := by decide +kernel
example : ip_address "1::2::3".toList = none := by decide +kernel
example : (ip_address "fe80::1%eth0".toList).map is_link_local = some true := by decide +kernel

end IpAddress
