import Rusternetes.Allocator.Bitmap
import Rusternetes.Framework.Masks

/-! # CIDR Sets

    `CidrSet`: the blocks of one size in a cluster CIDR, and a bitmap of those that are
    taken. Addresses of both families are numbers of 128 bits; an IPv4 address occupies
    the low 32.
-/

open Framework Allocator

namespace NodeIpam

/-! ### Networks -/

inductive Family where
  | v4
  | v6
  deriving DecidableEq

def Family.width : Family → Nat
  | .v4 => 32
  | .v6 => 128

/-- `IpNet`: an address and the length of its network part. -/
structure IpNet where
  family : Family
  addr : Nat
  prefix_len : Nat
  addr_lt : addr < 2 ^ family.width
  prefix_le : prefix_len ≤ family.width
  deriving DecidableEq

namespace IpNet

def host_bits (n : IpNet) : Nat := n.family.width - n.prefix_len

/-- The address with its host part cleared. -/
def network (n : IpNet) : Nat := n.addr >>> n.host_bits <<< n.host_bits

/-- The addresses with the same network part. -/
def addresses (n : IpNet) : Set (Family × Nat) :=
  {x | x.1 = n.family ∧ x.2 / 2 ^ n.host_bits = n.addr / 2 ^ n.host_bits}

end IpNet

/-! ### 128-bit words -/

/-- `u128::MAX`. -/
def u128_max : Nat := 2 ^ 128 - 1

def checked_shl (x n : Nat) : Option Nat := if n < 128 then some (x <<< n % 2 ^ 128) else none

def checked_shr (x n : Nat) : Option Nat := if n < 128 then some (x >>> n) else none

/-! ### The set -/

inductive CidrSetError where
  | NoCidrsRemaining
  | SubnetTooBig
  | InvalidMask (node_mask : Nat) (cluster : IpNet)
  | OutOfRange (cidr cluster : IpNet)
  | IndexOutOfRange (cidr : IpNet)
  deriving DecidableEq

structure CidrSetInner where
  used : List Word := []
  allocated : Nat := 0
  next_candidate : Nat := 0

namespace CidrSetInner

def bit (s : CidrSetInner) (i : Nat) : Bool := Words.bit s.used i

/-- `set_bit`; the words grow as needed, and are kept when a bit is cleared. -/
def set_bit (s : CidrSetInner) (i : Nat) (on : Bool) : CidrSetInner :=
  let word := i / 64
  if on then { s with used := AllocationBitmap.set_on s.used i }
  else if s.used.length ≤ word then s
  else { s with used := s.used.set word (s.used.getD word 0 &&& ~~~(AllocationBitmap.mask i)) }

end CidrSetInner

/-- The subnet mask size may be at most this much longer than an IPv6 cluster's. -/
def CLUSTER_SUBNET_MAX_DIFF : Nat := 16

structure CidrSet where
  cluster : IpNet
  node_mask : Nat
  max_cidrs : Nat
  inner : CidrSetInner
  mask_le : node_mask ≤ cluster.family.width
  prefix_le_mask : cluster.prefix_len ≤ node_mask
  max_eq : max_cidrs = 1 <<< (node_mask - cluster.prefix_len)

namespace CidrSet

def new (cluster : IpNet) (node_mask : Nat) : Except CidrSetError CidrSet :=
  if cluster.family.width = 128 && node_mask > cluster.prefix_len + CLUSTER_SUBNET_MAX_DIFF then
    .error .SubnetTooBig
  else if h : node_mask > cluster.family.width ∨ node_mask < cluster.prefix_len then
    .error (.InvalidMask node_mask cluster)
  else
    .ok { cluster := cluster, node_mask := node_mask,
          max_cidrs := 1 <<< (node_mask - cluster.prefix_len), inner := {},
          mask_le := Nat.le_of_not_lt fun hlt => h (.inl hlt)
          prefix_le_mask := Nat.le_of_not_lt fun hlt => h (.inr hlt)
          max_eq := rfl }

variable (set : CidrSet)

def width : Nat := set.cluster.family.width

def allocated : Nat := set.inner.allocated

def full : Nat := if set.width = 128 then u128_max else 1 <<< set.width - 1

def host_mask (len : Nat) : Nat :=
  match checked_shl 1 (set.width - len) with
  | some v => v - 1
  | none => u128_max

def net_mask (len : Nat) : Nat := set.full &&& (u128_max - set.host_mask len)

def node_net (ip : Nat) : IpNet where
  family := set.cluster.family
  addr := ip % 2 ^ set.cluster.family.width
  prefix_len := set.node_mask
  addr_lt := Nat.mod_lt _ (Nat.two_pow_pos _)
  prefix_le := set.mask_le

def index_to_cidr_block (index : Nat) : IpNet :=
  let shifted := (checked_shl index (set.width - set.node_mask)).getD 0
  set.node_net (set.cluster.network ||| shifted)

/-- The scan of `allocate_next`, for at most so many tries. -/
def scan (s : CidrSetInner) : Nat → Nat → Nat
  | 0, candidate => candidate
  | tries + 1, candidate =>
    if !s.bit candidate then candidate else scan s tries ((candidate + 1) % set.max_cidrs)

def allocate_next : Except CidrSetError (IpNet × CidrSet) :=
  let s := set.inner
  if s.allocated = set.max_cidrs then .error .NoCidrsRemaining
  else
    let candidate := set.scan s set.max_cidrs s.next_candidate
    let s := { s with next_candidate := (candidate + 1) % set.max_cidrs }
    let s := s.set_bit candidate true
    let s := { s with allocated := s.allocated + 1 }
    .ok (set.index_to_cidr_block candidate, { set with inner := s })

def index_for_ip (ip : Nat) : Except CidrSetError Nat :=
  let x := set.cluster.network ^^^ ip
  let idx := (checked_shr x (set.width - set.node_mask)).getD 0
  if idx ≥ set.max_cidrs then .error (.IndexOutOfRange (set.node_net ip)) else .ok idx

def get_indices (cidr : IpNet) : Except CidrSetError (Nat × Nat) :=
  if cidr.family ≠ set.cluster.family then .error (.OutOfRange cidr set.cluster)
  else
    let cluster_ip := set.cluster.network
    let cluster_mask := set.net_mask set.cluster.prefix_len
    let cidr_ip := cidr.network
    let cidr_mask := set.net_mask cidr.prefix_len
    let cluster_contains := cidr_ip &&& cluster_mask = cluster_ip
    let cidr_contains := cluster_ip &&& cidr_mask = cidr_ip
    if ¬cluster_contains ∧ ¬cidr_contains then .error (.OutOfRange cidr set.cluster)
    else if set.cluster.prefix_len < cidr.prefix_len then do
      let node_mask := set.net_mask set.node_mask
      let first ← set.index_for_ip (cidr_ip &&& node_mask)
      let last ← set.index_for_ip ((cidr_ip ||| (u128_max - cidr_mask) &&& set.full) &&& node_mask)
      .ok (first, last)
    else .ok (0, set.max_cidrs - 1)

/-- `begin..=end`. -/
def indices (bounds : Nat × Nat) : List Nat := List.range' bounds.1 (bounds.2 + 1 - bounds.1)

/-- One round of the loop of `release`. -/
def release_index (s : CidrSetInner) (i : Nat) : CidrSetInner :=
  if s.bit i then
    let s := s.set_bit i false
    { s with allocated := s.allocated - 1 }
  else s

/-- One round of the loop of `occupy`. -/
def occupy_index (s : CidrSetInner) (i : Nat) : CidrSetInner :=
  if !s.bit i then
    let s := s.set_bit i true
    { s with allocated := s.allocated + 1 }
  else s

def release (cidr : IpNet) : Except CidrSetError CidrSet := do
  let bounds ← set.get_indices cidr
  .ok { set with inner := (indices bounds).foldl release_index set.inner }

def occupy (cidr : IpNet) : Except CidrSetError CidrSet := do
  let bounds ← set.get_indices cidr
  .ok { set with inner := (indices bounds).foldl occupy_index set.inner }

end CidrSet

end NodeIpam
