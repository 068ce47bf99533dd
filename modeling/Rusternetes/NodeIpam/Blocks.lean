import Rusternetes.NodeIpam.CidrSet

/-! # The Blocks of a Cluster CIDR

    What the bit operations of a CIDR set say about addresses. A block is the addresses
    that agree from the node mask on; the blocks divide the cluster CIDR, and the indices
    of a CIDR are those of the blocks it overlaps.
-/

open Framework Framework.Masks Nat Set

namespace NodeIpam

theorem Family.width_le (f : Family) : f.width ≤ 128 := by
  cases f <;> decide

/-! ### Networks -/

namespace IpNet

variable (n : IpNet)

theorem network_eq : n.network = n.addr / 2 ^ n.host_bits * 2 ^ n.host_bits := by
  rw [network, shiftRight_eq_div_pow, shiftLeft_eq]

theorem network_div : n.network / 2 ^ n.host_bits = n.addr / 2 ^ n.host_bits := by
  rw [network_eq, Nat.mul_div_cancel _ (Nat.two_pow_pos _)]

theorem network_dvd : 2 ^ n.host_bits ∣ n.network := by
  rw [network_eq]
  exact dvd_mul_left _ _

theorem network_lt : n.network < 2 ^ n.family.width := by
  rw [network_eq]
  exact lt_of_le_of_lt (div_mul_le_self _ _) n.addr_lt

theorem mem_addresses_iff_le {x : Family × Nat} :
    x ∈ n.addresses ↔ x.1 = n.family ∧ n.network ≤ x.2 ∧
      x.2 ≤ n.network + (2 ^ n.host_bits - 1) := by
  show x.1 = n.family ∧ x.2 / 2 ^ n.host_bits = n.addr / 2 ^ n.host_bits ↔ _
  rw [Masks.div_eq_iff, ← network_eq]

end IpNet

namespace CidrSet

variable (set : CidrSet)

/-! ### Masks -/

theorem full_eq : set.full = 2 ^ set.width - 1 := by
  unfold full
  split_ifs with h
  · rw [h]
    rfl
  · rw [one_shiftLeft]

theorem width_le : set.width ≤ 128 := set.cluster.family.width_le

theorem host_mask_eq (len : Nat) : set.host_mask len = 2 ^ (set.width - len) - 1 := by
  have hle : set.width - len ≤ 128 := (sub_le _ _).trans set.width_le
  unfold host_mask checked_shl
  by_cases hlt : set.width - len < 128
  · have hpow : 2 ^ (set.width - len) < 2 ^ 128 := Nat.pow_lt_pow_right (by omega) hlt
    rw [if_pos hlt, one_shiftLeft, mod_eq_of_lt hpow]
  · have heq : set.width - len = 128 := by omega
    rw [if_neg hlt, heq]
    rfl

theorem pow_le (len : Nat) :
    2 ^ (set.width - len) ≤ 2 ^ set.width ∧ 2 ^ set.width ≤ 2 ^ 128 :=
  ⟨Nat.pow_le_pow_right (by omega) (Nat.sub_le _ _), Nat.pow_le_pow_right (by omega) set.width_le⟩

theorem net_mask_eq (len : Nat) : set.net_mask len = 2 ^ set.width - 2 ^ (set.width - len) := by
  have hpos := Nat.two_pow_pos (set.width - len)
  have hle := set.pow_le len
  have hcompl : u128_max - set.host_mask len =
      2 ^ 128 - 2 ^ set.width + (2 ^ set.width - 2 ^ (set.width - len)) := by
    rw [host_mask_eq, u128_max]
    omega
  rw [net_mask, hcompl, full_eq, Nat.and_comm, and_two_pow_sub_one (by omega) set.width_le]

theorem compl_net_mask (len : Nat) :
    (u128_max - set.net_mask len) &&& set.full = 2 ^ (set.width - len) - 1 := by
  have hpos := Nat.two_pow_pos (set.width - len)
  have hle := set.pow_le len
  have hcompl : u128_max - set.net_mask len =
      2 ^ 128 - 2 ^ set.width + (2 ^ (set.width - len) - 1) := by
    rw [net_mask_eq, u128_max]
    omega
  rw [hcompl, full_eq, and_two_pow_sub_one (by omega) set.width_le]

theorem and_net_mask {a : Nat} (ha : a < 2 ^ set.width) (len : Nat) :
    a &&& set.net_mask len = a / 2 ^ (set.width - len) * 2 ^ (set.width - len) := by
  rw [net_mask_eq]
  exact and_two_pow_sub ha (sub_le _ _)

/-! ### Blocks -/

def node_bits : Nat := set.width - set.node_mask

theorem node_bits_le : set.node_bits ≤ set.cluster.host_bits :=
  Nat.sub_le_sub_left set.prefix_le_mask _

theorem max_cidrs_eq : set.max_cidrs = 2 ^ (set.cluster.host_bits - set.node_bits) := by
  have hmask : set.node_mask ≤ set.cluster.family.width := set.mask_le
  rw [set.max_eq, one_shiftLeft]
  congr 1
  unfold IpNet.host_bits node_bits width
  omega

theorem max_cidrs_pos : 0 < set.max_cidrs := by
  rw [max_cidrs_eq]
  exact Nat.two_pow_pos _

theorem host_bits_le : set.cluster.host_bits ≤ 128 :=
  (sub_le _ _).trans set.cluster.family.width_le

theorem network_div_node_bits : set.cluster.network / 2 ^ set.node_bits =
    set.cluster.addr / 2 ^ set.cluster.host_bits * set.max_cidrs := by
  rw [IpNet.network_eq, mul_div_of_ge set.node_bits_le, max_cidrs_eq]

variable {i : Nat}

theorem block_addr (hi : i < set.max_cidrs) :
    (set.index_to_cidr_block i).addr = set.cluster.network + i * 2 ^ set.node_bits := by
  have hle := set.node_bits_le
  have hlt : i * 2 ^ set.node_bits < 2 ^ set.cluster.host_bits := by
    have hmul := (Nat.mul_lt_mul_right (Nat.two_pow_pos set.node_bits)).mpr hi
    rw [max_cidrs_eq, ← Nat.pow_add, Nat.sub_add_cancel hle] at hmul
    exact hmul
  have hshift : (checked_shl i (set.width - set.node_mask)).getD 0 = i * 2 ^ set.node_bits := by
    have hbound : i * 2 ^ set.node_bits < 2 ^ 128 :=
      hlt.trans_le (Nat.pow_le_pow_right (by omega) set.host_bits_le)
    unfold checked_shl
    by_cases h : set.width - set.node_mask < 128
    · rw [if_pos h, Option.getD_some, shiftLeft_eq]
      exact mod_eq_of_lt hbound
    · -- the only block is the cluster itself
      have hbits : 128 ≤ set.node_bits := Nat.le_of_not_lt h
      have hpow : 2 ^ 128 ≤ 2 ^ set.node_bits := Nat.pow_le_pow_right (by omega) hbits
      have hzero : i = 0 := by
        by_contra hne
        have hone : 1 * 2 ^ set.node_bits ≤ i * 2 ^ set.node_bits :=
          mul_le_mul_right _ (one_le_iff_ne_zero.mpr hne)
        omega
      rw [if_neg h, hzero, zero_mul, Option.getD_none]
  unfold index_to_cidr_block node_net
  dsimp only
  rw [hshift, or_of_dvd set.cluster.network_dvd hlt]
  refine mod_eq_of_lt
    (lt_of_div_eq (h := set.cluster.host_bits) (sub_le _ _) set.cluster.addr_lt ?_)
  rw [Nat.add_div_of_dvd_right set.cluster.network_dvd, IpNet.network_div, Nat.div_eq_of_lt hlt,
    add_zero]

variable {x : Family × Nat}

/-- **The addresses of a block.** -/
theorem mem_block (hi : i < set.max_cidrs) :
    x ∈ (set.index_to_cidr_block i).addresses ↔ x.1 = set.cluster.family ∧
      x.2 / 2 ^ set.node_bits =
        set.cluster.addr / 2 ^ set.cluster.host_bits * set.max_cidrs + i := by
  have hdiv : (set.index_to_cidr_block i).addr / 2 ^ set.node_bits =
      set.cluster.addr / 2 ^ set.cluster.host_bits * set.max_cidrs + i := by
    rw [block_addr set hi, Nat.add_mul_div_right _ _ (Nat.two_pow_pos _), network_div_node_bits]
  rw [← hdiv]
  exact Iff.rfl

theorem block_subset (hi : i < set.max_cidrs) :
    (set.index_to_cidr_block i).addresses ⊆ set.cluster.addresses := by
  intro x hx
  obtain ⟨hfamily, hdiv⟩ := (set.mem_block hi).mp hx
  refine ⟨hfamily, ?_⟩
  rw [← div_div set.node_bits_le, hdiv, ← max_cidrs_eq, mul_comm,
    mul_add_div set.max_cidrs_pos, div_eq_of_lt hi, add_zero]

theorem exists_block (hx : x ∈ set.cluster.addresses) :
    ∃ i < set.max_cidrs, x ∈ (set.index_to_cidr_block i).addresses := by
  obtain ⟨hfamily, hdiv⟩ := hx
  have hlt := mod_lt (x.2 / 2 ^ set.node_bits) set.max_cidrs_pos
  refine ⟨_, hlt, (set.mem_block hlt).mpr ⟨hfamily, ?_⟩⟩
  rw [← hdiv, ← div_div set.node_bits_le, ← max_cidrs_eq, mul_comm]
  exact (div_add_mod _ _).symm

theorem overlap_block_iff {j : Nat} (hi : i < set.max_cidrs) (hj : j < set.max_cidrs) :
    ¬Disjoint (set.index_to_cidr_block i).addresses (set.index_to_cidr_block j).addresses ↔
      j = i := by
  rw [not_disjoint_iff]
  constructor
  · intro ⟨x, hxi, hxj⟩
    have hi' := ((set.mem_block hi).mp hxi).2
    have hj' := ((set.mem_block hj).mp hxj).2
    omega
  · rintro rfl
    exact ⟨(_, _), ⟨rfl, rfl⟩, ⟨rfl, rfl⟩⟩

/-! ### Indices -/

theorem index_for_ip_eq {ip : Nat}
    (hip : ip / 2 ^ set.cluster.host_bits = set.cluster.addr / 2 ^ set.cluster.host_bits) :
    ∃ i < set.max_cidrs, set.index_for_ip ip = .ok i ∧
      ip / 2 ^ set.node_bits = set.cluster.addr / 2 ^ set.cluster.host_bits * set.max_cidrs + i := by
  have hle := set.node_bits_le
  have hmod := Nat.mod_lt ip (Nat.two_pow_pos set.cluster.host_bits)
  have hsplit : ip = set.cluster.network + ip % 2 ^ set.cluster.host_bits := by
    rw [IpNet.network_eq, ← hip, mul_comm]
    exact (div_add_mod _ _).symm
  have hxor : set.cluster.network ^^^ ip = ip % 2 ^ set.cluster.host_bits := by
    conv_lhs => rw [hsplit]
    exact xor_add_of_dvd set.cluster.network_dvd hmod
  generalize hr : ip % 2 ^ set.cluster.host_bits = r at hmod hsplit hxor
  have hshift : (checked_shr r (set.width - set.node_mask)).getD 0 = r / 2 ^ set.node_bits := by
    unfold checked_shr
    by_cases h : set.width - set.node_mask < 128
    · rw [if_pos h, Option.getD_some, shiftRight_eq_div_pow]
      rfl
    · have hbits : set.cluster.host_bits ≤ set.node_bits :=
        set.host_bits_le.trans (Nat.le_of_not_lt h)
      have hlt : r < 2 ^ set.node_bits := hmod.trans_le (Nat.pow_le_pow_right (by omega) hbits)
      rw [if_neg h, Option.getD_none, div_eq_of_lt hlt]
  have hlt : r / 2 ^ set.node_bits < set.max_cidrs := by
    rw [Nat.div_lt_iff_lt_mul (Nat.two_pow_pos _), max_cidrs_eq, ← Nat.pow_add,
      Nat.sub_add_cancel hle]
    exact hmod
  refine ⟨_, hlt, ?_, ?_⟩
  · unfold index_for_ip
    dsimp only
    rw [hxor, hshift, if_neg (Nat.not_le_of_lt hlt)]
  · have hdvd : 2 ^ set.node_bits ∣ set.cluster.network :=
      (pow_dvd_pow 2 hle).trans set.cluster.network_dvd
    rw [hsplit, Nat.add_div_of_dvd_right hdvd, network_div_node_bits]

theorem mem_indices {bounds : Nat × Nat} : i ∈ indices bounds ↔ bounds.1 ≤ i ∧ i ≤ bounds.2 := by
  rw [indices, List.mem_range']
  constructor
  · intro ⟨j, hj, hi⟩
    omega
  · intro ⟨hfirst, hlast⟩
    exact ⟨i - bounds.1, by omega, by omega⟩

theorem contains_of_overlap {a b : IpNet} (hle : a.host_bits ≤ b.host_bits) (ha : x ∈ a.addresses)
    (hb : x ∈ b.addresses) : a.network / 2 ^ b.host_bits = b.addr / 2 ^ b.host_bits := by
  rw [← hb.2, ← div_div hle, IpNet.network_div, ← ha.2, div_div hle]

variable {set} {cidr : IpNet} (hfamily : cidr.family = set.cluster.family)
include hfamily

theorem bounds_spec {first last : Nat} (hfirst : cidr.network / 2 ^ set.node_bits =
      set.cluster.addr / 2 ^ set.cluster.host_bits * set.max_cidrs + first)
    (hlast : (cidr.network + (2 ^ cidr.host_bits - 1)) / 2 ^ set.node_bits =
      set.cluster.addr / 2 ^ set.cluster.host_bits * set.max_cidrs + last) (hi : i < set.max_cidrs) :
    i ∈ indices (first, last) ↔
      ¬Disjoint cidr.addresses (set.index_to_cidr_block i).addresses := by
  have hmeets := exists_between_iff (le_add_right cidr.network (2 ^ cidr.host_bits - 1))
    set.node_bits (set.cluster.addr / 2 ^ set.cluster.host_bits * set.max_cidrs + i)
  rw [mem_indices, not_disjoint_iff]
  constructor
  · intro hbounds
    obtain ⟨x, hge, hle, hx⟩ := hmeets.mpr (by omega)
    exact ⟨(cidr.family, x), cidr.mem_addresses_iff_le.mpr ⟨rfl, hge, hle⟩,
      (set.mem_block hi).mpr ⟨hfamily, hx⟩⟩
  · intro ⟨x, hcidr, hblock⟩
    obtain ⟨-, hge, hle⟩ := cidr.mem_addresses_iff_le.mp hcidr
    have hx := hmeets.mp ⟨x.2, hge, hle, ((set.mem_block hi).mp hblock).2⟩
    omega

theorem network_lt_width : cidr.network < 2 ^ set.width := by
  have hnet := cidr.network_lt
  rw [hfamily] at hnet
  exact hnet

theorem host_bits_eq : cidr.host_bits = set.width - cidr.prefix_len := by
  unfold IpNet.host_bits
  rw [hfamily]
  rfl

/-- What the two containment tests of `get_indices` compare. -/
theorem cluster_contains_iff :
    cidr.network &&& set.net_mask set.cluster.prefix_len = set.cluster.network ↔
      cidr.network / 2 ^ set.cluster.host_bits = set.cluster.addr / 2 ^ set.cluster.host_bits := by
  rw [set.and_net_mask (network_lt_width hfamily), IpNet.network_eq set.cluster]
  exact Nat.mul_left_inj (Nat.two_pow_pos _).ne'

theorem cidr_contains_iff :
    set.cluster.network &&& set.net_mask cidr.prefix_len = cidr.network ↔
      set.cluster.network / 2 ^ cidr.host_bits = cidr.addr / 2 ^ cidr.host_bits := by
  rw [set.and_net_mask set.cluster.network_lt, IpNet.network_eq cidr, ← host_bits_eq hfamily]
  exact Nat.mul_left_inj (Nat.two_pow_pos _).ne'

theorem contains_of_wide (hle : set.cluster.host_bits ≤ cidr.host_bits)
    (h : cidr.network / 2 ^ set.cluster.host_bits = set.cluster.addr / 2 ^ set.cluster.host_bits ∨
      set.cluster.network / 2 ^ cidr.host_bits = cidr.addr / 2 ^ cidr.host_bits) :
    set.cluster.addresses ⊆ cidr.addresses := by
  have hdiv : set.cluster.addr / 2 ^ cidr.host_bits = cidr.addr / 2 ^ cidr.host_bits := by
    rcases h with h | h
    · rw [← div_div hle, ← h, div_div hle, IpNet.network_div]
    · rw [← h, IpNet.network_eq, div_mul_div hle]
  intro x hx
  refine ⟨hx.1.trans hfamily.symm, ?_⟩
  rw [← hdiv, ← div_div hle, hx.2, div_div hle]

omit hfamily in
/-- **The indices of a CIDR are those of the blocks it overlaps**; without any it is
    refused. -/
theorem get_indices_spec (set : CidrSet) (cidr : IpNet) :
    (∃ e, set.get_indices cidr = .error e ∧ Disjoint cidr.addresses set.cluster.addresses) ∨
      ∃ bounds, set.get_indices cidr = .ok bounds ∧ bounds.2 < set.max_cidrs ∧
        ∀ i < set.max_cidrs, i ∈ indices bounds ↔
          ¬Disjoint cidr.addresses (set.index_to_cidr_block i).addresses := by
  unfold get_indices
  by_cases hfamily : cidr.family = set.cluster.family
  swap
  · left
    refine ⟨_, if_pos hfamily, disjoint_left.mpr ?_⟩
    intro x hcidr hcluster
    exact hfamily (hcidr.1.symm.trans hcluster.1)
  rw [if_neg (not_not.mpr hfamily)]
  dsimp only
  by_cases hneither : ¬cidr.network &&& set.net_mask set.cluster.prefix_len = set.cluster.network ∧
      ¬set.cluster.network &&& set.net_mask cidr.prefix_len = cidr.network
  · left
    refine ⟨_, if_pos hneither, disjoint_left.mpr ?_⟩
    intro x hcidr hcluster
    rcases le_total cidr.host_bits set.cluster.host_bits with hle | hle
    · exact hneither.1 ((cluster_contains_iff hfamily).mpr (contains_of_overlap hle hcidr hcluster))
    · exact hneither.2 ((cidr_contains_iff hfamily).mpr (contains_of_overlap hle hcluster hcidr))
  right
  have hcontains := (or_iff_not_and_not.mpr hneither).imp
    (cluster_contains_iff hfamily).mp (cidr_contains_iff hfamily).mp
  rw [if_neg hneither]
  have hbits := host_bits_eq hfamily
  by_cases hlen : set.cluster.prefix_len < cidr.prefix_len
  · -- a CIDR in the cluster CIDR
    have hle : cidr.host_bits ≤ set.cluster.host_bits := by
      rw [hbits]
      exact Nat.sub_le_sub_left hlen.le _
    have hin : cidr.network / 2 ^ set.cluster.host_bits =
        set.cluster.addr / 2 ^ set.cluster.host_bits := by
      rcases hcontains with h | h
      · exact h
      · rw [IpNet.network_eq cidr, ← h, div_mul_div hle, IpNet.network_div]
    have htop : (cidr.network + (2 ^ cidr.host_bits - 1)) / 2 ^ cidr.host_bits =
        cidr.network / 2 ^ cidr.host_bits := by
      rw [Nat.add_div_of_dvd_right cidr.network_dvd,
        Nat.div_eq_of_lt (Nat.sub_lt (Nat.two_pow_pos _) Nat.one_pos), Nat.add_zero]
    have htopin : (cidr.network + (2 ^ cidr.host_bits - 1)) / 2 ^ set.cluster.host_bits =
        set.cluster.addr / 2 ^ set.cluster.host_bits := by
      rw [← hin, ← div_div hle, htop, div_div hle]
    have htopnet : cidr.network + (2 ^ cidr.host_bits - 1) < 2 ^ set.width :=
      lt_of_div_eq (sub_le _ _) set.cluster.addr_lt htopin
    have hfill : cidr.network ||| (u128_max - set.net_mask cidr.prefix_len) &&& set.full =
        cidr.network + (2 ^ cidr.host_bits - 1) := by
      rw [compl_net_mask, ← hbits]
      exact or_of_dvd cidr.network_dvd (Nat.sub_lt (Nat.two_pow_pos _) Nat.one_pos)
    obtain ⟨first, hfirst, hfirst_eq, hfirst_div⟩ := set.index_for_ip_eq
      ((div_mul_div set.node_bits_le cidr.network).trans hin)
    obtain ⟨last, hlast, hlast_eq, hlast_div⟩ := set.index_for_ip_eq
      ((div_mul_div set.node_bits_le _).trans htopin)
    rw [Nat.mul_div_cancel _ (Nat.two_pow_pos _)] at hfirst_div hlast_div
    refine ⟨(first, last), ?_, hlast, fun i hi => bounds_spec hfamily hfirst_div hlast_div hi⟩
    rw [if_pos hlen, hfill, set.and_net_mask (network_lt_width hfamily), set.and_net_mask htopnet]
    change (do
      let first ← set.index_for_ip (cidr.network / 2 ^ set.node_bits * 2 ^ set.node_bits)
      let last ← set.index_for_ip ((cidr.network + (2 ^ cidr.host_bits - 1)) /
        2 ^ set.node_bits * 2 ^ set.node_bits)
      .ok (first, last)) = Except.ok (first, last)
    rw [hfirst_eq, hlast_eq]
    rfl
  · -- one that contains it
    have hle : set.cluster.host_bits ≤ cidr.host_bits := by
      rw [hbits]
      exact Nat.sub_le_sub_left (Nat.le_of_not_lt hlen) _
    have hsub := contains_of_wide hfamily hle hcontains
    refine ⟨(0, set.max_cidrs - 1), if_neg hlen, sub_lt set.max_cidrs_pos one_pos, ?_⟩
    intro i hi
    rw [mem_indices, not_disjoint_iff]
    constructor
    · intro _
      obtain ⟨x, hx⟩ : (set.index_to_cidr_block i).addresses.Nonempty := ⟨(_, _), rfl, rfl⟩
      exact ⟨x, hsub (set.block_subset hi hx), hx⟩
    · intro _
      omega

end CidrSet

end NodeIpam
