import Rusternetes.Allocator.Etcd
import Rusternetes.Framework.Prog

/-! # The Port Allocator

    `PortAllocator`: the ports of a range, over a bitmap. A call is atomic. What calls
    do is also said in tokens: whoever is granted a port owns it, and only its owner
    may release it.
-/

open Common Framework Set

namespace Allocator

/-! ### Ranges -/

structure PortRange where
  base : Nat
  size : Nat
  ports : base + size ≤ 65536

def default_service_node_port_range : PortRange := ⟨30000, 2768, by decide⟩

def PortRange.contains (pr : PortRange) (p : Nat) : Bool :=
  decide (pr.base ≤ p) && decide (p - pr.base < pr.size)

def PortRange.to_string (pr : PortRange) : String :=
  if pr.size = 0 then "" else toString pr.base ++ "-" ++ toString (pr.base + pr.size - 1)

def calculate_range_offset (pr : PortRange) : Nat :=
  if pr.size ≤ 16 then 0 else max 16 (min (pr.size / 32) 128)

theorem PortRange.contains_iff {pr : PortRange} {p : Nat} :
    pr.contains p = true ↔ pr.base ≤ p ∧ p < pr.base + pr.size := by
  simp only [contains, Bool.and_eq_true, decide_eq_true_eq]
  omega

theorem PortRange.contains_lt {pr : PortRange} {p : Nat} (h : pr.contains p = true) :
    p < 65536 := by
  have hin := PortRange.contains_iff.mp h
  have hports := pr.ports
  omega

/-! ### The allocator -/

inductive PortError where
  | Full
  | Allocated
  | NotInRange (valid_ports : String)
  | MismatchedNetwork
  | Other (e : Error)
  deriving DecidableEq

def PortError.to_string : PortError → String
  | .Full => "range is full"
  | .Allocated => "provided port is already allocated"
  | .NotInRange valid_ports =>
    "provided port is not in the valid range. The range of valid ports is " ++ valid_ports
  | .MismatchedNetwork => "the provided port range does not match the current port range"
  | .Other e => e.to_string

abbrev PortResult (α : Type) := Except PortError α

structure PortAllocator where
  port_range : PortRange
  alloc : AllocationBitmap
  /-- The bitmap is as large as the range. -/
  sized : alloc.max = port_range.size

namespace AllocationBitmap

variable {b : AllocationBitmap} {x : Nat}

theorem allocate_max {b' : AllocationBitmap} {free : Bool} (h : b.allocate x = .ok (free, b')) :
    b'.max = b.max := by
  unfold allocate at h
  split_ifs at h
  · obtain ⟨_, rfl⟩ := Prod.mk.inj (Except.ok.inj h)
    rfl
  · obtain ⟨_, rfl⟩ := Prod.mk.inj (Except.ok.inj h)
    rfl

theorem allocate_next_max {b' : AllocationBitmap} {first second : Nat}
    (h : b.allocate_next first second = .ok (some x, b')) : x < b.max ∧ b'.max = b.max := by
  obtain ⟨hnext, rfl⟩ := allocate_next_spec h
  obtain ⟨_, _, _, hscan, hlt⟩ := random_scan_spec hnext
  exact ⟨hlt (scan_mem hscan).2, rfl⟩

theorem release_max (b : AllocationBitmap) (x : Nat) : (b.release x).max = b.max := by
  unfold release
  split_ifs
  · rfl
  · rfl

end AllocationBitmap

namespace PortAllocator

/-- `PortAllocator::new`, over a bitmap in memory. -/
def new_in_memory (pr : PortRange) : PortAllocator :=
  ⟨pr, .with_offset pr.size pr.to_string (calculate_range_offset pr), rfl⟩

def with_alloc (pa : PortAllocator) (alloc : AllocationBitmap) (h : alloc.max = pa.alloc.max) :
    PortAllocator :=
  ⟨pa.port_range, alloc, h.trans pa.sized⟩

def contains (pa : PortAllocator) (port : Nat) : Option Nat :=
  if pa.port_range.contains port then some (port - pa.port_range.base) else none

def allocate (pa : PortAllocator) (ans : Answers) (port : Nat) : PortResult Unit × PortAllocator :=
  match pa.contains port with
  | none => (.error (.NotInRange pa.port_range.to_string), pa)
  | some offset =>
    match ans.fault with
    | some e => (.error (.Other e), pa)
    | none =>
      match h : pa.alloc.allocate offset with
      | .error e => (.error (.Other e), pa)
      | .ok (false, _) => (.error .Allocated, pa)
      | .ok (true, alloc) => (.ok (), pa.with_alloc alloc (AllocationBitmap.allocate_max h))

def allocate_next (pa : PortAllocator) (ans : Answers) : PortResult Nat × PortAllocator :=
  match ans.fault with
  | some e => (.error (.Other e), pa)
  | none =>
    match h : pa.alloc.allocate_next ans.first ans.second with
    | .error e => (.error (.Other e), pa)
    | .ok (none, _) => (.error .Full, pa)
    | .ok (some offset, alloc) =>
      (.ok (pa.port_range.base + offset),
        pa.with_alloc alloc (AllocationBitmap.allocate_next_max h).2)

/-- `PortAllocator::release`: a port outside the range is ignored. -/
def release (pa : PortAllocator) (ans : Answers) (port : Nat) : PortResult Unit × PortAllocator :=
  match pa.contains port with
  | none => (.ok (), pa)
  | some offset =>
    match ans.fault with
    | some e => (.error (.Other e), pa)
    | none =>
      (.ok (), pa.with_alloc (pa.alloc.release offset)
        (AllocationBitmap.release_max pa.alloc offset))

def has (pa : PortAllocator) (port : Nat) : Bool :=
  match pa.contains port with
  | none => false
  | some offset => pa.alloc.bit offset

end PortAllocator

/-! ### Calls -/

/-- The calls that others make to a `PortAllocator`. -/
inductive PortOp where
  | allocate (port : Nat)
  | allocate_next
  | release (port : Nat)
  | has (port : Nat)
  deriving DecidableEq

/-- What a call is answered. -/
def PortOp.Ans : PortOp → Type
  | .allocate _ => PortResult Unit
  | .allocate_next => PortResult Nat
  | .release _ => PortResult Unit
  | .has _ => Bool

/-- Programs that call a `PortAllocator`. -/
abbrev PortProg (α : Type) := Prog PortOp PortOp.Ans α

def call_allocate (port : Nat) : PortProg (PortResult Unit) := .call (.allocate port) .ret

def call_allocate_next : PortProg (PortResult Nat) := .call .allocate_next .ret

def call_release (port : Nat) : PortProg (PortResult Unit) := .call (.release port) .ret

def call_has (port : Nat) : PortProg Bool := .call (.has port) .ret

/-- One call. -/
def PortAllocator.serve (pa : PortAllocator) (ans : Answers) :
    (op : PortOp) → op.Ans × PortAllocator
  | .allocate port => pa.allocate ans port
  | .allocate_next => pa.allocate_next ans
  | .release port => pa.release ans port
  | .has port => (pa.has port, pa)

/-! ### Tokens -/

/-- The ports that are owned: those of the range; `0` is no port. -/
def PortRange.IsToken (pr : PortRange) (p : Nat) : Prop := pr.contains p = true ∧ p ≠ 0

/-- Ports as tokens: who is granted a port earns it, who releases it spends it. -/
def port_tokens (pr : PortRange) : Tokens PortOp PortOp.Ans Nat where
  may := fun op ans =>
    match op, ans with
    | .allocate p, .ok () => pr.contains p = true
    | .allocate_next, .ok p => pr.contains p = true
    | _, _ => True
  spends := fun op =>
    match op with
    | .release p => {q | q = p ∧ pr.IsToken p}
    | _ => ∅
  earns := fun op ans =>
    match op, ans with
    | .allocate p, .ok () => {q | q = p ∧ pr.IsToken p}
    | .allocate_next, .ok p => {q | q = p ∧ pr.IsToken p}
    | _, _ => ∅

section rules

variable {pr : PortRange} {own : Set Nat}

def PortRange.token (pr : PortRange) (port : Nat) : Set Nat := {q | q = port ∧ pr.IsToken port}

variable {port : Nat}

theorem safe_call {op : PortOp} {post : op.Ans → Set Nat → Prop}
    (hspends : (port_tokens pr).spends op = ∅)
    (h : ∀ ans, (port_tokens pr).may op ans → Disjoint ((port_tokens pr).earns op ans) own →
      post ans (own ∪ (port_tokens pr).earns op ans)) :
    Safe (port_tokens pr) post own (.call op .ret) := by
  refine ⟨hspends ▸ empty_subset own, ?_⟩
  intro ans hmay hnew
  unfold Tokens.after
  rw [hspends, sdiff_empty]
  exact h ans hmay hnew

theorem safe_call_allocate {post : PortResult Unit → Set Nat → Prop}
    (hok : pr.contains port = true → Disjoint (pr.token port) own →
      post (.ok ()) (own ∪ pr.token port)) (herr : ∀ e, post (.error e) own) :
    Safe (port_tokens pr) post own (call_allocate port) := by
  refine safe_call rfl ?_
  intro ans hmay hnew
  cases ans with
  | error e => exact (union_empty own).symm ▸ herr e
  | ok => exact hok hmay hnew

theorem safe_call_allocate_next {post : PortResult Nat → Set Nat → Prop}
    (hok : ∀ port, pr.contains port = true → Disjoint (pr.token port) own →
      post (.ok port) (own ∪ pr.token port))
    (herr : ∀ e, post (.error e) own) : Safe (port_tokens pr) post own call_allocate_next := by
  refine safe_call rfl ?_
  intro ans hmay hnew
  cases ans with
  | error e => exact (union_empty own).symm ▸ herr e
  | ok port => exact hok port hmay hnew

theorem safe_call_release {post : PortResult Unit → Set Nat → Prop} (hown : pr.token port ⊆ own)
    (h : ∀ r, post r (own \ pr.token port)) :
    Safe (port_tokens pr) post own (call_release port) := by
  refine ⟨hown, ?_⟩
  intro ans _ _
  have hless : (port_tokens pr).after own (.release port) ans = own \ pr.token port :=
    union_empty _
  exact hless.symm ▸ h ans

theorem safe_call_has {post : Bool → Set Nat → Prop} (h : ∀ b, post b own) :
    Safe (port_tokens pr) post own (call_has port) :=
  safe_call rfl fun ans _ _ => (union_empty own).symm ▸ h ans

end rules

def PortAllocator.in_use (pa : PortAllocator) : Set Nat :=
  {p | pa.port_range.IsToken p ∧ pa.has p = true}

/-- What a call does, in tokens. -/
structure PortAllocator.Served (pa : PortAllocator) (op : PortOp) (ans : op.Ans)
    (pa' : PortAllocator) : Prop where
  same_range : pa'.port_range = pa.port_range
  may : (port_tokens pa.port_range).may op ans
  new : Disjoint ((port_tokens pa.port_range).earns op ans) pa.in_use
  in_use : (port_tokens pa.port_range).after pa.in_use op ans ⊆ pa'.in_use

namespace PortAllocator

variable {pa : PortAllocator} {offset port : Nat}

theorem has_of_contains (h : pa.contains port = some offset) :
    pa.has port = pa.alloc.bit offset := by
  simp [has, h]

theorem contains_some (h : pa.contains port = some offset) :
    pa.port_range.contains port = true ∧ port = pa.port_range.base + offset := by
  unfold contains at h
  split_ifs at h with hin
  cases h
  have hle := (PortRange.contains_iff.mp hin).1
  exact ⟨hin, by omega⟩

theorem contains_offset (h : offset < pa.port_range.size) :
    pa.contains (pa.port_range.base + offset) = some offset := by
  have hin : pa.port_range.contains (pa.port_range.base + offset) = true :=
    PortRange.contains_iff.mpr ⟨by omega, by omega⟩
  simp only [contains, hin, if_true, Option.some.injEq]
  omega

theorem served_same {op : PortOp} {ans : op.Ans} (hmay : (port_tokens pa.port_range).may op ans)
    (hearns : (port_tokens pa.port_range).earns op ans = ∅) : pa.Served op ans pa := by
  refine ⟨rfl, hmay, ?_, ?_⟩
  · rw [hearns]
    exact empty_disjoint _
  · unfold Tokens.after
    rw [hearns, union_empty]
    exact sdiff_subset

theorem has_with_alloc {alloc : AllocationBitmap} {h : alloc.max = pa.alloc.max}
    (hport : pa.contains port = some offset) :
    (pa.with_alloc alloc h).has port = alloc.bit offset :=
  has_of_contains hport

theorem contains_of_has (h : pa.has port = true) : pa.port_range.contains port = true := by
  cases hport : pa.contains port with
  | none =>
    simp only [has, hport] at h
    cases h
  | some => exact (contains_some hport).1

theorem offset_of_in_use {q : Nat} (h : q ∈ pa.in_use) :
    ∃ j, pa.contains q = some j ∧ pa.alloc.bit j = true := by
  cases hq : pa.contains q with
  | none =>
    have hhas := h.2
    simp only [has, hq] at hhas
    cases hhas
  | some j => exact ⟨j, rfl, has_of_contains hq ▸ h.2⟩

theorem served_granted {op : PortOp} {ans : op.Ans} {alloc : AllocationBitmap}
    (hmax : alloc.max = pa.alloc.max) (hport : pa.contains port = some offset)
    (h : pa.alloc.Granted offset alloc) (hmay : (port_tokens pa.port_range).may op ans)
    (hearns : (port_tokens pa.port_range).earns op ans = pa.port_range.token port) :
    pa.Served op ans (pa.with_alloc alloc hmax) := by
  obtain ⟨hfree, hbits⟩ := h
  refine ⟨rfl, hmay, ?_, ?_⟩
  · rw [hearns, disjoint_left]
    rintro q ⟨rfl, _⟩ ⟨_, hhas⟩
    rw [has_of_contains hport, hfree] at hhas
    cases hhas
  · unfold Tokens.after
    rw [hearns]
    rintro q (⟨hq, _⟩ | ⟨rfl, htok⟩)
    · obtain ⟨j, hj, hbit⟩ := offset_of_in_use hq
      refine ⟨hq.1, ?_⟩
      rw [has_with_alloc hj, hbits, hbit]
      exact ite_self true
    · refine ⟨htok, ?_⟩
      rw [has_with_alloc hport, hbits, if_pos rfl]

/-- **Calls**, in tokens. -/
theorem serve_served (pa : PortAllocator) (ans : Answers) (op : PortOp) :
    pa.Served op (pa.serve ans op).1 (pa.serve ans op).2 := by
  cases op with
  | has port => exact served_same trivial rfl
  | allocate port =>
    simp only [serve, allocate]
    cases hport : pa.contains port with
    | none => exact served_same trivial rfl
    | some =>
      cases hfault : ans.fault with
      | some e => exact served_same trivial rfl
      | none =>
        dsimp only
        split
        · exact served_same trivial rfl
        · exact served_same trivial rfl
        · rename_i alloc hok
          exact served_granted (AllocationBitmap.allocate_max hok) hport
            (AllocationBitmap.allocate_granted hok) (contains_some hport).1 rfl
  | allocate_next =>
    simp only [serve, allocate_next]
    cases hfault : ans.fault with
    | some e => exact served_same trivial rfl
    | none =>
      dsimp only
      split
      · exact served_same trivial rfl
      · exact served_same trivial rfl
      · rename_i offset alloc hok
        have hlt : offset < pa.port_range.size :=
          pa.sized ▸ (AllocationBitmap.allocate_next_max hok).1
        have hport : pa.contains (pa.port_range.base + offset) = some offset := contains_offset hlt
        exact served_granted (AllocationBitmap.allocate_next_max hok).2 hport
          (AllocationBitmap.allocate_next_granted hok) (contains_some hport).1 rfl
  | release port =>
    simp only [serve, release]
    cases hport : pa.contains port with
    | none => exact served_same trivial rfl
    | some offset =>
      cases hfault : ans.fault with
      | some e => exact served_same trivial rfl
      | none =>
        refine ⟨rfl, trivial, empty_disjoint _, ?_⟩
        rintro q (⟨hq, hne⟩ | hq)
        · obtain ⟨j, hj, hbit⟩ := offset_of_in_use hq
          -- another port has another offset
          have hoffset : j ≠ offset := by
            rintro rfl
            have hsame : q = port := (contains_some hj).2.trans (contains_some hport).2.symm
            exact hne ⟨hsame, hsame ▸ hq.1⟩
          refine ⟨hq.1, ?_⟩
          rw [has_with_alloc hj, AllocationBitmap.bit_release, if_neg hoffset, hbit]
        · exact absurd hq (notMem_empty _)

end PortAllocator

end Allocator
