import Rusternetes.Common.Error
import Rusternetes.Framework.Text

/-! # The Generic Registry: Objects and Options

    API objects as the generic store sees them: the metadata it reads, and a body
    it does not look into. An object stands for its serialized form.
-/

open Common Framework

namespace Registry

/-- `ObjectMeta`, the fields the store consults. Times are in seconds. -/
structure ObjectMeta where
  name : String
  generate_name : Option String
  ns : Option String
  uid : String
  resource_version : Option String
  generation : Option Int
  creation_timestamp : Option Int
  deletion_timestamp : Option Int
  deletion_grace_period_seconds : Option Int
  finalizers : Option (List String)
  deriving DecidableEq, Repr

namespace ObjectMeta

def default : ObjectMeta := ⟨"", none, none, "", none, none, none, none, none, none⟩

def has_finalizers (m : ObjectMeta) : Bool := m.finalizers.any fun f => !f.isEmpty

def finalizer_list (m : ObjectMeta) : List String := m.finalizers.getD []

theorem has_finalizers_eq_false {m : ObjectMeta} :
    m.has_finalizers = false ↔ m.finalizer_list = [] := by
  unfold has_finalizers finalizer_list
  cases m.finalizers with
  | none => simp
  | some f => cases f <;> simp

end ObjectMeta

structure Obj (B : Type) where
  metadata : ObjectMeta
  body : B
  deriving DecidableEq

def Obj.with_version {B : Type} (o : Obj B) (rv : Option String) : Obj B :=
  { o with metadata := { o.metadata with resource_version := rv } }

/-! ### Options -/

inductive DeletionPropagation where
  | Orphan
  | Background
  | Foreground
  deriving DecidableEq, Repr

structure Preconditions where
  uid : Option String
  resource_version : Option String
  deriving DecidableEq, Repr

structure DeleteOptions where
  propagation_policy : Option DeletionPropagation
  grace_period_seconds : Option Int
  preconditions : Option Preconditions
  orphan_dependents : Option Bool
  dry_run : Option (List String)
  ignore_store_read_error_with_cluster_breaking_potential : Option Bool
  deriving DecidableEq, Repr

def is_dry_run (options : DeleteOptions) : Bool := options.dry_run.any fun d => !d.isEmpty

inductive GarbageCollectionPolicy where
  | DeleteDependents
  | OrphanDependents
  | Unsupported
  deriving DecidableEq, Repr

structure GroupResource where
  group : String
  resource : String

def GroupResource.to_string (r : GroupResource) : String :=
  if r.group = "" then r.resource else r.resource ++ "." ++ r.group

/-! ### Errors -/

def not_found (resource : GroupResource) (name : String) : Error :=
  .NotFound (resource.to_string ++ " \"" ++ name ++ "\" not found")

def conflict (resource : GroupResource) (name reason : String) : Error :=
  .Conflict ("Operation cannot be fulfilled on " ++ resource.to_string ++ " \"" ++ name ++ "\": " ++
    reason)

def internal_error (msg : String) : Error := .Internal ("Internal error occurred: " ++ msg)

/-- `Error::new_invalid`; equal messages are given once. -/
def new_invalid (group kind name : String) (errs : List String) : Error :=
  let qualified := if group = "" then kind else kind ++ "." ++ group
  let invalid := qualified ++ " \"" ++ name ++ "\" is invalid"
  match (errs.reverse.dedup).reverse with
  | [] => .Status (some invalid)
  | [msg] => .Status (some (invalid ++ ": " ++ msg))
  | msgs => .Status (some (invalid ++ ": [" ++ ", ".intercalate msgs ++ "]"))

/-! ### Resource versions -/

/-- Why a number is not read. -/
inductive ParseIntError where
  | Empty
  | InvalidDigit
  | PosOverflow
  deriving DecidableEq

/-- The loop of `u64::from_str` over the digits. -/
def parse_digits : List Char → Nat → Except ParseIntError Nat
  | [], acc => .ok acc
  | c :: rest, acc =>
    if c.isDigit then
      let acc := 10 * acc + (c.toNat - '0'.toNat)
      if acc < 2 ^ 64 then parse_digits rest acc else .error .PosOverflow
    else .error .InvalidDigit

/-- `u64::from_str`, which takes a leading plus. -/
def parse_u64 (s : String) : Except ParseIntError Nat :=
  match s.toList with
  | [] => .error .Empty
  | ['+'] => .error .InvalidDigit
  | '+' :: digits => parse_digits digits 0
  | digits => parse_digits digits 0

def parse_uint_reason : ParseIntError → String
  | .PosOverflow => "value out of range"
  | _ => "invalid syntax"

/-- `parse_resource_version_str`, with the detail of its error. `debug` is how a
    string is printed for debugging. -/
def parse_resource_version_str (debug : String → String) (rv : String) : Except String Nat :=
  let refused (reason : String) : Except String Nat :=
    .error ("strconv.ParseUint: parsing " ++ debug rv ++ ": " ++ reason)
  if rv = "" ∨ rv = "0" then .ok 0
  else
    match parse_u64 rv with
    | .ok v => if Text.starts_with rv "+" then refused "invalid syntax" else .ok v
    | .error e => refused (parse_uint_reason e)

def parse_resource_version (debug : String → String) (metadata : ObjectMeta) : Except Error Nat :=
  (parse_resource_version_str debug (metadata.resource_version.getD "")).mapError fun detail =>
    .Status (some detail)

theorem parse_digits_eq {cs : List Char} {acc n : Nat} (h : parse_digits cs acc = .ok n) :
    n = Nat.ofDigitChars 10 cs acc := by
  induction cs generalizing acc with
  | nil =>
    cases h
    simp
  | cons c rest ih =>
    simp only [parse_digits] at h
    split_ifs at h
    rw [ih h, Nat.ofDigitChars_cons]

theorem parse_u64_eq {s : String} {n : Nat} (h : parse_u64 s = .ok n)
    (hplus : Text.starts_with s "+" = false) : n = Nat.ofDigitChars 10 s.toList 0 := by
  have hhead : ∀ cs, s.toList ≠ '+' :: cs := by
    intro cs hcs
    rw [Text.starts_with, hcs] at hplus
    cases hplus
  unfold parse_u64 at h
  split at h
  · cases h
  · cases h
  · rename_i hcs
    exact absurd hcs (hhead _)
  · exact parse_digits_eq h

theorem parse_revision {debug : String → String} {v n : Nat}
    (h : parse_resource_version_str debug (toString v) = .ok n) : n = v := by
  have hv := Text.ofDigitChars_toString v
  simp only [parse_resource_version_str] at h
  split at h
  · next hzero =>
    cases h
    rcases hzero with hempty | hzero
    · rw [hempty] at hv
      exact hv
    · rw [hzero] at hv
      exact hv
  · split at h
    · next m hparse =>
      split_ifs at h with hplus
      cases h
      rw [parse_u64_eq hparse (by simpa using hplus), hv]
    · cases h

end Registry
