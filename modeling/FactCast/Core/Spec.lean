import FactCast.Json.Splice
import Mathlib.Tactic.Ring

/-! Facts, and the specifications that select them.

A fact is a header and a payload, both JSON. A stored header is a JSON object
with a namespace, and its `meta`, if there is one, is not an array: facts are
parsed before they are stored, a fact without a namespace is refused, and the
parser takes `meta` for a map. (Facts published with a `meta` that is null are left
out. It becomes an array, and they cannot be read back.) A specification names a
namespace (or `*`) and may ask for a type, aggregate ids, entries of the header's
`meta`, and keys that `meta` must or must not have. Its version and its script
are not for the query.

`FactSpec.Matches` says what a specification asks of a header. -/
namespace FactCast

/-! ### Identifiers -/

structure UUID where
  bits : BitVec 128
deriving DecidableEq

/-- The last `k` hexadecimal digits of a number. -/
def hexDigits (n : Nat) : Nat → List Char
  | 0 => []
  | k + 1 => hexDigits (n / 16) k ++ [Nat.digitChar (n % 16)]

/-- Thirty-two digits in five groups. -/
def UUID.toString (id : UUID) : String :=
  let n := id.bits.toNat
  String.ofList (hexDigits (n / 2 ^ 96) 8 ++ '-' :: hexDigits (n / 2 ^ 80) 4 ++
    '-' :: hexDigits (n / 2 ^ 64) 4 ++ '-' :: hexDigits (n / 2 ^ 48) 4 ++ '-' :: hexDigits n 12)

theorem hexDigits_plain (n k : Nat) : (hexDigits n k).all Json.plainChar = true := by
  induction k generalizing n with
  | zero => rfl
  | succ k ih =>
    have hdigit : ∀ d < 16, Json.plainChar (Nat.digitChar d) = true := by decide
    simp [hexDigits, ih, hdigit (n % 16) (Nat.mod_lt n (by decide))]

/-- An identifier can be spliced between quotes. -/
theorem UUID.toString_plain (id : UUID) : Json.Plain id.toString := by
  have hdash : Json.plainChar '-' = true := by decide
  simp [Json.Plain, UUID.toString, hexDigits_plain, hdash]

/-- How identifiers are read back from headers. All that is assumed is that the
notation above reads as the identifier it was written for. -/
structure UuidReader where
  read : String → Option UUID
  read_toString : ∀ id, read id.toString = some id

/-- The number that hexadecimal digits stand for, dashes apart. -/
def hexValue (cs : List Char) : Nat :=
  (cs.filter fun c => c != '-').foldl (fun n c => n * 16 + (Json.hexDigit c).getD 0) 0

theorem foldl_hexDigits (acc n k : Nat) :
    (hexDigits n k).foldl (fun n c => n * 16 + (Json.hexDigit c).getD 0) acc =
      acc * 16 ^ k + n % 16 ^ k := by
  induction k generalizing n with
  | zero => simp [hexDigits, Nat.mod_one]
  | succ k ih =>
    have hdigit : ∀ d < 16, (Json.hexDigit (Nat.digitChar d)).getD 0 = d := by decide
    rw [hexDigits, List.foldl_append, ih, List.foldl_cons, List.foldl_nil,
      hdigit (n % 16) (Nat.mod_lt n (by decide)), Nat.pow_succ', Nat.mod_mul]
    ring

theorem hexDigits_no_dash (n k : Nat) : (hexDigits n k).filter (fun c => c != '-') = hexDigits n k := by
  induction k generalizing n with
  | zero => rfl
  | succ k ih =>
    have hdigit : ∀ d < 16, (Nat.digitChar d != '-') = true := by decide
    rw [hexDigits, List.filter_append, ih, List.filter_singleton,
      hdigit (n % 16) (Nat.mod_lt n (by decide))]
    rfl

theorem hexValue_toString (id : UUID) : hexValue id.toString.toList = id.bits.toNat := by
  have hlt := id.bits.isLt
  have hdash : (('-' : Char) != '-') = false := by decide
  simp only [hexValue, UUID.toString, String.toList_ofList, List.filter_append, List.filter_cons,
    List.append_assoc, List.cons_append, hdash, hexDigits_no_dash, List.foldl_append,
    foldl_hexDigits, Bool.false_eq_true, if_false]
  omega

/-- Reads that notation and no other. -/
def UuidReader.canonical : UuidReader where
  read s :=
    let id : UUID := ⟨BitVec.ofNat 128 (hexValue s.toList)⟩
    if id.toString = s then some id else none
  read_toString id := by
    have hid : (⟨BitVec.ofNat 128 (hexValue id.toString.toList)⟩ : UUID) = id := by
      rw [hexValue_toString, BitVec.ofNat_toNat, BitVec.setWidth_eq]
    simp only [hid, if_true]

/-! ### Specifications -/

/-- A map that remembers the order its keys were put in. -/
structure LinkedMap (β : Type) where
  entries : List (String × β)
  nodup : (entries.map Prod.fst).Nodup

def LinkedMap.empty {β : Type} : LinkedMap β := ⟨[], List.nodup_nil⟩

structure FilterScript where
  languageIdentifier : String
  source : String
deriving DecidableEq

/-- Nothing is left of the string when spaces and control characters are trimmed. -/
def blank (s : String) : Bool := s.toList.all fun c => decide (c.toNat ≤ 0x20)

theorem orders_given : blank "orders" = false := by decide

theorem any_given : blank "*" = false := by decide

/-- What a client asks for. A specification without a namespace cannot be built. -/
structure FactSpec where
  ns : String
  ns_given : blank ns = false
  type : Option String := none
  /-- Zero if any version will do. -/
  version : Int := 0
  aggId : Option UUID := none
  aggIds : List UUID := []
  «meta» : LinkedMap String := .empty
  /-- The keys that must exist (`true`) or must not (`false`). -/
  metaKeyExists : LinkedMap Bool := .empty
  filterScript : Option FilterScript := none

/-- All identifiers asked for, the single one of old clients among them. -/
def FactSpec.mergedAggIds (spec : FactSpec) : List UUID :=
  match spec.aggId with
  | none => spec.aggIds
  | some id => if id ∈ spec.aggIds then spec.aggIds else spec.aggIds ++ [id]

/-! ### Facts -/

/-- The namespace among the members of a header, empty if there is none. -/
def nsOf (members : List (String × Jsonb)) : String :=
  ((members.lookup "ns").bind Jsonb.scalarText).getD ""

/-- The header of a fact that could be parsed: an object with a namespace, whose
`meta` is no array. -/
structure Header where
  members : List (String × Jsonb)
  ns_given : blank (nsOf members) = false
  meta_no_array : ∀ items, members.lookup "meta" ≠ some (.arr items)

def Header.json (h : Header) : Jsonb := .obj h.members

def Header.ns (h : Header) : String := nsOf h.members

theorem Header.ns_of_get? {h : Header} {ns : String} (hns : h.json.get? "ns" = some (.str ns)) :
    h.ns = ns := by
  show ((h.members.lookup "ns").bind Jsonb.scalarText).getD "" = ns
  rw [show h.members.lookup "ns" = some (.str ns) from hns]
  rfl

structure Fact where
  id : UUID
  header : Header
  payload : Jsonb

/-- A row of the table `fact`. -/
structure FactRow where
  ser : Nat
  fact : Fact

/-- What a header holds under a key of its `meta`. -/
def Header.meta? (h : Header) (key : String) : Option Jsonb :=
  (h.json.get? "meta").bind fun m => m.get? key

/-- The header satisfies everything the specification asks of it, the version and
the script apart. -/
structure FactSpec.Matches (spec : FactSpec) (h : Header) : Prop where
  ns : spec.ns = "*" ∨ h.json.get? "ns" = some (.str spec.ns)
  type : ∀ t, spec.type = some t → h.json.get? "type" = some (.str t)
  aggIds : spec.mergedAggIds ≠ [] → ∃ items, h.json.get? "aggIds" = some (.arr items) ∧
    ∀ id ∈ spec.mergedAggIds, .str id.toString ∈ items
  «meta» : ∀ e ∈ spec.meta.entries, h.meta? e.1 = some (.str e.2)
  metaKeyExists : ∀ e ∈ spec.metaKeyExists.entries, (e.2 = true ↔ (h.meta? e.1).isSome = true)

end FactCast
