import WyndLend.CosmWasm.Storage
import WyndLend.Encoding.Lex

/-!
# Storage keys

A `Map` stores an entry under the bytes of its key: the elements of the key one after the
other, with two bytes for the length in front of every element but the last. `range` runs
over the stored keys in byte order and reads each of them back. As long as the bytes are in
the order of the keys this is the order of the keys themselves.
-/

namespace WyndLend.CosmWasm

open Encoding

/-- `cosmwasm_std::StdError`, as far as it occurs here. -/
inductive StdError where
  | genericErr (msg : String)
  | invalidUtf8
  deriving DecidableEq

abbrev Bytes := List UInt8

/-- `cw_storage_plus::PrimaryKey`. -/
class PrimaryKey (κ : Type) where
  /-- The elements of a key. -/
  key : κ → List Bytes

/-- The length in two bytes, the most significant one first. -/
def encodeLength (element : Bytes) : Bytes :=
  [UInt8.ofNat (element.length / 256), UInt8.ofNat element.length]

/-- The bytes of the elements of a key. -/
def joined : List Bytes → Bytes
  | [] => []
  | [last] => last
  | element :: elements => encodeLength element ++ element ++ joined elements

variable {κ ν : Type} [PrimaryKey κ]

def joinedKey (k : κ) : Bytes := joined (PrimaryKey.key k)

namespace Map

/-- `range` from an exclusive bound on, with the keys as they are stored. -/
def rangeRaw (m : Map κ ν) (start : Option Bytes) : List (Bytes × ν) :=
  let entries := (m.entries.map fun e => (joinedKey e.1, e.2)).insertionSort fun a b => a.1 ≤ b.1
  entries.filter fun e => start.all fun key => key < e.1

theorem rangeRaw_eq [LinearOrder κ] (h : StrictMono (joinedKey (κ := κ))) (m : Map κ ν)
    (start : Option κ) : m.rangeRaw (start.map joinedKey) =
      (m.range.filter fun e => start.all fun k => k < e.1).map fun e => (joinedKey e.1, e.2) := by
  have hsort : (m.entries.map fun e => (joinedKey e.1, e.2)).insertionSort
      (fun a b => a.1 ≤ b.1) = m.range.map fun e => (joinedKey e.1, e.2) := by
    unfold range
    rw [List.map_insertionSort (r := fun a b : κ × ν => a.1 ≤ b.1)
      (s := fun a b : Bytes × ν => a.1 ≤ b.1), List.map_map]
    · rfl
    · intro a _ b _
      exact h.le_iff_le.symm
  unfold rangeRaw
  rw [hsort, List.filter_map]
  congr 1
  refine List.filter_congr fun e _ => ?_
  cases start with
  | none => rfl
  | some k => simp [h.lt_iff_lt]

end Map

/-! ## Pairs

The storage library reads a pair back for the code, which relies on getting what was stored.
-/

/-- A pair of a byte and a string is read back from its key. -/
def ReadsPairs (fromVec : Bytes → Except StdError (UInt8 × String)) : Prop :=
  ∀ first second, fromVec (joined [[first], asBytes second]) = .ok (first, second)

/-- Split a key at the length of its first element. -/
def splitPair : Bytes → Except StdError (UInt8 × String)
  | high :: low :: rest =>
    match rest.splitAt (256 * high.toNat + low.toNat) with
    | ([first], second) =>
      match fromUtf8 second with
      | some second => .ok (first, second)
      | none => .error .invalidUtf8
    | _ => .error (.genericErr "could not convert slice to array")
  | _ => .error (.genericErr "Could not read 2 byte length")

theorem splitPair_reads : ReadsPairs splitPair := by
  intro first second
  have hone : 256 * (UInt8.ofNat ([first].length / 256)).toNat +
      (UInt8.ofNat [first].length).toNat = 1 := by simp
  simp only [joined, encodeLength, List.cons_append, List.nil_append, splitPair, hone,
    List.splitAt_eq, List.take_succ_cons, List.take_zero, List.drop_succ_cons, List.drop_zero,
    fromUtf8_asBytes]

end WyndLend.CosmWasm
