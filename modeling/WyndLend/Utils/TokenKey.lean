import WyndLend.CosmWasm.Keys
import WyndLend.Utils.Token

/-!
# Tokens as storage keys

A token is stored as a byte for its kind and its denom. The bytes determine the token and are
in the order of the tokens.
-/

namespace WyndLend.Utils

open CosmWasm Encoding

instance : PrimaryKey Token where
  key
    | .native denom => [[0], asBytes denom]
    | .cw20 address => [[1], asBytes address]

/-- `Token::from_vec`. -/
def Token.fromVec (pairFromVec : Bytes → Except StdError (UInt8 × String)) (value : Bytes) :
    Except StdError Token := do
  let (assetType, denom) ← pairFromVec value
  match assetType with
  | 0 => return .native denom
  | 1 => return .cw20 denom
  | _ => throw (.genericErr "Invalid Token key, invalid type")

namespace Token

theorem joinedKey_native (denom : String) :
    joinedKey (Token.native denom) = [0, 1, 0] ++ asBytes denom := rfl

theorem joinedKey_cw20 (address : Addr) :
    joinedKey (Token.cw20 address) = [0, 1, 1] ++ asBytes address := rfl

/-- A stored token is read back. -/
theorem fromVec_joinedKey {pairFromVec : Bytes → Except StdError (UInt8 × String)}
    (h : ReadsPairs pairFromVec) (token : Token) :
    fromVec pairFromVec (joinedKey token) = .ok token := by
  unfold fromVec
  cases token with
  | native denom =>
    have hpair : pairFromVec (joinedKey (native denom)) = .ok (0, denom) := h 0 denom
    rw [hpair]
    rfl
  | cw20 address =>
    have hpair : pairFromVec (joinedKey (cw20 address)) = .ok (1, address) := h 1 address
    rw [hpair]
    rfl

theorem native_lt_cw20 (denom : String) (address : Addr) : native denom < cw20 address :=
  Prod.Lex.left _ _ Nat.zero_lt_one

theorem native_lt_native {a b : String} : native a < native b ↔ a < b := by
  change toLex (0, a) < toLex (0, b) ↔ _
  simp [Prod.Lex.toLex_lt_toLex]

theorem cw20_lt_cw20 {a b : Addr} : cw20 a < cw20 b ↔ a < b := by
  change toLex (1, a) < toLex (1, b) ↔ _
  simp [Prod.Lex.toLex_lt_toLex]

/-- Stored tokens are in the order of the tokens, so no two are stored alike. -/
theorem joinedKey_strictMono : StrictMono (joinedKey (κ := Token)) := by
  intro a b hab
  match a, b with
  | native a, native b =>
    rw [joinedKey_native, joinedKey_native]
    exact List.append_left_lt (asBytes_lt_iff.mpr (native_lt_native.mp hab))
  | cw20 a, cw20 b =>
    rw [joinedKey_cw20, joinedKey_cw20]
    exact List.append_left_lt (asBytes_lt_iff.mpr (cw20_lt_cw20.mp hab))
  | native a, cw20 b =>
    rw [joinedKey_native, joinedKey_cw20]
    exact .cons (.cons (.rel (by decide)))
  | cw20 a, native b => exact absurd hab (native_lt_cw20 b a).not_gt

end Token

end WyndLend.Utils
