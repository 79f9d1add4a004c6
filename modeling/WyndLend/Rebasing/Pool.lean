import WyndLend.Rebasing.Conversion

/-!
# A pool of two rebasing ledgers

Lenders hold points of one ledger, borrowers owe points of another, and the rest
of the lenders' tokens is cash. The `margin` is what cash and debt exceed the
lenders' claims by, in exact terms; each operation changes it by at most one
multiplier, and growing both ledgers by truncated ratios costs a little more.
-/

namespace Rebasing

structure Pool where
  /-- Points of the lenders. -/
  supply : ℕ
  supplyMultiplier : ℕ
  /-- Points of the borrowers. -/
  debt : ℕ
  debtMultiplier : ℕ
  cash : ℕ

namespace Pool

variable {scale : ℕ} (p : Pool) {amount : ℕ}

/-- What the lenders can claim, in base tokens. -/
def claims (scale : ℕ) : ℕ := toBase scale p.supply p.supplyMultiplier

/-- What the borrowers owe, in base tokens. -/
def owed (scale : ℕ) : ℕ := toBase scale p.debt p.debtMultiplier

def margin (scale : ℕ) : ℚ :=
  p.cash + value scale p.debt p.debtMultiplier - value scale p.supply p.supplyMultiplier

/-! ## Operations -/

def receive (amount : ℕ) : Pool := { p with cash := p.cash + amount }

def pay (amount : ℕ) : Pool := { p with cash := p.cash - amount }

/-- Give points to a lender. -/
def mint (scale amount : ℕ) : Pool :=
  { p with supply := p.supply + toPoints scale amount p.supplyMultiplier }

/-- Take points from a lender. -/
def burn (scale amount : ℕ) : Pool :=
  { p with supply := p.supply - toPoints scale amount p.supplyMultiplier }

/-- Charge points to a borrower. -/
def lend (scale amount : ℕ) : Pool :=
  { p with debt := p.debt + toPoints scale amount p.debtMultiplier }

/-- Clear points of a borrower. -/
def redeem (scale amount : ℕ) : Pool :=
  { p with debt := p.debt - toPoints scale amount p.debtMultiplier }

/-- Grow both ledgers. -/
def accrue (scale debtRatio supplyRatio : ℕ) : Pool :=
  { p with
    supplyMultiplier := grow scale p.supplyMultiplier supplyRatio
    debtMultiplier := grow scale p.debtMultiplier debtRatio }

/-- The interest that a growth of the debt by `debtRatio` is worth, in base tokens. -/
def charged (scale debtRatio : ℕ) : ℕ := p.owed scale * debtRatio / scale

/-! ## The margin -/

/-- A margin above `-k` keeps the truncated claims within `k` of cash and debt. -/
theorem claims_le_of_margin {k : ℕ} (h : -(k : ℚ) ≤ p.margin scale) :
    p.claims scale ≤ p.cash + p.owed scale + k := by
  have hc : (p.claims scale : ℚ) ≤ _ := toBase_le_value scale p.supply p.supplyMultiplier
  have hd := value_lt_toBase_add_one scale p.debt p.debtMultiplier
  unfold margin at h
  have hlt : (p.claims scale : ℚ) < p.cash + p.owed scale + k + 1 := by
    unfold owed
    linarith
  exact Nat.lt_succ_iff.mp (by exact_mod_cast hlt)

@[simp] theorem margin_receive :
    (p.receive amount).margin scale = p.margin scale + amount := by
  simp only [margin, receive]
  push_cast
  ring

theorem margin_pay (h : amount ≤ p.cash) :
    (p.pay amount).margin scale = p.margin scale - amount := by
  simp only [margin, pay]
  push_cast [h]
  ring

theorem margin_mint (scale amount : ℕ) :
    p.margin scale - amount ≤ (p.mint scale amount).margin scale := by
  have h := value_toPoints_le scale amount p.supplyMultiplier
  simp only [margin, mint, value_add]
  linarith

/-- A payout against points of a lender costs what the conversion drops. -/
theorem margin_burn_pay (hs : 0 < scale)
    (h : toPoints scale amount p.supplyMultiplier ≤ p.supply) (hcash : amount ≤ p.cash) :
    ((p.burn scale amount).pay amount).margin scale =
      p.margin scale - dropped scale amount p.supplyMultiplier := by
  have hvalue := value_toPoints hs amount p.supplyMultiplier
  rw [(p.burn scale amount).margin_pay hcash]
  simp only [margin, burn, value_sub h]
  linarith

/-- A payout against points of a borrower costs what the conversion drops. -/
theorem margin_lend_pay (hs : 0 < scale) (hcash : amount ≤ p.cash) :
    ((p.lend scale amount).pay amount).margin scale =
      p.margin scale - dropped scale amount p.debtMultiplier := by
  have hvalue := value_toPoints hs amount p.debtMultiplier
  rw [(p.lend scale amount).margin_pay hcash]
  simp only [margin, lend, value_add]
  linarith

theorem margin_redeem (scale amount : ℕ) :
    p.margin scale - amount ≤ (p.redeem scale amount).margin scale := by
  have h := value_toPoints_le scale amount p.debtMultiplier
  have hsplit : value scale p.debt p.debtMultiplier ≤
      value scale (p.debt - toPoints scale amount p.debtMultiplier) p.debtMultiplier +
        value scale (toPoints scale amount p.debtMultiplier) p.debtMultiplier := by
    rw [← value_add]
    exact value_mono (by omega) _
  simp only [margin, redeem]
  linarith

/-! ## Claims and debt -/

theorem le_claims_mint : p.claims scale ≤ (p.mint scale amount).claims scale :=
  toBase_mono (Nat.le_add_right _ _) _

theorem claims_mint_le : (p.mint scale amount).claims scale ≤ p.claims scale + amount :=
  toBase_add_toPoints_le scale p.supply amount p.supplyMultiplier

/-- A deposit adds its amount to the exact claims, less what the conversion drops. -/
theorem claims_mint_le_iff (hs : 0 < scale) (amount limit : ℕ) :
    (p.mint scale amount).claims scale ≤ limit ↔
      value scale p.supply p.supplyMultiplier + amount <
        limit + 1 + dropped scale amount p.supplyMultiplier := by
  have hvalue := value_toPoints hs amount p.supplyMultiplier
  unfold claims mint
  rw [toBase_le_iff, value_add, hvalue]
  constructor
  · intro h
    linarith
  · intro h
    linarith

theorem claims_le_burn (h : toPoints scale amount p.supplyMultiplier ≤ p.supply) :
    p.claims scale ≤ (p.burn scale amount).claims scale + amount := by
  have hle := toBase_add_toPoints_le scale
    (p.supply - toPoints scale amount p.supplyMultiplier) amount p.supplyMultiplier
  rwa [Nat.sub_add_cancel h] at hle

theorem owed_lend_le : (p.lend scale amount).owed scale ≤ p.owed scale + amount :=
  toBase_add_toPoints_le scale p.debt amount p.debtMultiplier

theorem owed_redeem_le : (p.redeem scale amount).owed scale ≤ p.owed scale :=
  Nat.div_le_div_right (Nat.mul_le_mul_right _ (Nat.sub_le _ _))

/-! ## Room between debt and claims -/

/-- The debt leaves at least `slack` of the claims. -/
def Room (scale slack : ℕ) : Prop := p.owed scale + slack ≤ p.claims scale

variable {p} {slack : ℕ}

theorem Room.receive (h : p.Room scale slack) : (p.receive amount).Room scale slack := h

theorem Room.pay (h : p.Room scale slack) : (p.pay amount).Room scale slack := h

theorem Room.mint (h : p.Room scale slack) : (p.mint scale amount).Room scale slack :=
  h.trans p.le_claims_mint

theorem Room.redeem (h : p.Room scale slack) : (p.redeem scale amount).Room scale slack :=
  (Nat.add_le_add_right p.owed_redeem_le _).trans h

/-- Taking points from a lender uses up the room for their worth. -/
theorem Room.burn (h : p.Room scale amount)
    (hpoints : toPoints scale amount p.supplyMultiplier ≤ p.supply) :
    (p.burn scale amount).Room scale 0 :=
  Nat.le_of_add_le_add_right (h.trans (p.claims_le_burn hpoints))

/-- Charging points to a borrower uses up the room for their worth. -/
theorem Room.lend (h : p.Room scale amount) : (p.lend scale amount).Room scale 0 :=
  p.owed_lend_le.trans h

theorem Room.weaken (h : p.Room scale slack) : p.Room scale 0 := Nat.le_of_add_right_le h

variable (p)

/-! ## Growth -/

/-- The truncated interest is at most what the debt exactly grows by. -/
theorem charged_le (debtRatio : ℕ) :
    (p.charged scale debtRatio : ℚ) ≤ p.owed scale * (debtRatio / scale) := by
  have h := cast_div_le (p.owed scale * debtRatio) scale
  push_cast at h
  rw [← mul_div_assoc]
  exact h

theorem lt_charged_add_one (scale debtRatio : ℕ) :
    (p.owed scale : ℚ) * (debtRatio / scale) < p.charged scale debtRatio + 1 := by
  have h := lt_cast_div_add_one (p.owed scale * debtRatio) scale
  push_cast at h
  rw [← mul_div_assoc]
  exact h

/-- The ratio that spreads an amount over the claims is truncated. -/
theorem spread_le (hs : 0 < scale) (c claims : ℕ) :
    ((c * scale / claims : ℕ) : ℚ) / scale ≤ c / claims := by
  have h := cast_div_le (c * scale) claims
  push_cast at h
  rw [div_le_iff₀ (by exact_mod_cast hs), div_mul_eq_mul_div]
  exact h

/-- Leaving a reserve out of the claims only makes the ratio larger. -/
theorem le_spread (hs : 0 < scale) (c : ℕ) {claims reserve : ℕ} (hr : reserve < claims) :
    (c : ℚ) / claims - 1 / scale ≤ ((c * scale / (claims - reserve) : ℕ) : ℚ) / scale := by
  have h := lt_cast_div_add_one (c * scale) (claims - reserve)
  push_cast [hr.le] at h
  have hpos : (0 : ℚ) < claims - reserve := by
    rw [sub_pos]
    exact_mod_cast hr
  have hle : (c : ℚ) * scale / claims ≤ c * scale / (claims - reserve) := by
    gcongr
    linarith [show (0 : ℚ) ≤ reserve by positivity]
  rw [sub_le_iff_le_add, ← add_div, le_div_iff₀ (by exact_mod_cast hs), div_mul_eq_mul_div]
  linarith

/-- The debt exactly grows by at least the charged interest, but for the fraction of
the multiplier that is lost on each point. -/
theorem value_debt_accrue_ge (hs : 0 < scale) (debtRatio : ℕ) :
    value scale p.debt p.debtMultiplier + p.charged scale debtRatio - p.debt / scale ≤
      value scale p.debt (grow scale p.debtMultiplier debtRatio) := by
  have hgrow := value_grow_ge hs p.debt p.debtMultiplier debtRatio
  have hcharged : (p.charged scale debtRatio : ℚ) ≤
      value scale p.debt p.debtMultiplier * (debtRatio / scale) := by
    refine (p.charged_le debtRatio).trans ?_
    have h := toBase_le_value scale p.debt p.debtMultiplier
    unfold owed
    gcongr
  linarith

/-- The debt grows by less than the charged interest, the ratio and two units. -/
theorem value_debt_accrue_lt (hs : 0 < scale) (debtRatio : ℕ) :
    value scale p.debt (grow scale p.debtMultiplier debtRatio) <
      p.owed scale + p.charged scale debtRatio + 2 + debtRatio / scale := by
  have hgrow := value_grow_le hs p.debt p.debtMultiplier debtRatio
  have hvalue : value scale p.debt p.debtMultiplier < p.owed scale + 1 :=
    value_lt_toBase_add_one _ _ _
  have hcharged := p.lt_charged_add_one scale debtRatio
  have hratio : (0 : ℚ) ≤ debtRatio / scale := by positivity
  nlinarith

/-- Spreading `c` over the claims makes them grow by at most `c` and its share of one
base token. -/
theorem value_supply_accrue_le (hs : 0 < scale) (c : ℕ) (hc : 0 < p.claims scale) :
    value scale p.supply (grow scale p.supplyMultiplier (c * scale / p.claims scale)) ≤
      value scale p.supply p.supplyMultiplier + (c + c / p.claims scale) := by
  have hc' : (0 : ℚ) < p.claims scale := by exact_mod_cast hc
  have hgrow := value_grow_le hs p.supply p.supplyMultiplier (c * scale / p.claims scale)
  have hvalue : value scale p.supply p.supplyMultiplier ≤ p.claims scale + 1 :=
    (value_lt_toBase_add_one _ _ _).le
  have hnonneg := value_nonneg scale p.supply p.supplyMultiplier
  have hspread : value scale p.supply p.supplyMultiplier *
      (((c * scale / p.claims scale : ℕ) : ℚ) / scale) ≤ c + c / p.claims scale := by
    calc _ ≤ ((p.claims scale : ℚ) + 1) * (c / p.claims scale) :=
            mul_le_mul hvalue (spread_le hs c _) (by positivity) (by positivity)
      _ = c + c / p.claims scale := by field_simp
  linarith

/-- Spreading `c` over the claims, or over a part of them, makes them grow by at least
`c`, but for the truncations. -/
theorem value_supply_accrue_ge (hs : 0 < scale) (c : ℕ) {reserve : ℕ}
    (hr : reserve < p.claims scale) :
    (p.claims scale : ℚ) + c - p.claims scale / scale - p.supply / scale ≤
      value scale p.supply
        (grow scale p.supplyMultiplier (c * scale / (p.claims scale - reserve))) := by
  have hc' : (0 : ℚ) < p.claims scale := by exact_mod_cast (Nat.zero_le _).trans_lt hr
  have hgrow := value_grow_ge hs p.supply p.supplyMultiplier
    (c * scale / (p.claims scale - reserve))
  have hvalue : (p.claims scale : ℚ) ≤ value scale p.supply p.supplyMultiplier :=
    toBase_le_value _ _ _
  have hspread : (p.claims scale : ℚ) * (c / p.claims scale - 1 / scale) ≤
      value scale p.supply p.supplyMultiplier *
        (((c * scale / (p.claims scale - reserve) : ℕ) : ℚ) / scale) :=
    (mul_le_mul_of_nonneg_left (le_spread hs c hr) hc'.le).trans
      (mul_le_mul_of_nonneg_right hvalue (by positivity))
  have hsplit : (p.claims scale : ℚ) * (c / p.claims scale - 1 / scale) =
      c - p.claims scale / scale := by field_simp
  linarith

/-- When the lenders get the charged interest and nothing else, the margin shrinks by
the interest on their fraction of a token and by what the debt multiplier loses. -/
theorem margin_accrue (hs : 0 < scale) (debtRatio : ℕ) (hc : 0 < p.claims scale) :
    p.margin scale - ((p.charged scale debtRatio : ℚ) / p.claims scale + p.debt / scale) ≤
      (p.accrue scale debtRatio
        (p.charged scale debtRatio * scale / p.claims scale)).margin scale := by
  have hdebt := p.value_debt_accrue_ge hs debtRatio
  have hsupply := p.value_supply_accrue_le hs (p.charged scale debtRatio) hc
  simp only [margin, accrue]
  linarith

/-- Growth never lowers the claims. -/
theorem claims_le_accrue (hs : 0 < scale) (debtRatio supplyRatio : ℕ) :
    p.claims scale ≤ (p.accrue scale debtRatio supplyRatio).claims scale :=
  Nat.div_le_div_right (Nat.mul_le_mul_left _ (le_grow hs _ _))

/-- Without debt there is nothing to grow on the borrowers' side. -/
theorem Room.accrue_of_no_debt (hs : 0 < scale) (h0 : p.debt = 0) (h : slack ≤ p.claims scale)
    (debtRatio supplyRatio : ℕ) : (p.accrue scale debtRatio supplyRatio).Room scale slack := by
  have howed : (p.accrue scale debtRatio supplyRatio).owed scale = 0 := by
    simp only [owed, accrue, h0, toBase, Nat.zero_mul, Nat.zero_div]
  rw [Room, howed, Nat.zero_add]
  exact h.trans (p.claims_le_accrue hs _ _)

/-- With `slack` and a few units for the truncations between debt and claims, the debt
still leaves `slack` after both have grown, whatever the reserve. -/
theorem Room.accrue (hs : 0 < scale) {debtRatio reserve : ℕ} (hr : reserve < p.claims scale)
    (h : (p.owed scale + slack + 2) * scale + debtRatio + p.claims scale + p.supply ≤
      p.claims scale * scale) :
    (p.accrue scale debtRatio
      (p.charged scale debtRatio * scale / (p.claims scale - reserve))).Room scale slack := by
  have hs' : (0 : ℚ) < scale := by exact_mod_cast hs
  have hdebt := p.value_debt_accrue_lt hs debtRatio
  have hsupply := p.value_supply_accrue_ge hs (p.charged scale debtRatio) hr
  have hroom : (p.owed scale : ℚ) + slack + 2 + debtRatio / scale + p.claims scale / scale +
      p.supply / scale ≤ p.claims scale := by
    have h' : ((p.owed scale + slack + 2) * scale + debtRatio + p.claims scale + p.supply : ℚ) ≤
        p.claims scale * scale := by exact_mod_cast h
    rw [← div_le_iff₀ hs'] at h'
    calc _ = ((p.owed scale + slack + 2) * scale + debtRatio + p.claims scale + p.supply : ℚ) /
        scale := by field_simp
      _ ≤ _ := h'
  refine le_toBase ?_
  have hfloor := toBase_le_value scale p.debt (grow scale p.debtMultiplier debtRatio)
  simp only [Pool.accrue, owed]
  push_cast
  linarith

end Pool

end Rebasing
