import WyndLend.Utils.Curve
import WyndLend.Oracle.Registrations
import WyndLend.Ctoken.Range
import WyndLend.Ctoken.Splitting
import WyndLend.Ctoken.Int128
import WyndLend.Ctoken.Funds
import WyndLend.Market.Drift
import WyndLend.Market.Apy
import WyndLend.Market.Rounding
import WyndLend.Market.Cap
import WyndLend.Market.Settleable
import WyndLend.Market.Price
import WyndLend.Market.Repayment
import WyndLend.Market.Swap
import WyndLend.Market.Utilisation
import WyndLend.Market.Revenue
import WyndLend.CreditAgency.Creation
import WyndLend.CreditAgency.Paging
import WyndLend.Platform.CommonToken
import WyndLend.Platform.Entered
import WyndLend.Platform.Isolation
import WyndLend.Platform.LiquidationQuery
import WyndLend.Platform.Deleveraging
import WyndLend.Platform.Conduit
import WyndLend.Platform.WaysOut
import WyndLend.Platform.Projection
import WyndLend.Platform.Saving
import WyndLend.Platform.Reordering
import WyndLend.Platform.Containment
import WyndLend.Platform.Calm
import WyndLend.Platform.Oracles
