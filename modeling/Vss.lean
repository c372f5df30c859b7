import Vss.Signed
import Vss.Text
import Vss.Table
import Vss.Api
import Vss.Statements
import Vss.Store
import Vss.Sequential
import Vss.Refinement
import Vss.Locality
import Vss.Listing
import Vss.Runs
import Vss.Concurrency
import Vss.GlobalVersion
import Vss.LostUpdate
import Vss.NonConditional
import Vss.Order
import Vss.Consistency
import Vss.Errors
import Vss.Pagination
import Vss.Service
import Vss.Noninterference
import Vss.Config
