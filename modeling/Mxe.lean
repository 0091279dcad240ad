import Mxe.Charconv
import Mxe.Request
import Mxe.BinLoop
import Mxe.Bins
import Mxe.BinsWidth
import Mxe.Connection
import Mxe.Output
import Mxe.Pattern
import Mxe.CpgIndexSet
import Mxe.Client
import Mxe.Exchange
import Mxe.Response
import Mxe.Download
import Mxe.Config
